import VprocSdk.Hbi.Core
import VprocSdk.Lib.Machine

/-!
# The tables of devices, users and ports

Five structures describe the same opens: the user slots, the device slots, the counters, and the port
table of the System Service Layer. `TableInv` says how they agree. A call changes them in several
places, and between two of its writes a device may be open without a user: `DriverInv` allows one such
device, so that opening and closing are each a chain of steps that keep it.
-/

namespace VprocSdk

open Lib

variable {lim : HbiLimits}

def HbiDrv.users (s : HbiDrv lim) (d : Fin lim.maxNumDevs) : Nat :=
  count (fun inst : VprocInst lim => inst.inuse = true ∧ inst.pDev = some d) s.instList

/-- The tables agree. -/
structure TableInv (s : HbiDrv lim) : Prop where
  numInstances : s.numInstances = count (fun inst : VprocInst lim => inst.inuse = true) s.instList
  instDev : ∀ i, (s.instList i).inuse = true →
    ∃ d, (s.instList i).pDev = some d ∧ (s.devList d).inuse = true
  devUsers : ∀ d, (s.devList d).inuse = true → (s.devList d).numCurInstances = s.users d ∧
    1 ≤ (s.devList d).numCurInstances ∧ (s.devList d).numCurInstances ≤ lim.maxInstPerDev
  freeDev : ∀ d, (s.devList d).inuse = false →
    (s.devList d).portHandle = 0 ∧ (s.devList d).numCurInstances = 0
  numOpenedDev : s.numOpenedDev = count (fun dev : VprocDev lim => dev.inuse = true) s.devList
  deviceIds : ∀ d d', (s.devList d).inuse = true → (s.devList d').inuse = true →
    (s.devList d).devCfg.deviceId = (s.devList d').devCfg.deviceId → d = d'
  portHandles : ∀ d d', (s.devList d).inuse = true → (s.devList d').inuse = true →
    (s.devList d).portHandle = (s.devList d').portHandle → d = d'
  ports : ∀ handle, (∃ d, (s.devList d).inuse = true ∧ (s.devList d).portHandle = handle) ↔
    ∃ i, (s.ssl.dev i).inuse = true ∧ portHandleOf i = handle

/-- The tables agree but for one device that may have no user. Nothing is open in a driver that is not
initialised, and a port in use was opened for the device that holds it. -/
structure DriverInv (pending : Option (Fin lim.maxNumDevs)) (s : HbiDrv lim) : Prop where
  numInstances : s.numInstances = count (fun inst : VprocInst lim => inst.inuse = true) s.instList
  instDev : ∀ i, (s.instList i).inuse = true →
    ∃ d, (s.instList i).pDev = some d ∧ (s.devList d).inuse = true
  devUsers : ∀ d, (s.devList d).inuse = true → (s.devList d).numCurInstances = s.users d ∧
    (s.devList d).numCurInstances ≤ lim.maxInstPerDev
  hasUser : ∀ d, (s.devList d).inuse = true → pending ≠ some d → 1 ≤ (s.devList d).numCurInstances
  freeDev : ∀ d, (s.devList d).inuse = false →
    (s.devList d).portHandle = 0 ∧ (s.devList d).numCurInstances = 0
  numOpenedDev : s.numOpenedDev = count (fun dev : VprocDev lim => dev.inuse = true) s.devList
  deviceIds : ∀ d d', (s.devList d).inuse = true → (s.devList d').inuse = true →
    (s.devList d).devCfg.deviceId = (s.devList d').devCfg.deviceId → d = d'
  portHandles : ∀ d d', (s.devList d).inuse = true → (s.devList d').inuse = true →
    (s.devList d).portHandle = (s.devList d').portHandle → d = d'
  devPort : ∀ d, (s.devList d).inuse = true → ∃ i c, (s.devList d).portHandle = portHandleOf i ∧
    s.ssl.dev i = ⟨some c, true⟩ ∧ c.deviceId = (s.devList d).devCfg.deviceId
  portDev : ∀ i, (s.ssl.dev i).inuse = true →
    ∃ d, (s.devList d).inuse = true ∧ (s.devList d).portHandle = portHandleOf i
  idle : s.bInitialized = false → s.numInstances = 0 ∧ s.numOpenedDev = 0
  sslOpen : ∀ i, (s.ssl.dev i).inuse = true → s.ssl.initialised = true

variable {s : HbiDrv lim}

theorem DriverInv.tables (h : DriverInv none s) : TableInv s where
  numInstances := h.numInstances
  instDev := h.instDev
  devUsers d hd := ⟨(h.devUsers d hd).1, h.hasUser d hd (Option.some_ne_none d).symm, (h.devUsers d hd).2⟩
  freeDev := h.freeDev
  numOpenedDev := h.numOpenedDev
  deviceIds := h.deviceIds
  portHandles := h.portHandles
  ports handle := by
    constructor
    · intro hexists
      obtain ⟨d, hd, rfl⟩ := hexists
      obtain ⟨i, c, hport, hdev, -⟩ := h.devPort d hd
      exact ⟨i, by rw [hdev], hport.symm⟩
    · intro hexists
      obtain ⟨i, hi, rfl⟩ := hexists
      exact h.portDev i hi

/-! ### Bounds -/

theorem HbiLimits.maxInstPerDev_lt (lim : HbiLimits) (d : Fin lim.maxNumDevs) :
    lim.maxInstPerDev < 256 := by
  have hproduct := lim.product_lt
  have hpos : 0 < lim.maxNumDevs := d.pos
  have hle := Nat.le_mul_of_pos_right lim.maxInstPerDev hpos
  omega

theorem HbiLimits.maxNumDevs_lt (lim : HbiLimits) (h : 0 < lim.maxInstances) :
    lim.maxNumDevs < 256 := by
  have hproduct := lim.product_lt
  have hpos : 0 < lim.maxInstPerDev := Nat.pos_of_mul_pos_right h
  have hle : lim.maxNumDevs ≤ lim.maxInstPerDev * lim.maxNumDevs := Nat.le_mul_of_pos_left _ hpos
  omega

theorem incr_of_lt {n : Nat} (h : n < 256) : incr n = n + 1 := by
  unfold incr
  omega

theorem HbiDrv.users_pos {i : Fin lim.maxInstances} {d : Fin lim.maxNumDevs}
    (hi : (s.instList i).inuse = true) (hd : (s.instList i).pDev = some d) : 0 < s.users d :=
  count_pos (i := i) ⟨hi, hd⟩

/-! ### One more user -/

def HbiDrv.added (s : HbiDrv lim) (d : Fin lim.maxNumDevs) (i : Fin lim.maxInstances)
    (instances : Fin lim.maxInstPerDev → Nat) : HbiDrv lim :=
  { s with
    devList := Function.update s.devList d { s.devList d with
      instances, numCurInstances := (s.devList d).numCurInstances + 1 }
    instList := Function.update s.instList i ⟨some d, true⟩
    numInstances := s.numInstances + 1 }

def recordUser (dev : VprocDev lim) (instIndex : Nat) : Fin lim.maxInstPerDev → Nat :=
  if h : dev.numCurInstances < lim.maxInstPerDev then
    Function.update dev.instances ⟨dev.numCurInstances, h⟩ instIndex
  else dev.instances

theorem addUser_eq {d : Fin lim.maxNumDevs} (i : Fin lim.maxInstances) (status : HbiStatus)
    (hroom : (s.devList d).numCurInstances < lim.maxInstPerDev)
    (hlimit : s.numInstances < lim.maxInstances) :
    addUser s d (some i) status
      = .done (s.added d i (recordUser (s.devList d) i.val), status, some i.val) := by
  have hcount : incr (s.devList d).numCurInstances = (s.devList d).numCurInstances + 1 :=
    incr_of_lt (by have := lim.maxInstPerDev_lt d; omega)
  have hnum : incr s.numInstances = s.numInstances + 1 :=
    incr_of_lt (by have := lim.product_lt; unfold HbiLimits.maxInstances at hlimit; omega)
  have hindex : i.val % 2 ^ 8 = i.val := by
    have hi := i.isLt
    have hproduct := lim.product_lt
    unfold HbiLimits.maxInstances at hi
    omega
  simp only [addUser, recordUser, hroom, ↓reduceDIte, hcount, hindex, hnum, HbiDrv.setDev,
    HbiDrv.setInst, HbiDrv.added]

section Added

variable {d : Fin lim.maxNumDevs} {i : Fin lim.maxInstances}
  {instances : Fin lim.maxInstPerDev → Nat}

theorem HbiDrv.added_devList (d' : Fin lim.maxNumDevs) :
    ((s.added d i instances).devList d').inuse = (s.devList d').inuse ∧
      ((s.added d i instances).devList d').portHandle = (s.devList d').portHandle ∧
      ((s.added d i instances).devList d').devCfg = (s.devList d').devCfg := by
  by_cases hd : d' = d
  · simp [HbiDrv.added, hd]
  · simp [HbiDrv.added, hd]

theorem HbiDrv.added_users (hfree : (s.instList i).inuse = false) (d' : Fin lim.maxNumDevs) :
    (s.added d i instances).users d' = s.users d' + if d' = d then 1 else 0 := by
  by_cases hd : d' = d
  · rw [if_pos hd]
    exact count_update_add (by simp [hfree]) (by simp [hd])
  · rw [if_neg hd]
    exact count_update_same (by simp [hfree, Ne.symm hd])

theorem DriverInv.added (h : DriverInv (some d) s) (hd : (s.devList d).inuse = true)
    (hroom : (s.devList d).numCurInstances < lim.maxInstPerDev)
    (hfree : (s.instList i).inuse = false) (hinit : s.bInitialized = true) :
    DriverInv none (s.added d i instances) where
  numInstances := by
    have hcount := count_update_add (p := fun inst : VprocInst lim => inst.inuse = true)
      (t := s.instList) (i := i) (x := ⟨some d, true⟩) (by simp [hfree]) rfl
    rw [← h.numInstances] at hcount
    exact hcount.symm
  instDev j hj := by
    by_cases hji : j = i
    · refine ⟨d, by simp [HbiDrv.added, hji], ?_⟩
      rw [(HbiDrv.added_devList d).1]
      exact hd
    · have hold : (s.added d i instances).instList j = s.instList j := by
        simp [HbiDrv.added, hji]
      rw [hold] at hj ⊢
      obtain ⟨d', hd', hinuse⟩ := h.instDev j hj
      refine ⟨d', hd', ?_⟩
      rw [(HbiDrv.added_devList d').1]
      exact hinuse
  devUsers d' hd' := by
    rw [(HbiDrv.added_devList d').1] at hd'
    obtain ⟨husers, hle⟩ := h.devUsers d' hd'
    rw [HbiDrv.added_users hfree]
    by_cases hdd : d' = d
    · subst hdd
      simp only [HbiDrv.added, Function.update_self, if_true]
      omega
    · simp only [HbiDrv.added, Function.update_of_ne hdd, if_neg hdd]
      omega
  hasUser d' hd' _ := by
    rw [(HbiDrv.added_devList d').1] at hd'
    by_cases hdd : d' = d
    · subst hdd
      simp only [HbiDrv.added, Function.update_self]
      omega
    · simp only [HbiDrv.added, Function.update_of_ne hdd]
      exact h.hasUser d' hd' (fun heq => hdd (Option.some.inj heq).symm)
  freeDev d' hd' := by
    rw [(HbiDrv.added_devList d').1] at hd'
    have hdd : d' ≠ d := by
      intro heq
      subst heq
      simp [hd] at hd'
    simp only [HbiDrv.added, Function.update_of_ne hdd]
    exact h.freeDev d' hd'
  numOpenedDev := by
    rw [show (s.added d i instances).numOpenedDev = s.numOpenedDev from rfl, h.numOpenedDev]
    exact (count_congr fun d' => by rw [(HbiDrv.added_devList d').1]).symm
  deviceIds d₁ d₂ := by
    simp only [HbiDrv.added_devList]
    exact h.deviceIds d₁ d₂
  portHandles d₁ d₂ := by
    simp only [HbiDrv.added_devList]
    exact h.portHandles d₁ d₂
  devPort d' := by
    simp only [HbiDrv.added_devList]
    exact h.devPort d'
  portDev j := by
    simp only [HbiDrv.added_devList]
    exact h.portDev j
  idle hnot := absurd (hinit.symm.trans hnot) (by decide)
  sslOpen := h.sslOpen

end Added

/-! ### A device opened -/

section Opened

variable {d : Fin lim.maxNumDevs} {p : Fin lim.maxNumDevs} {cfg : DevCfg} {c : SslDevCfg}

def SslDrv.opened (drv : SslDrv lim) (p : Fin lim.maxNumDevs) (c : SslDevCfg) : SslDrv lim :=
  { drv with dev := Function.update drv.dev p ⟨some c, true⟩ }

/-- A free device slot takes a free port: the device waits for its first user. -/
theorem DriverInv.opened (h : DriverInv none s) (hfree : (s.devList d).inuse = false)
    (hport : (s.ssl.dev p).inuse = false) (hssl : s.ssl.initialised = true)
    (hinit : s.bInitialized = true) (hlimit : s.numOpenedDev < 256)
    (hid : c.deviceId = cfg.deviceId)
    (hnew : ∀ d', (s.devList d').inuse = true → (s.devList d').devCfg.deviceId ≠ cfg.deviceId) :
    DriverInv (some d) (openDevice s d cfg (s.ssl.opened p c) (portHandleOf p)) := by
  have hother : ∀ d', d' ≠ d →
      (openDevice s d cfg (s.ssl.opened p c) (portHandleOf p)).devList d' = s.devList d' :=
    fun d' hd' => Function.update_of_ne hd' _ _
  have hused : ∀ d', (s.devList d').inuse = true → d' ≠ d := by
    intro d' hd' heq
    rw [heq, hfree] at hd'
    cases hd'
  have hhandle : ∀ d', (s.devList d').inuse = true → (s.devList d').portHandle ≠ portHandleOf p := by
    intro d' hd' heq
    obtain ⟨i, c', hi, hdev, -⟩ := h.devPort d' hd'
    obtain rfl := portHandleOf_inj (hi.symm.trans heq)
    simp [hdev] at hport
  have hids : DistinctKeys (fun dev : VprocDev lim => dev.inuse = true)
      (fun dev => dev.devCfg.deviceId) s.devList := h.deviceIds
  have hhandles : DistinctKeys (fun dev : VprocDev lim => dev.inuse = true)
      VprocDev.portHandle s.devList := h.portHandles
  exact
    { numInstances := h.numInstances
      instDev := by
        intro i hi
        obtain ⟨d', hd', hinuse⟩ := h.instDev i hi
        refine ⟨d', hd', ?_⟩
        rw [hother d' (hused d' hinuse)]
        exact hinuse
      devUsers := by
        intro d' hd'
        by_cases hdd : d' = d
        · subst hdd
          have hzero : s.users d' = 0 := by
            apply count_eq_zero.2
            intro i hboth
            obtain ⟨hi, hdev⟩ := hboth
            obtain ⟨d'', hd'', hinuse⟩ := h.instDev i hi
            exact hused d'' hinuse (Option.some.inj (hd''.symm.trans hdev))
          have hnone := (h.freeDev d' hfree).2
          simp only [openDevice, Function.update_self, HbiDrv.users]
          exact ⟨hnone.trans hzero.symm, by omega⟩
        · rw [hother d' hdd] at hd' ⊢
          exact h.devUsers d' hd'
      hasUser := by
        intro d' hd' hne
        have hdd : d' ≠ d := fun heq => hne (by rw [heq])
        rw [hother d' hdd] at hd' ⊢
        exact h.hasUser d' hd' (Option.some_ne_none d').symm
      freeDev := by
        intro d' hd'
        have hdd : d' ≠ d := by
          intro heq
          subst heq
          simp [openDevice] at hd'
        rw [hother d' hdd] at hd' ⊢
        exact h.freeDev d' hd'
      numOpenedDev := by
        rw [show (openDevice s d cfg _ _).numOpenedDev = incr s.numOpenedDev from rfl,
          incr_of_lt hlimit, h.numOpenedDev]
        symm
        apply count_update_add
        · simp [hfree]
        · rfl
      deviceIds := hids.update_new hnew
      portHandles := hhandles.update_new hhandle
      devPort := by
        intro d' hd'
        by_cases hdd : d' = d
        · subst hdd
          exact ⟨p, c, by simp [openDevice], by simp [openDevice, SslDrv.opened],
            by simpa [openDevice] using hid⟩
        · rw [hother d' hdd] at hd' ⊢
          obtain ⟨i, c', hi, hdev, hdevId⟩ := h.devPort d' hd'
          have hip : i ≠ p := by
            intro heq
            subst heq
            exact hhandle d' hd' hi
          exact ⟨i, c', hi, by simpa [openDevice, SslDrv.opened, hip] using hdev, hdevId⟩
      portDev := by
        intro i hi
        by_cases hip : i = p
        · exact ⟨d, by simp [openDevice], by simp [openDevice, hip]⟩
        · have hold : (s.ssl.dev i).inuse = true := by
            simpa [openDevice, SslDrv.opened, hip] using hi
          obtain ⟨d', hd', hhandle'⟩ := h.portDev i hold
          refine ⟨d', ?_, ?_⟩
          · rw [hother d' (hused d' hd')]
            exact hd'
          · rw [hother d' (hused d' hd')]
            exact hhandle'
      idle := fun hnot => absurd (hinit.symm.trans hnot) (by decide)
      sslOpen := fun _ _ => hssl }

end Opened

/-! ### One user less -/

def HbiDrv.removed (s : HbiDrv lim) (i : Fin lim.maxInstances) (d : Fin lim.maxNumDevs) :
    HbiDrv lim :=
  { s with
    instList := Function.update s.instList i ⟨none, false⟩
    devList := Function.update s.devList d { markInvalid (s.devList d) i.val with
      numCurInstances := (s.devList d).numCurInstances - 1 }
    numInstances := s.numInstances - 1 }

theorem markInvalid_eq (dev : VprocDev lim) (instIndex : Nat) :
    ∃ instances, markInvalid dev instIndex = { dev with instances } := by
  unfold markInvalid
  split
  · exact ⟨dev.instances, rfl⟩
  · exact ⟨_, rfl⟩

theorem removeUser_eq {i : Fin lim.maxInstances} {d : Fin lim.maxNumDevs}
    (hle : (s.devList d).numCurInstances ≤ lim.maxInstPerDev)
    (hpos : 0 < (s.devList d).numCurInstances) (hnum : 0 < s.numInstances) :
    removeUser s i d = .done (s.removed i d) := by
  obtain ⟨instances, hmark⟩ := markInvalid_eq (s.devList d) i.val
  have hmarked : (markInvalid (s.devList d) i.val).numCurInstances
      = (s.devList d).numCurInstances := by rw [hmark]
  have hdev : (s.setInst i ⟨none, false⟩).devList d = s.devList d := rfl
  have hinst : (s.setInst i ⟨none, false⟩).numInstances = s.numInstances := rfl
  dsimp only [removeUser]
  rw [hdev, if_neg (by omega), hmarked, decr, if_neg (by omega)]
  dsimp only [Outcome.bind, HbiDrv.setDev]
  rw [hinst, decr, if_neg (by omega)]
  rfl

section Removed

variable {d : Fin lim.maxNumDevs} {i : Fin lim.maxInstances}

theorem HbiDrv.removed_devList (d' : Fin lim.maxNumDevs) :
    ((s.removed i d).devList d').inuse = (s.devList d').inuse ∧
      ((s.removed i d).devList d').portHandle = (s.devList d').portHandle ∧
      ((s.removed i d).devList d').devCfg = (s.devList d').devCfg := by
  obtain ⟨instances, hmark⟩ := markInvalid_eq (s.devList d) i.val
  by_cases hd : d' = d
  · simp [HbiDrv.removed, hd, hmark]
  · simp [HbiDrv.removed, hd]

theorem HbiDrv.removed_numCur (d' : Fin lim.maxNumDevs) :
    ((s.removed i d).devList d').numCurInstances
      = (s.devList d').numCurInstances - if d' = d then 1 else 0 := by
  by_cases hd : d' = d
  · simp [HbiDrv.removed, hd]
  · simp [HbiDrv.removed, hd]

theorem HbiDrv.removed_users (hi : (s.instList i).inuse = true)
    (hd : (s.instList i).pDev = some d) (d' : Fin lim.maxNumDevs) :
    (s.removed i d).users d' + (if d' = d then 1 else 0) = s.users d' := by
  by_cases hdd : d' = d
  · rw [if_pos hdd]
    exact count_update_sub ⟨hi, by rw [hd, hdd]⟩ (by simp)
  · rw [if_neg hdd, Nat.add_zero]
    apply count_update_same
    simp [hd, Ne.symm hdd]

theorem DriverInv.removed (h : DriverInv none s) (hi : (s.instList i).inuse = true)
    (hd : (s.instList i).pDev = some d) : DriverInv (some d) (s.removed i d) where
  numInstances := by
    have hcount := count_update_sub (p := fun inst : VprocInst lim => inst.inuse = true)
      (t := s.instList) (i := i) (x := ⟨none, false⟩) hi (by simp)
    rw [← h.numInstances] at hcount
    show s.numInstances - 1 = _
    exact (Nat.sub_eq_of_eq_add hcount.symm)
  instDev j hj := by
    have hji : j ≠ i := by
      intro heq
      subst heq
      simp [HbiDrv.removed] at hj
    have hold : (s.removed i d).instList j = s.instList j := by
      simp [HbiDrv.removed, hji]
    rw [hold] at hj ⊢
    obtain ⟨d', hd', hinuse⟩ := h.instDev j hj
    refine ⟨d', hd', ?_⟩
    rw [(HbiDrv.removed_devList d').1]
    exact hinuse
  devUsers d' hd' := by
    rw [(HbiDrv.removed_devList d').1] at hd'
    obtain ⟨husers, hle⟩ := h.devUsers d' hd'
    have hcount := HbiDrv.removed_users hi hd d'
    rw [HbiDrv.removed_numCur]
    omega
  hasUser d' hd' hne := by
    rw [(HbiDrv.removed_devList d').1] at hd'
    have hdd : d' ≠ d := fun heq => hne (by rw [heq])
    rw [HbiDrv.removed_numCur, if_neg hdd]
    exact h.hasUser d' hd' (Option.some_ne_none d').symm
  freeDev d' hd' := by
    rw [(HbiDrv.removed_devList d').1] at hd'
    obtain ⟨hhandle, hnone⟩ := h.freeDev d' hd'
    rw [HbiDrv.removed_numCur, (HbiDrv.removed_devList d').2.1]
    exact ⟨hhandle, by omega⟩
  numOpenedDev := by
    rw [show (s.removed i d).numOpenedDev = s.numOpenedDev from rfl, h.numOpenedDev]
    exact (count_congr fun d' => by rw [(HbiDrv.removed_devList d').1]).symm
  deviceIds d₁ d₂ := by
    simp only [HbiDrv.removed_devList]
    exact h.deviceIds d₁ d₂
  portHandles d₁ d₂ := by
    simp only [HbiDrv.removed_devList]
    exact h.portHandles d₁ d₂
  devPort d' := by
    simp only [HbiDrv.removed_devList]
    exact h.devPort d'
  portDev j := by
    simp only [HbiDrv.removed_devList]
    exact h.portDev j
  idle hnot := by
    obtain ⟨hnum, hopened⟩ := h.idle hnot
    exact ⟨by show s.numInstances - 1 = 0; omega, hopened⟩
  sslOpen := h.sslOpen

theorem DriverInv.settled (h : DriverInv (some d) s)
    (hpos : (s.devList d).inuse = true → 1 ≤ (s.devList d).numCurInstances) : DriverInv none s := by
  refine { h with hasUser := ?_ }
  intro d' hd' _
  by_cases hdd : d' = d
  · subst hdd
    exact hpos hd'
  · exact h.hasUser d' hd' fun heq => hdd (Option.some.inj heq).symm

end Removed

/-! ### A device closed -/

section Closed

variable {d : Fin lim.maxNumDevs} {p : Fin lim.maxNumDevs}

def SslDrv.closed (drv : SslDrv lim) (p : Fin lim.maxNumDevs) : SslDrv lim :=
  { drv with dev := Function.update drv.dev p { drv.dev p with inuse := false } }

/-- A device without users gives its port and its slot back. -/
theorem DriverInv.closed (h : DriverInv (some d) s) (hd : (s.devList d).inuse = true)
    (hnone : (s.devList d).numCurInstances = 0) (hport : (s.devList d).portHandle = portHandleOf p) :
    DriverInv none (closeDevice s d (s.ssl.closed p) (s.numOpenedDev - 1)) := by
  have hother : ∀ d', d' ≠ d →
      (closeDevice s d (s.ssl.closed p) (s.numOpenedDev - 1)).devList d' = s.devList d' :=
    fun d' hd' => Function.update_of_ne hd' _ _
  have hne : ∀ d', ((closeDevice s d (s.ssl.closed p) (s.numOpenedDev - 1)).devList d').inuse = true →
      d' ≠ d := by
    intro d' hd' heq
    subst heq
    simp [closeDevice] at hd'
  have hports : ∀ j, j ≠ p → (s.ssl.closed p).dev j = s.ssl.dev j :=
    fun j hj => Function.update_of_ne hj _ _
  have hport_ne : ∀ j, ((s.ssl.closed p).dev j).inuse = true → j ≠ p := by
    intro j hj heq
    subst heq
    simp [SslDrv.closed] at hj
  have hnouser : ∀ i d', (s.instList i).inuse = true → (s.instList i).pDev = some d' → d' ≠ d := by
    intro i d' hi hdev heq
    subst heq
    have husers := (h.devUsers d' hd).1
    have hpos := HbiDrv.users_pos hi hdev
    omega
  have hids : DistinctKeys (fun dev : VprocDev lim => dev.inuse = true)
      (fun dev => dev.devCfg.deviceId) s.devList := h.deviceIds
  have hhandles : DistinctKeys (fun dev : VprocDev lim => dev.inuse = true)
      VprocDev.portHandle s.devList := h.portHandles
  exact
    { numInstances := h.numInstances
      instDev := by
        intro i hi
        obtain ⟨d', hd', hinuse⟩ := h.instDev i hi
        refine ⟨d', hd', ?_⟩
        rw [hother d' (hnouser i d' hi hd')]
        exact hinuse
      devUsers := by
        intro d' hd'
        have hdd := hne d' hd'
        rw [hother d' hdd] at hd' ⊢
        exact h.devUsers d' hd'
      hasUser := by
        intro d' hd' _
        have hdd := hne d' hd'
        rw [hother d' hdd] at hd' ⊢
        exact h.hasUser d' hd' fun heq => hdd (Option.some.inj heq).symm
      freeDev := by
        intro d' hd'
        by_cases hdd : d' = d
        · subst hdd
          exact ⟨by simp [closeDevice], by simpa [closeDevice] using hnone⟩
        · rw [hother d' hdd] at hd' ⊢
          exact h.freeDev d' hd'
      numOpenedDev := by
        have hcount := count_update_sub (p := fun dev : VprocDev lim => dev.inuse = true)
          (t := s.devList) (i := d) (x := { s.devList d with
            portHandle := 0, devCfg := { (s.devList d).devCfg with pDevName := none }, inuse := false })
          hd (by simp)
        rw [← h.numOpenedDev] at hcount
        exact Nat.sub_eq_of_eq_add hcount.symm
      deviceIds := hids.update_free Bool.false_ne_true
      portHandles := hhandles.update_free Bool.false_ne_true
      devPort := by
        intro d' hd'
        have hdd := hne d' hd'
        rw [hother d' hdd] at hd' ⊢
        obtain ⟨i, c, hi, hdev, hid⟩ := h.devPort d' hd'
        have hip : i ≠ p := by
          intro heq
          subst heq
          exact hdd (h.portHandles d' d hd' hd (hi.trans hport.symm))
        exact ⟨i, c, hi, (hports i hip).trans hdev, hid⟩
      portDev := by
        intro j hj
        have hjp := hport_ne j hj
        have hold : (s.ssl.dev j).inuse = true := by rwa [← hports j hjp]
        obtain ⟨d', hd', hhandle⟩ := h.portDev j hold
        have hdd : d' ≠ d := by
          intro heq
          subst heq
          exact hjp (portHandleOf_inj (hhandle.symm.trans hport))
        refine ⟨d', ?_, ?_⟩
        · rw [hother d' hdd]
          exact hd'
        · rw [hother d' hdd]
          exact hhandle
      idle := by
        intro hnot
        obtain ⟨hnum, hopened⟩ := h.idle hnot
        exact ⟨hnum, by show s.numOpenedDev - 1 = 0; omega⟩
      sslOpen := by
        intro j hj
        exact h.sslOpen j (by rwa [← hports j (hport_ne j hj)]) }

theorem markInvalid_closed (dev : VprocDev lim) (instIndex : Nat) :
    markInvalid { dev with
        portHandle := 0, devCfg := { dev.devCfg with pDevName := none }, inuse := false } instIndex
      = { markInvalid dev instIndex with
        portHandle := 0, devCfg := { dev.devCfg with pDevName := none }, inuse := false } := by
  unfold markInvalid
  dsimp only
  cases firstSlot fun k : Fin lim.maxInstPerDev =>
    decide (k.val < dev.numCurInstances) && decide (dev.instances k = instIndex) with
  | none => rfl
  | some k => rfl

/-- The user may as well be removed before its device is closed. -/
theorem removed_closeDevice {i : Fin lim.maxInstances} {ssl : SslDrv lim} {n : Nat} :
    (closeDevice s d ssl n).removed i d = closeDevice (s.removed i d) d ssl n := by
  obtain ⟨instances, hmark⟩ := markInvalid_eq (s.devList d) i.val
  simp only [HbiDrv.removed, closeDevice, Function.update_self, Function.update_idem,
    markInvalid_closed, hmark]

end Closed

end VprocSdk
