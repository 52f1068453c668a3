import VprocSdk.Hbi.BoardDevices
import VprocSdk.Lnx.DeviceList

/-!
# Loading the kernel module

`hbi_drv_init` registers the character device, creates the device class and opens every device of the table
`HBI_init` has filled. Where an open fails it calls `hbi_drv_exit`, which closes what is listed and takes the
registration back, and then goes on with the device it could not open and with those that follow.

What the kernel and the hardware answer is part of the call. What is done on the driver is kept in a log, so
that what comes after the teardown can be seen. The images of a device that is booted are left out: loading
them makes accesses of the device whose results are only printed.
-/

namespace VprocSdk

open Lib

variable {lim : HbiLimits}

/-- What `hbi_drv_init` and `hbi_drv_exit` do on the driver. -/
inductive ModuleStep (lim : HbiLimits)
  | openDevice (i : Fin lim.maxNumDevs)
  | bootDevice (i : Fin lim.maxNumDevs)
  | exit

/-- The kernel module: its driver, what it has registered, the device its loop has opened last, and what was
done so far. -/
structure HbiModule (lim : HbiLimits) where
  drv : HbiLnxDrvPriv lim
  region : Bool
  cdev : Bool
  devClass : Bool
  dev : Option (LnxHbiDev lim)
  log : List (ModuleStep lim)

/-- What `hbi_drv_init` is answered. `closing` and `terminating` are for the `hbi_drv_exit` of a turn that
fails. -/
structure LoadAnswers (lim : HbiLimits) where
  allocRegion : Int
  cdevAlloc : Bool
  cdevAdd : Int
  classCreate : Bool
  init : Hal
  opening : Fin lim.maxNumDevs → OpenAnswers lim
  closing : Fin lim.maxNumDevs → Nat → Hal
  terminating : Fin lim.maxNumDevs → Hal
  booting : Fin lim.maxNumDevs → HalPort lim

namespace HbiModule

def unloaded (lim : HbiLimits) : HbiModule lim where
  drv := ⟨[], fun _ => false, .start⟩
  region := false
  cdev := false
  devClass := false
  dev := none
  log := []

/-- The loop of `hbi_drv_exit` over the devices from a place on: a device that is closed comes off the
list, one that is not keeps its place. -/
def closeListed (hal : Nat → Hal) : Nat → Nat → HbiLnxDrvPriv lim → Outcome (HbiLnxDrvPriv lim)
  | 0, _, drv => .done drv
  | left + 1, place, drv =>
      if h : place < drv.list.length then
        (drv.internalHbiClose (some ⟨place, h⟩) (hal left)).bind fun (drv, status) =>
          closeListed hal left (if status = HbiStatus.success.code then place else place + 1) drv
      else .done drv

/-- `hbi_drv_exit`. -/
def hbiDrvExit (m : HbiModule lim) (closing : Nat → Hal) (terminating : Hal) : Outcome (HbiModule lim) :=
  (closeListed closing m.drv.list.length 0 m.drv).bind fun drv =>
    let (hbi, status) := hbiTerm terminating drv.hbi
    let m := { m with drv := { drv with hbi }, log := m.log ++ [.exit] }
    if status ≠ .success then .done m
    else .done { m with cdev := false, devClass := false, region := false }

/-- A device that is to be booted is started. The pointer to it may be `NULL` or to a device that was
freed, and then the call does not return. -/
def boot (m : HbiModule lim) (sdkDevicesInfo : Fin lim.maxNumDevs → SslDevInfo) (port : HalPort lim)
    (i : Fin lim.maxNumDevs) : Option (HbiModule lim) :=
  if (sdkDevicesInfo i).isboot = 0 then some m
  else
    match m.dev with
    | none => none
    | some dev =>
        if m.drv.list.any fun listed => listed.minor = dev.minor then
          match hbiSetCommand port m.drv.hbi dev.hbiHandle .startFwr with
          | .done _ => some { m with log := m.log ++ [.bootDevice i] }
          | .fault _ | .diverges => none
        else none

def devcfg (sdkDevicesInfo : Fin lim.maxNumDevs → SslDevInfo) (i : Fin lim.maxNumDevs) : DevCfg where
  deviceId := (i.val : Int)
  pDevName := none
  devAddr := (sdkDevicesInfo i).devAddr
  busNum := (sdkDevicesInfo i).busNum
  devLock := 0

/-- A turn of the loop of `hbi_drv_init`. `list_add` puts the device that was opened first. -/
def turn (sdkDevicesInfo : Fin lim.maxNumDevs → SslDevInfo) (ans : LoadAnswers lim) (m : HbiModule lim)
    (i : Fin lim.maxNumDevs) : Option (HbiModule lim) :=
  match m.drv.internalHbiOpen (devcfg sdkDevicesInfo i) (ans.opening i) with
  | .done (drv, status) =>
      let m := { m with drv, log := m.log ++ [ModuleStep.openDevice i] }
      if status = HbiStatus.success.code then
        ({ m with dev := drv.list.head? }).boot sdkDevicesInfo (ans.booting i) i
      else
        match m.hbiDrvExit (ans.closing i) (ans.terminating i) with
        | .done m => m.boot sdkDevicesInfo (ans.booting i) i
        | .fault _ | .diverges => none
  | .fault _ | .diverges => none

end HbiModule

/-- The loop of `hbi_drv_init`: it takes a turn for each device. -/
def loadMachine (sdkDevicesInfo : Fin lim.maxNumDevs → SslDevInfo) (ans : LoadAnswers lim) :
    Machine (HbiModule lim) (Fin lim.maxNumDevs) where
  step m i := m.turn sdkDevicesInfo ans i

/-- The driver with its character device and its class, after `HBI_init`. -/
def HbiModule.registered (ans : LoadAnswers lim) : HbiModule lim where
  drv := ⟨[], fun _ => false, (hbiInit ans.init .start none).1⟩
  region := true
  cdev := true
  devClass := true
  dev := none
  log := []

/-- `hbi_drv_init`; none when it does not return. -/
def hbiDrvInit (sdkDevicesInfo : Fin lim.maxNumDevs → SslDevInfo) (ans : LoadAnswers lim) :
    Option (HbiModule lim × Int) :=
  if ans.allocRegion < 0 then some (.unloaded lim, ans.allocRegion)
  else if !ans.cdevAlloc then some (.unloaded lim, -1)
  else if ans.cdevAdd < 0 then some (.unloaded lim, ans.cdevAdd)
  else if !ans.classCreate then some (.unloaded lim, 0)
  else
    ((loadMachine sdkDevicesInfo ans).exec (.registered ans) (List.finRange lim.maxNumDevs)).map
      fun m => (m, 0)

/-! ### All or nothing -/

def DevicesListed (m : HbiModule lim) : Prop :=
  ∀ i : Fin lim.maxNumDevs, ∃ dev ∈ m.drv.list, dev.devcfg.deviceId = (i.val : Int) ∧
    (m.drv.hbi.validHandle dev.hbiHandle).isSome

/-- Nothing is listed, open or registered, and nothing was done after the teardown. -/
structure NothingLeft (m : HbiModule lim) : Prop where
  list : m.drv.list = []
  insts : ∀ i, (m.drv.hbi.instList i).inuse = false
  devClass : m.devClass = false
  cdev : m.cdev = false
  region : m.region = false
  terminated : m.drv.hbi.bInitialized = false
  last : ∀ pre suf, m.log = pre ++ .exit :: suf → suf = []

/-- The module is loaded with all its devices, or not at all. -/
def LoadsAllOrNothing (sdkDevicesInfo : Fin lim.maxNumDevs → SslDevInfo) (ans : LoadAnswers lim) : Prop :=
  ∃ m ret, hbiDrvInit sdkDevicesInfo ans = some (m, ret) ∧
    (ret = 0 ∧ DevicesListed m ∨ ret ≠ 0 ∧ NothingLeft m)

def RegistrationFails (ans : LoadAnswers lim) : Prop :=
  ans.allocRegion < 0 ∨ ans.cdevAlloc = false ∨ ans.cdevAdd < 0

/-- Nothing fails in the open of a device: neither the allocations, nor the port, nor, for the first one,
the initialisation `HBI_init` has not made before. -/
structure DeviceOpens (ans : LoadAnswers lim) (i : Fin lim.maxNumDevs) : Prop where
  allocated : (ans.opening i).allocated = true
  room : 0 < lim.maxInstPerDev
  initialised : ans.init.initOk = true ∨ i.val ≠ 0 ∨ (ans.opening i).hal.initOk = true
  opened : (ans.opening i).hal.openOk = true
  created : (ans.opening i).created = true

/-! ### Devices opened in order -/

/-- The HBI driver with the first `k` devices open, each for one user. -/
structure OpenUpto (k : Nat) (s : HbiDrv lim) : Prop where
  inv : DriverInv none s
  follows : SslFollows s
  ssl : s.bInitialized = true → s.ssl.initialised = true
  users : s.numInstances = k
  devices : s.numOpenedDev = k
  ids : ∀ d, (s.devList d).inuse = true → (s.devList d).devCfg.deviceId < k

section Hbi

variable {k : Nat} {s : HbiDrv lim} {hal : Hal}

theorem OpenUpto.start : OpenUpto 0 (.start : HbiDrv lim) where
  inv := start_inv
  follows := start_sslFollows
  ssl := Bool.noConfusion
  users := rfl
  devices := rfl
  ids := fun _ hd => Bool.noConfusion hd

theorem OpenUpto.initial : OpenUpto 0 (.initial lim) where
  inv := .empty (fun _ => rfl) (fun _ => rfl) rfl rfl fun _ => rfl
  follows := Bool.noConfusion
  ssl := fun _ => rfl
  users := rfl
  devices := rfl
  ids := fun _ hd => Bool.noConfusion hd

theorem OpenUpto.init (h : OpenUpto k s) (hal : Hal) : OpenUpto k (hbiInit hal s none).1 := by
  cases hinit : s.bInitialized with
  | true =>
      rw [hbiInit_again hal hinit]
      exact {
        inv := { h.inv with }
        follows := h.follows
        ssl := h.ssl
        users := h.users
        devices := h.devices
        ids := h.ids }
  | false =>
      obtain rfl : k = 0 := h.users.symm.trans (h.inv.idle hinit).1
      cases hhal : hal.initOk with
      | true =>
          rw [hbiInit_first hal h.follows hinit hhal]
          exact .initial
      | false =>
          rw [hbiInit_fails hal h.follows hinit hhal]
          exact .start

theorem OpenUpto.acceptsUser_iff (h : OpenUpto k s) (hk : k < lim.maxNumDevs) {cfg : DevCfg}
    (hid : cfg.deviceId = k) (hinit : s.bInitialized = true) :
    AcceptsUser hal s cfg ↔ hal.openOk = true := by
  have hnew : ∀ d, (s.devList d).inuse = true → (s.devList d).devCfg.deviceId ≠ cfg.deviceId := by
    intro d hd hsame
    have hlt := h.ids d hd
    rw [hsame, hid] at hlt
    exact lt_irrefl _ hlt
  constructor
  · intro hcases
    rcases hcases with ⟨d, hd, hsame, -⟩ | ⟨-, -, -, hopen⟩
    · exact absurd hsame (hnew d hd)
    · exact hopen
  · intro hopen
    exact .inr ⟨hnew, h.devices.trans_lt hk, h.ssl hinit, hopen⟩

theorem OpenUpto.accepted_iff (h : OpenUpto k s) (hk : k < lim.maxNumDevs) {cfg : DevCfg}
    (hid : cfg.deviceId = k) :
    OpenAccepted hal s true (some cfg) ↔
      0 < lim.maxInstPerDev ∧ (s.bInitialized = true ∨ hal.initOk = true) ∧ hal.openOk = true := by
  have hroom : 0 < lim.maxInstances ↔ 0 < lim.maxInstPerDev := by
    rw [HbiLimits.maxInstances, Nat.mul_pos_iff_of_pos_right (Nat.zero_lt_of_lt hk)]
  have hlimit : 0 < lim.maxInstPerDev → k < lim.maxInstances := by
    intro hper
    exact hk.trans_le (Nat.le_mul_of_pos_left _ hper)
  rw [openAccepted_iff hal h.follows]
  cases hinit : s.bInitialized with
  | true =>
      have haccepts : AcceptsUser hal s cfg ↔ hal.openOk = true := h.acceptsUser_iff hk hid hinit
      rw [hbiInit_again hal hinit]
      constructor
      · intro hall
        obtain ⟨-, -, hless, hopen⟩ := hall
        exact ⟨hroom.1 (Nat.zero_lt_of_lt hless), .inl rfl, haccepts.1 hopen⟩
      · intro hall
        obtain ⟨hper, -, hopen⟩ := hall
        refine ⟨rfl, rfl, ?_, haccepts.2 hopen⟩
        dsimp only
        rw [h.users]
        exact hlimit hper
  | false =>
      cases hhal : hal.initOk with
      | false =>
          rw [hbiInit_fails hal h.follows hinit hhal]
          simp
      | true =>
          rw [hbiInit_first hal h.follows hinit hhal]
          constructor
          · intro hall
            obtain ⟨-, -, hless, hopen⟩ := hall
            have hpos : 0 < lim.maxInstances := Nat.zero_lt_of_lt hless
            exact ⟨hroom.1 hpos, .inr rfl, (acceptsUser_initial hal hpos cfg).1 hopen⟩
          · intro hall
            obtain ⟨hper, -, hopen⟩ := hall
            exact ⟨rfl, rfl, hroom.2 hper, (acceptsUser_initial hal (hroom.2 hper) cfg).2 hopen⟩

theorem OpenUpto.hbiOpen (h : OpenUpto k s) (hk : k < lim.maxNumDevs) (port : HalPort lim) {cfg : DevCfg}
    (hid : cfg.deviceId = k) (haccepted : OpenAccepted hal s true (some cfg)) :
    ∃ t i, VprocSdk.hbiOpen hal port s true (some cfg) = .done (t, .success, some i.val) ∧
      OpenUpto (k + 1) t ∧ t.bInitialized = true ∧ (t.instList i).inuse = true ∧
      ∀ j, (s.instList j).inuse = true → (t.instList j).inuse = true := by
  obtain ⟨-, hstatus, hlimit, haccepts⟩ := (openAccepted_iff hal h.follows true cfg).1 haccepted
  have hu := h.init hal
  have hinit := (hbiInit_inv hal h.inv none).2 hstatus
  have hcall : VprocSdk.hbiOpen hal port s true (some cfg)
      = openUser hal port (hbiInit hal s none).1 cfg := by
    simp [VprocSdk.hbiOpen, hstatus, hinit, hlimit]
  have hkept := openUser_inv hal port hu.inv hinit hlimit cfg
  rw [hcall]
  rcases openUser_cases hal port hu.inv hlimit cfg with
    ⟨hnot, -⟩ | ⟨d, -, -, hd, -, hsame, -⟩ | ⟨d, i, p, c, -, hd, -, ⟨hssl, -⟩, -, -, hper, -, heq⟩
  · exact absurd haccepts hnot
  · have hlt := hu.ids d hd
    rw [hsame, hid] at hlt
    exact absurd hlt (lt_irrefl _)
  · rw [heq] at hkept
    refine ⟨_, i, heq, ?_, hinit, ?_, ?_⟩
    · exact {
        inv := hkept
        follows := fun hfalse => absurd (hinit.symm.trans hfalse) (by decide)
        ssl := fun _ => hssl
        users := congrArg (· + 1) hu.users
        devices := by
          have hlt := lim.maxNumDevs_lt (Nat.zero_lt_of_lt hlimit)
          have hone := incr_of_lt (n := (hbiInit hal s none).1.numOpenedDev)
            (hu.devices.trans_lt (hk.trans hlt))
          exact hone.trans (congrArg (· + 1) hu.devices)
        ids := by
          intro d' hd'
          by_cases hdd : d' = d
          · subst hdd
            have hcfg : cfg.deviceId < ((k + 1 : Nat) : Int) := by omega
            simpa [HbiDrv.added, openDevice] using hcfg
          · have hold : ((hbiInit hal s none).1.devList d').inuse = true := by
              simpa [HbiDrv.added, openDevice, hdd] using hd'
            have hlt := hu.ids d' hold
            have hcfg : ((hbiInit hal s none).1.devList d').devCfg.deviceId < ((k + 1 : Nat) : Int) := by
              omega
            simpa [HbiDrv.added, openDevice, hdd] using hcfg }
    · simp [HbiDrv.added]
    · intro j hj
      rw [← (hbiInit_same hal h.inv none).inuse j] at hj
      by_cases hji : j = i
      · simp [HbiDrv.added, hji]
      · simpa [HbiDrv.added, openDevice, hji] using hj

end Hbi

/-! ### What a turn does to the list -/

section List

variable {sdkDevicesInfo : Fin lim.maxNumDevs → SslDevInfo} {ans : LoadAnswers lim} {m t : HbiModule lim}
  {drv drv' : HbiLnxDrvPriv lim} {status : Int} {i j : Fin lim.maxNumDevs}

/-- An open lists its device, after everything it needs has been there, or fails with the list as it was. -/
theorem internalHbiOpen_list {cfg : DevCfg} {answers : OpenAnswers lim}
    (h : drv.internalHbiOpen cfg answers = .done (drv', status)) :
    (status = HbiStatus.success.code ∧ answers.allocated = true ∧ answers.created = true ∧
      (∃ hbi handle, hbiOpen answers.hal answers.port drv.hbi true (some cfg)
        = .done (hbi, .success, handle)) ∧
      ∃ dev, drv'.list = dev :: drv.list ∧ dev.devcfg = cfg) ∨
    status ≠ HbiStatus.success.code ∧ drv'.list = drv.list := by
  have hback : ∀ hal hbi handle, drv.giveBack hal hbi handle = .done (drv', status) →
      status ≠ HbiStatus.success.code ∧ drv'.list = drv.list := by
    intro hal hbi handle hdone
    obtain ⟨r, -, hr⟩ := Outcome.of_bind_done hdone
    cases hr
    exact ⟨by decide, rfl⟩
  rw [HbiLnxDrvPriv.internalHbiOpen] at h
  by_cases halloc : answers.allocated = true
  · rw [if_neg (by simp [halloc])] at h
    obtain ⟨⟨hbi, st, handle⟩, hopen, h⟩ := Outcome.of_bind_done h
    dsimp only at h
    by_cases hst : st = .success
    · subst hst
      rw [if_neg (not_not.2 rfl)] at h
      cases hminor : firstSlot fun minor => !drv.minors minor with
      | none =>
          rw [hminor] at h
          exact .inr (hback _ _ _ h)
      | some minor =>
          rw [hminor] at h
          dsimp only at h
          by_cases hcreated : answers.created = true
          · rw [if_pos hcreated] at h
            cases h
            exact .inl ⟨rfl, halloc, hcreated, ⟨hbi, handle, hopen⟩, _, rfl, rfl⟩
          · rw [if_neg hcreated] at h
            exact .inr (hback _ _ _ h)
    · rw [if_pos hst] at h
      cases h
      exact .inr ⟨by decide, rfl⟩
  · rw [if_pos (by simpa using halloc)] at h
    cases h
    exact .inr ⟨by decide, rfl⟩

theorem internalHbiClose_list {place : Fin drv.list.length} {hal : Hal}
    (h : drv.internalHbiClose (some place) hal = .done (drv', status)) : drv'.list.Sublist drv.list := by
  obtain ⟨⟨hbi, st⟩, -, h⟩ := Outcome.of_bind_done h
  dsimp only at h
  by_cases hst : st ≠ .success
  · rw [if_pos hst] at h
    cases h
    exact .refl _
  · rw [if_neg hst] at h
    cases h
    exact List.eraseIdx_sublist _ _

theorem closeListed_list {hal : Nat → Hal} {left place : Nat}
    (h : HbiModule.closeListed hal left place drv = .done drv') : drv'.list.Sublist drv.list := by
  induction left generalizing place drv with
  | zero =>
      cases h
      exact .refl _
  | succ left ih =>
      rw [HbiModule.closeListed] at h
      by_cases hplace : place < drv.list.length
      · rw [dif_pos hplace] at h
        obtain ⟨r, hclose, h⟩ := Outcome.of_bind_done h
        exact (ih h).trans (internalHbiClose_list hclose)
      · rw [dif_neg hplace] at h
        cases h
        exact .refl _

theorem hbiDrvExit_list {closing : Nat → Hal} {terminating : Hal}
    (h : m.hbiDrvExit closing terminating = .done t) : t.drv.list.Sublist m.drv.list := by
  obtain ⟨drv, hclosed, h⟩ := Outcome.of_bind_done h
  have hlist := closeListed_list hclosed
  dsimp only at h
  by_cases hterm : (hbiTerm terminating drv.hbi).2 ≠ .success
  · rw [if_pos hterm] at h
    cases h
    exact hlist
  · rw [if_neg hterm] at h
    cases h
    exact hlist

theorem boot_drv {port : HalPort lim} (h : m.boot sdkDevicesInfo port i = some t) : t.drv = m.drv := by
  rw [HbiModule.boot] at h
  split at h
  · cases h
    rfl
  · split at h
    · cases h
    · split at h
      · split at h
        · cases h
          rfl
        · cases h
        · cases h
      · cases h

/-- A turn lists its device, or its open fails and the list gets no longer. -/
theorem turn_list (h : m.turn sdkDevicesInfo ans i = some t) :
    (∃ drv, m.drv.internalHbiOpen (HbiModule.devcfg sdkDevicesInfo i) (ans.opening i)
        = .done (drv, HbiStatus.success.code) ∧ t.drv = drv) ∨
    ∃ drv status, m.drv.internalHbiOpen (HbiModule.devcfg sdkDevicesInfo i) (ans.opening i)
        = .done (drv, status) ∧ status ≠ HbiStatus.success.code ∧ t.drv.list.Sublist m.drv.list := by
  rw [HbiModule.turn] at h
  cases hopen : m.drv.internalHbiOpen (HbiModule.devcfg sdkDevicesInfo i) (ans.opening i) with
  | fault f =>
      rw [hopen] at h
      cases h
  | diverges =>
      rw [hopen] at h
      cases h
  | done r =>
      obtain ⟨drv, status⟩ := r
      rw [hopen] at h
      dsimp only at h
      by_cases hstatus : status = HbiStatus.success.code
      · subst hstatus
        rw [if_pos rfl] at h
        exact .inl ⟨drv, rfl, boot_drv h⟩
      · rw [if_neg hstatus] at h
        refine .inr ⟨drv, status, rfl, hstatus, ?_⟩
        have hsame : drv.list = m.drv.list := by
          rcases internalHbiOpen_list hopen with ⟨hsuccess, -⟩ | ⟨-, hlist⟩
          · exact absurd hsuccess hstatus
          · exact hlist
        rw [← hsame]
        split at h
        · rename_i exited hexit
          rw [boot_drv h]
          exact hbiDrvExit_list hexit
        · cases h
        · cases h

def NotListed (i : Fin lim.maxNumDevs) (m : HbiModule lim) : Prop :=
  ∀ dev ∈ m.drv.list, dev.devcfg.deviceId ≠ (i.val : Int)

theorem NotListed.turn (h : NotListed i m) (hji : j ≠ i) (hturn : m.turn sdkDevicesInfo ans j = some t) :
    NotListed i t := by
  rcases turn_list hturn with ⟨drv, hopen, hdrv⟩ | ⟨drv, status, -, -, hsub⟩
  · intro dev hdev
    rcases internalHbiOpen_list hopen with ⟨-, -, -, -, new, hlist, hcfg⟩ | ⟨hfails, -⟩
    · rw [hdrv, hlist, List.mem_cons] at hdev
      rcases hdev with rfl | hold
      · rw [hcfg, HbiModule.devcfg]
        intro heq
        exact hji (Fin.ext (Int.ofNat_inj.1 heq))
      · exact h dev hold
    · exact absurd rfl hfails
  · intro dev hdev
    exact h dev (hsub.subset hdev)

/-! ### The whole loop -/

/-- The module after `k` turns without a failure. -/
structure LoadedUpto (ans : LoadAnswers lim) (k : Nat) (m : HbiModule lim) : Prop where
  hbi : OpenUpto k m.drv.hbi
  ready : m.drv.hbi.bInitialized = true ∧ (k = 0 → ans.init.initOk = true) ∨
    m.drv.hbi.bInitialized = false ∧ k = 0 ∧ ans.init.initOk = false
  minors : count (fun bit => bit = true) m.drv.minors = k
  ids : ∀ dev ∈ m.drv.list, dev.devcfg.deviceId < k
  listed : ∀ i : Fin lim.maxNumDevs, i.val < k → ∃ dev ∈ m.drv.list,
    dev.devcfg.deviceId = (i.val : Int) ∧ (m.drv.hbi.validHandle dev.hbiHandle).isSome

theorem LoadedUpto.registered (ans : LoadAnswers lim) : LoadedUpto ans 0 (.registered ans) where
  hbi := OpenUpto.start.init ans.init
  ready := by
    cases hinit : ans.init.initOk with
    | true =>
        refine .inl ⟨?_, fun _ => rfl⟩
        rw [HbiModule.registered, hbiInit_first ans.init start_sslFollows rfl hinit]
        rfl
    | false =>
        refine .inr ⟨?_, rfl, rfl⟩
        rw [HbiModule.registered, hbiInit_fails ans.init start_sslFollows rfl hinit]
        rfl
  minors := count_eq_zero.2 fun _ => Bool.false_ne_true
  ids := fun _ hdev => absurd hdev List.not_mem_nil
  listed := fun _ hi => absurd hi (Nat.not_lt_zero _)

section Turn

variable {k : Nat} (sdkDevicesInfo)

theorem LoadedUpto.accepted_iff (h : LoadedUpto ans k m) (hi : i.val = k) :
    OpenAccepted (ans.opening i).hal m.drv.hbi true (some (HbiModule.devcfg sdkDevicesInfo i)) ↔
      0 < lim.maxInstPerDev ∧ (ans.init.initOk = true ∨ i.val ≠ 0 ∨ (ans.opening i).hal.initOk = true) ∧
        (ans.opening i).hal.openOk = true := by
  have hid : (HbiModule.devcfg sdkDevicesInfo i).deviceId = k := congrArg Int.ofNat hi
  rw [h.hbi.accepted_iff (hi ▸ i.isLt) hid]
  rcases h.ready with ⟨hready, hfirst⟩ | ⟨hready, hzero, hfirst⟩
  · have hinit : ans.init.initOk = true ∨ i.val ≠ 0 ∨ (ans.opening i).hal.initOk = true := by
      by_cases hk : k = 0
      · exact .inl (hfirst hk)
      · exact .inr (.inl (hi ▸ hk))
    simp [hready, hinit]
  · simp [hready, hfirst, hi, hzero]

theorem LoadedUpto.opens (h : LoadedUpto ans k m) (hi : i.val = k) (hopens : DeviceOpens ans i) :
    ∃ u j minor, m.drv.internalHbiOpen (HbiModule.devcfg sdkDevicesInfo i) (ans.opening i)
        = .done ({ list := ⟨j.val, HbiModule.devcfg sdkDevicesInfo i, minor, true⟩ :: m.drv.list
                   minors := Function.update m.drv.minors minor true
                   hbi := u }, HbiStatus.success.code) ∧
      m.drv.minors minor = false ∧ OpenUpto (k + 1) u ∧ u.bInitialized = true ∧
      (u.instList j).inuse = true ∧
      ∀ j, (m.drv.hbi.instList j).inuse = true → (u.instList j).inuse = true := by
  have hk : k < lim.maxNumDevs := hi ▸ i.isLt
  have hid : (HbiModule.devcfg sdkDevicesInfo i).deviceId = k := congrArg Int.ofNat hi
  have haccepted := (h.accepted_iff sdkDevicesInfo hi).2
    ⟨hopens.room, hopens.initialised, hopens.opened⟩
  obtain ⟨u, j, hopen, hu, hinit, hj, hkept⟩ :=
    h.hbi.hbiOpen hk (ans.opening i).port hid haccepted
  obtain ⟨minor, hminor, hfree⟩ : ∃ minor, firstSlot (fun minor => !m.drv.minors minor) = some minor ∧
      m.drv.minors minor = false := firstSlot_free (h.minors.trans_lt hk)
  refine ⟨u, j, minor, ?_, hfree, hu, hinit, hj, hkept⟩
  rw [HbiLnxDrvPriv.internalHbiOpen, if_neg (by simp [hopens.allocated]), hopen, Outcome.bind]
  dsimp only
  rw [if_neg (not_not.2 rfl), hminor]
  exact if_pos hopens.created

variable {sdkDevicesInfo}

theorem LoadedUpto.listed_more {u : HbiDrv lim} {minor : Fin lim.maxNumDevs} {minors : Fin lim.maxNumDevs → Bool}
    {dev : LnxHbiDev lim} (h : LoadedUpto ans k m) (hi : i.val = k) (hu : OpenUpto (k + 1) u)
    (hinit : u.bInitialized = true) (hfree : m.drv.minors minor = false)
    (hminors : minors = Function.update m.drv.minors minor true)
    (hid : dev.devcfg.deviceId = (i.val : Int)) (hdev : (u.validHandle dev.hbiHandle).isSome)
    (hkept : ∀ j, (m.drv.hbi.instList j).inuse = true → (u.instList j).inuse = true)
    (ht : t.drv = ⟨dev :: m.drv.list, minors, u⟩) : LoadedUpto ans (k + 1) t where
  hbi := by
    rw [ht]
    exact hu
  ready := by
    rw [ht]
    exact .inl ⟨hinit, fun hzero => absurd hzero (Nat.succ_ne_zero k)⟩
  minors := by
    rw [ht, ← h.minors, hminors]
    exact count_update_add (by simp [hfree]) rfl
  ids := by
    intro dev' hdev'
    rw [ht, List.mem_cons] at hdev'
    rcases hdev' with rfl | hold
    · omega
    · have hlt := h.ids dev' hold
      omega
  listed := by
    intro i' hi'
    rw [ht]
    by_cases hnew : i' = i
    · subst hnew
      exact ⟨dev, List.mem_cons_self, hid, hdev⟩
    · have hlt : i'.val < k := by
        have hne : i'.val ≠ i.val := fun heq => hnew (Fin.ext heq)
        omega
      obtain ⟨dev', hdev', hdevid, hhandle⟩ := h.listed i' hlt
      obtain ⟨j, hj⟩ := Option.isSome_iff_exists.1 hhandle
      obtain ⟨hval, huse⟩ := HbiDrv.validHandle_eq_some.1 hj
      refine ⟨dev', List.mem_cons_of_mem _ hdev', hdevid, ?_⟩
      rw [HbiDrv.validHandle_eq_some.2 ⟨hval, hkept j huse⟩]
      rfl

variable (sdkDevicesInfo)

/-- A device that opens is listed, and its turn is one without a failure. -/
theorem LoadedUpto.turn (h : LoadedUpto ans k m) (hi : i.val = k) (hopens : DeviceOpens ans i) :
    ∃ t, m.turn sdkDevicesInfo ans i = some t ∧ LoadedUpto ans (k + 1) t := by
  obtain ⟨u, j, minor, hcall, hfree, hu, hinit, hj, hkept⟩ := h.opens sdkDevicesInfo hi hopens
  have hvalid : (u.validHandle j.val).isSome := by
    rw [HbiDrv.validHandle_eq_some.2 ⟨rfl, hj⟩]
    rfl
  rw [HbiModule.turn, hcall]
  dsimp only
  rw [if_pos rfl, HbiModule.boot]
  by_cases hboot : (sdkDevicesInfo i).isboot = 0
  · rw [if_pos hboot]
    exact ⟨_, rfl, h.listed_more hi hu hinit hfree rfl rfl hvalid hkept rfl⟩
  · rw [if_neg hboot]
    obtain ⟨d, p, -, -, hdevice⟩ := (withDevice_eq hu.inv hj).2
    dsimp only [List.head?_cons]
    rw [if_pos (by simp), hbiSetCommand, if_neg (by simp [hinit]), hdevice]
    exact ⟨_, rfl, h.listed_more hi hu hinit hfree rfl rfl hvalid hkept rfl⟩

variable {sdkDevicesInfo}

theorem LoadedUpto.turn_fails (h : LoadedUpto ans k m) (hi : i.val = k) (hfails : ¬ DeviceOpens ans i)
    (hturn : m.turn sdkDevicesInfo ans i = some t) : NotListed i t := by
  rcases turn_list hturn with ⟨drv, hopen, hdrv⟩ | ⟨drv, status, -, -, hsub⟩
  · rcases internalHbiOpen_list hopen with ⟨-, halloc, hcreated, ⟨hbi, handle, hdone⟩, -⟩ | ⟨hne, -⟩
    · rcases hbiOpen_result (ans.opening i).hal (ans.opening i).port h.hbi.inv h.hbi.follows true
        (some (HbiModule.devcfg sdkDevicesInfo i)) with ⟨haccepted, -⟩ | ⟨-, status, hstatus, hrefused⟩
      · obtain ⟨hroom, hinit, hopened⟩ := (h.accepted_iff sdkDevicesInfo hi).1 haccepted
        exact absurd ⟨halloc, hroom, hinit, hopened, hcreated⟩ hfails
      · rw [hdone] at hrefused
        cases hrefused
        exact absurd rfl hstatus
    · exact absurd rfl hne
  · intro dev hdev heq
    have hlt := h.ids dev (hsub.subset hdev)
    rw [heq, hi] at hlt
    exact lt_irrefl _ hlt

/-- The devices from the `k`-th on. -/
def FromDevice (k : Nat) (is : List (Fin lim.maxNumDevs)) : Prop :=
  ∀ n (hn : n < is.length), (is[n]).val = k + n

theorem FromDevice.tail {is : List (Fin lim.maxNumDevs)} (h : FromDevice k (i :: is)) :
    FromDevice (k + 1) is := by
  intro n hn
  have hnext := h (n + 1) (Nat.succ_lt_succ hn)
  rw [List.getElem_cons_succ] at hnext
  omega

theorem FromDevice.not_mem {is : List (Fin lim.maxNumDevs)} (h : FromDevice k (i :: is)) : i ∉ is := by
  intro hmem
  obtain ⟨n, hn, heq⟩ := List.getElem_of_mem hmem
  have hlater := h.tail n hn
  have hfirst : i.val = k + 0 := h 0 (Nat.zero_lt_succ _)
  rw [heq] at hlater
  omega

theorem loop_loads (sdkDevicesInfo : Fin lim.maxNumDevs → SslDevInfo) {is : List (Fin lim.maxNumDevs)}
    (hfrom : FromDevice k is) (h : LoadedUpto ans k m) (hopens : ∀ i ∈ is, DeviceOpens ans i) :
    ∃ t, (loadMachine sdkDevicesInfo ans).exec m is = some t ∧ LoadedUpto ans (k + is.length) t := by
  induction is generalizing k m with
  | nil => exact ⟨m, rfl, h⟩
  | cons i is ih =>
      obtain ⟨u, hturn, hu⟩ := h.turn sdkDevicesInfo
        (hfrom 0 (Nat.zero_lt_succ _)) (hopens i List.mem_cons_self)
      obtain ⟨t, hexec, ht⟩ := ih hfrom.tail hu fun i' hi' => hopens i' (List.mem_cons_of_mem _ hi')
      refine ⟨t, ?_, ?_⟩
      · rw [Machine.exec, show (loadMachine sdkDevicesInfo ans).step m i = some u from hturn]
        exact hexec
      · rw [List.length_cons, Nat.add_comm is.length 1, ← Nat.add_assoc]
        exact ht

theorem exec_notListed {is : List (Fin lim.maxNumDevs)} (h : NotListed i m) (hi : i ∉ is)
    (hexec : (loadMachine sdkDevicesInfo ans).exec m is = some t) : NotListed i t := by
  have hothers : ∀ j ∈ is, (fun j => j ≠ i) j := fun j hj heq => hi (heq ▸ hj)
  have hruns := Machine.runs_of_exec hexec hothers
  exact hruns.invariant h fun u j v hu hne hstep => hu.turn hne hstep

/-- Where all devices are listed in the end, every open of the loop has what it needs. -/
theorem loop_opens {is : List (Fin lim.maxNumDevs)} (hfrom : FromDevice k is) (h : LoadedUpto ans k m)
    (hexec : (loadMachine sdkDevicesInfo ans).exec m is = some t) (hlisted : DevicesListed t) :
    ∀ i ∈ is, DeviceOpens ans i := by
  induction is generalizing k m with
  | nil => exact fun i hi => absurd hi List.not_mem_nil
  | cons i is ih =>
      have hi : i.val = k := hfrom 0 (Nat.zero_lt_succ _)
      rw [Machine.exec] at hexec
      obtain ⟨u, hturn, hrest⟩ := Option.bind_eq_some_iff.1 hexec
      by_cases hopens : DeviceOpens ans i
      · obtain ⟨u', hturn', hu⟩ := h.turn sdkDevicesInfo hi hopens
        obtain rfl : u' = u := Option.some.inj (hturn'.symm.trans hturn)
        intro i' hi'
        rcases List.mem_cons.1 hi' with rfl | hlater
        · exact hopens
        · exact ih hfrom.tail hu hrest i' hlater
      · have hmissing := exec_notListed (h.turn_fails hi hopens hturn) hfrom.not_mem hrest
        obtain ⟨dev, hdev, hdevid, -⟩ := hlisted i
        exact absurd hdevid (hmissing dev hdev)

end Turn

end List

theorem fromDevice_finRange (lim : HbiLimits) : FromDevice 0 (List.finRange lim.maxNumDevs) := by
  intro n hn
  rw [List.getElem_finRange]
  exact (Nat.zero_add n).symm

section Load

variable (sdkDevicesInfo : Fin lim.maxNumDevs → SslDevInfo) {ans : LoadAnswers lim}

theorem nothingLeft_unloaded (lim : HbiLimits) : NothingLeft (.unloaded lim) where
  list := rfl
  insts := fun _ => rfl
  devClass := rfl
  cdev := rfl
  region := rfl
  terminated := rfl
  last := fun pre suf hlog => absurd hlog (by simp [HbiModule.unloaded])

/-- What is registered before the failure is taken back. -/
theorem loads_of_registrationFails (hregister : RegistrationFails ans) :
    LoadsAllOrNothing sdkDevicesInfo ans := by
  rw [LoadsAllOrNothing, hbiDrvInit]
  by_cases hregion : ans.allocRegion < 0
  · rw [if_pos hregion]
    exact ⟨_, _, rfl, .inr ⟨by omega, nothingLeft_unloaded lim⟩⟩
  · rw [if_neg hregion]
    by_cases halloc : ans.cdevAlloc = true
    · have hadd : ans.cdevAdd < 0 := by
        rcases hregister with hneg | hnone | hadd
        · exact absurd hneg hregion
        · rw [halloc] at hnone
          cases hnone
        · exact hadd
      rw [if_neg (by simp [halloc]), if_pos hadd]
      exact ⟨_, _, rfl, .inr ⟨by omega, nothingLeft_unloaded lim⟩⟩
    · rw [if_pos (by simpa using halloc)]
      exact ⟨_, _, rfl, .inr ⟨by decide, nothingLeft_unloaded lim⟩⟩

/-- A module without its class loads nothing and reports a success. -/
theorem unclassed_loads_iff : DevicesListed (.unloaded lim) ↔ lim.maxNumDevs = 0 := by
  constructor
  · intro hlisted
    by_contra hpos
    obtain ⟨dev, hdev, -⟩ := hlisted ⟨0, Nat.pos_of_ne_zero hpos⟩
    exact List.not_mem_nil hdev
  · intro hzero i
    exact absurd i.isLt (by omega)

/-- The loop lists every device exactly when every open has what it needs. -/
theorem loop_listed_iff :
    (∃ t, (loadMachine sdkDevicesInfo ans).exec (.registered ans) (List.finRange lim.maxNumDevs) = some t ∧
      DevicesListed t) ↔ ∀ i, DeviceOpens ans i := by
  constructor
  · intro hloads i
    obtain ⟨t, hexec, hlisted⟩ := hloads
    exact loop_opens (fromDevice_finRange lim) (.registered ans) hexec hlisted i (List.mem_finRange i)
  · intro hopens
    obtain ⟨t, hexec, ht⟩ := loop_loads sdkDevicesInfo
      (fromDevice_finRange lim) (.registered ans) fun i _ => hopens i
    refine ⟨t, hexec, ?_⟩
    intro i
    apply ht.listed i
    rw [List.length_finRange, Nat.zero_add]
    exact i.isLt

end Load

/-- Loading the module is all or nothing exactly when the character device cannot be registered, or the class
is created, unless there is no device, and nothing fails in the open of any device. -/
theorem module_load_iff (sdkDevicesInfo : Fin lim.maxNumDevs → SslDevInfo) (ans : LoadAnswers lim) :
    LoadsAllOrNothing sdkDevicesInfo ans ↔
      RegistrationFails ans ∨
        (ans.classCreate = true ∨ lim.maxNumDevs = 0) ∧ ∀ i, DeviceOpens ans i := by
  by_cases hregister : RegistrationFails ans
  · exact iff_of_true (loads_of_registrationFails sdkDevicesInfo hregister) (.inl hregister)
  · rw [or_iff_right hregister, LoadsAllOrNothing, hbiDrvInit]
    rw [RegistrationFails, not_or, not_or, Bool.not_eq_false] at hregister
    obtain ⟨hregion, halloc, hadd⟩ := hregister
    rw [if_neg hregion, if_neg (by simp [halloc]), if_neg hadd]
    cases hclass : ans.classCreate with
    | false =>
        rw [if_pos (by simp)]
        constructor
        · intro hloads
          obtain ⟨m, ret, hdone, ⟨-, hlisted⟩ | ⟨hret, -⟩⟩ := hloads
          · cases hdone
            have hzero := unclassed_loads_iff.1 hlisted
            exact ⟨.inr hzero, fun i => absurd i.isLt (by omega)⟩
          · cases hdone
            exact absurd rfl hret
        · intro hempty
          obtain ⟨hclass' | hzero, -⟩ := hempty
          · cases hclass'
          · exact ⟨_, _, rfl, .inl ⟨rfl, unclassed_loads_iff.2 hzero⟩⟩
    | true =>
        rw [if_neg (by simp), and_iff_right (.inl rfl), ← loop_listed_iff sdkDevicesInfo]
        constructor
        · intro hloads
          obtain ⟨m, ret, hdone, hcases⟩ := hloads
          obtain ⟨t, hexec, heq⟩ := Option.map_eq_some_iff.1 hdone
          cases heq
          rcases hcases with ⟨-, hlisted⟩ | ⟨hret, -⟩
          · exact ⟨_, hexec, hlisted⟩
          · exact absurd rfl hret
        · intro hloads
          obtain ⟨t, hexec, hlisted⟩ := hloads
          refine ⟨t, 0, ?_, .inl ⟨rfl, hlisted⟩⟩
          rw [hexec]
          rfl

def firstFileFails : LoadAnswers oneUserEach where
  allocRegion := 0
  cdevAlloc := true
  cdevAdd := 0
  classCreate := true
  init := halOk
  opening := fun i => ⟨true, halOk, silentPort oneUserEach, decide (i.val ≠ 0), halOk⟩
  closing := fun _ _ => halOk
  terminating := fun _ => halOk
  booting := fun _ => silentPort oneUserEach

/-- The driver is torn down after the first open, the second device is opened on it all the same, and the load
succeeds with one device listed and nothing registered. -/
theorem failed_open_goes_on : ¬ LoadsAllOrNothing (fun _ => .blank) firstFileFails ∧
    ∃ m, hbiDrvInit (fun _ => .blank) firstFileFails = some (m, 0) ∧
      m.log = [.openDevice ⟨0, by decide⟩, .exit, .openDevice ⟨1, by decide⟩] ∧ m.drv.list.length = 1 ∧ m.devClass = false := by
  refine ⟨?_, _, rfl, rfl, rfl, rfl⟩
  intro hloads
  obtain ⟨m, ret, hdone, ⟨-, hlisted⟩ | ⟨hret, -⟩⟩ := hloads
  · cases hdone
    obtain ⟨dev, hdev, hid, -⟩ := hlisted ⟨0, by decide⟩
    obtain rfl := List.mem_singleton.1 hdev
    cases hid
  · cases hdone
    exact absurd rfl hret

end VprocSdk
