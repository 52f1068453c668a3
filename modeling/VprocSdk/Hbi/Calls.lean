import Mathlib.Data.Fintype.EquivFin
import VprocSdk.Hbi.Tables

/-!
# What the calls can do

One inversion lemma for opening and one for closing: which state each can end in, with what was true
before. From them every call keeps the tables in agreement and none leaves the language's rails, and
by induction so does every sequence of calls.
-/

namespace VprocSdk

open Lib

variable {lim : HbiLimits} {s : HbiDrv lim} (hal : Hal) (port : HalPort lim)

/-! ### The layer below -/

def PortAvailable (hal : Hal) (drv : SslDrv lim) : Prop :=
  drv.initialised = true ∧ (∃ p, (drv.dev p).inuse = false) ∧ hal.openOk = true

theorem sslPortOpen_cases (drv : SslDrv lim) (c : SslDevCfg) :
    (¬ PortAvailable hal drv ∧
      ∃ status, status ≠ .ok ∧ sslPortOpen hal drv c = (drv, status, none)) ∨
    ∃ p, PortAvailable hal drv ∧ (drv.dev p).inuse = false ∧ sslPortOpen hal drv c
      = (drv.opened p c, .ok, some (portHandleOf p)) := by
  unfold sslPortOpen
  by_cases hinit : drv.initialised = true
  · rw [if_neg (by simp [hinit])]
    cases hfree : firstSlot fun i => !(drv.dev i).inuse with
    | none =>
        refine .inl ⟨?_, .resourceErr, by decide, rfl⟩
        intro hboth
        obtain ⟨-, ⟨p, hp⟩, -⟩ := hboth
        have htest := firstSlot_none hfree p
        simp [hp] at htest
    | some p =>
        have htest := firstSlot_some hfree
        have hp : (drv.dev p).inuse = false := by simpa using htest
        by_cases hopen : hal.openOk = true
        · exact .inr ⟨p, ⟨hinit, ⟨p, hp⟩, hopen⟩, hp, by simp [hopen, SslDrv.opened]⟩
        · exact .inl ⟨fun havail => hopen havail.2.2, .internalErr, by decide, by simp [hopen]⟩
  · exact .inl ⟨fun havail => hinit havail.1, .notInit, by decide, by simp [hinit]⟩

/-- Closing a port that is open does not return, fails in `hal_close`, or closes it. -/
theorem sslPortClose_cases {drv : SslDrv lim} {p : Fin lim.maxNumDevs} (hinit : drv.initialised = true)
    (hp : (drv.dev p).inuse = true) :
    sslPortClose hal drv (portHandleOf p) = none ∨
      (hal.closeOk = false ∧ sslPortClose hal drv (portHandleOf p) = some (drv, .internalErr)) ∨
      sslPortClose hal drv (portHandleOf p) = some (drv.closed p, .ok) := by
  unfold sslPortClose
  rw [if_neg (by simp [hinit])]
  cases hsearch : portOfInt8 drv (portHandleOf p) 256 0 with
  | none => exact .inl rfl
  | some found =>
      cases found with
      | none =>
          have hstart : (0 : Int) ≤ p.val := by omega
          exact absurd hsearch (portOfInt8_ne_missing hp 256 0 hstart)
      | some i =>
          obtain rfl := portHandleOf_inj (portOfInt8_some 256 0 hsearch).1
          by_cases hclose : hal.closeOk = true
          · exact .inr (.inr (by simp [hclose, SslDrv.closed]))
          · exact .inr (.inl ⟨by simpa using hclose, by simp [hclose]⟩)

theorem internalHbiOpen_success (pDev : TwDev) (answer : BusRecord → BusOp → BusAnswer) :
    ((internalHbiOpen pDev).run answer []).2 = .success := by
  simp [internalHbiOpen, Prog.run_bind]

/-! ### Opening -/

/-- The user's device is open and has room for another user, or one more device can be opened. -/
def AcceptsUser (hal : Hal) (s : HbiDrv lim) (cfg : DevCfg) : Prop :=
  (∃ d, (s.devList d).inuse = true ∧ (s.devList d).devCfg.deviceId = cfg.deviceId ∧
    (s.devList d).numCurInstances < lim.maxInstPerDev) ∨
  (∀ d, (s.devList d).inuse = true → (s.devList d).devCfg.deviceId ≠ cfg.deviceId) ∧
    s.numOpenedDev < lim.maxNumDevs ∧ s.ssl.initialised = true ∧ hal.openOk = true

theorem DriverInv.exists_free_port (h : DriverInv none s) (hroom : s.numOpenedDev < lim.maxNumDevs) :
    ∃ p, (s.ssl.dev p).inuse = false := by
  by_contra hall
  have hinuse : ∀ p, (s.ssl.dev p).inuse = true := by simpa using hall
  choose devOf hdevOf hhandle using fun p => h.portDev p (hinuse p)
  have hinj : Function.Injective devOf := by
    intro p q hpq
    apply portHandleOf_inj
    rw [← hhandle p, ← hhandle q, hpq]
  obtain ⟨d, -, hd⟩ : ∃ d, firstSlot (fun d => !(s.devList d).inuse) = some d ∧
      (s.devList d).inuse = false := firstSlot_free (h.numOpenedDev ▸ hroom)
  obtain ⟨p, rfl⟩ := Finite.injective_iff_surjective.1 hinj d
  rw [hdevOf p] at hd
  exact Bool.noConfusion hd

/-- After the argument checks, `HBI_open` fails without effect, adds a user to the device that is
already open, or opens the device with its first user. -/
theorem openUser_cases (h : DriverInv none s) (hlimit : s.numInstances < lim.maxInstances)
    (cfg : DevCfg) :
    (¬ AcceptsUser hal s cfg ∧
      ∃ status, status ≠ .success ∧ openUser hal port s cfg = .done (s, status, none)) ∨
    (∃ d i, (s.instList i).inuse = false ∧ (s.devList d).inuse = true ∧
      (s.devList d).numCurInstances < lim.maxInstPerDev ∧
      (s.devList d).devCfg.deviceId = cfg.deviceId ∧
      openUser hal port s cfg
        = .done (s.added d i (recordUser (s.devList d) i.val), .success, some i.val)) ∨
    ∃ d i p c, (s.instList i).inuse = false ∧ (s.devList d).inuse = false ∧
      (s.ssl.dev p).inuse = false ∧ PortAvailable hal s.ssl ∧ c.deviceId = cfg.deviceId ∧
      s.numOpenedDev < lim.maxNumDevs ∧ 0 < lim.maxInstPerDev ∧
      (∀ d', (s.devList d').inuse = true → (s.devList d').devCfg.deviceId ≠ cfg.deviceId) ∧
      openUser hal port s cfg = .done ((openDevice s d cfg (s.ssl.opened p c) (portHandleOf p)).added d i
        (recordUser ((openDevice s d cfg (s.ssl.opened p c) (portHandleOf p)).devList d) i.val),
        .success, some i.val) := by
  obtain ⟨i, hi, hfree⟩ : ∃ i, firstSlot (fun i => !(s.instList i).inuse) = some i ∧
      (s.instList i).inuse = false := firstSlot_free (h.numInstances ▸ hlimit)
  unfold openUser
  simp only [hi]
  cases hdev : firstSlot fun d => decide ((s.devList d).devCfg.deviceId = cfg.deviceId) &&
      decide ((s.devList d).portHandle ≠ 0) with
  | some d =>
      have htest := firstSlot_some hdev
      simp only [Bool.and_eq_true, decide_eq_true_eq] at htest
      have hinuse : (s.devList d).inuse = true := by
        by_contra hnot
        exact htest.2 (h.freeDev d (by simpa using hnot)).1
      by_cases hroom : (s.devList d).numCurInstances < lim.maxInstPerDev
      · have hadd := addUser_eq i .success hroom hlimit
        refine .inr (.inl ⟨d, i, hfree, hinuse, hroom, htest.1, ?_⟩)
        dsimp only
        rw [if_neg (by omega), hadd]
      · refine .inl ⟨?_, .resourceErr, by decide, ?_⟩
        · intro hcases
          rcases hcases with ⟨d', hd', hid, hroom'⟩ | ⟨hnew, -⟩
          · obtain rfl := h.deviceIds d' d hd' hinuse (hid.trans htest.1.symm)
            exact hroom hroom'
          · exact hnew d hinuse htest.1
        · dsimp only
          rw [if_pos (by omega)]
  | none =>
      have hnew : ∀ d', (s.devList d').inuse = true →
          (s.devList d').devCfg.deviceId ≠ cfg.deviceId := by
        intro d' hd' heq
        have htest := firstSlot_none hdev d'
        obtain ⟨p, c, hport, -⟩ := h.devPort d' hd'
        simp [heq, hport, portHandleOf] at htest
      dsimp only
      by_cases hmax : s.numOpenedDev ≥ lim.maxNumDevs
      · refine .inl ⟨?_, .resourceErr, by decide, if_pos hmax⟩
        intro hcases
        rcases hcases with ⟨d', hd', hid, -⟩ | ⟨-, hopened, -⟩
        · exact hnew d' hd' hid
        · omega
      rw [if_neg hmax]
      obtain ⟨d, hd, hdfree⟩ : ∃ d, firstSlot (fun d => !(s.devList d).inuse) = some d ∧
          (s.devList d).inuse = false := firstSlot_free (h.numOpenedDev ▸ Nat.lt_of_not_ge hmax)
      simp only [hd]
      obtain ⟨c, hc⟩ : ∃ c : SslDevCfg,
          c = ⟨cfg.deviceId, cfg.devAddr.setWidth 16, cfg.pDevName, cfg.busNum⟩ := ⟨_, rfl⟩
      rw [← hc]
      rcases sslPortOpen_cases hal s.ssl c with ⟨hnot, status, -, hopen⟩ | ⟨p, hport, hp, hopen⟩
      · refine .inl ⟨?_, .internalErr, by decide, ?_⟩
        · intro hcases
          rcases hcases with ⟨d', hd', hid, -⟩ | ⟨-, hopened, hssl, hok⟩
          · exact hnew d' hd' hid
          · exact hnot ⟨hssl, h.exists_free_port hopened, hok⟩
        · rw [hopen]
          cases status <;> rfl
      · have hpos : 0 < lim.maxInstances := by omega
        have hper : 0 < lim.maxInstPerDev := Nat.pos_of_mul_pos_right hpos
        have hroom : ((openDevice s d cfg (s.ssl.opened p c) (portHandleOf p)).devList d).numCurInstances
            < lim.maxInstPerDev := by
          simpa [openDevice, (h.freeDev d hdfree).2] using hper
        have hadd := addUser_eq i .success hroom hlimit
        refine .inr (.inr ⟨d, i, p, c, hfree, hdfree, hp, hport, by rw [hc], by omega, hper,
          hnew, ?_⟩)
        rw [hopen]
        dsimp only
        rw [internalHbiOpen_success, hadd]

/-! ### Closing -/

/-- For a valid handle, `HBI_close` does not return, fails without effect, removes the user of a device
that has others, or removes the last user and closes the device. -/
theorem closeUser_cases (h : DriverInv none s) {i : Fin lim.maxInstances}
    (hi : (s.instList i).inuse = true) :
    closeUser hal s i = .diverges ∨
    (hal.closeOk = false ∧ closeUser hal s i = .done (s, .internalErr)) ∨
    (∃ d, (s.instList i).pDev = some d ∧ (s.devList d).inuse = true ∧
      1 < (s.devList d).numCurInstances ∧
      closeUser hal s i = .done (hbiTerm hal (s.removed i d))) ∨
    ∃ d p, (s.instList i).pDev = some d ∧ (s.devList d).inuse = true ∧
      (s.devList d).numCurInstances = 1 ∧ (s.devList d).portHandle = portHandleOf p ∧
      closeUser hal s i = .done (hbiTerm hal
        (closeDevice (s.removed i d) d (s.ssl.closed p) (s.numOpenedDev - 1))) := by
  obtain ⟨d, hpDev, hd⟩ := h.instDev i hi
  obtain ⟨husers, hle⟩ := h.devUsers d hd
  have hone : 0 < (s.devList d).numCurInstances := h.hasUser d hd (Option.some_ne_none d).symm
  have hnum : 0 < s.numInstances := by
    rw [h.numInstances]
    exact count_pos (p := fun inst : VprocInst lim => inst.inuse = true) hi
  unfold closeUser
  rw [hpDev]
  dsimp only
  by_cases hlast : (s.devList d).numCurInstances = 1
  · obtain ⟨p, c, hport, hdev, -⟩ := h.devPort d hd
    have hp : (s.ssl.dev p).inuse = true := by rw [hdev]
    have hopened : s.numOpenedDev ≠ 0 := by
      rw [h.numOpenedDev]
      exact (count_pos (p := fun dev : VprocDev lim => dev.inuse = true) hd).ne'
    rw [if_pos hlast, hport]
    rcases sslPortClose_cases hal (h.sslOpen p hp) hp with hclose | ⟨hfail, hclose⟩ | hclose
    · left
      rw [hclose]
    · right; left
      refine ⟨hfail, ?_⟩
      rw [hclose]
      rfl
    · right; right; right
      refine ⟨d, p, rfl, hd, hlast, hport, ?_⟩
      have hremove : removeUser (closeDevice s d (s.ssl.closed p) (s.numOpenedDev - 1)) i d
          = .done ((closeDevice s d (s.ssl.closed p) (s.numOpenedDev - 1)).removed i d) := by
        apply removeUser_eq
        · simpa [closeDevice] using hle
        · simpa [closeDevice] using hone
        · exact hnum
      rw [hclose]
      dsimp only
      rw [if_neg (not_not.2 rfl), decr, if_neg hopened]
      dsimp only [Outcome.bind]
      rw [hremove, removed_closeDevice]
  · right; right; left
    refine ⟨d, rfl, hd, by omega, ?_⟩
    rw [if_neg hlast, removeUser_eq hle hone hnum]
    rfl

/-! ### Initialisation and termination -/

theorem DriverInv.empty (hdev : ∀ d, s.devList d = .cleared)
    (hinst : ∀ i, (s.instList i).inuse = false) (hnum : s.numInstances = 0)
    (hopened : s.numOpenedDev = 0) (hport : ∀ p, (s.ssl.dev p).inuse = false) :
    DriverInv none s where
  numInstances := by
    rw [hnum]
    exact (count_eq_zero.2 fun i => by simp [hinst i]).symm
  instDev i hi := by simp [hinst i] at hi
  devUsers d hd := by simp [hdev d, VprocDev.cleared] at hd
  hasUser d hd := by simp [hdev d, VprocDev.cleared] at hd
  freeDev d _ := by simp [hdev d, VprocDev.cleared]
  numOpenedDev := by
    rw [hopened]
    refine (count_eq_zero.2 fun d => ?_).symm
    simp [hdev d, VprocDev.cleared]
  deviceIds d d' hd := by simp [hdev d, VprocDev.cleared] at hd
  portHandles d d' hd := by simp [hdev d, VprocDev.cleared] at hd
  devPort d hd := by simp [hdev d, VprocDev.cleared] at hd
  portDev p hp := by simp [hport p] at hp
  idle _ := ⟨hnum, hopened⟩
  sslOpen p hp := by simp [hport p] at hp

theorem DriverInv.no_port (h : DriverInv none s) (hopened : s.numOpenedDev = 0)
    (p : Fin lim.maxNumDevs) : (s.ssl.dev p).inuse = false := by
  by_contra hp
  obtain ⟨d, hd, -⟩ := h.portDev p (by simpa using hp)
  have hpos := count_pos (p := fun dev : VprocDev lim => dev.inuse = true) (t := s.devList) hd
  rw [← h.numOpenedDev] at hpos
  omega

theorem DriverInv.hasInstance (h : DriverInv none s) (hopened : s.numOpenedDev ≠ 0) :
    s.numInstances ≠ 0 := by
  intro hnum
  rw [h.numInstances] at hnum
  apply hopened
  rw [h.numOpenedDev]
  refine count_eq_zero.2 fun d hd => ?_
  have huser := h.hasUser d hd (Option.some_ne_none d).symm
  rw [(h.devUsers d hd).1] at huser
  have hnone : s.users d = 0 := count_eq_zero.2 fun i hi => count_eq_zero.1 hnum i hi.1
  omega

theorem sslInit_no_port {drv : SslDrv lim} (h : ∀ p, (drv.dev p).inuse = false)
    (p : Fin lim.maxNumDevs) : ((sslInit hal drv).1.dev p).inuse = false := by
  unfold sslInit
  split
  · exact h p
  · split <;> rfl

theorem hbiInit_inv (h : DriverInv none s) (pCfg : Option Nat) :
    DriverInv none (hbiInit hal s pCfg).1 ∧
      ((hbiInit hal s pCfg).2 = .success → (hbiInit hal s pCfg).1.bInitialized = true) := by
  unfold hbiInit
  by_cases hinit : s.bInitialized = true
  · rw [if_pos hinit]
    exact ⟨{ h with }, fun _ => hinit⟩
  · have hopened := (h.idle (by simpa using hinit)).2
    have hport := sslInit_no_port hal (h.no_port hopened)
    rw [if_neg hinit]
    dsimp only
    split
    · exact ⟨.empty (fun d => rfl) (fun i => rfl) rfl rfl hport, fun hfail => by simp at hfail⟩
    · exact ⟨.empty (fun d => rfl) (fun i => rfl) rfl rfl hport, fun _ => rfl⟩

theorem sslTerm_ok {drv : SslDrv lim} (h : (sslTerm hal drv).2 = .ok) :
    (sslTerm hal drv).1.initialised = false := by
  unfold sslTerm at h ⊢
  by_cases hinit : drv.initialised = true
  · rw [if_neg (by simp [hinit])] at h ⊢
    split
    · rename_i hany
      simp [hany] at h
    · rfl
  · rw [if_pos (by simpa using hinit)]
    simpa using hinit

theorem sslTerm_dev (drv : SslDrv lim) : (sslTerm hal drv).1.dev = drv.dev := by
  unfold sslTerm
  split
  · rfl
  · split <;> rfl

/-- `HBI_term` does nothing in a driver that is not initialised, gives back one of several
initialisations, finds the driver in use, fails in the System Service Layer, or terminates both. -/
theorem hbiTerm_cases (s : HbiDrv lim) :
    (s.bInitialized = false ∧ hbiTerm hal s = (s, .success)) ∨
    s.bInitialized = true ∧
      ((1 < s.initCount ∧ hbiTerm hal s = ({ s with initCount := s.initCount - 1 }, .success)) ∨
      (s.initCount ≤ 1 ∧ (s.numInstances ≠ 0 ∨ s.numOpenedDev ≠ 0) ∧
        hbiTerm hal s = (s, .invalidState)) ∨
      s.numInstances = 0 ∧ s.numOpenedDev = 0 ∧ ∃ ssl, ssl.dev = s.ssl.dev ∧
        (hbiTerm hal s = ({ s with ssl }, .internalErr) ∨
        ssl.initialised = false ∧ ∃ initCount,
          hbiTerm hal s = ({ s with ssl, initCount, bInitialized := false }, .success))) := by
  unfold hbiTerm
  cases hinit : s.bInitialized with
  | false => exact .inl ⟨rfl, rfl⟩
  | true =>
      refine .inr ⟨rfl, ?_⟩
      rw [if_neg (by simp)]
      by_cases hcount : s.initCount > 1
      · exact .inl ⟨hcount, if_pos hcount⟩
      rw [if_neg hcount]
      by_cases huse : s.numInstances ≠ 0 ∨ s.numOpenedDev ≠ 0
      · exact .inr (.inl ⟨Nat.le_of_not_gt hcount, huse, if_pos huse⟩)
      rw [if_neg huse]
      rw [not_or, not_not, not_not] at huse
      refine .inr (.inr ⟨huse.1, huse.2, (sslTerm hal s.ssl).1, sslTerm_dev hal s.ssl, ?_⟩)
      by_cases hterm : (sslTerm hal s.ssl).2 = .ok
      · exact .inr ⟨sslTerm_ok hal hterm, _, if_neg (not_not.2 hterm)⟩
      · exact .inl (if_pos hterm)

theorem hbiTerm_inv (h : DriverInv none s) : DriverInv none (hbiTerm hal s).1 := by
  rcases hbiTerm_cases hal s with
    ⟨-, heq⟩ | ⟨-, ⟨-, heq⟩ | ⟨-, -, heq⟩ | ⟨hnum, hopened, ssl, hdev, hssl⟩⟩
  · rw [heq]
    exact h
  · rw [heq]
    exact { h with }
  · rw [heq]
    exact h
  · have hclosed : ∀ p, (ssl.dev p).inuse = false := by
      intro p
      rw [hdev]
      exact h.no_port hopened p
    have hdevs : ∀ d, (s.devList d).inuse = true → False := by
      intro d hd
      have hpos := count_pos (p := fun dev : VprocDev lim => dev.inuse = true) (t := s.devList) hd
      rw [← h.numOpenedDev] at hpos
      omega
    have hterm : DriverInv none { s with ssl } :=
      { h with
        devPort := fun d hd => (hdevs d hd).elim
        portDev := fun p hp => by simp [hclosed p] at hp
        sslOpen := fun p hp => by simp [hclosed p] at hp }
    rcases hssl with heq | ⟨-, initCount, heq⟩
    · rw [heq]
      exact hterm
    · rw [heq]
      exact { hterm with idle := fun _ => ⟨hnum, hopened⟩ }

/-! ### The checks of the calls -/

/-- `HBI_open` fails with the driver as `HBI_init` left it, or passes its checks. -/
theorem hbiOpen_cases (s : HbiDrv lim) (pHandle : Bool) (pDevCfg : Option DevCfg) :
    (∃ status, status ≠ .success ∧
      hbiOpen hal port s pHandle pDevCfg = .done ((hbiInit hal s none).1, status, none)) ∨
    ∃ cfg, pDevCfg = some cfg ∧ (hbiInit hal s none).2 = .success ∧
      (hbiInit hal s none).1.numInstances < lim.maxInstances ∧
      hbiOpen hal port s pHandle pDevCfg = openUser hal port (hbiInit hal s none).1 cfg := by
  unfold hbiOpen
  dsimp only
  split
  · rename_i hstatus
    exact .inl ⟨_, hstatus, rfl⟩
  rename_i hstatus
  split
  · exact .inl ⟨.notInit, by decide, rfl⟩
  split
  · exact .inl ⟨.invalidArg, by decide, rfl⟩
  cases pDevCfg with
  | none => exact .inl ⟨.invalidArg, by decide, rfl⟩
  | some cfg =>
      dsimp only
      split
      · exact .inl ⟨.resourceErr, by decide, rfl⟩
      · rename_i hlimit
        exact .inr ⟨cfg, rfl, not_not.1 hstatus, Nat.lt_of_not_ge hlimit, rfl⟩

theorem HbiDrv.validHandle_eq_some {handle : Nat} {i : Fin lim.maxInstances} :
    s.validHandle handle = some i ↔ i.val = handle ∧ (s.instList i).inuse = true := by
  unfold validHandle
  constructor
  · intro h
    split at h
    · split at h
      · rename_i hinuse
        obtain rfl := Option.some.inj h
        exact ⟨rfl, hinuse⟩
      · simp at h
    · simp at h
  · intro hboth
    obtain ⟨rfl, hinuse⟩ := hboth
    simp [hinuse]

theorem hbiClose_cases (s : HbiDrv lim) (handle : Nat) :
    (∃ status, (status = .notInit ∨ status = .badHandle) ∧
      hbiClose hal s handle = .done (s, status)) ∨
    ∃ i, s.validHandle handle = some i ∧ hbiClose hal s handle = closeUser hal s i := by
  unfold hbiClose
  split
  · exact .inl ⟨.notInit, .inl rfl, rfl⟩
  cases hvalid : s.validHandle handle with
  | none => exact .inl ⟨.badHandle, .inr rfl, rfl⟩
  | some i => exact .inr ⟨i, rfl, rfl⟩

/-! ### A handle's device -/

theorem sslPortAnswer_open (h : DriverInv none s) {p : Fin lim.maxNumDevs}
    (hp : (s.ssl.dev p).inuse = true) : sslPortAnswer s.ssl (portHandleOf p) port = port p := by
  have hssl := h.sslOpen p hp
  funext done op
  simp [sslPortAnswer, hssl, portOf_eq_some hp]

/-- The handle of a user in use passes its check, and what is run on its device makes its accesses to
the port opened for that device. -/
theorem withDevice_eq (h : DriverInv none s) {i : Fin lim.maxInstances}
    (hi : (s.instList i).inuse = true) :
    s.bInitialized = true ∧ ∃ d p, (s.instList i).pDev = some d ∧
      (s.devList d).portHandle = portHandleOf p ∧
      ∀ {α : Type} (port : HalPort lim) (failed : HbiStatus → α) (run : TwDev → Tw α),
        withDevice port s i.val failed run = .done ((run (s.devList d).tw).run (port p) []) := by
  obtain ⟨d, hd, hinuse⟩ := h.instDev i hi
  obtain ⟨p, c, hhandle, hdev, -⟩ := h.devPort d hinuse
  have hvalid : s.validHandle i.val = some i := HbiDrv.validHandle_eq_some.2 ⟨rfl, hi⟩
  constructor
  · by_contra hnot
    have hnum := (h.idle (by simpa using hnot)).1
    rw [h.numInstances] at hnum
    exact count_eq_zero.1 hnum i hi
  · refine ⟨d, p, hd, hhandle, ?_⟩
    intro α port failed run
    rw [withDevice, hvalid]
    dsimp only
    rw [hd]
    dsimp only
    rw [hhandle, sslPortAnswer_open port h (by rw [hdev])]

/-! ### Sequences of calls -/

inductive HbiCall
  | init (pCfg : Option Nat)
  | open (pHandle : Bool) (pDevCfg : Option DevCfg)
  | close (handle : Nat)
  | term

/-- A call, what the hardware layer answers to it, and how its ports answer accesses. -/
abbrev HbiEvent (lim : HbiLimits) := HbiCall × Hal × HalPort lim

/-- The state a call ends in, its status, and the handle it stores. -/
def hbiCall (s : HbiDrv lim) : HbiEvent lim → Outcome (HbiDrv lim × HbiStatus × Option Nat)
  | (.init pCfg, hal, _) =>
      let (s, status) := hbiInit hal s pCfg
      .done (s, status, none)
  | (.open pHandle pDevCfg, hal, port) => hbiOpen hal port s pHandle pDevCfg
  | (.close handle, hal, _) =>
      (hbiClose hal s handle).bind fun (s, status) => .done (s, status, none)
  | (.term, hal, _) =>
      let (s, status) := hbiTerm hal s
      .done (s, status, none)

/-- The driver under sequences of calls; a call that does not return has no next state. -/
def hbiMachine (lim : HbiLimits) : Machine (HbiDrv lim) (HbiEvent lim) where
  step s ev :=
    match hbiCall s ev with
    | .done (s, _, _) => some s
    | .fault _ | .diverges => none

/-- The outcome is no fault, and satisfies `P` if the call returns. -/
def Outcome.Sat {α : Type} (P : α → Prop) : Outcome α → Prop
  | .done a => P a
  | .fault _ => False
  | .diverges => True

theorem openUser_inv (h : DriverInv none s) (hinit : s.bInitialized = true)
    (hlimit : s.numInstances < lim.maxInstances) (cfg : DevCfg) :
    (openUser hal port s cfg).Sat fun r => DriverInv none r.1 := by
  rcases openUser_cases hal port h hlimit cfg with
    ⟨-, status, -, heq⟩ | ⟨d, i, hfree, hd, hroom, -, heq⟩ |
    ⟨d, i, p, c, hfree, hd, hp, ⟨hssl, -⟩, hid, hopened, hper, hnew, heq⟩
  · rw [heq]
    exact h
  · rw [heq]
    have hpending : DriverInv (some d) s :=
      { h with hasUser := fun d' hd' _ => h.hasUser d' hd' (Option.some_ne_none d').symm }
    exact hpending.added hd hroom hfree hinit
  · rw [heq]
    have hdevs := lim.maxNumDevs_lt (Nat.zero_lt_of_lt hlimit)
    have hopen := h.opened hd hp hssl hinit (hopened.trans hdevs) hid hnew
    refine hopen.added ?_ ?_ hfree hinit
    · simp [openDevice]
    · simpa [openDevice, (h.freeDev d hd).2] using hper

theorem closeUser_left (h : DriverInv none s) {i : Fin lim.maxInstances}
    (hi : (s.instList i).inuse = true) :
    closeUser hal s i = .diverges ∨
    (hal.closeOk = false ∧ closeUser hal s i = .done (s, .internalErr)) ∨
    ∃ u, DriverInv none u ∧ u.bInitialized = s.bInitialized ∧ u.initCount = s.initCount ∧
      u.ssl.initialised = s.ssl.initialised ∧ u.numInstances + 1 = s.numInstances ∧
      closeUser hal s i = .done (hbiTerm hal u) := by
  have hpos : 0 < s.numInstances := by
    rw [h.numInstances]
    exact count_pos (p := fun inst : VprocInst lim => inst.inuse = true) hi
  rcases closeUser_cases hal h hi with
    heq | hfail | ⟨d, hpDev, hd, hmore, heq⟩ | ⟨d, p, hpDev, hd, hlast, hport, heq⟩
  · exact .inl heq
  · exact .inr (.inl hfail)
  · have hsettled := (h.removed hi hpDev).settled fun _ => by
      rw [HbiDrv.removed_numCur, if_pos rfl]
      omega
    exact .inr (.inr ⟨_, hsettled, rfl, rfl, rfl, Nat.sub_add_cancel hpos, heq⟩)
  · have hclosed := (h.removed hi hpDev).closed
      (by rw [(HbiDrv.removed_devList d).1]; exact hd)
      (by rw [HbiDrv.removed_numCur, if_pos rfl, hlast])
      (by rw [(HbiDrv.removed_devList d).2.1]; exact hport)
    exact .inr (.inr ⟨_, hclosed, rfl, rfl, rfl, Nat.sub_add_cancel hpos, heq⟩)

theorem closeUser_inv (h : DriverInv none s) {i : Fin lim.maxInstances}
    (hi : (s.instList i).inuse = true) :
    (closeUser hal s i).Sat fun r => DriverInv none r.1 := by
  rcases closeUser_left hal h hi with heq | ⟨-, heq⟩ | ⟨u, hu, -, -, -, -, heq⟩
  · rw [heq]
    trivial
  · rw [heq]
    exact h
  · rw [heq]
    exact hbiTerm_inv hal hu

theorem Outcome.Sat.bind {α β : Type} {P : α → Prop} {Q : β → Prop} {o : Outcome α}
    {f : α → Outcome β} (h : o.Sat P) (hf : ∀ a, P a → (f a).Sat Q) : (o.bind f).Sat Q := by
  cases o with
  | done a => exact hf a h
  | fault _ => exact h
  | diverges => trivial

theorem Outcome.of_bind_done {α β : Type} {o : Outcome α} {f : α → Outcome β} {b : β}
    (h : o.bind f = .done b) : ∃ a, o = .done a ∧ f a = .done b := by
  cases o with
  | done a => exact ⟨a, rfl, h⟩
  | fault _ => cases h
  | diverges => cases h

theorem hbiCall_inv (h : DriverInv none s) (ev : HbiEvent lim) :
    (hbiCall s ev).Sat fun r => DriverInv none r.1 := by
  obtain ⟨call, hal, port⟩ := ev
  cases call with
  | init pCfg => exact (hbiInit_inv hal h pCfg).1
  | term => exact hbiTerm_inv hal h
  | «open» pHandle pDevCfg =>
      obtain ⟨hinv, hinit⟩ := hbiInit_inv hal h none
      dsimp only [hbiCall]
      rcases hbiOpen_cases hal port s pHandle pDevCfg with
        ⟨status, -, heq⟩ | ⟨cfg, -, hsuccess, hlimit, heq⟩
      · rw [heq]
        exact hinv
      · rw [heq]
        exact openUser_inv hal port hinv (hinit hsuccess) hlimit cfg
  | close handle =>
      dsimp only [hbiCall]
      rcases hbiClose_cases hal s handle with ⟨status, -, heq⟩ | ⟨i, hvalid, heq⟩
      · rw [heq]
        exact h
      · rw [heq]
        have hi := (HbiDrv.validHandle_eq_some.1 hvalid).2
        exact (closeUser_inv hal h hi).bind fun r hr => hr

theorem start_inv : DriverInv none (HbiDrv.start : HbiDrv lim) :=
  .empty (fun _ => rfl) (fun _ => rfl) rfl rfl fun _ => rfl

theorem hbiMachine_step {ev : HbiEvent lim} {t : HbiDrv lim}
    (h : (hbiMachine lim).step s ev = some t) : ∃ r, hbiCall s ev = .done r ∧ r.1 = t := by
  simp only [hbiMachine] at h
  cases hresult : hbiCall s ev with
  | done r =>
      rw [hresult] at h
      exact ⟨r, rfl, Option.some.inj h⟩
  | fault f => simp [hresult] at h
  | diverges => simp [hresult] at h

theorem step_inv {ev : HbiEvent lim} {t : HbiDrv lim} (h : DriverInv none s)
    (hstep : (hbiMachine lim).step s ev = some t) : DriverInv none t := by
  obtain ⟨r, hr, rfl⟩ := hbiMachine_step hstep
  have hcall := hbiCall_inv h ev
  rw [hr] at hcall
  exact hcall

theorem exec_runs {events : List (HbiEvent lim)} (h : (hbiMachine lim).exec .start events = some s) :
    (hbiMachine lim).Runs (fun _ _ => True) .start events s := by
  have hall : ∀ ev ∈ events, (fun _ => True) ev := fun _ _ => trivial
  exact Machine.runs_of_exec h hall

theorem reachable_inv {events : List (HbiEvent lim)}
    (h : (hbiMachine lim).exec .start events = some s) : DriverInv none s :=
  (exec_runs h).invariant start_inv fun _ _ _ ht _ hstep => step_inv ht hstep

/-! ### The count of initialisations -/

/-- An initialised driver counts at least one initialisation and at most `n`. -/
def CountsInits (n : Nat) (s : HbiDrv lim) : Prop :=
  s.bInitialized = true → 1 ≤ s.initCount ∧ s.initCount ≤ n

theorem CountsInits.mono {n m : Nat} (h : CountsInits n s) (hle : n ≤ m) : CountsInits m s := by
  intro hinit
  have := h hinit
  omega

theorem CountsInits.congr {n : Nat} {t : HbiDrv lim} (h : CountsInits n s)
    (hinit : t.bInitialized = s.bInitialized) (hcount : t.initCount = s.initCount) :
    CountsInits n t := by
  unfold CountsInits
  rw [hinit, hcount]
  exact h

theorem CountsInits.hbiInit {n : Nat} (h : CountsInits n s) (hlt : n + 1 < 2 ^ 32)
    (pCfg : Option Nat) : CountsInits (n + 1) (hbiInit hal s pCfg).1 := by
  unfold VprocSdk.hbiInit
  by_cases hinit : s.bInitialized = true
  · rw [if_pos hinit]
    intro _
    have := h hinit
    dsimp only [incr]
    omega
  · rw [if_neg hinit]
    dsimp only
    split
    · intro hfalse
      simp [HbiDrv.memset] at hfalse
    · intro _
      simp [HbiDrv.memset, incr]

theorem CountsInits.hbiTerm {n : Nat} (h : CountsInits n s) : CountsInits n (hbiTerm hal s).1 := by
  rcases hbiTerm_cases hal s with
    ⟨-, heq⟩ | ⟨hinit, ⟨hcount, heq⟩ | ⟨-, -, heq⟩ | ⟨-, -, ssl, -, heq | ⟨-, initCount, heq⟩⟩⟩
  · rw [heq]
    exact h
  · rw [heq]
    intro _
    have := h hinit
    dsimp only
    omega
  · rw [heq]
    exact h
  · rw [heq]
    exact h.congr rfl rfl
  · rw [heq]
    intro hfalse
    simp at hfalse

theorem CountsInits.openUser {n : Nat} (h : CountsInits n s) (hinv : DriverInv none s)
    (hlimit : s.numInstances < lim.maxInstances) (cfg : DevCfg) :
    (openUser hal port s cfg).Sat fun r => CountsInits n r.1 := by
  rcases openUser_cases hal port hinv hlimit cfg with
    ⟨-, status, -, heq⟩ | ⟨d, i, -, -, -, -, heq⟩ |
    ⟨d, i, p, c, -, -, -, -, -, -, -, -, heq⟩
  · rw [heq]
    exact h
  · rw [heq]
    exact h.congr rfl rfl
  · rw [heq]
    exact h.congr rfl rfl

theorem CountsInits.closeUser {n : Nat} (h : CountsInits n s) (hinv : DriverInv none s)
    {i : Fin lim.maxInstances} (hi : (s.instList i).inuse = true) :
    (closeUser hal s i).Sat fun r => CountsInits n r.1 := by
  rcases closeUser_left hal hinv hi with heq | ⟨-, heq⟩ | ⟨u, -, hinit, hcount, -, -, heq⟩
  · rw [heq]
    trivial
  · rw [heq]
    exact h
  · rw [heq]
    have hleft : CountsInits n u := h.congr hinit hcount
    exact hleft.hbiTerm hal

theorem CountsInits.hbiCall {n : Nat} (h : CountsInits n s) (hinv : DriverInv none s)
    (hlt : n + 1 < 2 ^ 32) (ev : HbiEvent lim) :
    (hbiCall s ev).Sat fun r => CountsInits (n + 1) r.1 := by
  obtain ⟨call, hal, port⟩ := ev
  cases call with
  | init pCfg => exact h.hbiInit hal hlt pCfg
  | term => exact (h.hbiTerm hal).mono (Nat.le_succ n)
  | «open» pHandle pDevCfg =>
      have hinit := h.hbiInit hal hlt none
      dsimp only [VprocSdk.hbiCall]
      rcases hbiOpen_cases hal port s pHandle pDevCfg with
        ⟨status, -, heq⟩ | ⟨cfg, -, -, hlimit, heq⟩
      · rw [heq]
        exact hinit
      · rw [heq]
        exact hinit.openUser hal port (hbiInit_inv hal hinv none).1 hlimit cfg
  | close handle =>
      dsimp only [VprocSdk.hbiCall]
      rcases hbiClose_cases hal s handle with ⟨status, -, heq⟩ | ⟨i, hvalid, heq⟩
      · rw [heq]
        exact h.mono (Nat.le_succ n)
      · rw [heq]
        have hi := (HbiDrv.validHandle_eq_some.1 hvalid).2
        exact (h.closeUser hal hinv hi).bind fun r hr => hr.mono (Nat.le_succ n)

/-- In fewer calls than the count of initialisations can hold, it counts them. -/
theorem countsInits_of_exec {events : List (HbiEvent lim)}
    (h : (hbiMachine lim).exec .start events = some s) (hlen : events.length < 2 ^ 32) :
    CountsInits events.length s := by
  have hrun := exec_runs h
  clear h
  induction hrun with
  | nil =>
      intro hfalse
      simp [HbiDrv.start, HbiDrv.memset] at hfalse
  | @snoc ls ev t u run _ hstep ih =>
      rw [List.length_append, List.length_singleton] at hlen ⊢
      have hcount := ih (by omega)
      have hinv := run.invariant start_inv fun _ _ _ ht _ hstep => step_inv ht hstep
      obtain ⟨r, hr, rfl⟩ := hbiMachine_step hstep
      have hcall := hcount.hbiCall hinv hlen ev
      rw [hr] at hcall
      exact hcall

/-- After every sequence of calls the tables agree, and no call that follows uses an index outside a
table, reads through a missing device, or takes one of the counters of users and devices below zero.
The count of initialisations is positive when it is decremented, unless 2^32 calls have been made. -/
theorem tables_agree {events : List (HbiEvent lim)}
    (h : (hbiMachine lim).exec .start events = some s) :
    TableInv s ∧ (∀ ev f, hbiCall s ev ≠ .fault f) ∧
      (events.length < 2 ^ 32 → s.bInitialized = true → 0 < s.initCount) := by
  have hinv := reachable_inv h
  refine ⟨hinv.tables, ?_, ?_⟩
  · intro ev f hfault
    have hcall := hbiCall_inv hinv ev
    rw [hfault] at hcall
    exact hcall
  · intro hlen hinit
    exact (countsInits_of_exec h hlen hinit).1

def twoByTwo : HbiLimits := ⟨2, 2, by decide⟩

def halOk : Hal := ⟨true, true, true, true⟩

def silentPort (lim : HbiLimits) : HalPort lim := fun _ _ _ => ⟨.ok, []⟩

def working (call : HbiCall) : HbiEvent twoByTwo := (call, halOk, silentPort twoByTwo)

def deviceCfg (deviceId : Int) : DevCfg := ⟨deviceId, none, 0x45, 0, 0⟩

/-- Two users of one device and one of another, then the first leaves and its slot is taken again by a
second user of the other device, with a port that could not be opened in between. -/
def sharedDevices : List (HbiEvent twoByTwo) :=
  [working (.open true (some (deviceCfg 7))), working (.open true (some (deviceCfg 7))),
    (.open true (some (deviceCfg 9)), { halOk with openOk := false }, silentPort twoByTwo),
    working (.open true (some (deviceCfg 9))), working (.close 0),
    working (.open true (some (deviceCfg 9)))]

theorem tables_agree_sharedDevices :
    ∃ s, (hbiMachine twoByTwo).exec .start sharedDevices = some s ∧ s.numInstances = 3 ∧
      TableInv s ∧ (∀ ev f, hbiCall s ev ≠ .fault f) ∧ 0 < s.initCount := by
  have hsome : ((hbiMachine twoByTwo).exec .start sharedDevices).isSome = true := by decide
  have hnum : ((hbiMachine twoByTwo).exec .start sharedDevices).map
      (fun s => (s.numInstances, s.bInitialized)) = some (3, true) := by decide
  obtain ⟨s, hs⟩ := Option.isSome_iff_exists.1 hsome
  rw [hs, Option.map_some, Option.some.injEq, Prod.mk.injEq] at hnum
  obtain ⟨htables, hfault, hcount⟩ := tables_agree hs
  exact ⟨s, hs, hnum.1, htables, hfault, hcount (by decide) hnum.2⟩

end VprocSdk
