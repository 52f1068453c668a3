import VprocSdk.Hbi.FailedOpen
import VprocSdk.Hbi.Undo

/-!
# Closes that fail

`HBI_close` takes its user out of the tables and then calls `HBI_term`, whose refusal it returns. By then the
handle is gone. A close that fails has therefore changed nothing only if it fails before: on its handle, or in
`SSL_port_close` for the last user of a device.

Whether `HBI_term` refuses is a matter of the count of initialisations. Each `HBI_term` a client makes beyond
its own initialisations takes one away from the others.
-/

namespace VprocSdk

open Lib

variable {lim : HbiLimits} {s : HbiDrv lim} (hal : Hal)

/-! ### The port of the last user -/

theorem portOfInt8_far {drv : SslDrv lim} {p : Fin lim.maxNumDevs} (hfar : 128 ≤ p.val) (fuel : Nat) (k : Int)
    (hlow : -128 ≤ k) (hhigh : k ≤ 127) : portOfInt8 drv (portHandleOf p) fuel k = none := by
  induction fuel generalizing k with
  | zero => rfl
  | succ fuel ih =>
      have hlt := p.isLt
      have hnext : portOfInt8 drv (portHandleOf p) fuel (if k = 127 then -128 else k + 1) = none := by
        apply ih
        · split <;> omega
        · split <;> omega
      rw [portOfInt8, if_pos (by omega)]
      by_cases hin : 0 ≤ k ∧ k.toNat < lim.maxNumDevs
      · have htest : (portHandleOf ⟨k.toNat, hin.2⟩ = portHandleOf p &&
            (drv.dev ⟨k.toNat, hin.2⟩).inuse) ≠ true := by
          intro hboth
          rw [Bool.and_eq_true, decide_eq_true_eq] at hboth
          have hsame := congrArg Fin.val (portHandleOf_inj hboth.1)
          dsimp only at hsame
          omega
        rw [dif_pos hin, if_neg htest]
        exact hnext
      · rw [dif_neg hin]
        exact hnext

theorem portOfInt8_near {drv : SslDrv lim} {p : Fin lim.maxNumDevs} (hp : (drv.dev p).inuse = true)
    (hnear : p.val < 128) (fuel : Nat) (k : Int) (hstart : 0 ≤ k) (hk : k ≤ p.val) (hfuel : p.val - k < fuel) :
    portOfInt8 drv (portHandleOf p) fuel k ≠ none := by
  induction fuel generalizing k with
  | zero => omega
  | succ fuel ih =>
      have hlt := p.isLt
      have hin : 0 ≤ k ∧ k.toNat < lim.maxNumDevs := ⟨hstart, by omega⟩
      rw [portOfInt8, if_pos (by omega), dif_pos hin]
      by_cases htest : (portHandleOf ⟨k.toNat, hin.2⟩ = portHandleOf p &&
          (drv.dev ⟨k.toNat, hin.2⟩).inuse) = true
      · rw [if_pos htest]
        exact Option.some_ne_none _
      · have hne : k ≠ p.val := by
          intro heq
          subst heq
          exact htest (by simp [hp])
        rw [if_neg htest, if_neg (by omega)]
        exact ih (k + 1) (by omega) (by omega) (by omega)

theorem portOfInt8_found {drv : SslDrv lim} {p : Fin lim.maxNumDevs} (hp : (drv.dev p).inuse = true)
    (hnear : p.val < 128) : portOfInt8 drv (portHandleOf p) 256 0 = some (some p) := by
  have hends := portOfInt8_near hp hnear 256 0 (by omega) (by omega) (by omega)
  cases hsearch : portOfInt8 drv (portHandleOf p) 256 0 with
  | none => exact absurd hsearch hends
  | some found =>
      cases found with
      | none => exact absurd hsearch (portOfInt8_ne_missing hp 256 0 (by omega))
      | some i => rw [portHandleOf_inj (portOfInt8_some 256 0 hsearch).1]

/-- Closing a port that is open: the search reaches the first 128 entries, and then `hal_close` decides. -/
theorem sslPortClose_eq {drv : SslDrv lim} {p : Fin lim.maxNumDevs} (hinit : drv.initialised = true)
    (hp : (drv.dev p).inuse = true) :
    sslPortClose hal drv (portHandleOf p) =
      if 128 ≤ p.val then none
      else if hal.closeOk = true then some (drv.closed p, .ok)
      else some (drv, .internalErr) := by
  rw [sslPortClose, if_neg (by simp [hinit])]
  by_cases hfar : 128 ≤ p.val
  · rw [if_pos hfar, portOfInt8_far hfar 256 0 (by omega) (by omega)]
  · rw [if_neg hfar, portOfInt8_found hp (by omega)]
    rfl

/-! ### Which closes change something -/

def PortCloses (hal : Hal) (s : HbiDrv lim) (d : Fin lim.maxNumDevs) : Prop :=
  hal.closeOk = true ∧ ∀ p : Fin lim.maxNumDevs, (s.devList d).portHandle = portHandleOf p → p.val < 128

def FailedCloseKeeps (s : HbiDrv lim) : HbiEvent lim → Prop
  | (.close handle, hal, _) => ∀ t status,
      hbiClose hal s handle = .done (t, status) → status ≠ .success → t = s
  | _ => True

/-- The close of a handle that is open stops at the port of the device, or there is an initialisation to give
back: one of several, or the last one with the last user, if `hal_term` succeeds. -/
def CloseHarmless (s : HbiDrv lim) : HbiEvent lim → Prop
  | (.close handle, hal, _) => ∀ i d, s.bInitialized = true → s.validHandle handle = some i →
      (s.instList i).pDev = some d →
        (s.devList d).numCurInstances = 1 ∧ ¬ PortCloses hal s d ∨
          1 < s.initCount ∨ s.numInstances = 1 ∧ hal.termOk = true
  | _ => True

section User

variable {i : Fin lim.maxInstances} {d : Fin lim.maxNumDevs}

theorem closeUser_stays (h : DriverInv none s) (hi : (s.instList i).inuse = true)
    (hpDev : (s.instList i).pDev = some d) (hlast : (s.devList d).numCurInstances = 1)
    (hport : ¬ PortCloses hal s d) :
    closeUser hal s i = .diverges ∨ closeUser hal s i = .done (s, .internalErr) := by
  obtain ⟨d', hd', hinuse⟩ := h.instDev i hi
  obtain rfl : d' = d := Option.some.inj (hd'.symm.trans hpDev)
  obtain ⟨p, c, hhandle, hdev, -⟩ := h.devPort d' hinuse
  have hp : (s.ssl.dev p).inuse = true := by rw [hdev]
  rw [closeUser, hpDev]
  dsimp only
  rw [if_pos hlast, hhandle, sslPortClose_eq hal (h.sslOpen p hp) hp]
  by_cases hfar : 128 ≤ p.val
  · rw [if_pos hfar]
    exact .inl rfl
  · have hfail : hal.closeOk ≠ true := by
      intro hok
      refine hport ⟨hok, ?_⟩
      intro p' hp'
      rw [← portHandleOf_inj (hhandle.symm.trans hp')]
      omega
    rw [if_neg hfar, if_neg hfail]
    exact .inr rfl

theorem Outcome.of_bind_diverges {α β : Type} {o : Outcome α} {f : α → Outcome β}
    (h : o.bind f = .diverges) : o = .diverges ∨ ∃ a, f a = .diverges := by
  cases o with
  | done a => exact .inr ⟨a, h⟩
  | fault _ => cases h
  | diverges => exact .inl rfl

theorem decr_returns (n : Nat) : decr n ≠ .diverges := by
  intro h
  rw [decr] at h
  split at h
  · cases h
  · cases h

theorem removeUser_returns (s : HbiDrv lim) (i : Fin lim.maxInstances) (d : Fin lim.maxNumDevs) :
    removeUser s i d ≠ .diverges := by
  intro h
  dsimp only [removeUser] at h
  split at h
  · cases h
  · rcases Outcome.of_bind_diverges h with hdecr | ⟨n, hrest⟩
    · exact decr_returns _ hdecr
    · rcases Outcome.of_bind_diverges hrest with hdecr | ⟨n', hdone⟩
      · exact decr_returns _ hdecr
      · cases hdone

/-- A close that does not return is in the search of `SSL_port_close`. -/
theorem closeUser_diverges (hpDev : (s.instList i).pDev = some d) (h : closeUser hal s i = .diverges) :
    (s.devList d).numCurInstances = 1 ∧ sslPortClose hal s.ssl (s.devList d).portHandle = none := by
  rw [closeUser, hpDev] at h
  dsimp only at h
  by_cases hlast : (s.devList d).numCurInstances = 1
  · rw [if_pos hlast] at h
    cases hclose : sslPortClose hal s.ssl (s.devList d).portHandle with
    | none => exact ⟨hlast, rfl⟩
    | some r =>
        rw [hclose] at h
        dsimp only at h
        split at h
        · cases h
        · rcases Outcome.of_bind_diverges h with hdecr | ⟨n, hrest⟩
          · exact absurd hdecr (decr_returns _)
          · rcases Outcome.of_bind_diverges hrest with hremove | ⟨u, hdone⟩
            · exact absurd hremove (removeUser_returns _ _ _)
            · cases hdone
  · rw [if_neg hlast] at h
    rcases Outcome.of_bind_diverges h with hremove | ⟨u, hdone⟩
    · exact absurd hremove (removeUser_returns _ _ _)
    · cases hdone

theorem closeUser_leaves (h : DriverInv none s) (hi : (s.instList i).inuse = true)
    (hpDev : (s.instList i).pDev = some d)
    (hgoes : ¬ ((s.devList d).numCurInstances = 1 ∧ ¬ PortCloses hal s d)) :
    ∃ u, DriverInv none u ∧ u.bInitialized = s.bInitialized ∧ u.initCount = s.initCount ∧
      u.ssl.initialised = s.ssl.initialised ∧ u.numInstances + 1 = s.numInstances ∧
      closeUser hal s i = .done (hbiTerm hal u) := by
  obtain ⟨d', hd', hinuse⟩ := h.instDev i hi
  obtain rfl : d' = d := Option.some.inj (hd'.symm.trans hpDev)
  have hcloses : (s.devList d').numCurInstances = 1 → PortCloses hal s d' :=
    fun hlast => not_not.1 fun hnot => hgoes ⟨hlast, hnot⟩
  rcases closeUser_left hal h hi with hdiv | ⟨hfail, hfailed⟩ | hleft
  · obtain ⟨hlast, hsearch⟩ := closeUser_diverges hal hpDev hdiv
    obtain ⟨hok, hnear⟩ := hcloses hlast
    obtain ⟨p, c, hhandle, hdev, -⟩ := h.devPort d' hinuse
    have hp : (s.ssl.dev p).inuse = true := by rw [hdev]
    have hreached := hnear p hhandle
    rw [hhandle, sslPortClose_eq hal (h.sslOpen p hp) hp, if_neg (by omega), if_pos hok] at hsearch
    cases hsearch
  · have hmore : (s.devList d').numCurInstances ≠ 1 := by
      intro hlast
      rw [(hcloses hlast).1] at hfail
      cases hfail
    have hone : 0 < (s.devList d').numCurInstances := h.hasUser d' hinuse (Option.some_ne_none d').symm
    have hnum : 0 < s.numInstances := by
      rw [h.numInstances]
      exact count_pos (p := fun inst : VprocInst lim => inst.inuse = true) hi
    rw [closeUser, hpDev] at hfailed
    dsimp only at hfailed
    rw [if_neg hmore, removeUser_eq (h.devUsers d' hinuse).2 hone hnum, Outcome.bind,
      Outcome.done.injEq] at hfailed
    have hsame := congrArg (fun r => r.1.numInstances) hfailed
    dsimp only at hsame
    rw [(hbiTerm_same hal _).numInstances] at hsame
    exact absurd hsame (by dsimp only [HbiDrv.removed]; omega)
  · exact hleft

theorem failedCloseKeeps_refused {handle : Nat} {status : HbiStatus} (port : HalPort lim)
    (hclose : hbiClose hal s handle = .done (s, status)) :
    FailedCloseKeeps s (.close handle, hal, port) := by
  intro t status' hdone _
  rw [hclose] at hdone
  cases hdone
  rfl

theorem closeHarmless_iff {handle : Nat} (port : HalPort lim) (hinit : s.bInitialized = true)
    (hvalid : s.validHandle handle = some i) (hpDev : (s.instList i).pDev = some d) :
    CloseHarmless s (.close handle, hal, port) ↔
      ((s.devList d).numCurInstances = 1 ∧ ¬ PortCloses hal s d ∨
        1 < s.initCount ∨ s.numInstances = 1 ∧ hal.termOk = true) := by
  constructor
  · intro hall
    exact hall i d hinit hvalid hpDev
  · intro hone i' d' _ hi' hd'
    obtain rfl : i = i' := Option.some.inj (hvalid.symm.trans hi')
    obtain rfl : d = d' := Option.some.inj (hpDev.symm.trans hd')
    exact hone

theorem failedCloseKeeps_close_iff {handle : Nat} (h : DriverInv none s) (port : HalPort lim)
    (hinit : s.bInitialized = true) (hvalid : s.validHandle handle = some i) :
    FailedCloseKeeps s (.close handle, hal, port) ↔ CloseHarmless s (.close handle, hal, port) := by
  have hclose : hbiClose hal s handle = closeUser hal s i := by simp [hbiClose, hinit, hvalid]
  obtain ⟨-, hi⟩ := HbiDrv.validHandle_eq_some.1 hvalid
  obtain ⟨d, hpDev, hinuse⟩ := h.instDev i hi
  have hssl : s.ssl.initialised = true := by
    obtain ⟨p, c, -, hport, -⟩ := h.devPort d hinuse
    exact h.sslOpen p (by rw [hport])
  rw [closeHarmless_iff hal port hinit hvalid hpDev]
  dsimp only [FailedCloseKeeps]
  rw [hclose]
  by_cases hstops : (s.devList d).numCurInstances = 1 ∧ ¬ PortCloses hal s d
  · refine iff_of_true ?_ (.inl hstops)
    intro t status hdone _
    rcases closeUser_stays hal h hi hpDev hstops.1 hstops.2 with hdiv | hfailed
    · rw [hdiv] at hdone
      cases hdone
    · rw [hfailed] at hdone
      cases hdone
      rfl
  · obtain ⟨u, hu, huinit, hcount, hussl, hnum, hleft⟩ := closeUser_leaves hal h hi hpDev hstops
    have hsucceeds := hbiTerm_succeeds_iff hal hu (huinit.trans hinit) (hussl.trans hssl)
    have hone : u.numInstances = 0 ↔ s.numInstances = 1 := by omega
    rw [hcount, hone] at hsucceeds
    rw [or_iff_right hstops, ← hsucceeds, hleft]
    constructor
    · intro hkeeps
      by_contra hfails
      have hsame := congrArg HbiDrv.numInstances
        (hkeeps (hbiTerm hal u).1 (hbiTerm hal u).2 rfl hfails)
      have hleft := (hbiTerm_same hal u).numInstances
      omega
    · intro hsuccess t status hdone hfails
      rw [Outcome.done.injEq] at hdone
      rw [hdone] at hsuccess
      exact absurd hsuccess hfails

end User

/-- A close changes nothing if it fails exactly when it is harmless. -/
theorem failedCloseKeeps_iff (h : DriverInv none s) (ev : HbiEvent lim) :
    FailedCloseKeeps s ev ↔ CloseHarmless s ev := by
  obtain ⟨call, hal, port⟩ := ev
  cases call with
  | init _ | «open» _ _ | term => exact Iff.rfl
  | close handle =>
      cases hinit : s.bInitialized with
      | false =>
          have hclose : hbiClose hal s handle = .done (s, .notInit) := by simp [hbiClose, hinit]
          refine iff_of_true (failedCloseKeeps_refused hal port hclose) ?_
          intro i d htrue
          rw [hinit] at htrue
          cases htrue
      | true =>
          cases hvalid : s.validHandle handle with
          | none =>
              have hclose : hbiClose hal s handle = .done (s, .badHandle) := by
                simp [hbiClose, hinit, hvalid]
              refine iff_of_true (failedCloseKeeps_refused hal port hclose) ?_
              intro i d _ hsome
              rw [hvalid] at hsome
              cases hsome
          | some i => exact failedCloseKeeps_close_iff hal h port hinit hvalid

/-! ### Runs -/

/-- In every state that calls can lead to, a close that fails has changed nothing exactly when it stops at the
port of the last user, or there is an initialisation for it to give back; and so in every run. -/
theorem failed_closes_iff {events : List (HbiEvent lim)}
    (h : (hbiMachine lim).exec .start events = some s) :
    (∀ ev, FailedCloseKeeps s ev ↔ CloseHarmless s ev) ∧
      ((hbiMachine lim).Runs FailedCloseKeeps .start events s ↔
        (hbiMachine lim).Runs CloseHarmless .start events s) := by
  refine ⟨failedCloseKeeps_iff (reachable_inv h), ?_⟩
  constructor
  · intro hruns
    exact runs_mono hruns fun t ev hinv _ => (failedCloseKeeps_iff hinv ev).1
  · intro hruns
    exact runs_mono hruns fun t ev hinv _ => (failedCloseKeeps_iff hinv ev).2

def twoClientsLeave : List (HbiEvent twoByTwo) :=
  [working (.open true (some (deviceCfg 7))), working (.open true (some (deviceCfg 9))),
    working (.close 0), working (.close 1)]

theorem failed_closes_iff_leave : ∃ s, (hbiMachine twoByTwo).exec .start twoClientsLeave = some s ∧
    (hbiMachine twoByTwo).Runs FailedCloseKeeps .start twoClientsLeave s := by
  have hruns : (hbiMachine twoByTwo).Runs CloseHarmless .start twoClientsLeave _ :=
    (((Machine.Runs.nil.snoc trivial rfl).snoc trivial rfl).snoc
      (fun i d _ _ _ => .inr (.inl (by decide))) rfl).snoc
      (fun i d _ _ _ => .inr (.inr (by decide))) rfl
  exact ⟨_, hruns.exec_eq, (failed_closes_iff hruns.exec_eq).2.2 hruns⟩

/-- Two clients open a device each, and one terminates the driver although it has not initialised it. The
close of the other fails, and its handle is closed all the same. -/
theorem failed_close_closes : ∃ s t, (hbiMachine twoByTwo).exec .start
      [working (.open true (some (deviceCfg 7))), working (.open true (some (deviceCfg 9))), working .term]
        = some s ∧
    hbiClose halOk s 0 = .done (t, .invalidState) ∧ s.validHandle 0 = some ⟨0, by decide⟩ ∧
      t.validHandle 0 = none := by
  refine ⟨_, _, rfl, rfl, rfl, rfl⟩

end VprocSdk
