import VprocSdk.Hbi.Calls

/-!
# Opens that fail

`HBI_open` initialises the driver before it checks anything, and only `HBI_close` gives that
initialisation back. An open that fails in a driver that is initialised therefore leaves one
initialisation more than there are users and calls of `HBI_init` to give it back, and `HBI_term` never
reaches `SSL_term` again. The one open that fails without effect is the one whose `HBI_init` fails, and
only in a driver whose tables are still as they were before the first call.
-/

namespace VprocSdk

open Lib

variable {lim : HbiLimits} {s t : HbiDrv lim} (hal : Hal) (port : HalPort lim)

/-! ### Which opens succeed -/

/-- The driver is initialised and accepts the user, or it can be initialised and open its first
device. -/
def OpenAccepted (hal : Hal) (s : HbiDrv lim) (pHandle : Bool) (pDevCfg : Option DevCfg) : Prop :=
  pHandle = true ∧ ∃ cfg, pDevCfg = some cfg ∧
    (s.bInitialized = true ∧ s.numInstances < lim.maxInstances ∧ AcceptsUser hal s cfg ∨
      s.bInitialized = false ∧ 0 < lim.maxInstances ∧ hal.initOk = true ∧ hal.openOk = true)

/-- Where the driver is not initialised, neither is the System Service Layer. -/
def SslFollows (s : HbiDrv lim) : Prop := s.bInitialized = false → s.ssl.initialised = false

/-- The driver that `HBI_init` sets up. -/
def HbiDrv.initial (lim : HbiLimits) : HbiDrv lim :=
  { HbiDrv.start with
    bInitialized := true, initCount := 1, ssl := { SslDrv.cleared with initialised := true } }

theorem hbiInit_again (hinit : s.bInitialized = true) (pCfg : Option Nat) :
    hbiInit hal s pCfg = ({ s with initCount := incr s.initCount }, .success) := by
  simp [hbiInit, hinit]

theorem hbiInit_fails (hfollows : SslFollows s) (hinit : s.bInitialized = false)
    (hhal : hal.initOk = false) (pCfg : Option Nat) :
    hbiInit hal s pCfg = (.start, .internalErr) := by
  have hssl := hfollows hinit
  simp [hbiInit, hinit, HbiDrv.memset, sslInit, hssl, hhal, HbiDrv.start]

theorem hbiInit_first (hfollows : SslFollows s) (hinit : s.bInitialized = false)
    (hhal : hal.initOk = true) (pCfg : Option Nat) :
    hbiInit hal s pCfg = ({ HbiDrv.initial lim with cfgLock := pCfg.getD 0 }, .success) := by
  have hssl := hfollows hinit
  simp [hbiInit, hinit, HbiDrv.memset, sslInit, hssl, hhal, HbiDrv.start, HbiDrv.initial, incr]

theorem acceptsUser_initial (hroom : 0 < lim.maxInstances) (cfg : DevCfg) :
    AcceptsUser hal (HbiDrv.initial lim) cfg ↔ hal.openOk = true := by
  have hdevs : 0 < lim.maxNumDevs := Nat.pos_of_mul_pos_left hroom
  constructor
  · intro hcases
    rcases hcases with ⟨d, hd, -⟩ | ⟨-, -, -, hopen⟩
    · simp [HbiDrv.initial, HbiDrv.start, HbiDrv.memset, VprocDev.cleared] at hd
    · exact hopen
  · intro hopen
    refine .inr ⟨fun d hd => ?_, hdevs, rfl, hopen⟩
    simp [HbiDrv.initial, HbiDrv.start, HbiDrv.memset, VprocDev.cleared] at hd

/-- What `HBI_open` accepts, after its `HBI_init`. -/
theorem openAccepted_iff (hfollows : SslFollows s) (pHandle : Bool) (cfg : DevCfg) :
    OpenAccepted hal s pHandle (some cfg) ↔ pHandle = true ∧ (hbiInit hal s none).2 = .success ∧
      (hbiInit hal s none).1.numInstances < lim.maxInstances ∧
      AcceptsUser hal (hbiInit hal s none).1 cfg := by
  cases hinit : s.bInitialized with
  | true =>
      rw [hbiInit_again hal hinit]
      simp [OpenAccepted, hinit, AcceptsUser]
  | false =>
      cases hhal : hal.initOk with
      | false =>
          rw [hbiInit_fails hal hfollows hinit hhal]
          simp [OpenAccepted, hinit, hhal]
      | true =>
          rw [hbiInit_first hal hfollows hinit hhal]
          constructor
          · intro hboth
            obtain ⟨hhandle, _, -, ⟨hnot, -⟩ | ⟨-, hroom, -, hopen⟩⟩ := hboth
            · simp [hinit] at hnot
            · exact ⟨hhandle, rfl, hroom, (acceptsUser_initial hal hroom cfg).2 hopen⟩
          · intro hboth
            obtain ⟨hhandle, -, hroom, haccepts⟩ := hboth
            exact ⟨hhandle, cfg, rfl, .inr ⟨hinit, hroom, hhal,
              (acceptsUser_initial hal hroom cfg).1 haccepts⟩⟩

/-- An open that is accepted succeeds with one user more. Every other open fails, with the driver as
`HBI_init` left it. -/
theorem hbiOpen_result (h : DriverInv none s) (hfollows : SslFollows s) (pHandle : Bool)
    (pDevCfg : Option DevCfg) :
    (OpenAccepted hal s pHandle pDevCfg ∧ (hbiInit hal s none).2 = .success ∧
      ∃ t handle, hbiOpen hal port s pHandle pDevCfg = .done (t, .success, handle) ∧
        t.bInitialized = (hbiInit hal s none).1.bInitialized ∧
        t.initCount = (hbiInit hal s none).1.initCount ∧
        t.numInstances = (hbiInit hal s none).1.numInstances + 1) ∨
    (¬ OpenAccepted hal s pHandle pDevCfg ∧ ∃ status, status ≠ .success ∧
      hbiOpen hal port s pHandle pDevCfg = .done ((hbiInit hal s none).1, status, none)) := by
  obtain ⟨hinv, hinit⟩ := hbiInit_inv hal h none
  unfold hbiOpen
  dsimp only
  by_cases hstatus : (hbiInit hal s none).2 = .success
  · rw [if_neg (not_not.2 hstatus), if_neg (by simp [hinit hstatus])]
    by_cases hhandle : pHandle = true
    · rw [if_neg (by simp [hhandle])]
      cases pDevCfg with
      | none => exact .inr ⟨by simp [OpenAccepted], .invalidArg, by decide, rfl⟩
      | some cfg =>
          dsimp only
          rw [openAccepted_iff hal hfollows]
          by_cases hlimit : (hbiInit hal s none).1.numInstances ≥ lim.maxInstances
          · exact .inr ⟨by omega, .resourceErr, by decide, if_pos hlimit⟩
          rw [if_neg hlimit]
          have haccepts : AcceptsUser hal (hbiInit hal s none).1 cfg ↔ pHandle = true ∧
              (hbiInit hal s none).2 = .success ∧
              (hbiInit hal s none).1.numInstances < lim.maxInstances ∧
              AcceptsUser hal (hbiInit hal s none).1 cfg :=
            ⟨fun hacc => ⟨hhandle, hstatus, Nat.lt_of_not_ge hlimit, hacc⟩, fun hacc => hacc.2.2.2⟩
          rw [← haccepts]
          rcases openUser_cases hal port hinv (Nat.lt_of_not_ge hlimit) cfg with
            ⟨hnot, hfailed⟩ | ⟨d, i, -, hd, hroom, hid, heq⟩ |
            ⟨d, i, p, c, -, -, -, ⟨hssl, -, hopen⟩, -, hroom, -, hnew, heq⟩
          · exact .inr ⟨hnot, hfailed⟩
          · exact .inl ⟨.inl ⟨d, hd, hid, hroom⟩, hstatus, _, _, heq, rfl, rfl, rfl⟩
          · exact .inl ⟨.inr ⟨hnew, hroom, hssl, hopen⟩, hstatus, _, _, heq, rfl, rfl, rfl⟩
    · exact .inr ⟨fun hacc => hhandle hacc.1, .invalidArg, by decide, if_pos (by simpa using hhandle)⟩
  · refine .inr ⟨?_, _, hstatus, if_pos hstatus⟩
    cases pDevCfg with
    | none => simp [OpenAccepted]
    | some cfg =>
        rw [openAccepted_iff hal hfollows]
        exact fun hacc => hstatus hacc.2.1

/-! ### Which failures leave no trace -/

def FailedOpenKeeps (s : HbiDrv lim) : HbiEvent lim → Prop
  | (.open pHandle pDevCfg, hal, port) => ∀ t status handle,
      hbiOpen hal port s pHandle pDevCfg = .done (t, status, handle) → status ≠ .success → t = s
  | _ => True

/-- An open is accepted, or its `hal_init` fails in a driver that is still as before the first call. -/
def OpenHarmless (s : HbiDrv lim) : HbiEvent lim → Prop
  | (.open pHandle pDevCfg, hal, _) =>
      OpenAccepted hal s pHandle pDevCfg ∨ s = .start ∧ hal.initOk = false
  | _ => True

theorem incr_ne (n : Nat) : incr n ≠ n := by
  unfold incr
  omega

theorem failedOpenKeeps_iff (h : DriverInv none s) (hfollows : SslFollows s) (ev : HbiEvent lim) :
    FailedOpenKeeps s ev ↔ OpenHarmless s ev := by
  obtain ⟨call, hal, port⟩ := ev
  cases call with
  | init _ | close _ | term => exact Iff.rfl
  | «open» pHandle pDevCfg =>
      dsimp only [FailedOpenKeeps, OpenHarmless]
      rcases hbiOpen_result hal port h hfollows pHandle pDevCfg with
        ⟨haccepted, -, t, handle, hopen, -⟩ | ⟨hrefused, status, hstatus, hopen⟩
      · refine ⟨fun _ => .inl haccepted, fun _ t' status' handle' heq hstatus => ?_⟩
        rw [hopen] at heq
        cases heq
        exact (hstatus rfl).elim
      · constructor
        · intro hkeeps
          have hsame := hkeeps _ _ _ hopen hstatus
          cases hinit : s.bInitialized with
          | true =>
              rw [hbiInit_again hal hinit] at hsame
              exact (incr_ne s.initCount (congrArg HbiDrv.initCount hsame)).elim
          | false =>
              cases hhal : hal.initOk with
              | true =>
                  rw [hbiInit_first hal hfollows hinit hhal] at hsame
                  have hset := congrArg HbiDrv.bInitialized hsame
                  rw [hinit] at hset
                  simp [HbiDrv.initial] at hset
              | false =>
                  rw [hbiInit_fails hal hfollows hinit hhal] at hsame
                  exact .inr ⟨hsame.symm, rfl⟩
        · intro hcases t' status' handle' heq _
          rcases hcases with haccepted | ⟨rfl, hhal⟩
          · exact (hrefused haccepted).elim
          · rw [hopen, hbiInit_fails hal (fun _ => rfl) rfl hhal] at heq
            cases heq
            rfl

theorem SslFollows.hbiTerm (hfollows : SslFollows s) : SslFollows (hbiTerm hal s).1 := by
  rcases hbiTerm_cases hal s with
    ⟨-, heq⟩ | ⟨hinit, ⟨-, heq⟩ | ⟨-, -, heq⟩ | ⟨-, -, ssl, -, heq | ⟨hssl, initCount, heq⟩⟩⟩
  · rw [heq]
    exact hfollows
  · rw [heq]
    exact hfollows
  · rw [heq]
    exact hfollows
  · rw [heq]
    intro hfalse
    simp [hinit] at hfalse
  · rw [heq]
    intro _
    exact hssl

theorem SslFollows.hbiInit (hfollows : SslFollows s) (pCfg : Option Nat) :
    SslFollows (hbiInit hal s pCfg).1 := by
  cases hinit : s.bInitialized with
  | true =>
      rw [hbiInit_again hal hinit]
      exact hfollows
  | false =>
      cases hhal : hal.initOk with
      | true =>
          rw [hbiInit_first hal hfollows hinit hhal]
          intro hfalse
          simp [HbiDrv.initial] at hfalse
      | false =>
          rw [hbiInit_fails hal hfollows hinit hhal]
          intro _
          rfl

theorem SslFollows.hbiCall (hfollows : SslFollows s) (h : DriverInv none s) (ev : HbiEvent lim) :
    (hbiCall s ev).Sat fun r => SslFollows r.1 := by
  obtain ⟨call, hal, port⟩ := ev
  cases call with
  | init pCfg => exact hfollows.hbiInit hal pCfg
  | term => exact hfollows.hbiTerm hal
  | «open» pHandle pDevCfg =>
      dsimp only [VprocSdk.hbiCall]
      rcases hbiOpen_result hal port h hfollows pHandle pDevCfg with
        ⟨-, hstatus, t, handle, hopen, hinit, -⟩ | ⟨-, status, -, hopen⟩
      · rw [hopen]
        intro hfalse
        rw [hinit, (hbiInit_inv hal h none).2 hstatus] at hfalse
        simp at hfalse
      · rw [hopen]
        exact hfollows.hbiInit hal none
  | close handle =>
      dsimp only [VprocSdk.hbiCall]
      rcases hbiClose_cases hal s handle with ⟨status, -, heq⟩ | ⟨i, hvalid, heq⟩
      · rw [heq]
        exact hfollows
      · rw [heq]
        have hi := (HbiDrv.validHandle_eq_some.1 hvalid).2
        rcases closeUser_left hal h hi with
          hclose | ⟨-, hclose⟩ | ⟨u, -, hinit, -, hssl, -, hclose⟩
        · rw [hclose]
          trivial
        · rw [hclose]
          exact hfollows
        · rw [hclose]
          have hleft : SslFollows u := by
            unfold SslFollows
            rw [hinit, hssl]
            exact hfollows
          exact hleft.hbiTerm hal

/-! ### What is still owed -/

/-- How many opens and how many calls of `HBI_init` still have an initialisation to give back. -/
structure Owed where
  opens : Nat
  inits : Nat
  deriving DecidableEq

/-- A close or a term gave back its initialisation: `HBI_STATUS_INVALID_STATE` says only that other
users keep the driver. -/
def HbiStatus.givesBack : HbiStatus → Bool
  | .success | .invalidState => true
  | _ => false

def Owed.after (n : Owed) : HbiCall → HbiStatus → Owed
  | .init _, status => if status = .success then { n with inits := n.inits + 1 } else n
  | .open _ _, status => if status = .success then { n with opens := n.opens + 1 } else n
  | .close _, status => if status.givesBack then { n with opens := n.opens - 1 } else n
  | .term, status => if status.givesBack then { n with inits := n.inits - 1 } else n

/-- What is owed after a sequence of calls. -/
def owed : HbiDrv lim → Owed → List (HbiEvent lim) → Owed
  | _, n, [] => n
  | s, n, ev :: events =>
      match hbiCall s ev with
      | .done (t, status, _) => owed t (n.after ev.1 status) events
      | .fault _ | .diverges => n

/-- The driver counts no more initialisations than are owed, and has no more users than opens. -/
structure OwedInv (n : Owed) (s : HbiDrv lim) : Prop where
  counted : s.bInitialized = true →
    1 ≤ n.opens + n.inits ∧ s.initCount ≤ n.opens + n.inits
  users : s.numInstances ≤ n.opens

variable {n n' : Owed}

theorem hbiInit_owed (h : OwedInv n s) (hfollows : SslFollows s) (pCfg : Option Nat) :
    OwedInv (if (hbiInit hal s pCfg).2 = .success then { n with inits := n.inits + 1 } else n)
      (hbiInit hal s pCfg).1 := by
  cases hinit : s.bInitialized with
  | true =>
      rw [hbiInit_again hal hinit, if_pos rfl]
      refine ⟨fun _ => ?_, h.users⟩
      have hcounted := h.counted hinit
      dsimp only [incr]
      omega
  | false =>
      cases hhal : hal.initOk with
      | true =>
          rw [hbiInit_first hal hfollows hinit hhal, if_pos rfl]
          refine ⟨fun _ => ?_, Nat.zero_le _⟩
          dsimp only [HbiDrv.initial]
          omega
      | false =>
          rw [hbiInit_fails hal hfollows hinit hhal, if_neg (by simp)]
          exact ⟨fun hset => by simp [HbiDrv.start, HbiDrv.memset] at hset, Nat.zero_le _⟩

/-- A termination that gives one back keeps the count within what is then owed, and one that does not
changes neither. -/
theorem hbiTerm_owed (hcounted : s.bInitialized = true →
      1 ≤ n.opens + n.inits ∧ s.initCount ≤ n.opens + n.inits)
    (hinstance : s.numOpenedDev ≠ 0 → s.numInstances ≠ 0) (husers : s.numInstances ≤ n'.opens)
    (hopens : n'.opens ≤ n.opens) (hone : n.opens + n.inits ≤ n'.opens + n'.inits + 1) :
    OwedInv (if (hbiTerm hal s).2.givesBack then n' else n) (hbiTerm hal s).1 := by
  rcases hbiTerm_cases hal s with
    ⟨hinit, heq⟩ | ⟨hinit, ⟨hcount, heq⟩ | ⟨hcount, huse, heq⟩ |
      ⟨-, -, ssl, -, heq | ⟨-, initCount, heq⟩⟩⟩
  · rw [heq]
    change OwedInv n' s
    refine ⟨fun hset => ?_, husers⟩
    simp [hinit] at hset
  · rw [heq]
    change OwedInv n' { s with initCount := s.initCount - 1 }
    refine ⟨fun _ => ?_, husers⟩
    have hle := (hcounted hinit).2
    dsimp only
    omega
  · rw [heq]
    change OwedInv n' s
    refine ⟨fun _ => ?_, husers⟩
    have huser : s.numInstances ≠ 0 := huse.elim id hinstance
    omega
  · rw [heq]
    exact ⟨fun _ => hcounted hinit, husers.trans hopens⟩
  · rw [heq]
    exact ⟨fun hset => by simp at hset, husers⟩

/-- A call whose opens leave no trace when they fail keeps the count within what is owed. -/
theorem hbiCall_owed (h : OwedInv n s) (hinv : DriverInv none s) (hfollows : SslFollows s)
    {ev : HbiEvent lim} (hok : OpenHarmless s ev) :
    (hbiCall s ev).Sat fun r => OwedInv (n.after ev.1 r.2.1) r.1 := by
  obtain ⟨call, hal, port⟩ := ev
  cases call with
  | init pCfg => exact hbiInit_owed hal h hfollows pCfg
  | term =>
      have hinits : n.opens + n.inits ≤ n.opens + (n.inits - 1) + 1 := by omega
      exact hbiTerm_owed hal h.counted hinv.hasInstance h.users le_rfl hinits
  | «open» pHandle pDevCfg =>
      dsimp only [hbiCall]
      rcases hbiOpen_result hal port hinv hfollows pHandle pDevCfg with
        ⟨-, hstatus, t, handle, hopen, hinit, hcount, hnum⟩ | ⟨hrefused, status, hstatus, hopen⟩
      · have hmore := hbiInit_owed hal h hfollows none
        rw [if_pos hstatus] at hmore
        rw [hopen]
        constructor
        · intro hset
          have hcounted := hmore.counted (hinit ▸ hset)
          simp only [Owed.after, if_pos, hcount]
          dsimp only at hcounted
          omega
        · have husers := hmore.users
          simp only [Owed.after, if_pos, hnum]
          dsimp only at husers
          omega
      · obtain ⟨rfl, hhal⟩ := hok.resolve_left hrefused
        rw [hopen, hbiInit_fails hal (fun _ => rfl) rfl hhal]
        change OwedInv (if status = .success then _ else n) .start
        rw [if_neg hstatus]
        exact h
  | close handle =>
      dsimp only [hbiCall]
      rcases hbiClose_cases hal s handle with ⟨status, hstatus, heq⟩ | ⟨i, hvalid, heq⟩
      · have hkeeps : status.givesBack = false := by
          rcases hstatus with rfl | rfl <;> rfl
        rw [heq]
        change OwedInv (if status.givesBack then _ else n) s
        rw [if_neg (by simp [hkeeps])]
        exact h
      · rw [heq]
        have hi := (HbiDrv.validHandle_eq_some.1 hvalid).2
        rcases closeUser_left hal hinv hi with
          hclose | ⟨-, hclose⟩ | ⟨u, hu, hinit, hcount, -, hnum, hclose⟩
        · rw [hclose]
          trivial
        · rw [hclose]
          exact h
        · rw [hclose]
          have hpos := h.users
          have hopens : n.opens + n.inits ≤ n.opens - 1 + n.inits + 1 := by omega
          refine hbiTerm_owed hal ?_ hu.hasInstance (by dsimp only; omega) (Nat.sub_le _ _) hopens
          rw [hinit, hcount]
          exact h.counted

/-! ### Runs -/

theorem owed_append {events events' : List (HbiEvent lim)}
    (h : (hbiMachine lim).exec s events = some t) :
    owed s n (events ++ events') = owed t (owed s n events) events' := by
  induction events generalizing s n with
  | nil =>
      obtain rfl : s = t := by simpa [Machine.exec] using h
      rfl
  | cons ev events ih =>
      obtain ⟨u, hstep, hrest⟩ := Option.bind_eq_some_iff.1 h
      obtain ⟨⟨u', status, handle⟩, hr, rfl⟩ := hbiMachine_step hstep
      simp only [List.cons_append, owed, hr]
      exact ih hrest

theorem start_sslFollows : SslFollows (HbiDrv.start : HbiDrv lim) := fun _ => rfl

theorem step_follows {ev : HbiEvent lim} (h : DriverInv none s ∧ SslFollows s)
    (hstep : (hbiMachine lim).step s ev = some t) : DriverInv none t ∧ SslFollows t := by
  refine ⟨step_inv h.1 hstep, ?_⟩
  obtain ⟨r, hr, rfl⟩ := hbiMachine_step hstep
  have hcall := h.2.hbiCall h.1 ev
  rw [hr] at hcall
  exact hcall

section

variable {ok ok' : HbiDrv lim → HbiEvent lim → Prop} {events : List (HbiEvent lim)}

theorem runs_follows (h : (hbiMachine lim).Runs ok .start events s) :
    DriverInv none s ∧ SslFollows s :=
  h.invariant ⟨start_inv, start_sslFollows⟩ fun _ _ _ hinv _ hstep => step_follows hinv hstep

theorem runs_mono (h : (hbiMachine lim).Runs ok .start events s)
    (himp : ∀ t ev, DriverInv none t → SslFollows t → ok t ev → ok' t ev) :
    (hbiMachine lim).Runs ok' .start events s := by
  have hrun := h.with_invariant (fun t => DriverInv none t ∧ SslFollows t)
    ⟨start_inv, start_sslFollows⟩ fun _ _ _ hinv _ hstep => step_follows hinv hstep
  refine hrun.mono ?_
  intro t ev hboth
  obtain ⟨hok, hinv, hfollows⟩ := hboth
  exact himp t ev hinv hfollows hok

end

theorem owed_of_runs {events : List (HbiEvent lim)}
    (h : (hbiMachine lim).Runs OpenHarmless .start events s) :
    OwedInv (owed .start ⟨0, 0⟩ events) s := by
  induction h with
  | nil => exact ⟨fun hset => by simp [HbiDrv.start, HbiDrv.memset] at hset, Nat.zero_le _⟩
  | @snoc events ev t u run hok hstep ih =>
      obtain ⟨hinv, hfollows⟩ := runs_follows run
      obtain ⟨⟨u', status, handle⟩, hr, rfl⟩ := hbiMachine_step hstep
      have hcall := hbiCall_owed ih hinv hfollows hok
      rw [hr] at hcall
      rw [owed_append run.exec_eq]
      simp only [owed, hr]
      exact hcall

/-- In a run every failed open leaves the driver as it was, and the driver is terminated once nothing
is owed, exactly when each open is accepted or fails in `hal_init` before any other call has left
something in the tables. -/
theorem failed_opens_iff (events : List (HbiEvent lim)) (s : HbiDrv lim) :
    ((hbiMachine lim).Runs FailedOpenKeeps .start events s ∧
      (owed .start ⟨0, 0⟩ events = ⟨0, 0⟩ → s.bInitialized = false ∧ s.ssl.initialised = false)) ↔
      (hbiMachine lim).Runs OpenHarmless .start events s := by
  constructor
  · intro hboth
    obtain ⟨hkeeps, -⟩ := hboth
    exact runs_mono hkeeps fun t ev hinv hfollows => (failedOpenKeeps_iff hinv hfollows ev).1
  · intro hharmless
    refine ⟨?_, ?_⟩
    · exact runs_mono hharmless fun t ev hinv hfollows => (failedOpenKeeps_iff hinv hfollows ev).2
    · intro hpaid
      have howed := owed_of_runs hharmless
      rw [hpaid] at howed
      have hterm : s.bInitialized = false := by
        cases hset : s.bInitialized with
        | false => rfl
        | true =>
            have hcounted := (howed.counted hset).1
            dsimp only at hcounted
            omega
      exact ⟨hterm, (runs_follows hharmless).2 hterm⟩

/-- `HBI_init`, an open with a `NULL` handle pointer, and `HBI_term`. -/
def leakyOpen : List (HbiEvent twoByTwo) :=
  [working (.init none), working (.open false (some (deviceCfg 7))), working .term]

/-- The open fails with one initialisation more than before, so the term leaves the driver
initialised. -/
theorem failed_open_leaks :
    (∃ s t, (hbiMachine twoByTwo).exec .start (leakyOpen.take 1) = some s ∧
      hbiOpen halOk (silentPort twoByTwo) s false (some (deviceCfg 7)) = .done (t, .invalidArg, none) ∧
      t ≠ s) ∧
    ∃ s, (hbiMachine twoByTwo).exec .start leakyOpen = some s ∧
      owed .start ⟨0, 0⟩ leakyOpen = ⟨0, 0⟩ ∧ s.bInitialized = true ∧ s.ssl.initialised = true := by
  refine ⟨⟨_, _, rfl, rfl, fun hsame => ?_⟩, _, rfl, rfl, rfl, rfl⟩
  exact absurd (congrArg HbiDrv.initCount hsame) (by decide)

end VprocSdk
