import VprocSdk.Hbi.Types
import VprocSdk.Lib.Machine

/-!
# The direction of arrival on the LED ring

The UI state printer of the sample application tells the board in which state the dialog is. While the user
speaks, a thread shows on the LED ring where the voice comes from: `StartDoa` starts it, `StopDoa` tells it
to end and waits until it has. The two threads take their steps in any order here. A thread object that
still has a thread must not be given another one: that ends the application.

Each state of the dialog makes its calls as if it knew the state before. What the calls need is a matter of
one flag, whether a thread is up, and the flag is a matter of the states printed so far.
-/

namespace VprocSdk

open Lib

/-! ### The LED ring -/

inductive LedMode
  | picture
  | autoPlay (startingFrame : Nat)
  deriving DecidableEq, Repr

/-- The function registers of the LED driver that the board writes. -/
structure LedRing where
  mode : LedMode
  frame : Nat
  autoPlay : Nat × Nat × Nat
  breathControl : Nat × Nat × Nat × Nat
  deriving DecidableEq, Repr

namespace LedRing

def setMode (ring : LedRing) (mode : LedMode) : LedRing := { ring with mode }

def displayFrame (ring : LedRing) (frame : Nat) : LedRing := { ring with frame }

def setAutoPlay (ring : LedRing) (loops frames delay : Nat) : LedRing :=
  { ring with autoPlay := (loops, frames, delay) }

def setBreathControl (ring : LedRing) (enable fadeOutTime fadeInTime extinguishTime : Nat) : LedRing :=
  { ring with breathControl := (enable, fadeOutTime, fadeInTime, extinguishTime) }

end LedRing

/-! ### The board -/

/-- Where `Zle38Avs::Doa` is: it sets the LEDs up, looks at `doaRunning`, goes through the body of its loop,
turns the LEDs off, or has returned. -/
inductive DoaPc
  | setup | test | body | off | returned
  deriving DecidableEq, Repr

/-- What the UI thread does for the board. `joinDoa` is the second half of `StopDoa`. -/
inductive BoardCall
  | dialogState (state : Byte)
  | startDoa | stopDoa | joinDoa
  | startThinking | stopThinking
  | startSpeaking | stopSpeaking
  deriving DecidableEq, Repr

/-- `Zle38Avs` with its LED ring: `doaThread` is where its thread is, if the thread object has one. `calls`
are those the UI thread has still to make for the state it prints. -/
structure Zle38Board where
  doaRunning : Bool
  doaThread : Option DoaPc
  ring : LedRing
  asrState : Byte
  calls : List BoardCall
  aborted : Bool
  deriving DecidableEq, Repr

/-- The board after its constructor, with a LED ring. -/
def Zle38Board.initial : Zle38Board where
  doaRunning := false
  doaThread := none
  ring := ⟨.picture, 0, (0, 0, 0), (0, 0, 0, 0)⟩
  asrState := 0x10
  calls := []
  aborted := false

namespace Zle38Board

variable (b : Zle38Board)

/-- `DialogState`. -/
def setDialogState (state : Byte) : Zle38Board :=
  { b with asrState := if state > 3 ∧ state ≠ 0x10 then 0 else state }

/-- `StartDoa`. Assigning to a thread object that has a thread aborts. -/
def startDoa : Zle38Board :=
  if b.doaThread.isSome then { b with doaRunning := true, aborted := true }
  else { b with doaRunning := true, doaThread := some .setup }

/-- `StopDoa` up to `join`. -/
def stopDoa : Zle38Board :=
  if b.doaRunning then { b with doaRunning := false, calls := .joinDoa :: b.calls } else b

/-- `join`, which waits for the thread to return. -/
def joinDoa : Option Zle38Board :=
  if b.doaThread = some .returned then some { b with doaThread := none } else none

def startThinking : Zle38Board :=
  { b with ring := (b.ring.setAutoPlay 0 3 9).setMode (.autoPlay 3) }

def stopThinking : Zle38Board :=
  { b with ring := (b.ring.setMode .picture).displayFrame 2 }

def startSpeaking : Zle38Board :=
  { b with ring := ((b.ring.setBreathControl 1 4 4 0).setAutoPlay 0 1 0).setMode (.autoPlay 6) }

def stopSpeaking : Zle38Board :=
  { b with ring := ((b.ring.setBreathControl 0 0 0 0).setMode .picture).displayFrame 2 }

/-- The next call of the UI thread; none while it waits, and if it has nothing to do. -/
def uiStep : Option Zle38Board :=
  match b.calls with
  | [] => none
  | call :: calls =>
      let b := { b with calls }
      match call with
      | .dialogState state => some (b.setDialogState state)
      | .startDoa => some b.startDoa
      | .stopDoa => some b.stopDoa
      | .joinDoa => b.joinDoa
      | .startThinking => some b.startThinking
      | .stopThinking => some b.stopThinking
      | .startSpeaking => some b.startSpeaking
      | .stopSpeaking => some b.stopSpeaking

/-- A step of `Doa`. Which frame the body of the loop displays, if any, is up to what it reads from the
device. -/
def doaStep (shown : Option Nat) : Option Zle38Board :=
  match b.doaThread with
  | none | some .returned => none
  | some .setup => some { b with doaThread := some .test }
  | some .test => some { b with doaThread := some (if b.doaRunning then .body else .off) }
  | some .body =>
      some { b with
        doaThread := some .test
        ring := match shown with
          | none => b.ring
          | some frame => b.ring.displayFrame frame }
  | some .off => some { b with doaThread := some .returned, ring := b.ring.displayFrame 2 }

end Zle38Board

/-! ### The printer -/

inductive ConnectionStatus
  | disconnected | pending | connected
  deriving DecidableEq, Repr

/-- `DialogUXState`; `other` stands for the states in which the printer makes no call. -/
inductive DialogUXState
  | idle | listening | thinking | speaking | other
  deriving DecidableEq, Repr

/-- The calls of `UIManager::printState` on the board. -/
def printState : ConnectionStatus × DialogUXState → List BoardCall
  | (.disconnected, _) => []
  | (.pending, _) => [.dialogState 0x10]
  | (.connected, .idle) => [.dialogState 0, .stopDoa, .stopSpeaking]
  | (.connected, .listening) => [.dialogState 1, .stopSpeaking, .startDoa]
  | (.connected, .thinking) => [.dialogState 2, .stopDoa, .startThinking]
  | (.connected, .speaking) => [.dialogState 3, .stopThinking, .startSpeaking]
  | (.connected, .other) => []

/-- A step: the printer is run for a state, the UI thread makes its next call, or `Doa` takes a step. -/
inductive BoardStep
  | print (state : ConnectionStatus × DialogUXState)
  | ui
  | doa (shown : Option Nat)

/-- The printer is run again when it has come to its end, and nothing is once the application is aborted. -/
def boardMachine : Machine Zle38Board BoardStep where
  step b ev :=
    if b.aborted then none
    else
      match ev with
      | .print state => if b.calls = [] then some { b with calls := printState state } else none
      | .ui => b.uiStep
      | .doa shown => b.doaStep shown

def printedStates (steps : List BoardStep) : List (ConnectionStatus × DialogUXState) :=
  steps.filterMap fun
    | .print state => some state
    | .ui | .doa _ => none

/-! ### One thread at most -/

/-- A thread runs `Doa`. -/
def Zle38Board.DoaRuns (b : Zle38Board) : Prop := ∃ pc, b.doaThread = some pc ∧ pc ≠ .returned

/-- The next call of the UI thread starts `Doa` only without an unjoined thread, and puts the ring in thinking
or speaking mode only while no thread runs. -/
def BoardCallSafe (b : Zle38Board) : BoardStep → Prop
  | .ui =>
      (b.calls.head? = some .startDoa → b.doaThread = none) ∧
        (b.calls.head? = some .startThinking ∨ b.calls.head? = some .startSpeaking → ¬ b.DoaRuns)
  | .print _ | .doa _ => True

/-- Every step of every run for these states, as far as it gets, is safe. -/
def RunsSafe (b : Zle38Board) (states : List (ConnectionStatus × DialogUXState)) : Prop :=
  ∀ steps final, boardMachine.exec b steps = some final → printedStates steps <+: states →
    ∀ pre step suf mid, steps = pre ++ step :: suf → boardMachine.exec b pre = some mid →
      BoardCallSafe mid step

/-- While connected the printer goes from listening to listening or speaking only through idle or thinking.
`listening` says whether it has listened since the last idle or thinking. -/
def DialogOrder (listening : Bool) : List (ConnectionStatus × DialogUXState) → Prop
  | [] => True
  | (.connected, .idle) :: states | (.connected, .thinking) :: states => DialogOrder false states
  | (.connected, .listening) :: states => listening = false ∧ DialogOrder true states
  | (.connected, .speaking) :: states => listening = false ∧ DialogOrder listening states
  | (.connected, .other) :: states | (.disconnected, _) :: states | (.pending, _) :: states =>
      DialogOrder listening states

/-! ### The order of the calls -/

/-- Whether a thread is up after a call; none if the call needs that there is none. -/
def callNext (up : Bool) : BoardCall → Option Bool
  | .startDoa => if up then none else some true
  | .startThinking | .startSpeaking => if up then none else some up
  | .stopDoa | .joinDoa => some false
  | .dialogState _ | .stopThinking | .stopSpeaking => some up

def CallOrder (up : Bool) : List BoardCall → Prop
  | [] => True
  | call :: calls => ∃ up', callNext up call = some up' ∧ CallOrder up' calls

theorem callOrder_printed (states : List (ConnectionStatus × DialogUXState)) (up : Bool) :
    CallOrder up (states.flatMap printState) ↔ DialogOrder up states := by
  induction states generalizing up with
  | nil => exact Iff.rfl
  | cons state states ih =>
      obtain ⟨status, dialog⟩ := state
      rw [List.flatMap_cons]
      cases status with
      | disconnected => exact ih up
      | pending => simpa [printState, CallOrder, callNext, DialogOrder] using ih up
      | connected =>
          cases dialog with
          | idle => simpa [printState, CallOrder, callNext, DialogOrder] using ih false
          | listening =>
              cases up with
              | true => simp [printState, CallOrder, callNext, DialogOrder]
              | false => simpa [printState, CallOrder, callNext, DialogOrder] using ih true
          | thinking => simpa [printState, CallOrder, callNext, DialogOrder] using ih false
          | speaking =>
              cases up with
              | true => simp [printState, CallOrder, callNext, DialogOrder]
              | false => simpa [printState, CallOrder, callNext, DialogOrder] using ih false
          | other => exact ih up

/-! ### Between the calls -/

section Board

variable {b t : Zle38Board} {up : Bool} {calls : List BoardCall}
  {states : List (ConnectionStatus × DialogUXState)}

theorem step_print (h : b.aborted = false) (state : ConnectionStatus × DialogUXState) :
    boardMachine.step b (.print state)
      = if b.calls = [] then some { b with calls := printState state } else none :=
  if_neg (by rw [h]; decide)

theorem step_ui (h : b.aborted = false) : boardMachine.step b .ui = b.uiStep :=
  if_neg (by rw [h]; decide)

theorem step_doa (h : b.aborted = false) (shown : Option Nat) :
    boardMachine.step b (.doa shown) = b.doaStep shown :=
  if_neg (by rw [h]; decide)

/-- The UI thread is between two calls, and a thread is up as the flag says: there is none, or one in its
setup or its loop. -/
structure BoardSettled (up : Bool) (b : Zle38Board) : Prop where
  aborted : b.aborted = false
  running : b.doaRunning = up
  thread : if up then b.doaThread = some .setup ∨ b.doaThread = some .test ∨ b.doaThread = some .body
    else b.doaThread = none

theorem BoardSettled.congr (h : BoardSettled up b) (haborted : t.aborted = b.aborted)
    (hrunning : t.doaRunning = b.doaRunning) (hthread : t.doaThread = b.doaThread) : BoardSettled up t where
  aborted := haborted.trans h.aborted
  running := hrunning.trans h.running
  thread := by
    rw [hthread]
    exact h.thread

theorem BoardSettled.none (h : BoardSettled false b) : b.doaThread = none := h.thread

theorem BoardSettled.doaRuns (h : BoardSettled true b) : b.DoaRuns := by
  rcases h.thread with hpc | hpc | hpc
  · exact ⟨_, hpc, by decide⟩
  · exact ⟨_, hpc, by decide⟩
  · exact ⟨_, hpc, by decide⟩

/-- The UI thread waits in `join`. -/
structure Joining (calls : List BoardCall) (b : Zle38Board) : Prop where
  aborted : b.aborted = false
  running : b.doaRunning = false
  calls : b.calls = .joinDoa :: calls
  thread : b.doaThread.isSome = true

theorem ui_settled {call : BoardCall} (h : BoardSettled up b) (hcalls : b.calls = call :: calls)
    (hjoin : call ≠ .joinDoa) {up' : Bool} (hnext : callNext up call = some up') :
    ∃ t, boardMachine.step b .ui = some t ∧
      (BoardSettled up' t ∧ t.calls = calls ∨ up' = false ∧ Joining calls t) := by
  rw [step_ui h.aborted, Zle38Board.uiStep, hcalls]
  cases call with
  | joinDoa => exact absurd rfl hjoin
  | dialogState state =>
      cases hnext
      exact ⟨_, rfl, .inl ⟨h.congr rfl rfl rfl, rfl⟩⟩
  | stopThinking =>
      cases hnext
      exact ⟨_, rfl, .inl ⟨h.congr rfl rfl rfl, rfl⟩⟩
  | stopSpeaking =>
      cases hnext
      exact ⟨_, rfl, .inl ⟨h.congr rfl rfl rfl, rfl⟩⟩
  | startThinking =>
      cases up with
      | true => cases hnext
      | false =>
          cases hnext
          exact ⟨_, rfl, .inl ⟨h.congr rfl rfl rfl, rfl⟩⟩
  | startSpeaking =>
      cases up with
      | true => cases hnext
      | false =>
          cases hnext
          exact ⟨_, rfl, .inl ⟨h.congr rfl rfl rfl, rfl⟩⟩
  | startDoa =>
      cases up with
      | true => cases hnext
      | false =>
          cases hnext
          refine ⟨_, rfl, .inl ?_⟩
          have hnone := h.none
          simp only [Zle38Board.startDoa, hnone, Option.isSome_none, Bool.false_eq_true, if_false]
          exact ⟨⟨h.aborted, rfl, .inl rfl⟩, trivial⟩
  | stopDoa =>
      cases hnext
      refine ⟨_, rfl, ?_⟩
      have hrunning := h.running
      cases up with
      | true =>
          simp only [Zle38Board.stopDoa, hrunning, if_true]
          obtain ⟨pc, hpc, -⟩ := h.doaRuns
          exact .inr ⟨trivial, h.aborted, rfl, rfl, by simp [hpc]⟩
      | false =>
          simp only [Zle38Board.stopDoa, hrunning, Bool.false_eq_true, if_false]
          exact .inl ⟨h.congr rfl hrunning.symm rfl, trivial⟩

theorem boardCallSafe_iff {call : BoardCall} (h : BoardSettled up b) (hcalls : b.calls = call :: calls) :
    BoardCallSafe b .ui ↔ (callNext up call).isSome = true := by
  have hnone : b.doaThread = none ↔ up = false := by
    cases up with
    | false => exact iff_of_true h.none rfl
    | true =>
        obtain ⟨pc, hpc, -⟩ := h.doaRuns
        simp [hpc]
  have hruns : b.DoaRuns ↔ up = true := by
    cases up with
    | false => simp [Zle38Board.DoaRuns, h.none]
    | true => exact iff_of_true h.doaRuns rfl
  cases call <;> cases up <;> simp [BoardCallSafe, hcalls, callNext, hnone, hruns]

theorem ui_steps {call : BoardCall} (h : BoardSettled up b) (hcalls : b.calls = call :: calls)
    (hjoin : call ≠ .joinDoa) : ∃ t, boardMachine.step b .ui = some t := by
  rw [step_ui h.aborted, Zle38Board.uiStep, hcalls]
  cases call with
  | joinDoa => exact absurd rfl hjoin
  | startDoa => exact ⟨_, rfl⟩
  | stopDoa => exact ⟨_, rfl⟩
  | startThinking => exact ⟨_, rfl⟩
  | startSpeaking => exact ⟨_, rfl⟩
  | dialogState state => exact ⟨_, rfl⟩
  | stopThinking => exact ⟨_, rfl⟩
  | stopSpeaking => exact ⟨_, rfl⟩

/-! ### Safe runs -/

/-- What the UI thread still has to do is in order. -/
def CallsInOrder (states : List (ConnectionStatus × DialogUXState)) (b : Zle38Board) : Prop :=
  (∃ up, BoardSettled up b ∧ .joinDoa ∉ b.calls ∧ CallOrder up (b.calls ++ states.flatMap printState)) ∨
    ∃ calls, Joining calls b ∧ .joinDoa ∉ calls ∧ CallOrder false (calls ++ states.flatMap printState)

theorem CallsInOrder.callSafe (h : CallsInOrder states b) (step : BoardStep) : BoardCallSafe b step := by
  cases step with
  | print state => trivial
  | doa shown => trivial
  | ui =>
      rcases h with ⟨up, hsettled, -, horder⟩ | ⟨calls, hjoining, -, -⟩
      · cases hcalls : b.calls with
        | nil => simp [BoardCallSafe, hcalls]
        | cons call calls =>
            rw [hcalls] at horder
            obtain ⟨up', hnext, -⟩ := horder
            rw [boardCallSafe_iff hsettled hcalls, hnext]
            rfl
      · simp [BoardCallSafe, hjoining.calls]

theorem joinDoa_not_printed (state : ConnectionStatus × DialogUXState) : .joinDoa ∉ printState state := by
  obtain ⟨status, dialog⟩ := state
  cases status <;> cases dialog <;> decide

theorem CallsInOrder.print {state : ConnectionStatus × DialogUXState} (h : CallsInOrder (state :: states) b)
    (hstep : boardMachine.step b (.print state) = some t) : CallsInOrder states t := by
  rcases h with ⟨up, hsettled, hjoin, horder⟩ | ⟨calls, hjoining, -, -⟩
  · rw [step_print hsettled.aborted] at hstep
    obtain ⟨hempty, hdone⟩ := Option.ite_none_right_eq_some.1 hstep
    cases hdone
    rw [hempty, List.nil_append, List.flatMap_cons] at horder
    exact .inl ⟨up, hsettled.congr rfl rfl rfl, joinDoa_not_printed state, horder⟩
  · rw [step_print hjoining.aborted, hjoining.calls] at hstep
    cases hstep

theorem CallsInOrder.ui (h : CallsInOrder states b) (hstep : boardMachine.step b .ui = some t) :
    CallsInOrder states t := by
  rcases h with ⟨up, hsettled, hjoin, horder⟩ | ⟨calls, hjoining, hjoin, horder⟩
  · cases hcalls : b.calls with
    | nil =>
        rw [step_ui hsettled.aborted, Zle38Board.uiStep, hcalls] at hstep
        cases hstep
    | cons call calls =>
        rw [hcalls] at hjoin horder
        rw [List.mem_cons, not_or] at hjoin
        obtain ⟨hne, hrest⟩ := hjoin
        obtain ⟨up', hnext, hafter⟩ := horder
        obtain ⟨t', hstep', hdone⟩ := ui_settled hsettled hcalls (Ne.symm hne) hnext
        rw [hstep] at hstep'
        cases hstep'
        rcases hdone with ⟨hsettled', hcalls'⟩ | ⟨rfl, hjoining⟩
        · rw [← hcalls'] at hrest hafter
          exact .inl ⟨up', hsettled', hrest, hafter⟩
        · exact .inr ⟨calls, hjoining, hrest, hafter⟩
  · rw [step_ui hjoining.aborted, Zle38Board.uiStep, hjoining.calls] at hstep
    obtain ⟨-, hdone⟩ := Option.ite_none_right_eq_some.1 hstep
    cases hdone
    exact .inl ⟨false, ⟨hjoining.aborted, hjoining.running, rfl⟩, hjoin, horder⟩

/-- A step of the thread keeps it up, or keeps the UI thread waiting for it. -/
theorem CallsInOrder.doa {shown : Option Nat} (h : CallsInOrder states b)
    (hstep : boardMachine.step b (.doa shown) = some t) : CallsInOrder states t := by
  rcases h with ⟨up, hsettled, hjoin, horder⟩ | ⟨calls, hjoining, hjoin, horder⟩
  · rw [step_doa hsettled.aborted] at hstep
    have hrunning := hsettled.running
    refine .inl ⟨up, ?_⟩
    cases up with
    | false =>
        simp only [Zle38Board.doaStep, hsettled.none] at hstep
        cases hstep
    | true =>
        rcases hsettled.thread with hpc | hpc | hpc
        · simp only [Zle38Board.doaStep, hpc] at hstep
          cases hstep
          exact ⟨⟨hsettled.aborted, hrunning, .inr (.inl rfl)⟩, hjoin, horder⟩
        · simp only [Zle38Board.doaStep, hpc, hrunning] at hstep
          cases hstep
          exact ⟨⟨hsettled.aborted, rfl, .inr (.inr rfl)⟩, hjoin, horder⟩
        · simp only [Zle38Board.doaStep, hpc] at hstep
          cases hstep
          exact ⟨⟨hsettled.aborted, hrunning, .inr (.inl rfl)⟩, hjoin, horder⟩
  · rw [step_doa hjoining.aborted] at hstep
    refine .inr ⟨calls, ?_, hjoin, horder⟩
    obtain ⟨pc, hpc⟩ := Option.isSome_iff_exists.1 hjoining.thread
    cases pc with
    | returned =>
        simp only [Zle38Board.doaStep, hpc] at hstep
        cases hstep
    | setup =>
        simp only [Zle38Board.doaStep, hpc] at hstep
        cases hstep
        exact ⟨hjoining.aborted, hjoining.running, hjoining.calls, rfl⟩
    | test =>
        simp only [Zle38Board.doaStep, hpc] at hstep
        cases hstep
        exact ⟨hjoining.aborted, hjoining.running, hjoining.calls, rfl⟩
    | body =>
        simp only [Zle38Board.doaStep, hpc] at hstep
        cases hstep
        exact ⟨hjoining.aborted, hjoining.running, hjoining.calls, rfl⟩
    | off =>
        simp only [Zle38Board.doaStep, hpc] at hstep
        cases hstep
        exact ⟨hjoining.aborted, hjoining.running, hjoining.calls, rfl⟩

theorem CallsInOrder.safe (h : CallsInOrder states b) : RunsSafe b states := by
  intro steps
  induction steps generalizing b states with
  | nil =>
      intro final hexec hprinted pre step suf mid heq
      simp at heq
  | cons first steps ih =>
      intro final hexec hprinted pre step suf mid heq hmid
      cases pre with
      | nil =>
          cases hmid
          exact h.callSafe step
      | cons first' pre =>
          rw [List.cons_append, List.cons.injEq] at heq
          obtain ⟨rfl, heq⟩ := heq
          rw [Machine.exec] at hexec hmid
          obtain ⟨t, hstep, hrest⟩ := Option.bind_eq_some_iff.1 hexec
          rw [hstep, Option.bind_some] at hmid
          cases first with
          | ui => exact ih (h.ui hstep) final hrest hprinted pre step suf mid heq hmid
          | doa shown => exact ih (h.doa hstep) final hrest hprinted pre step suf mid heq hmid
          | print state =>
              have hprefix : state :: printedStates steps <+: states := hprinted
              obtain ⟨more, rfl⟩ := hprefix
              exact ih (CallsInOrder.print h hstep) final hrest (List.prefix_append _ _) pre step suf mid heq hmid

/-! ### Runs that show what is not safe -/

/-- Without another state printed, the UI thread can come to where no thread is up or one is, as the flag
says, with these calls left. -/
def ComesTo (b : Zle38Board) (up : Bool) (calls : List BoardCall) : Prop :=
  ∃ steps t, boardMachine.exec b steps = some t ∧ printedStates steps = [] ∧ BoardSettled up t ∧ t.calls = calls

theorem BoardSettled.comesTo (h : BoardSettled up b) : ComesTo b up b.calls := ⟨[], b, rfl, rfl, h, rfl⟩

theorem ComesTo.of_ui (h : ComesTo t up calls) (hstep : boardMachine.step b .ui = some t) :
    ComesTo b up calls := by
  obtain ⟨steps, u, hexec, hprinted, hu⟩ := h
  exact ⟨.ui :: steps, u, by rw [Machine.exec, hstep, Option.bind_some, hexec], hprinted, hu⟩

theorem ComesTo.of_doa (h : ComesTo t up calls) (hstep : boardMachine.step b (.doa none) = some t) :
    ComesTo b up calls := by
  obtain ⟨steps, u, hexec, hprinted, hu⟩ := h
  exact ⟨.doa none :: steps, u, by rw [Machine.exec, hstep, Option.bind_some, hexec], hprinted, hu⟩

/-- The thread returns once it is told to, and the UI thread goes on. -/
theorem Joining.comesTo (h : Joining calls b) : ComesTo b false calls := by
  have hreturned : ∀ b, Joining calls b → b.doaThread = some .returned → ComesTo b false calls := by
    intro b h hpc
    have hjoin : boardMachine.step b .ui = some { b with calls, doaThread := none } := by
      rw [step_ui h.aborted, Zle38Board.uiStep, h.calls]
      exact if_pos hpc
    have hsettled : BoardSettled false { b with calls, doaThread := none } := ⟨h.aborted, h.running, rfl⟩
    exact hsettled.comesTo.of_ui hjoin
  have hoff : ∀ b, Joining calls b → b.doaThread = some .off → ComesTo b false calls := by
    intro b h hpc
    refine ComesTo.of_doa (t := { b with doaThread := some .returned, ring := b.ring.displayFrame 2 })
      (hreturned _ ⟨h.aborted, h.running, h.calls, rfl⟩ rfl) ?_
    rw [step_doa h.aborted, Zle38Board.doaStep, hpc]
  have htest : ∀ b, Joining calls b → b.doaThread = some .test → ComesTo b false calls := by
    intro b h hpc
    refine ComesTo.of_doa (t := { b with doaThread := some .off })
      (hoff _ ⟨h.aborted, h.running, h.calls, rfl⟩ rfl) ?_
    rw [step_doa h.aborted, Zle38Board.doaStep, hpc]
    simp [h.running]
  obtain ⟨pc, hpc⟩ := Option.isSome_iff_exists.1 h.thread
  cases pc with
  | returned => exact hreturned b h hpc
  | off => exact hoff b h hpc
  | test => exact htest b h hpc
  | setup =>
      refine ComesTo.of_doa (t := { b with doaThread := some .test })
        (htest _ ⟨h.aborted, h.running, h.calls, rfl⟩ rfl) ?_
      rw [step_doa h.aborted, Zle38Board.doaStep, hpc]
  | body =>
      refine ComesTo.of_doa (t := { b with doaThread := some .test })
        (htest _ ⟨h.aborted, h.running, h.calls, rfl⟩ rfl) ?_
      rw [step_doa h.aborted, Zle38Board.doaStep, hpc]

theorem RunsSafe.after (steps : List BoardStep) (h : RunsSafe b (printedStates steps ++ states))
    (hexec : boardMachine.exec b steps = some t) : RunsSafe t states := by
  intro more final hmore hprinted pre step suf mid heq hmid
  refine h (steps ++ more) final ?_ ?_ (steps ++ pre) step suf mid ?_ ?_
  · rw [Machine.exec_append, hexec, Option.bind_some, hmore]
  · rw [printedStates, List.filterMap_append]
    exact (List.prefix_append_right_inj _).2 hprinted
  · rw [heq, List.append_assoc]
  · rw [Machine.exec_append, hexec, Option.bind_some, hmid]

/-- If all runs are safe, the calls the UI thread has left are in order, and so is what it does after
them. -/
theorem order_of_runsSafe (hdone : ∀ up b, BoardSettled up b → b.calls = [] → RunsSafe b states →
      CallOrder up (states.flatMap printState)) (hcalls : b.calls = calls) (hjoin : .joinDoa ∉ calls)
    (h : BoardSettled up b) (hsafe : RunsSafe b states) : CallOrder up (calls ++ states.flatMap printState) := by
  induction calls generalizing b up with
  | nil => exact hdone up b h hcalls hsafe
  | cons call calls ih =>
      rw [List.mem_cons, not_or] at hjoin
      obtain ⟨hne, hrest⟩ := hjoin
      obtain ⟨t, hstep⟩ := ui_steps h hcalls (Ne.symm hne)
      have hcall : BoardCallSafe b .ui := by
        refine hsafe [.ui] t ?_ List.nil_prefix [] .ui [] b rfl rfl
        rw [Machine.exec, hstep]
        rfl
      obtain ⟨up', hnext⟩ := Option.isSome_iff_exists.1 ((boardCallSafe_iff h hcalls).1 hcall)
      obtain ⟨t', hstep', hended⟩ := ui_settled h hcalls (Ne.symm hne) hnext
      have hcomes : ComesTo b up' calls := by
        rcases hended with ⟨hsettled, hleft⟩ | ⟨rfl, hjoining⟩
        · rw [← hleft]
          exact hsettled.comesTo.of_ui hstep'
        · exact hjoining.comesTo.of_ui hstep'
      obtain ⟨steps, u, hexec, hprinted, hu, hleft⟩ := hcomes
      have hafter : RunsSafe u states := RunsSafe.after steps (by rwa [hprinted]) hexec
      exact ⟨up', hnext, ih hleft hrest hu hafter⟩

theorem callOrder_of_runsSafe (h : BoardSettled up b) (hcalls : b.calls = []) (hsafe : RunsSafe b states) :
    CallOrder up (states.flatMap printState) := by
  induction states generalizing b up with
  | nil => trivial
  | cons state states ih =>
      have hstep : boardMachine.step b (.print state) = some { b with calls := printState state } := by
        rw [step_print h.aborted, if_pos hcalls]
      have hafter : RunsSafe { b with calls := printState state } states := by
        refine RunsSafe.after [.print state] hsafe ?_
        rw [Machine.exec, hstep]
        rfl
      have hprinted : BoardSettled up { b with calls := printState state } := h.congr rfl rfl rfl
      rw [List.flatMap_cons]
      exact order_of_runsSafe (fun up b h hcalls hsafe => ih h hcalls hsafe) rfl
        (joinDoa_not_printed state) hprinted hafter

end Board

/-- However the two threads take their steps, `StartDoa` is only called without an unjoined thread and the
ring only put in thinking or speaking mode while none runs, exactly when the printer goes from listening to
listening or speaking only through idle or thinking. -/
theorem doa_threads_iff (states : List (ConnectionStatus × DialogUXState)) :
    RunsSafe .initial states ↔ DialogOrder false states := by
  have hsettled : BoardSettled false .initial := ⟨rfl, rfl, rfl⟩
  rw [← callOrder_printed]
  constructor
  · intro hsafe
    exact callOrder_of_runsSafe hsettled rfl hsafe
  · intro horder
    have hinorder : CallsInOrder states .initial := .inl ⟨false, hsettled, List.not_mem_nil, horder⟩
    exact hinorder.safe

/-- The connection status changes while the user speaks, so the printer listens twice. -/
theorem listening_twice_unsafe :
    ¬ RunsSafe .initial [(.connected, .listening), (.pending, .listening), (.connected, .listening)] := by
  intro hsafe
  have hstart := (hsafe [.print (.connected, .listening), .ui, .ui, .ui, .print (.pending, .listening), .ui,
    .print (.connected, .listening), .ui, .ui, .ui] _ rfl (List.prefix_refl _)
    [.print (.connected, .listening), .ui, .ui, .ui, .print (.pending, .listening), .ui,
      .print (.connected, .listening), .ui, .ui] .ui [] _ rfl rfl).1 rfl
  cases hstart

end VprocSdk
