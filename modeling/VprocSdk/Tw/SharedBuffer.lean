import Mathlib.Data.List.Nodup
import Mathlib.Logic.Function.Basic
import VprocSdk.Lib.Machine
import VprocSdk.Lib.Regions
import VprocSdk.Tw.Access

/-!
# Writes that share the buffer of a device

`internal_hbi_write` copies its frame into the buffer of the device before it takes the port lock. So the
lock orders the transfers of concurrent calls, but not their frames: a call that fills the buffer while
another waits for the lock replaces the frame of that one. `Intact` is what every call relies on, and it
lasts as long as no call writes other bytes over a frame that is still to be sent.
-/

namespace VprocSdk

open Lib

/-- An `HBI_write` that passes the size check. -/
structure WriteCall where
  reg : RegAddr
  data : List Byte
  size_le : data.length ≤ maxAccessSizeInBytes

def WriteCall.frame (call : WriteCall) : List Byte := (BusOp.write call.reg call.data).transfer.1

/-- How far a call has come. -/
inductive WritePhase
  | start
  | filled
  | locked
  | handed
  | done
  deriving DecidableEq, Repr

/-- The buffer and the port lock of a device, how far each call has come, and what the port was handed, with
the call that handed it. -/
structure BufferState where
  buffer : Nat → Byte
  portLock : Option Nat
  phase : Nat → WritePhase
  sent : List (Nat × List Byte)

def BufferState.start (buffer : Nat → Byte) : BufferState :=
  { buffer, portLock := none, phase := fun _ => .start, sent := [] }

def BufferState.setPhase (s : BufferState) (i : Nat) (phase : WritePhase) : BufferState :=
  { s with phase := Function.update s.phase i phase }

inductive WriteStep
  | fill
  | lock
  | hand
  | unlock
  deriving DecidableEq, Repr

/-- The steps of `internal_hbi_write`, each by one of the calls. -/
def deviceWrites (calls : Nat → WriteCall) : Machine BufferState (Nat × WriteStep) where
  step s
    | (i, .fill) =>
        if s.phase i = .start then
          some ({ s with buffer := overlay s.buffer 0 (calls i).frame }.setPhase i .filled)
        else none
    | (i, .lock) =>
        if s.phase i = .filled ∧ s.portLock = none then
          some ({ s with portLock := some i }.setPhase i .locked)
        else none
    | (i, .hand) =>
        if s.phase i = .locked then
          some ({ s with sent := s.sent ++ [(i, slice s.buffer 0 (calls i).frame.length)] }.setPhase i .handed)
        else none
    | (i, .unlock) =>
        if s.phase i = .handed then some ({ s with portLock := none }.setPhase i .done) else none

/-- Between its copy and its transfer a call relies on the buffer. -/
def WritePhase.pending : WritePhase → Bool
  | .filled | .locked => true
  | _ => false

def WritePhase.holds : WritePhase → Bool
  | .locked | .handed => true
  | _ => false

def WritePhase.hasSent : WritePhase → Bool
  | .handed | .done => true
  | _ => false

/-- Every frame handed to the port is that of the call that handed it, which held the lock, and every call
has handed one when it is past its transfer and none before. -/
structure SendsOwn (calls : Nat → WriteCall) (s : BufferState) : Prop where
  lock : ∀ i, (s.phase i).holds = true ↔ s.portLock = some i
  own : ∀ entry ∈ s.sent, entry.2 = (calls entry.1).frame
  once : (s.sent.map Prod.fst).Nodup
  all : ∀ i, i ∈ s.sent.map Prod.fst ↔ (s.phase i).hasSent = true

/-- Two frames are the same as far as both reach. -/
def Agree (xs ys : List Byte) : Prop := ∀ k, k < xs.length → k < ys.length → xs[k]? = ys[k]?

/-- No call fills the buffer while the frame of another is still to be sent, unless the bytes are the
same. -/
def NoOverwrite (calls : Nat → WriteCall) (s : BufferState) : Nat × WriteStep → Prop
  | (i, .fill) => ∀ j, (s.phase j).pending = true → Agree (calls i).frame (calls j).frame
  | _ => True

section Steps

variable {calls : Nat → WriteCall} {s t : BufferState} {i j : Nat}

@[simp] theorem BufferState.setPhase_phase (s : BufferState) (i : Nat) (phase : WritePhase) :
    (s.setPhase i phase).phase = Function.update s.phase i phase := rfl

@[simp] theorem BufferState.setPhase_portLock (s : BufferState) (i : Nat) (phase : WritePhase) :
    (s.setPhase i phase).portLock = s.portLock := rfl

/-- What a step can do. -/
theorem deviceWrites_cases {l : Nat × WriteStep} (h : (deviceWrites calls).step s l = some t) :
    (∃ i, l = (i, .fill) ∧ s.phase i = .start ∧
      t = { s with buffer := overlay s.buffer 0 (calls i).frame }.setPhase i .filled) ∨
    (∃ i, l = (i, .lock) ∧ s.phase i = .filled ∧ s.portLock = none ∧
      t = { s with portLock := some i }.setPhase i .locked) ∨
    (∃ i, l = (i, .hand) ∧ s.phase i = .locked ∧
      t = { s with sent := s.sent ++ [(i, slice s.buffer 0 (calls i).frame.length)] }.setPhase i .handed) ∨
    ∃ i, l = (i, .unlock) ∧ s.phase i = .handed ∧ t = { s with portLock := none }.setPhase i .done := by
  obtain ⟨i, step⟩ := l
  cases step with
  | fill =>
      obtain ⟨hphase, ht⟩ := Option.ite_none_right_eq_some.1 h
      exact .inl ⟨i, rfl, hphase, (Option.some.inj ht).symm⟩
  | lock =>
      obtain ⟨⟨hphase, hfree⟩, ht⟩ := Option.ite_none_right_eq_some.1 h
      exact .inr (.inl ⟨i, rfl, hphase, hfree, (Option.some.inj ht).symm⟩)
  | hand =>
      obtain ⟨hphase, ht⟩ := Option.ite_none_right_eq_some.1 h
      exact .inr (.inr (.inl ⟨i, rfl, hphase, (Option.some.inj ht).symm⟩))
  | unlock =>
      obtain ⟨hphase, ht⟩ := Option.ite_none_right_eq_some.1 h
      exact .inr (.inr (.inr ⟨i, rfl, hphase, (Option.some.inj ht).symm⟩))

/-- What the calls rely on: the frame of each that is still to be sent is in the buffer. -/
def Intact (calls : Nat → WriteCall) (s : BufferState) : Prop :=
  ∀ i, (s.phase i).pending = true → slice s.buffer 0 (calls i).frame.length = (calls i).frame

theorem slice_overlay_agree {m : Nat → Byte} {xs ys : List Byte} (h : slice m 0 ys.length = ys)
    (hagree : Agree xs ys) : slice (overlay m 0 xs) 0 ys.length = ys := by
  apply List.ext_getElem?
  intro k
  by_cases hk : k < ys.length
  · rw [slice_getElem? hk]
    by_cases hx : k < xs.length
    · have hcell : overlay m 0 xs (0 + k) = xs[k] := by
        unfold overlay
        rw [if_pos (by omega), Nat.zero_add, Nat.sub_zero, List.getD_eq_getElem _ _ hx]
      rw [hcell, ← hagree k hx hk, List.getElem?_eq_getElem hx]
    · have hcell : overlay m 0 xs (0 + k) = m (0 + k) := by
        unfold overlay
        rw [if_pos (by omega), Nat.sub_zero, List.getD_eq_default _ _ (by omega)]
      have hold : (slice m 0 ys.length)[k]? = some (m (0 + k)) := slice_getElem? hk
      rw [hcell, ← hold, h]
  · rw [List.getElem?_eq_none (by rw [slice_length]; omega), List.getElem?_eq_none (by omega)]

theorem Intact.step {l : Nat × WriteStep} (h : Intact calls s) (hok : NoOverwrite calls s l)
    (hstep : (deviceWrites calls).step s l = some t) : Intact calls t := by
  intro j hj
  obtain ⟨i, rfl, hphase, rfl⟩ | ⟨i, rfl, hphase, hfree, rfl⟩ | ⟨i, rfl, hphase, rfl⟩ |
    ⟨i, rfl, hphase, rfl⟩ := deviceWrites_cases hstep
  all_goals by_cases hji : j = i
  · subst hji
    exact slice_overlay s.buffer 0 (calls j).frame
  · have hpending : (s.phase j).pending = true := by simpa [hji] using hj
    exact slice_overlay_agree (h j hpending) (hok j hpending)
  · subst hji
    exact h j (by rw [hphase]; rfl)
  · exact h j (by simpa [hji] using hj)
  · simp [hji, WritePhase.pending] at hj
  · exact h j (by simpa [hji] using hj)
  · simp [hji, WritePhase.pending] at hj
  · exact h j (by simpa [hji] using hj)

/-- The lock has one holder, whatever the frames are. -/
theorem SendsOwn.lock_step {l : Nat × WriteStep}
    (h : ∀ i, (s.phase i).holds = true ↔ s.portLock = some i)
    (hstep : (deviceWrites calls).step s l = some t) (j : Nat) :
    (t.phase j).holds = true ↔ t.portLock = some j := by
  have hj := h j
  obtain ⟨i, rfl, hphase, rfl⟩ | ⟨i, rfl, hphase, hfree, rfl⟩ | ⟨i, rfl, hphase, rfl⟩ |
    ⟨i, rfl, hphase, rfl⟩ := deviceWrites_cases hstep
  all_goals
    have hi := h i
    rw [hphase] at hi
    by_cases hji : j = i
  · subst hji
    simpa [WritePhase.holds] using hi
  · simpa [hji] using hj
  · subst hji
    simp [WritePhase.holds]
  · have hother : ¬ i = j := fun hij => hji hij.symm
    rw [hfree] at hj
    simpa [hji, hother] using hj
  · subst hji
    simpa [WritePhase.holds] using hi
  · simpa [hji] using hj
  · subst hji
    simp [WritePhase.holds]
  · have hheld : s.portLock = some i := hi.1 rfl
    have hother : ¬ i = j := fun hij => hji hij.symm
    rw [hheld] at hj
    simpa [hji, hother] using hj

theorem hasSent_setPhase {phase : WritePhase} (h : phase.hasSent = (s.phase i).hasSent) (j : Nat) :
    ((s.setPhase i phase).phase j).hasSent = (s.phase j).hasSent := by
  by_cases hji : j = i
  · subst hji
    rw [BufferState.setPhase_phase, Function.update_self, h]
  · rw [BufferState.setPhase_phase, Function.update_of_ne hji]

/-- Only a transfer hands something to the port, and it does so for one call. -/
theorem sent_step {l : Nat × WriteStep} (hstep : (deviceWrites calls).step s l = some t) :
    (t.sent = s.sent ∧ ∀ j, (t.phase j).hasSent = (s.phase j).hasSent) ∨
    ∃ i, s.phase i = .locked ∧ t.sent = s.sent ++ [(i, slice s.buffer 0 (calls i).frame.length)] ∧
      ∀ j, (t.phase j).hasSent = true ↔ (s.phase j).hasSent = true ∨ j = i := by
  obtain ⟨i, rfl, hphase, rfl⟩ | ⟨i, rfl, hphase, hfree, rfl⟩ | ⟨i, rfl, hphase, rfl⟩ |
    ⟨i, rfl, hphase, rfl⟩ := deviceWrites_cases hstep
  · refine .inl ⟨rfl, hasSent_setPhase ?_⟩
    simp only [hphase, WritePhase.hasSent]
  · refine .inl ⟨rfl, hasSent_setPhase ?_⟩
    simp only [hphase, WritePhase.hasSent]
  · refine .inr ⟨i, hphase, rfl, ?_⟩
    intro j
    by_cases hji : j = i
    · subst hji
      simp [WritePhase.hasSent]
    · simp [hji]
  · refine .inl ⟨rfl, hasSent_setPhase ?_⟩
    simp only [hphase, WritePhase.hasSent]

theorem SendsOwn.step {l : Nat × WriteStep} (h : SendsOwn calls s) (hintact : Intact calls s)
    (hstep : (deviceWrites calls).step s l = some t) : SendsOwn calls t := by
  rcases sent_step hstep with ⟨hsent, hphases⟩ | ⟨i, hphase, hsent, hphases⟩
  · refine ⟨lock_step h.lock hstep, ?_, ?_, ?_⟩
    · rw [hsent]
      exact h.own
    · rw [hsent]
      exact h.once
    · intro j
      rw [hsent, hphases]
      exact h.all j
  · have hframe := hintact i (by rw [hphase]; rfl)
    have hnew : i ∉ s.sent.map Prod.fst := by
      rw [h.all, hphase]
      decide
    rw [hframe] at hsent
    refine ⟨lock_step h.lock hstep, ?_, ?_, ?_⟩
    · intro entry hentry
      rw [hsent] at hentry
      rcases List.mem_append.1 hentry with hold | hlast
      · exact h.own entry hold
      · rw [List.mem_singleton.1 hlast]
    · rw [hsent, List.map_append, List.nodup_append]
      refine ⟨h.once, List.nodup_singleton i, ?_⟩
      intro j hj k hk hjk
      rw [hjk, List.mem_singleton.1 hk] at hj
      exact hnew hj
    · intro j
      rw [hsent, List.map_append, List.mem_append, h.all, hphases]
      simp

theorem sendsOwn_start (buffer : Nat → Byte) : SendsOwn calls (.start buffer) := by
  refine ⟨?_, ?_, ?_, ?_⟩
  · intro i
    simp [BufferState.start, WritePhase.holds]
  · intro entry hentry
    cases hentry
  · exact List.nodup_nil
  · intro i
    simp [BufferState.start, WritePhase.hasSent]

end Steps

/-- In a run in which no call writes over the frame of another, every call sends its own frame, once. -/
theorem writes_send_own (calls : Nat → WriteCall) (buffer : Nat → Byte) (ls : List (Nat × WriteStep))
    (s : BufferState) (h : (deviceWrites calls).Runs (NoOverwrite calls) (.start buffer) ls s) :
    SendsOwn calls s := by
  have hstart : SendsOwn calls (.start buffer) ∧ Intact calls (.start buffer) := by
    refine ⟨sendsOwn_start buffer, ?_⟩
    intro i hi
    cases hi
  have hkeep : ∀ s l t, (SendsOwn calls s ∧ Intact calls s) → NoOverwrite calls s l →
      (deviceWrites calls).step s l = some t → SendsOwn calls t ∧ Intact calls t := by
    intro s l t hboth hok hstep
    obtain ⟨hown, hintact⟩ := hboth
    exact ⟨hown.step hintact hstep, hintact.step hok hstep⟩
  exact (h.invariant hstart hkeep).1

/-- Two calls, on two registers. -/
def twoWrites : Nat → WriteCall
  | 0 => ⟨0x200, [0x12, 0x34], by decide⟩
  | _ => ⟨0x300, [0x56, 0x78], by decide⟩

theorem writes_send_own_twoWrites : ∃ s, SendsOwn twoWrites s ∧
    s.sent = [(0, (twoWrites 0).frame), (1, (twoWrites 1).frame)] := by
  have hfirst : (deviceWrites twoWrites).Runs (NoOverwrite twoWrites) (.start fun _ => 0)
      [(0, .fill), (0, .lock), (0, .hand)] _ :=
    .snoc (.snoc (.snoc .nil (fun _ hj => absurd hj Bool.false_ne_true) rfl) trivial rfl) trivial rfl
  refine ⟨_, writes_send_own twoWrites (fun _ => 0) _ _
    (.snoc (l := (1, WriteStep.hand)) (.snoc (l := (1, WriteStep.lock)) (.snoc (l := (0, WriteStep.unlock))
      (.snoc (l := (1, WriteStep.fill)) hfirst ?_ rfl) trivial rfl) trivial rfl) trivial rfl), rfl⟩
  intro j hj
  by_cases hzero : j = 0
  · subst hzero
    cases hj
  · simp [hzero, BufferState.start, WritePhase.pending] at hj

/-- Both calls fill the buffer before the first takes the lock: the second frame is sent twice. -/
theorem frame_sent_twice : ∃ s,
    (deviceWrites twoWrites).exec (.start fun _ => 0) [(0, .fill), (1, .fill), (0, .lock), (0, .hand),
      (0, .unlock), (1, .lock), (1, .hand), (1, .unlock)] = some s ∧
    s.sent = [(0, (twoWrites 1).frame), (1, (twoWrites 1).frame)] ∧ ¬ SendsOwn twoWrites s := by
  refine ⟨_, rfl, rfl, ?_⟩
  intro h
  have hown := h.own (0, (twoWrites 1).frame) List.mem_cons_self
  exact absurd hown (by decide)

end VprocSdk
