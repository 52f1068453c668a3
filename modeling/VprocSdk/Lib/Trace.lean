import VprocSdk.Lib.Machine

/-!
# Traces of a specification

A specification is a relation between states with a label on every step. `Trace` is its runs. A machine
refines it when every step that it takes from a state in an invariant adds one label to what the machine has
logged, and the specification can take a step with that label between the abstractions of the two states:
then what a run has logged is a trace.
-/

namespace Lib

universe u v w x

variable {A : Type u} {L : Type v}

/-- The runs of a specification with their labels. -/
inductive Trace (spec : A → L → A → Prop) (a : A) : List L → A → Prop
  | nil : Trace spec a [] a
  | snoc {ls : List L} {l : L} {b c : A} (run : Trace spec a ls b) (hstep : spec b l c) :
      Trace spec a (ls ++ [l]) c

namespace Trace

variable {spec : A → L → A → Prop} {a b c : A} {ls ls' : List L} {l : L}

theorem last (h : Trace spec a (ls ++ [l]) c) : ∃ b, Trace spec a ls b ∧ spec b l c := by
  generalize hall : ls ++ [l] = all at h
  cases h with
  | nil => simp at hall
  | snoc run hstep =>
      obtain ⟨rfl, hlast⟩ := List.append_inj' hall rfl
      cases hlast
      exact ⟨_, run, hstep⟩

theorem split (h : Trace spec a (ls ++ ls') c) : ∃ b, Trace spec a ls b ∧ Trace spec b ls' c := by
  induction ls' using List.reverseRecOn generalizing c with
  | nil => exact ⟨c, by simpa using h, .nil⟩
  | append_singleton ls' l ih =>
      rw [← List.append_assoc] at h
      obtain ⟨mid, hbefore, hstep⟩ := h.last
      obtain ⟨b, hfirst, hsecond⟩ := ih hbefore
      exact ⟨b, hfirst, .snoc hsecond hstep⟩

theorem append (h : Trace spec a ls b) (h' : Trace spec b ls' c) : Trace spec a (ls ++ ls') c := by
  induction h' with
  | nil => simpa using h
  | snoc run hstep ih =>
      rw [← List.append_assoc]
      exact .snoc ih hstep

theorem step_at (h : Trace spec a (ls ++ l :: ls') c) :
    ∃ b b', Trace spec a ls b ∧ spec b l b' ∧ Trace spec b' ls' c := by
  rw [List.append_cons] at h
  obtain ⟨b', hfirst, hsecond⟩ := h.split
  obtain ⟨b, hbefore, hstep⟩ := hfirst.last
  exact ⟨b, b', hbefore, hstep, hsecond⟩

/-- What holds at the start and is kept by every step whose label comes after those before it holds at the
end. -/
theorem induct {P : List L → A → Prop} (h : Trace spec a ls c) (hnil : P [] a)
    (hkeep : ∀ pre l suf b b', ls = pre ++ l :: suf → P pre b → spec b l b' → P (pre ++ [l]) b') :
    P ls c := by
  induction ls using List.reverseRecOn generalizing c with
  | nil =>
      generalize hall : ([] : List L) = all at h
      cases h with
      | nil => exact hnil
      | snoc run hstep => simp at hall
  | append_singleton ls l ih =>
      obtain ⟨b, hbefore, hstep⟩ := h.last
      refine hkeep ls l [] b c rfl (ih hbefore fun pre l' suf => ?_) hstep
      intro b b' heq
      exact hkeep pre l' (suf ++ [l]) b b' (by rw [heq, List.append_assoc, List.cons_append])

/-- A specification whose steps are steps of another has its traces. -/
theorem map {B : Type w} {spec' : B → L → B → Prop} (f : A → B)
    (hstep : ∀ a l b, spec a l b → spec' (f a) l (f b)) (h : Trace spec a ls c) :
    Trace spec' (f a) ls (f c) := by
  induction h with
  | nil => exact .nil
  | snoc run hlast ih => exact .snoc ih (hstep _ _ _ hlast)

end Trace

/-- What a machine has logged at the end of a run is a trace of the specification it refines. -/
theorem Machine.trace_of_exec {S : Type w} {E : Type x} {m : Machine S E} (spec : A → L → A → Prop)
    (inv : S → Prop) (abs : S → A) (log : S → List L) {s t : S} {es : List E} (hs : inv s)
    (hlog : log s = [])
    (hstep : ∀ s e t, inv s → e ∈ es → m.step s e = some t →
      inv t ∧ ∃ l, log t = log s ++ [l] ∧ spec (abs s) l (abs t))
    (h : m.exec s es = some t) : inv t ∧ Trace spec (abs s) (log t) (abs t) := by
  induction es using List.reverseRecOn generalizing t with
  | nil =>
      cases h
      rw [hlog]
      exact ⟨hs, .nil⟩
  | append_singleton es e ih =>
      obtain ⟨mid, hmid, hlast⟩ := exec_snoc h
      obtain ⟨hinv, htrace⟩ := ih (fun s e' t hs he' => hstep s e' t hs (List.mem_append_left _ he')) hmid
      obtain ⟨hinv', l, hl, hspec⟩ := hstep mid e t hinv (List.mem_append_right _ List.mem_cons_self) hlast
      rw [hl]
      exact ⟨hinv', .snoc htrace hspec⟩

end Lib
