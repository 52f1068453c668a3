import Mathlib.Data.List.Induction
import Mathlib.Tactic.Common

/-!
# Machines and their runs

A machine is a partial step function: in a state it takes a step with a label, or cannot take it.
`exec` follows a list of labels, and `Runs` is the same relation with a condition on every step, a
predicate of the state the step starts in and of its label. What holds at the start and is kept by
every step that meets the condition holds at the end of the run; a statement about all runs is proved
once for one step.
-/

namespace Lib

universe u v

/-- A machine with states `S` and labels `L`. -/
structure Machine (S : Type u) (L : Type v) where
  step : S → L → Option S

namespace Machine

variable {S : Type u} {L : Type v} (m : Machine S L)

def exec : S → List L → Option S
  | s, [] => some s
  | s, l :: ls => (m.step s l).bind fun t => exec t ls

/-- A run from `s` through the labels to the last state, each of whose steps meets `ok`. -/
inductive Runs (ok : S → L → Prop) (s : S) : List L → S → Prop
  | nil : Runs ok s [] s
  | snoc {ls : List L} {l : L} {t u : S} (run : Runs ok s ls t) (hok : ok t l)
      (hstep : m.step t l = some u) : Runs ok s (ls ++ [l]) u

variable {m} {ok ok' : S → L → Prop} {s t u : S} {ls ls' : List L} {l : L}

theorem exec_append : m.exec s (ls ++ ls') = (m.exec s ls).bind fun t => m.exec t ls' := by
  induction ls generalizing s with
  | nil => rfl
  | cons l ls ih =>
      simp only [List.cons_append, exec, Option.bind_assoc]
      exact congrArg _ (funext fun t => ih)

theorem exec_snoc (h : m.exec s (ls ++ [l]) = some u) : ∃ t, m.exec s ls = some t ∧ m.step t l = some u := by
  rw [exec_append] at h
  obtain ⟨t, ht, hlast⟩ := Option.bind_eq_some_iff.1 h
  exact ⟨t, ht, by simpa [exec] using hlast⟩

theorem Runs.mono (h : m.Runs ok s ls t) (himp : ∀ s l, ok s l → ok' s l) : m.Runs ok' s ls t := by
  induction h with
  | nil => exact .nil
  | snoc _ hok hstep ih => exact .snoc ih (himp _ _ hok) hstep

/-- What holds at the start and is kept by every step holds at the end. -/
theorem Runs.invariant {inv : S → Prop} (h : m.Runs ok s ls t) (hs : inv s)
    (hkeep : ∀ t l u, inv t → ok t l → m.step t l = some u → inv u) : inv t := by
  induction h with
  | nil => exact hs
  | snoc _ hok hstep ih => exact hkeep _ _ _ ih hok hstep

theorem Runs.append (h : m.Runs ok s ls t) (h' : m.Runs ok t ls' u) : m.Runs ok s (ls ++ ls') u := by
  induction h' with
  | nil => simpa using h
  | snoc _ hok hstep ih => simpa using Runs.snoc ih hok hstep

theorem runs_of_exec {allowed : L → Prop} (h : m.exec s ls = some t) (hls : ∀ l ∈ ls, allowed l) :
    m.Runs (fun _ l => allowed l) s ls t := by
  induction ls using List.reverseRecOn generalizing t with
  | nil =>
      obtain rfl : s = t := by simpa [Machine.exec] using h
      exact .nil
  | append_singleton ls l ih =>
      obtain ⟨mid, hmid, hstep⟩ := exec_snoc h
      exact .snoc (ih hmid fun l' hl' => hls l' (List.mem_append_left _ hl')) (hls l (by simp)) hstep

/-- Follow a list of labels as long as every step meets a condition that can be evaluated. -/
def execWhile (m : Machine S L) (ok : S → L → Prop) [∀ s l, Decidable (ok s l)] : S → List L → Option S
  | s, [] => some s
  | s, l :: ls => if ok s l then (m.step s l).bind fun t => m.execWhile ok t ls else none

theorem Runs.cons (hok : ok s l) (hstep : m.step s l = some t) (h : m.Runs ok t ls u) :
    m.Runs ok s (l :: ls) u := by
  induction h with
  | nil => exact .snoc .nil hok hstep
  | snoc _ hok' hstep' ih => exact .snoc ih hok' hstep'

theorem runs_of_execWhile [∀ s l, Decidable (ok s l)] (h : m.execWhile ok s ls = some t) :
    m.Runs ok s ls t := by
  induction ls generalizing s with
  | nil =>
      cases h
      exact .nil
  | cons l ls ih =>
      rw [execWhile] at h
      split at h
      · next hok =>
          obtain ⟨mid, hstep, hrest⟩ := Option.bind_eq_some_iff.1 h
          exact .cons hok hstep (ih hrest)
      · cases h

/-- An invariant of a run may be used in the condition on its steps. -/
theorem Runs.with_invariant (h : m.Runs ok s ls t) (inv : S → Prop) (hs : inv s)
    (hkeep : ∀ t l u, inv t → ok t l → m.step t l = some u → inv u) :
    m.Runs (fun t l => ok t l ∧ inv t) s ls t := by
  induction h with
  | nil => exact .nil
  | snoc run hok hstep ih => exact .snoc ih ⟨hok, run.invariant hs hkeep⟩ hstep

theorem Runs.last (h : m.Runs ok s (ls ++ [l]) u) :
    ∃ t, m.Runs ok s ls t ∧ ok t l ∧ m.step t l = some u := by
  generalize hall : ls ++ [l] = all at h
  cases h with
  | nil => simp at hall
  | snoc run hok hstep =>
      obtain ⟨rfl, hlast⟩ := List.append_inj' hall rfl
      cases hlast
      exact ⟨_, run, hok, hstep⟩

theorem Runs.exec_eq (h : m.Runs ok s ls t) : m.exec s ls = some t := by
  induction h with
  | nil => rfl
  | snoc _ _ hstep ih =>
      rw [exec_append, ih]
      simpa [exec] using hstep

theorem Runs.before (h : m.Runs ok s (ls ++ ls') u) : ∃ t, m.Runs ok s ls t := by
  induction ls' using List.reverseRecOn generalizing u with
  | nil => exact ⟨u, by simpa using h⟩
  | append_singleton ls' l ih =>
      rw [← List.append_assoc] at h
      obtain ⟨t, hrun, -⟩ := h.last
      exact ih hrun

theorem step_of_exec {pre suf : List L} (h : m.exec s (pre ++ l :: suf) = some u)
    (hpre : m.exec s pre = some t) : ∃ t', m.step t l = some t' := by
  rw [exec_append, hpre, Option.bind_some, exec] at h
  obtain ⟨t', hstep, -⟩ := Option.bind_eq_some_iff.1 h
  exact ⟨t', hstep⟩

theorem Runs.upto (h : m.Runs ok s (ls ++ ls') u) (ht : m.exec s ls = some t) : m.Runs ok s ls t := by
  obtain ⟨t', hbefore⟩ := h.before
  have hsame := hbefore.exec_eq
  rw [ht] at hsame
  cases hsame
  exact hbefore

theorem runs_iff_steps (h : m.exec s ls = some t) :
    m.Runs ok s ls t ↔
      ∀ pre l suf mid, ls = pre ++ l :: suf → m.exec s pre = some mid → ok mid l := by
  constructor
  · intro hruns pre l suf mid heq hmid
    subst heq
    rw [List.append_cons] at hruns
    obtain ⟨u, hbefore⟩ := hruns.before
    obtain ⟨mid', hpre, hok, -⟩ := hbefore.last
    have hsame := hpre.exec_eq
    rw [hmid] at hsame
    cases hsame
    exact hok
  · intro hall
    induction ls using List.reverseRecOn generalizing t with
    | nil =>
        obtain rfl : s = t := by simpa [exec] using h
        exact .nil
    | append_singleton ls l ih =>
        obtain ⟨mid, hmid, hstep⟩ := exec_snoc h
        refine .snoc (ih hmid ?_) (hall ls l [] mid rfl hmid) hstep
        intro pre l' suf mid' heq
        exact hall pre l' (suf ++ [l]) mid' (by rw [heq, List.append_assoc, List.cons_append])

/-- Where a step from a state in `inv` ends in `P` only under a condition, and under it in `inv` again, the
steps of an execution meet the condition exactly when `P` holds in every state it comes through. -/
theorem runs_iff_of_keeps {inv P : S → Prop} (hs : inv s) (hP : ∀ t, inv t → P t)
    (hkeep : ∀ t l u, inv t → m.step t l = some u → (P u → ok t l) ∧ (ok t l → inv u))
    (h : m.exec s ls = some t) :
    (∀ pre suf mid, ls = pre ++ suf → m.exec s pre = some mid → P mid) ↔ m.Runs ok s ls t := by
  have hinv : ∀ ls t, m.Runs ok s ls t → inv t := fun ls t hrun =>
    hrun.invariant hs fun t l u hinv hok hstep => (hkeep t l u hinv hstep).2 hok
  constructor
  · intro hall
    induction ls using List.reverseRecOn generalizing t with
    | nil =>
        obtain rfl : s = t := by simpa [exec] using h
        exact .nil
    | append_singleton ls l ih =>
        obtain ⟨mid, hmid, hstep⟩ := exec_snoc h
        have hbefore : m.Runs ok s ls mid := by
          apply ih hmid
          intro pre suf mid' hls
          exact hall pre (suf ++ [l]) mid' (by rw [hls, List.append_assoc])
        have hend := hall (ls ++ [l]) [] t (List.append_nil _).symm h
        exact .snoc hbefore ((hkeep mid l t (hinv ls mid hbefore) hstep).1 hend) hstep
  · intro hruns pre suf mid heq hmid
    subst heq
    exact hP mid (hinv pre mid (hruns.upto hmid))

/-- Where a step keeps `inv` exactly under a condition, the steps of an execution meet the condition
exactly when `inv` holds in every state it comes through. -/
theorem runs_iff {inv : S → Prop} (hs : inv s)
    (hkeep : ∀ t l u, inv t → m.step t l = some u → (inv u ↔ ok t l)) (h : m.exec s ls = some t) :
    (∀ pre suf mid, ls = pre ++ suf → m.exec s pre = some mid → inv mid) ↔ m.Runs ok s ls t :=
  runs_iff_of_keeps hs (fun _ hinv => hinv)
    (fun t l u hinv hstep => ⟨(hkeep t l u hinv hstep).1, (hkeep t l u hinv hstep).2⟩) h

end Machine

end Lib
