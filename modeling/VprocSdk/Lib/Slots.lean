import Mathlib.Algebra.Order.BigOperators.Group.Finset
import Mathlib.Data.Finset.Card
import Mathlib.Data.Fintype.Basic
import Mathlib.Data.Fintype.Card
import Mathlib.Data.List.FinRange

/-!
# Tables of slots

A table is a function on a finite type of slots. `count p t` is the number of slots whose entry
satisfies `p`; the lemmas say how it moves when one entry is replaced. `DistinctKeys` says that the slots
in use have different keys. `firstSlot` is the linear search for the first slot that satisfies a test, and
a table with fewer counted slots than slots has one that is not counted. Slots with keys are counted key
by key.
-/

namespace Lib

universe u v w

section Count

variable {ι : Type u} {α : Type v} [Fintype ι]

/-- The number of slots whose entry satisfies `p`. -/
def count (p : α → Prop) [DecidablePred p] (t : ι → α) : Nat :=
  (Finset.univ.filter fun i => p (t i)).card

variable {p : α → Prop} [DecidablePred p] {t t' : ι → α}

theorem count_congr (h : ∀ i, p (t' i) ↔ p (t i)) : count p t' = count p t := by
  unfold count
  simp only [h]

theorem count_eq_zero : count p t = 0 ↔ ∀ i, ¬ p (t i) := by
  simp [count, Finset.filter_eq_empty_iff]

theorem count_pos {i : ι} (h : p (t i)) : 0 < count p t := by
  apply Nat.pos_of_ne_zero
  intro hzero
  exact count_eq_zero.1 hzero i h

theorem exists_not_of_count_lt (h : count p t < Fintype.card ι) : ∃ i, ¬ p (t i) := by
  by_contra hall
  push Not at hall
  have hfull : count p t = Fintype.card ι := by
    simp [count, hall]
  omega

variable [DecidableEq ι] {i : ι} {x : α}

theorem count_update_add (hold : ¬ p (t i)) (hnew : p x) :
    count p (Function.update t i x) = count p t + 1 := by
  have hset : (Finset.univ.filter fun j => p (Function.update t i x j))
      = insert i (Finset.univ.filter fun j => p (t j)) := by
    ext j
    by_cases hj : j = i
    · simp [hj, hnew]
    · simp [hj]
  unfold count
  rw [hset, Finset.card_insert_of_notMem (by simpa using hold)]

theorem count_update_sub (hold : p (t i)) (hnew : ¬ p x) :
    count p (Function.update t i x) + 1 = count p t := by
  have hback := count_update_add (x := t i) (t := Function.update t i x) (i := i) (by simpa using hnew)
    hold
  rw [Function.update_idem, Function.update_eq_self] at hback
  exact hback.symm

theorem count_update_same (h : p x ↔ p (t i)) : count p (Function.update t i x) = count p t := by
  apply count_congr
  intro j
  by_cases hj : j = i
  · simp [hj, h]
  · simp [hj]

theorem count_update : count p (Function.update t i x) + (if p (t i) then 1 else 0)
    = count p t + if p x then 1 else 0 := by
  by_cases hold : p (t i)
  · rw [if_pos hold]
    by_cases hnew : p x
    · rw [if_pos hnew, count_update_same (iff_of_true hnew hold)]
    · rw [if_neg hnew]
      exact count_update_sub hold hnew
  · rw [if_neg hold]
    by_cases hnew : p x
    · rw [if_pos hnew]
      exact count_update_add hold hnew
    · rw [if_neg hnew, count_update_same (iff_of_false hnew hold)]

end Count

/-! ### Counting by key -/

section Fibers

variable {ι : Type u} {α : Type v} {κ : Type w} [Fintype ι] [Fintype κ] [DecidableEq κ]
  {p : α → Prop} [DecidablePred p] {key : α → Option κ} {t : ι → α}

/-- Where every slot that is counted has a key, the slots are counted key by key. -/
theorem count_eq_sum_keys (hkey : ∀ i, p (t i) → ∃ k, key (t i) = some k) :
    count p t = ∑ k, count (fun x => p x ∧ key x = some k) t := by
  have hfibers : ∀ i ∈ Finset.univ.filter fun i => p (t i),
      key (t i) ∈ Finset.univ.map ⟨some, Option.some_injective κ⟩ := by
    intro i hi
    obtain ⟨k, hk⟩ := hkey i (Finset.mem_filter.1 hi).2
    exact Finset.mem_map.2 ⟨k, Finset.mem_univ k, hk.symm⟩
  have hsum := Finset.card_eq_sum_card_fiberwise hfibers
  rw [Finset.sum_map] at hsum
  refine hsum.trans (Finset.sum_congr rfl fun k _ => ?_)
  rw [Finset.filter_filter]
  rfl

/-- With at most `n` slots for a key, as many slots as keys can take leave room for none of them. -/
theorem count_key_full {n : Nat} (hkey : ∀ i, p (t i) → ∃ k, key (t i) = some k)
    (hle : ∀ k, count (fun x => p x ∧ key x = some k) t ≤ n)
    (hfull : n * Fintype.card κ ≤ count p t) (k : κ) :
    count (fun x => p x ∧ key x = some k) t = n := by
  by_contra hne
  have hlt : ∑ k, count (fun x => p x ∧ key x = some k) t < ∑ _k : κ, n :=
    Finset.sum_lt_sum (fun k _ => hle k) ⟨k, Finset.mem_univ k, lt_of_le_of_ne (hle k) hne⟩
  rw [← count_eq_sum_keys hkey, Finset.sum_const_nat fun _ _ => rfl, Finset.card_univ,
    Nat.mul_comm] at hlt
  exact absurd hfull (not_le.2 hlt)

end Fibers

/-! ### Keys -/

section Keys

variable {ι : Type u} {α : Type v} {κ : Type w} {used : α → Prop} {key : α → κ} {t : ι → α}

def DistinctKeys (used : α → Prop) (key : α → κ) (t : ι → α) : Prop :=
  ∀ i j, used (t i) → used (t j) → key (t i) = key (t j) → i = j

variable [DecidableEq ι] {i : ι} {x : α}

theorem DistinctKeys.update_new (h : DistinctKeys used key t) (hnew : ∀ j, used (t j) → key (t j) ≠ key x) :
    DistinctKeys used key (Function.update t i x) := by
  intro j k hj hk heq
  by_cases hji : j = i
  · by_cases hki : k = i
    · rw [hji, hki]
    · rw [Function.update_of_ne hki] at hk heq
      rw [hji, Function.update_self] at heq
      exact absurd heq.symm (hnew k hk)
  · rw [Function.update_of_ne hji] at hj heq
    by_cases hki : k = i
    · rw [hki, Function.update_self] at heq
      exact absurd heq (hnew j hj)
    · rw [Function.update_of_ne hki] at hk heq
      exact h j k hj hk heq

theorem DistinctKeys.update_free (h : DistinctKeys used key t) (hfree : ¬ used x) :
    DistinctKeys used key (Function.update t i x) := by
  have hne : ∀ j, used (Function.update t i x j) → j ≠ i := by
    intro j hj hji
    rw [hji, Function.update_self] at hj
    exact hfree hj
  intro j k hj hk heq
  have hji := hne j hj
  have hki := hne k hk
  rw [Function.update_of_ne hji] at hj heq
  rw [Function.update_of_ne hki] at hk heq
  exact h j k hj hk heq

end Keys

/-! ### The first free slot -/

section Search

variable {n : Nat} {test : Fin n → Bool}

/-- The first slot that passes the test; none when the search runs to the end of the table. -/
def firstSlot (test : Fin n → Bool) : Option (Fin n) := (List.finRange n).find? test

theorem firstSlot_some {i : Fin n} (h : firstSlot test = some i) : test i = true :=
  List.find?_some h

theorem firstSlot_none (h : firstSlot test = none) (i : Fin n) : test i = false := by
  have hall := List.find?_eq_none.1 h i (List.mem_finRange i)
  simpa using hall

theorem firstSlot_isSome {i : Fin n} (h : test i = true) : ∃ j, firstSlot test = some j := by
  cases hfirst : firstSlot test with
  | some j => exact ⟨j, rfl⟩
  | none =>
      have hnone := firstSlot_none hfirst i
      simp [h] at hnone

theorem firstSlot_free {α : Type v} {t : Fin n → α} {inuse : α → Bool}
    (h : count (fun a => inuse a = true) t < n) :
    ∃ i, firstSlot (fun i => !inuse (t i)) = some i ∧ inuse (t i) = false := by
  have hcard : count (fun a => inuse a = true) t < Fintype.card (Fin n) := by
    rw [Fintype.card_fin]
    exact h
  obtain ⟨i, hi⟩ := exists_not_of_count_lt hcard
  have hfree : (!inuse (t i)) = true := by simpa using hi
  obtain ⟨j, hj⟩ : ∃ j, firstSlot (fun i => !inuse (t i)) = some j := firstSlot_isSome hfree
  exact ⟨j, hj, by simpa using firstSlot_some hj⟩

end Search

end Lib
