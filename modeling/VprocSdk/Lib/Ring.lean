import VprocSdk.Lib.Regions

/-!
# Rings

A ring of `cap` cells holds the last elements of a growing list: element `k` is in cell `k % cap`. An index
into the ring rests after the first `total` elements when it is at most `cap` and agrees with `total` modulo
`cap`, so that `0` and `cap` are the same place. A copy that passes the end of the ring is two straight
copies with such a rest between them.
-/

namespace Lib

universe u

variable {α : Type u}

/-- The index `i` is where the element after the first `total` goes. -/
structure RestsAt (cap i total : Nat) : Prop where
  inside : i ≤ cap
  place : i % cap = total % cap

/-- The elements of `xs` from `first` on are in the cells of the ring. -/
def HeldFrom (cap : Nat) (m : Nat → α) (xs : List α) (first : Nat) : Prop :=
  ∀ k, first ≤ k → k < xs.length → some (m (k % cap)) = xs[k]?

variable {cap i total : Nat}

namespace RestsAt

theorem zero (cap : Nat) : RestsAt cap 0 0 := ⟨Nat.zero_le _, rfl⟩

theorem start (h : RestsAt cap cap total) : RestsAt cap 0 total := by
  refine ⟨Nat.zero_le _, ?_⟩
  rw [Nat.zero_mod, ← h.place, Nat.mod_self]

theorem advance (h : RestsAt cap i total) {n : Nat} (hn : i + n ≤ cap) : RestsAt cap (i + n) (total + n) := by
  refine ⟨hn, ?_⟩
  rw [Nat.add_mod, h.place, ← Nat.add_mod]

theorem cell (h : RestsAt cap i total) {k : Nat} (hk : i + k < cap) : (total + k) % cap = i + k := by
  rw [Nat.add_mod, ← h.place, ← Nat.add_mod, Nat.mod_eq_of_lt hk]

end RestsAt

namespace HeldFrom

variable {m : Nat → α} {xs : List α} {first : Nat}

theorem nil (cap : Nat) (m : Nat → α) : HeldFrom cap m [] 0 := by
  intro k _ hk
  simp at hk

theorem mono (h : HeldFrom cap m xs first) {later : Nat} (hlater : first ≤ later) :
    HeldFrom cap m xs later := fun k hk => h k (Nat.le_trans hlater hk)

theorem eq_of_cell {j k : Nat} (hjk : j ≤ k) (hnear : k < j + cap) (hcell : j % cap = k % cap) : j = k := by
  have hgap : (k - j) % cap = 0 := Nat.sub_mod_eq_zero_of_mod_eq hcell.symm
  rw [Nat.mod_eq_of_lt (by omega)] at hgap
  omega

/-- A straight write after the last element keeps those the ring has room for. -/
theorem write (h : HeldFrom cap m xs first) (ys : List α) (hrest : RestsAt cap i xs.length)
    (hfit : i + ys.length ≤ cap) (hroom : xs.length + ys.length ≤ first + cap) :
    HeldFrom cap (overlay m i ys) (xs ++ ys) first := by
  intro k hfirst hk
  rw [List.length_append] at hk
  by_cases hnew : xs.length ≤ k
  · have hcell : k % cap = i + (k - xs.length) := by
      rw [← hrest.cell (by omega), Nat.add_sub_cancel' hnew]
    rw [List.getElem?_append_right hnew, hcell, overlay, if_pos (Nat.le_add_right _ _),
      Nat.add_sub_cancel_left, List.getD_eq_getElem _ _ (by omega), List.getElem?_eq_getElem (by omega)]
  · have hkeep : overlay m i ys (k % cap) = m (k % cap) := by
      by_cases hbefore : k % cap < i
      · exact overlay_before hbefore
      · have hpast : i + ys.length ≤ k % cap := by
          by_contra hin
          have hcell : (xs.length + (k % cap - i)) % cap = k % cap := by
            rw [hrest.cell (by omega)]
            omega
          have hsame : k = xs.length + (k % cap - i) :=
            eq_of_cell (by omega) (by omega) hcell.symm
          omega
        rw [overlay, if_pos (by omega), List.getD_eq_default _ _ (by omega)]
    rw [hkeep, List.getElem?_append_left (by omega)]
    exact h k hfirst (by omega)

/-- A straight read from the oldest element on. -/
theorem read (h : HeldFrom cap m xs first) (hrest : RestsAt cap i first) {n : Nat} (hfit : i + n ≤ cap)
    (hheld : first + n ≤ xs.length) : slice m i n = (xs.drop first).take n := by
  apply List.ext_getElem?
  intro k
  by_cases hk : k < n
  · rw [slice_getElem? hk, List.getElem?_take_of_lt hk, List.getElem?_drop, ← hrest.cell (by omega)]
    exact h (first + k) (by omega) (by omega)
  · rw [List.getElem?_eq_none (by rw [slice_length]; omega), List.getElem?_eq_none
      (by rw [List.length_take]; omega)]

end HeldFrom

end Lib
