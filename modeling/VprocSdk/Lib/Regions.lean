import Mathlib.Data.List.GetD
import Mathlib.Tactic.Common

/-!
# Regions of memory

A memory is a function from addresses to cells. `slice` reads a region of it and `overlay` writes one.
`pieces` cuts a list into parts of one length, which is how a region is handed over in blocks: the
pieces of a region are the regions of its parts.
-/

namespace Lib

universe u

variable {α : Type u}

/-- The `len` cells from `start` on. -/
def slice (m : Nat → α) (start : Nat) : Nat → List α
  | 0 => []
  | len + 1 => m start :: slice m (start + 1) len

@[simp] theorem slice_zero (m : Nat → α) (start : Nat) : slice m start 0 = [] := rfl

@[simp] theorem slice_length (m : Nat → α) (start len : Nat) : (slice m start len).length = len := by
  induction len generalizing start with
  | zero => rfl
  | succ len ih => simp [slice, ih]

theorem slice_add (m : Nat → α) (start len more : Nat) :
    slice m start (len + more) = slice m start len ++ slice m (start + len) more := by
  induction len generalizing start with
  | zero => simp
  | succ len ih =>
      have hlen : len + 1 + more = len + more + 1 := by omega
      have hstart : start + 1 + len = start + (len + 1) := by omega
      rw [hlen]
      simp only [slice, List.cons_append]
      rw [ih, hstart]

theorem slice_congr {m m' : Nat → α} {start start' len : Nat}
    (h : ∀ k < len, m (start + k) = m' (start' + k)) : slice m start len = slice m' start' len := by
  induction len generalizing start start' with
  | zero => rfl
  | succ len ih =>
      have hfirst : m start = m' start' := by simpa using h 0 (by omega)
      have hrest : slice m (start + 1) len = slice m' (start' + 1) len := by
        apply ih
        intro k hk
        have hnext := h (k + 1) (by omega)
        rw [show start + 1 + k = start + (k + 1) by omega,
          show start' + 1 + k = start' + (k + 1) by omega]
        exact hnext
      simp only [slice, hfirst, hrest]

theorem slice_getElem? {m : Nat → α} {start len k : Nat} (h : k < len) :
    (slice m start len)[k]? = some (m (start + k)) := by
  induction len generalizing start k with
  | zero => omega
  | succ len ih =>
      cases k with
      | zero => rfl
      | succ k =>
          rw [slice, List.getElem?_cons_succ, ih (by omega)]
          congr 2
          omega

theorem slice_cell {m m' : Nat → α} {start start' len k : Nat}
    (h : slice m start len = slice m' start' len) (hk : k < len) : m (start + k) = m' (start' + k) := by
  have hcell : (slice m start len)[k]? = some (m (start + k)) := slice_getElem? hk
  rw [h, slice_getElem? hk] at hcell
  exact (Option.some.inj hcell).symm

/-- The memory once a list of cells is written from `start` on. -/
def overlay (m : Nat → α) (start : Nat) (xs : List α) : Nat → α := fun i =>
  if start ≤ i then xs.getD (i - start) (m i) else m i

theorem overlay_before {m : Nat → α} {start i : Nat} {xs : List α} (h : i < start) :
    overlay m start xs i = m i :=
  if_neg (by omega)

@[simp] theorem overlay_nil (m : Nat → α) (start : Nat) : overlay m start [] = m := by
  funext i
  simp [overlay]

theorem overlay_append_apply (m : Nat → α) (start : Nat) (xs ys : List α) (i : Nat) :
    overlay m start (xs ++ ys) i
      = if i < start + xs.length then overlay m start xs i else overlay m (start + xs.length) ys i := by
  unfold overlay
  by_cases hstart : start ≤ i
  · rw [if_pos hstart, if_pos hstart]
    by_cases hfirst : i < start + xs.length
    · rw [if_pos hfirst, List.getD_append _ _ _ _ (by omega)]
    · rw [if_neg hfirst, if_pos (by omega), List.getD_append_right _ _ _ _ (by omega), Nat.sub_sub]
  · rw [if_neg hstart, if_neg hstart, if_pos (by omega)]

theorem overlay_behind {m : Nat → α} {start i : Nat} {xs : List α} (h : start + xs.length ≤ i) :
    overlay m start xs i = m i := by
  rw [overlay, if_pos (by omega), List.getD_eq_default _ _ (by omega)]

theorem overlay_append (m : Nat → α) (start : Nat) (xs ys : List α) :
    overlay (overlay m start xs) (start + xs.length) ys = overlay m start (xs ++ ys) := by
  funext i
  rw [overlay_append_apply]
  by_cases hfirst : i < start + xs.length
  · rw [if_pos hfirst, overlay_before hfirst]
  · rw [if_neg hfirst]
    unfold overlay
    rw [if_pos (by omega), if_pos (by omega), if_pos (by omega),
      List.getD_eq_default xs _ (by omega)]

theorem overlay_append' (m : Nat → α) (start : Nat) (xs ys : List α) :
    overlay (overlay m (start + xs.length) ys) start xs = overlay m start (xs ++ ys) := by
  funext i
  rw [overlay_append_apply]
  by_cases hfirst : i < start + xs.length
  · rw [if_pos hfirst]
    unfold overlay
    by_cases hstart : start ≤ i
    · rw [if_pos hstart, if_pos hstart, List.getD_eq_getElem xs _ (by omega),
        List.getD_eq_getElem xs _ (by omega)]
    · rw [if_neg hstart, if_neg hstart, if_neg (by omega)]
  · rw [if_neg hfirst, overlay_behind (by omega)]

theorem update_eq_overlay (m : Nat → α) (i : Nat) (x : α) : Function.update m i x = overlay m i [x] := by
  funext k
  by_cases hk : k = i
  · rw [hk, Function.update_self, overlay, if_pos (Nat.le_refl i), Nat.sub_self, List.getD_cons_zero]
  · rw [Function.update_of_ne hk]
    by_cases hlt : k < i
    · rw [overlay_before hlt]
    · rw [overlay_behind (by rw [List.length_singleton]; omega)]

theorem slice_overlay (m : Nat → α) (start : Nat) (xs : List α) :
    slice (overlay m start xs) start xs.length = xs := by
  apply List.ext_getElem?
  intro k
  by_cases hk : k < xs.length
  · rw [slice_getElem? hk]
    have hcell : overlay m start xs (start + k) = xs[k] := by
      unfold overlay
      rw [if_pos (by omega), Nat.add_sub_cancel_left, List.getD_eq_getElem _ _ hk]
    rw [hcell, List.getElem?_eq_getElem hk]
  · rw [List.getElem?_eq_none (by simp; omega), List.getElem?_eq_none (by omega)]

theorem slice_overlay_front (m : Nat → α) (start : Nat) (xs ys : List α) :
    slice (overlay m start (xs ++ ys)) start xs.length = xs := by
  have hcells : slice (overlay m start (xs ++ ys)) start xs.length
      = slice (overlay m start xs) start xs.length := by
    apply slice_congr
    intro k hk
    rw [overlay_append_apply, if_pos (by omega)]
  rw [hcells, slice_overlay]

theorem slice_overlay_part {m : Nat → α} {start i len : Nat} {xs : List α} (hstart : start ≤ i)
    (hend : i + len ≤ start + xs.length) :
    slice (overlay m start xs) i len = (xs.drop (i - start)).take len := by
  apply List.ext_getElem?
  intro k
  by_cases hk : k < len
  · have hindex : i + k - start = i - start + k := by omega
    have hcell : overlay m start xs (i + k) = xs[i - start + k] := by
      unfold overlay
      rw [if_pos (by omega), List.getD_eq_getElem _ _ (by omega)]
      simp only [hindex]
    rw [slice_getElem? hk, hcell, List.getElem?_take_of_lt hk, List.getElem?_drop,
      List.getElem?_eq_getElem]
  · rw [List.getElem?_eq_none (by simp; omega), List.getElem?_eq_none (by simp; omega)]

theorem slice_overlay_append {m : Nat → α} {start len : Nat} {xs ys : List α}
    (h : slice m start len = xs) :
    slice (overlay m (start + len) ys) start (len + ys.length) = xs ++ ys := by
  rw [slice_add, slice_overlay, ← h]
  congr 1
  apply slice_congr
  intro k hk
  exact overlay_before (by omega)

/-! ### Pieces -/

/-- The first `n` pieces of length `b`. -/
def pieces (b : Nat) : Nat → List α → List (List α)
  | 0, _ => []
  | n + 1, xs => xs.take b :: pieces b n (xs.drop b)

@[simp] theorem pieces_length (b n : Nat) (xs : List α) : (pieces b n xs).length = n := by
  induction n generalizing xs with
  | zero => rfl
  | succ n ih => simp [pieces, ih]

theorem length_of_mem_pieces {b n : Nat} {xs : List α} (h : xs.length = n * b) :
    ∀ p ∈ pieces b n xs, p.length = b := by
  induction n generalizing xs with
  | zero => simp [pieces]
  | succ n ih =>
      rw [Nat.succ_mul] at h
      intro p hp
      rcases List.mem_cons.1 hp with rfl | hrest
      · rw [List.length_take]
        omega
      · apply ih _ p hrest
        rw [List.length_drop]
        omega

theorem pieces_flatten {b n : Nat} {xs : List α} (h : xs.length = n * b) :
    (pieces b n xs).flatten = xs := by
  induction n generalizing xs with
  | zero =>
      rw [Nat.zero_mul] at h
      rw [List.eq_nil_of_length_eq_zero h]
      rfl
  | succ n ih =>
      rw [Nat.succ_mul] at h
      have hrest : (xs.drop b).length = n * b := by
        rw [List.length_drop]
        omega
      rw [pieces, List.flatten_cons, ih hrest, List.take_append_drop]

theorem pieces_slice (m : Nat → α) (b n start : Nat) :
    pieces b (n + 1) (slice m start ((n + 1) * b))
      = slice m start b :: pieces b n (slice m (start + b) (n * b)) := by
  have hlen : (n + 1) * b = b + n * b := by
    rw [Nat.succ_mul]
    omega
  have hfirst : (slice m start b).length = b := slice_length m start b
  rw [hlen, slice_add, pieces, List.take_append_of_le_length (by omega), List.take_of_length_le
    (by omega), List.drop_append_of_le_length (by omega), List.drop_of_length_le (by omega),
    List.nil_append]

end Lib
