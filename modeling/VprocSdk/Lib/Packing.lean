import VprocSdk.Lib.Regions

/-!
# Packing blocks into chunks

Blocks are put one after another into chunks of one size, and a block never crosses the end of a chunk:
it fills what is left of the last chunk, or a whole new one, up to the room it leaves for the next.
`Packed` is what holds of the list so far. When nothing is left, every chunk of it satisfies whatever
the blocks satisfy and concatenation keeps.
-/

namespace Lib

universe u

variable {α : Type u} {size left left' : Nat} {P : List α → Prop} {out block : List α}

theorem pieces_append {n : Nat} {xs ys : List α} (h : xs.length = n * size) (hys : ys.length = size) :
    pieces size (n + 1) (xs ++ ys) = pieces size n xs ++ [ys] := by
  induction n generalizing xs with
  | zero =>
      rw [Nat.zero_mul] at h
      rw [List.eq_nil_of_length_eq_zero h, List.nil_append, pieces, pieces, pieces,
        List.take_of_length_le (by omega), List.nil_append]
  | succ n ih =>
      rw [Nat.succ_mul] at h
      have hrest : (xs.drop size).length = n * size := by
        rw [List.length_drop]
        omega
      rw [pieces, List.take_append_of_le_length (by omega), List.drop_append_of_le_length (by omega),
        ih hrest, pieces, List.cons_append]

/-- The room for the next block: what is left of the last chunk, or a whole one. -/
def roomFor (size left : Nat) : Nat := if left = 0 then size else left

/-- Full chunks, and a last one in which something is left. -/
def Packed (size : Nat) (P : List α → Prop) (out : List α) (left : Nat) : Prop :=
  ∃ n full last, out = full ++ last ∧ full.length = n * size ∧ (∀ chunk ∈ pieces size n full, P chunk) ∧
    P last ∧ (left = 0 ∧ last = [] ∨ 0 < left ∧ last.length + left = size)

theorem packed_nil (hnil : P []) : Packed size P [] 0 :=
  ⟨0, [], [], rfl, by simp, by simp [pieces], hnil, .inl ⟨rfl, rfl⟩⟩

theorem Packed.append (h : Packed size P out left) (happ : ∀ a b, P a → P b → P (a ++ b)) (hnil : P [])
    (hblock : P block) (hfill : block.length + left' = roomFor size left) :
    Packed size P (out ++ block) left' := by
  obtain ⟨n, full, last, rfl, hfull, hchunks, hlast, hleft⟩ := h
  have hlen : (last ++ block).length + left' = size := by
    rw [List.length_append]
    unfold roomFor at hfill
    rcases hleft with ⟨hzero, rfl⟩ | ⟨hpos, hroom⟩
    · rw [if_pos hzero] at hfill
      rw [List.length_nil]
      omega
    · rw [if_neg (by omega)] at hfill
      omega
  have hboth : P (last ++ block) := happ last block hlast hblock
  by_cases hdone : left' = 0
  · have hchunk : (last ++ block).length = size := by omega
    refine ⟨n + 1, full ++ (last ++ block), [], by simp, ?_, ?_, hnil, .inl ⟨hdone, rfl⟩⟩
    · rw [List.length_append, hfull, hchunk, Nat.succ_mul]
    · rw [pieces_append hfull hchunk]
      intro chunk hmem
      rcases List.mem_append.1 hmem with hold | hnew
      · exact hchunks chunk hold
      · rw [List.mem_singleton.1 hnew]
        exact hboth
  · refine ⟨n, full, last ++ block, by simp, hfull, hchunks, hboth, .inr ⟨by omega, hlen⟩⟩

theorem Packed.chunks (h : Packed size P out 0) :
    ∃ n, out.length = n * size ∧ ∀ chunk ∈ pieces size n out, P chunk := by
  obtain ⟨n, full, last, rfl, hfull, hchunks, -, hleft⟩ := h
  rcases hleft with ⟨-, rfl⟩ | ⟨hpos, -⟩
  · rw [List.append_nil]
    exact ⟨n, hfull, hchunks⟩
  · omega

end Lib
