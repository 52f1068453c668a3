import Mathlib.Algebra.BigOperators.Group.List.Basic
import VprocSdk.Hbi.Types
import VprocSdk.Lib.Regions

/-!
# The dump of the last register read

`hbi_proc_reg_rd_dump` prints the bytes of the stored transaction into a buffer of 512 bytes, in
hexadecimal and with a tab behind each. It looks at the room once for each byte, and a byte takes two or
three characters. Whether the dump fits is a matter of how the widths of the bytes add up.
-/

namespace VprocSdk

open Lib

/-- Bytes stored in a buffer, oldest first, each with its index. -/
abbrev Stores := List (Nat × Byte)

def chr (c : Char) : Byte := BitVec.ofNat 8 c.toNat

def Stores.applied (stores : Stores) (buf : Nat → Byte) : Nat → Byte :=
  stores.foldl (fun m store => Function.update m store.1 store.2) buf

/-! ### `htoa` -/

/-- The first loop of `htoa`: the number of hexadecimal digits of `tmp`. A 32-bit number is zero after
eight divisions. -/
def hexDigits : Nat → Nat → Nat
  | 0, _ => 0
  | fuel + 1, tmp => if tmp = 0 then 0 else hexDigits fuel (tmp / 16) + 1

def htoaDigit (d : Nat) : Byte := if d ≥ 10 then BitVec.ofNat 8 (d - 10) + chr 'A' else BitVec.ofNat 8 d + chr '0'

/-- The second loop of `htoa`, from the last digit to the first. -/
def htoaLoop (index : Nat) : Nat → Nat → Stores
  | 0, _ => []
  | len + 1, num => (len + 1 + index - 1, htoaDigit (num &&& 0xF)) :: htoaLoop index len (num >>> 4)

/-- `htoa`: the bytes stored, and the index behind them. -/
def htoa (num index : Nat) : Stores × Nat :=
  let len := if num = 0 then 1 else hexDigits 8 num
  (htoaLoop index len num, index + len)

/-! ### The dump -/

/-- `hbi_rw`. -/
structure HbiRw where
  buf : Nat → Byte
  len : Nat

/-- The size of `kbuf`. -/
def dumpBufSize : Nat := 512

/-- The loop of `hbi_proc_reg_rd_dump` over the bytes that are left, from index `j` on. -/
def dumpLoop : List Byte → Nat → Stores × Nat
  | [], j => ([], j)
  | b :: rest, j =>
      if j < dumpBufSize - 1 then
        let (digits, k) := htoa b.toNat j
        let (stores, final) := dumpLoop rest (k + 1)
        (digits ++ (k, chr '\t') :: stores, final)
      else ([], j)

/-- What a call of `hbi_proc_reg_rd_dump` does: the bytes it stores in `kbuf`, the text it copies to the
user, the transaction it leaves, and its result. -/
structure DumpCall where
  stores : Stores
  text : List Byte
  hbiRw : HbiRw
  result : Nat

/-- `hbi_proc_reg_rd_dump`; what `kbuf` holds before the call is whatever lies on the stack. -/
def hbiProcRegRdDump (hbiRw : HbiRw) (kbuf : Nat → Byte) (size : Nat) : DumpCall :=
  if hbiRw.len ≠ 0 then
    let size := if size > hbiRw.len then hbiRw.len else size
    let (stores, j) := dumpLoop (slice hbiRw.buf 0 size) 0
    let stores := stores ++ [(j, chr '\n')]
    { stores
      text := slice (stores.applied kbuf) 0 j
      hbiRw := { hbiRw with len := hbiRw.len - size }
      result := j }
  else { stores := [], text := [], hbiRw, result := 0 }

/-! ### What fits -/

/-- The characters a byte takes in the dump, its tab included. -/
def dumpWidth (b : Byte) : Nat := if b.toNat < 16 then 2 else 3

def dumpWidths (bytes : List Byte) : Nat := (bytes.map dumpWidth).sum

/-- The bytes to be dumped, or the first of them, fill the buffer up to its last place at most. -/
def DumpFits (bytes : List Byte) : Prop :=
  dumpWidths bytes ≤ 511 ∨ ∃ k ≤ bytes.length, dumpWidths (bytes.take k) = 511

/-- The bytes of the transaction that a read of a size asks for. -/
def HbiRw.asked (hbiRw : HbiRw) (size : Nat) : List Byte := slice hbiRw.buf 0 (min size hbiRw.len)

def StoresFit (stores : Stores) : Prop := ∀ store ∈ stores, store.1 < dumpBufSize

theorem hexDigits_byte {n : Nat} (hpos : n ≠ 0) (hlt : n < 256) :
    hexDigits 8 n = if n < 16 then 1 else 2 := by
  rw [hexDigits, if_neg hpos, hexDigits]
  by_cases hone : n < 16
  · rw [if_pos (by omega), if_pos hone]
  · rw [if_neg (by omega), if_neg hone, hexDigits, if_pos (by omega)]

theorem htoa_end (b : Byte) (j : Nat) : (htoa b.toNat j).2 + 1 = j + dumpWidth b := by
  have hlt := b.isLt
  unfold htoa dumpWidth
  by_cases hzero : b.toNat = 0
  · simp [hzero]
  · rw [if_neg hzero, hexDigits_byte hzero hlt]
    dsimp only
    split <;> omega

/-- A printer that goes from its last place to its first stores nothing outside of them. -/
theorem printLoop_range {loop : Nat → Nat → Stores} {index : Nat} (hnone : ∀ num, loop 0 num = [])
    (hsome : ∀ len num, ∃ c rest, loop (len + 1) num = (len + 1 + index - 1, c) :: loop len rest)
    {len num : Nat} {store : Nat × Byte} (h : store ∈ loop len num) :
    index ≤ store.1 ∧ store.1 < index + len := by
  induction len generalizing num with
  | zero =>
      rw [hnone] at h
      cases h
  | succ len ih =>
      obtain ⟨c, rest, hloop⟩ := hsome len num
      rw [hloop] at h
      rcases List.mem_cons.1 h with rfl | hrest
      · dsimp only
        omega
      · obtain ⟨hge, hlt⟩ := ih hrest
        omega

theorem htoaLoop_range {index len num : Nat} {store : Nat × Byte} (h : store ∈ htoaLoop index len num) :
    index ≤ store.1 ∧ store.1 < index + len :=
  printLoop_range (fun _ => rfl) (fun _ _ => ⟨_, _, rfl⟩) h

theorem htoa_range {num index : Nat} {store : Nat × Byte} (h : store ∈ (htoa num index).1) :
    index ≤ store.1 ∧ store.1 < (htoa num index).2 := htoaLoop_range h

theorem dumpWidth_pos (b : Byte) : 2 ≤ dumpWidth b ∧ dumpWidth b ≤ 3 := by
  unfold dumpWidth
  split <;> omega

theorem dumpWidths_cons (b : Byte) (rest : List Byte) :
    dumpWidths (b :: rest) = dumpWidth b + dumpWidths rest := by
  rw [dumpWidths, List.map_cons, List.sum_cons, ← dumpWidths]

theorem le_dumpLoop_end (bytes : List Byte) (j : Nat) : j ≤ (dumpLoop bytes j).2 := by
  induction bytes generalizing j with
  | nil => exact Nat.le_refl _
  | cons b rest ih =>
      rw [dumpLoop]
      split
      · have hend := htoa_end b j
        have hnext := ih ((htoa b.toNat j).2 + 1)
        have hwidth := dumpWidth_pos b
        dsimp only
        omega
      · exact Nat.le_refl _

theorem dumpLoop_cons {b : Byte} {rest : List Byte} {j : Nat} (h : j < 511) :
    dumpLoop (b :: rest) j
      = ((htoa b.toNat j).1 ++ ((htoa b.toNat j).2, chr '\t') :: (dumpLoop rest (j + dumpWidth b)).1,
          (dumpLoop rest (j + dumpWidth b)).2) := by
  have hroom : j < dumpBufSize - 1 := h
  rw [dumpLoop, if_pos hroom, ← htoa_end b j]

theorem storesFit_nil : StoresFit [] := List.forall_mem_nil _

theorem storesFit_append {stores stores' : Stores} :
    StoresFit (stores ++ stores') ↔ StoresFit stores ∧ StoresFit stores' := List.forall_mem_append

theorem storesFit_cons {store : Nat × Byte} {stores : Stores} :
    StoresFit (store :: stores) ↔ store.1 < 512 ∧ StoresFit stores := List.forall_mem_cons

theorem widths_reach_cons {b : Byte} {rest : List Byte} {j : Nat} (hroom : j < 511) :
    (∃ k ≤ (b :: rest).length, j + dumpWidths ((b :: rest).take k) = 511) ↔
      ∃ k ≤ rest.length, j + dumpWidth b + dumpWidths (rest.take k) = 511 := by
  constructor
  · intro hexists
    obtain ⟨k, hk, hsum⟩ := hexists
    cases k with
    | zero =>
        simp only [List.take_zero, dumpWidths, List.map_nil, List.sum_nil] at hsum
        omega
    | succ k =>
        rw [List.take_succ_cons, dumpWidths_cons] at hsum
        exact ⟨k, by simpa using hk, by omega⟩
  · intro hexists
    obtain ⟨k, hk, hsum⟩ := hexists
    refine ⟨k + 1, by simpa using hk, ?_⟩
    rw [List.take_succ_cons, dumpWidths_cons]
    omega

/-- What the loop stores from index `j` on, and the place behind it, lie in the buffer exactly when the
widths add up to the last place at most, or reach it on the way. -/
theorem dumpLoop_fits (bytes : List Byte) {j : Nat} (hj : j ≤ 511) :
    StoresFit (dumpLoop bytes j).1 ∧ (dumpLoop bytes j).2 < 512 ↔
      j + dumpWidths bytes ≤ 511 ∨ ∃ k ≤ bytes.length, j + dumpWidths (bytes.take k) = 511 := by
  induction bytes generalizing j with
  | nil =>
      have hend : (dumpLoop [] j).2 < 512 := Nat.lt_succ_of_le hj
      exact iff_of_true ⟨storesFit_nil, hend⟩ (.inl hj)
  | cons b rest ih =>
      by_cases hroom : j < 511
      · obtain ⟨hlow, hhigh⟩ := dumpWidth_pos b
        have hend := htoa_end b j
        rw [dumpLoop_cons hroom, widths_reach_cons hroom, dumpWidths_cons, ← Nat.add_assoc,
          storesFit_append, storesFit_cons]
        dsimp only
        by_cases hnext : j + dumpWidth b ≤ 511
        · have hdigits : StoresFit (htoa b.toNat j).1 := by
            intro store hstore
            have hrange := htoa_range hstore
            rw [dumpBufSize]
            omega
          rw [← ih hnext]
          constructor
          · intro h
            exact ⟨h.1.2.2, h.2⟩
          · intro h
            exact ⟨⟨hdigits, by omega, h.1⟩, h.2⟩
        · have hpast := le_dumpLoop_end rest (j + dumpWidth b)
          refine iff_of_false (fun h => ?_) (fun h => ?_)
          · omega
          · rcases h with hall | ⟨k, -, hsum⟩
            · omega
            · omega
      · have hfull : ¬ j < dumpBufSize - 1 := hroom
        have hstop : dumpLoop (b :: rest) j = ([], j) := by
          rw [dumpLoop, if_neg hfull]
        have hsum : j + dumpWidths ((b :: rest).take 0) = 511 := by
          simp [dumpWidths]
          omega
        rw [hstop]
        exact iff_of_true ⟨storesFit_nil, Nat.lt_succ_of_le hj⟩ (.inr ⟨0, Nat.zero_le _, hsum⟩)

/-- A call of `hbi_proc_reg_rd_dump` stores in its buffer only, the separators and the newline included,
exactly when the bytes it is asked for fit. -/
theorem register_dump_fits_iff (hbiRw : HbiRw) (kbuf : Nat → Byte) (size : Nat) :
    StoresFit (hbiProcRegRdDump hbiRw kbuf size).stores ↔ DumpFits (hbiRw.asked size) := by
  unfold hbiProcRegRdDump HbiRw.asked
  by_cases hlen : hbiRw.len ≠ 0
  · have hsize : (if size > hbiRw.len then hbiRw.len else size) = min size hbiRw.len := by
      split <;> omega
    rw [if_pos hlen, hsize]
    dsimp only
    have hloop := dumpLoop_fits (slice hbiRw.buf 0 (min size hbiRw.len)) (Nat.zero_le 511)
    have hnewline : StoresFit [((dumpLoop (slice hbiRw.buf 0 (min size hbiRw.len)) 0).2, chr '\n')] ↔
        (dumpLoop (slice hbiRw.buf 0 (min size hbiRw.len)) 0).2 < 512 := List.forall_mem_singleton
    simp only [Nat.zero_add] at hloop
    rw [storesFit_append, hnewline, hloop, DumpFits]
  · have hzero : hbiRw.len = 0 := not_not.1 hlen
    rw [if_neg hlen, hzero, Nat.min_zero]
    exact iff_of_true storesFit_nil (.inl (Nat.zero_le 511))

/-- The transaction of 256 bytes `0xFF`, read whole: three characters for each byte go past the end. -/
theorem register_dump_overruns :
    ¬ StoresFit (hbiProcRegRdDump ⟨fun _ => 0xFF, 256⟩ (fun _ => 0) 4096).stores := by
  intro hfit
  have hmem : ((512 : Nat), chr '\t') ∈
      (hbiProcRegRdDump ⟨fun _ => 0xFF, 256⟩ (fun _ => 0) 4096).stores := by decide +kernel
  exact absurd (hfit _ hmem) (by decide)

end VprocSdk
