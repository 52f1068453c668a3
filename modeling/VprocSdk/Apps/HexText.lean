import VprocSdk.Converter.SourceFiles
import VprocSdk.Image.HeaderCodec

/-!
# Hexadecimal text

Numbers and buffers as the MiTuner server writes and reads them. What is written with enough digits is read
back.
-/

namespace VprocSdk

open Lib

/-! ### Numbers as text -/

/-- `"%0nX" % number`. -/
def percentX (width number : Nat) : List Char :=
  let digits := (numeral 16 number).map hexChar
  List.replicate (width - digits.length) '0' ++ digits

example : percentX 4 0x2F = "002F".toList := by decide

section HexText

variable {width n : Nat}

theorem percentX_succ (hwidth : 0 < width) :
    percentX (width + 1) n = percentX width (n / 16) ++ [hexChar (n % 16)] := by
  unfold percentX
  by_cases hn : n < 16
  · have hzero : n / 16 = 0 := by omega
    have hsucc : width = width - 1 + 1 := by omega
    have hzeros : List.replicate width '0' = List.replicate (width - 1) '0' ++ [hexChar 0] := by
      rw [hsucc, List.replicate_succ']
      rfl
    rw [numeral_of_lt hn, hzero, numeral_of_lt (by decide), Nat.mod_eq_of_lt hn]
    simp only [List.map_cons, List.map_nil, List.length_cons, List.length_nil, Nat.zero_add,
      Nat.add_sub_cancel, hzeros]
  · rw [numeral_of_le (by decide) (by omega)]
    simp only [List.map_append, List.map_cons, List.map_nil, List.length_append, List.length_cons,
      List.length_nil, Nat.zero_add, Nat.add_sub_add_right, List.append_assoc]

theorem percentX_of_lt (hn : n < 16 ^ (width + 1)) :
    percentX (width + 1) n = (lastDigits 16 (width + 1) n).map hexChar := by
  induction width generalizing n with
  | zero =>
      have hlt : n < 16 := by simpa using hn
      rw [percentX, numeral_of_lt hlt, lastDigits, lastDigits, Nat.mod_eq_of_lt hlt]
      rfl
  | succ width ih =>
      have hrest : n / 16 < 16 ^ (width + 1) := Nat.div_lt_of_lt_mul (by rwa [← Nat.pow_succ'])
      have hlast : lastDigits 16 (width + 1 + 1) n = lastDigits 16 (width + 1) (n / 16) ++ [n % 16] := rfl
      rw [percentX_succ (Nat.succ_pos width), ih hrest, hlast, List.map_append]
      rfl

theorem lastDigits_lt (width n : Nat) : ∀ d ∈ lastDigits 16 width n, d < 16 := by
  induction width generalizing n with
  | zero => simp [lastDigits]
  | succ width ih =>
      intro d hd
      rw [lastDigits, List.mem_append, List.mem_singleton] at hd
      rcases hd with hd | rfl
      · exact ih _ d hd
      · exact Nat.mod_lt _ (by decide)

theorem hexValue_lastDigits (width n : Nat) :
    hexValue ((lastDigits 16 width n).map hexChar) = ((n % 16 ^ width : Nat) : Int) := by
  induction width generalizing n with
  | zero => simp [lastDigits, hexValue, Nat.mod_one]
  | succ width ih =>
      have hdigit := hexDigit_hexChar (n % 16) (Nat.mod_lt _ (by decide))
      have hprefix : hexValue ((lastDigits 16 width (n / 16)).map hexChar) = _ := ih (n / 16)
      rw [lastDigits, List.map_append, hexValue, List.foldl_append, ← hexValue, hprefix, Nat.pow_succ',
        Nat.mod_mul]
      simp only [List.map_cons, List.map_nil, List.foldl_cons, List.foldl_nil, hdigit, Option.getD_some]
      push_cast
      omega

theorem isHex_lastDigits (width n : Nat) :
    ∀ c ∈ (lastDigits 16 width n).map hexChar, isHex c = true := by
  intro c hc
  obtain ⟨d, hd, rfl⟩ := List.mem_map.1 hc
  exact isHex_hexChar d (lastDigits_lt width n d hd)

theorem length_percentX (hn : n < 16 ^ (width + 1)) : (percentX (width + 1) n).length = width + 1 := by
  rw [percentX_of_lt hn, List.length_map, lastDigits_length]

theorem isHex_percentX (hn : n < 16 ^ (width + 1)) : ∀ c ∈ percentX (width + 1) n, isHex c = true := by
  rw [percentX_of_lt hn]
  exact isHex_lastDigits _ _

theorem hexValue_percentX (hn : n < 16 ^ (width + 1)) : hexValue (percentX (width + 1) n) = n := by
  rw [percentX_of_lt hn, hexValue_lastDigits, Nat.mod_eq_of_lt hn]

theorem intHex_percentX (hn : n < 16 ^ (width + 1)) : intHex (percentX (width + 1) n) = .ok (n : Int) := by
  have hne : percentX (width + 1) n ≠ [] := by
    intro hnil
    have hlen := length_percentX hn
    rw [hnil] at hlen
    cases hlen
  rw [intHex_digits hne (isHex_percentX hn), hexValue_percentX hn]

theorem unicodeIntHex_percentX (hn : n < 16 ^ (width + 1)) :
    unicodeIntHex (percentX (width + 1) n) = .ok (n : Int) := by
  rw [unicodeIntHex, map_unicodeSpace (isHex_percentX hn), intHex_percentX hn]

end HexText

/-! ### Buffers as text -/

def bufferString (byteList : List Byte) : List Char := byteList.flatMap fun byteEl => percentX 2 byteEl.toNat

theorem isHex_bufferString (data : List Byte) : ∀ c ∈ bufferString data, isHex c = true := by
  intro c hc
  obtain ⟨b, -, hb⟩ := List.mem_flatMap.1 hc
  exact isHex_percentX b.isLt c hb

def bufferBytes (text : List Char) : Except PyError (List Int) :=
  (List.range (text.length / 2)).mapM fun i : Nat =>
    intHex (pySlice text ((i : Int) * 2) ((i : Int) * 2 + 2))

theorem byte_two_digits (b : Byte) : b.toNat < 16 ^ (1 + 1) := b.isLt

theorem mapM_ok {α β ε : Type} {f : α → Except ε β} {g : α → β} {xs : List α}
    (h : ∀ x ∈ xs, f x = .ok (g x)) : xs.mapM f = .ok (xs.map g) := by
  induction xs with
  | nil => rfl
  | cons x xs ih =>
      rw [List.mapM_cons, h x List.mem_cons_self, ih fun y hy => h y (List.mem_cons_of_mem x hy)]
      rfl

theorem length_bufferString (data : List Byte) : (bufferString data).length = 2 * data.length := by
  induction data with
  | nil => rfl
  | cons b data ih =>
      have hrest : (bufferString (b :: data)) = percentX 2 b.toNat ++ bufferString data := rfl
      rw [hrest, List.length_append, length_percentX (byte_two_digits b), ih, List.length_cons]
      omega

theorem slice_bufferString (data : List Byte) (i : Nat) (hi : i < data.length) :
    ((bufferString data).drop (i * 2)).take 2 = percentX 2 data[i].toNat := by
  induction data generalizing i with
  | nil => cases hi
  | cons b data ih =>
      have hrest : (bufferString (b :: data)) = percentX 2 b.toNat ++ bufferString data := rfl
      have hlen : (percentX 2 b.toNat).length = 2 := length_percentX (byte_two_digits b)
      cases i with
      | zero =>
          rw [hrest, Nat.zero_mul, List.drop_zero, List.take_left' hlen]
          rfl
      | succ i =>
          have hskip : (i + 1) * 2 = (percentX 2 b.toNat).length + i * 2 := by omega
          rw [hrest, hskip, ← List.drop_drop, List.drop_left, ih i (Nat.lt_of_succ_lt_succ hi)]
          rfl

theorem bufferBytes_bufferString (data : List Byte) :
    bufferBytes (bufferString data) = .ok (data.map fun b => (b.toNat : Int)) := by
  have hcount : (bufferString data).length / 2 = data.length := by
    rw [length_bufferString]
    omega
  have hread : ∀ i ∈ List.range data.length,
      intHex (pySlice (bufferString data) ((i : Int) * 2) ((i : Int) * 2 + 2))
        = .ok (((data.getD i 0).toNat : Nat) : Int) := by
    intro i hi
    have hlt := List.mem_range.1 hi
    have hslice := pySlice_add (bufferString data) (i * 2) 2
    push_cast at hslice
    rw [hslice, slice_bufferString data i hlt, intHex_percentX (byte_two_digits _),
      List.getD_eq_getElem _ _ hlt]
  rw [bufferBytes, hcount, mapM_ok hread]
  congr 1
  apply List.ext_getElem (by simp)
  intro i hi hi'
  have hlt : i < data.length := by simpa using hi'
  simp [hlt]

end VprocSdk
