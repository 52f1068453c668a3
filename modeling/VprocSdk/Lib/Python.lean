import Mathlib.Data.List.TakeDrop
import Mathlib.Tactic.Common

/-!
# Python

The exceptions, the slices and the strings of the scripts. A Python integer is an `Int`, and a `str` the
list of its characters.
-/

namespace Lib

universe u

variable {α : Type u}

inductive PyError
  | valueError (msg : String)
  | zeroDivisionError
  | indexError
  | unboundLocalError
  | structError
  | overflowError
  | unicodeDecodeError
  deriving DecidableEq, Repr

theorem except_bind_ok {ε β : Type u} {x : Except ε α} {f : α → Except ε β} {b : β}
    (h : x >>= f = .ok b) : ∃ a, x = .ok a ∧ f a = .ok b := by
  cases x with
  | error e => cases h
  | ok a => exact ⟨a, rfl, h⟩

/-- The bound of a slice: a negative one counts from the end. -/
def sliceBound (length : Nat) (i : Int) : Nat := if i < 0 then (i + length).toNat else i.toNat

/-- `xs[i: j]`. -/
def pySlice (xs : List α) (i j : Int) : List α :=
  (xs.take (sliceBound xs.length j)).drop (sliceBound xs.length i)

theorem sliceBound_natCast (length i : Nat) : sliceBound length (i : Int) = i := by
  rw [sliceBound, if_neg (by omega), Int.toNat_natCast]

theorem pySlice_add (xs : List α) (i n : Nat) :
    pySlice xs (i : Int) ((i : Int) + (n : Int)) = (xs.drop i).take n := by
  have hstop : (i : Int) + (n : Int) = ((i + n : Nat) : Int) := by omega
  rw [pySlice, hstop, sliceBound_natCast, sliceBound_natCast, List.drop_take, Nat.add_sub_cancel_left]

theorem length_pySlice {xs : List α} {i n : Int} (hi : 0 ≤ i) (hn : 0 ≤ n) (hend : i + n ≤ xs.length) :
    ((pySlice xs i (i + n)).length : Int) = n := by
  obtain ⟨i', rfl⟩ := Int.eq_ofNat_of_zero_le hi
  obtain ⟨n', rfl⟩ := Int.eq_ofNat_of_zero_le hn
  rw [pySlice_add, List.length_take, List.length_drop]
  omega

theorem pySlice_prefix (xs : List α) (n : Nat) : pySlice xs 0 (n : Int) = xs.take n := by
  have hstart : sliceBound xs.length 0 = 0 := sliceBound_natCast xs.length 0
  rw [pySlice, sliceBound_natCast, hstart, List.drop_zero]

theorem pySlice_suffix (xs : List α) (n : Nat) : pySlice xs (n : Int) (xs.length : Int) = xs.drop n := by
  rw [pySlice, sliceBound_natCast, sliceBound_natCast, List.take_length]

def charByte (c : Char) : BitVec 8 := BitVec.ofNat 8 c.toNat

def asciiText (bytes : List (BitVec 8)) : List Char := bytes.map fun b => Char.ofNat b.toNat

/-- `bytes.decode()`, which takes ASCII and nothing else. -/
def pyDecode (bytes : List (BitVec 8)) : Except PyError (List Char) :=
  if bytes.all fun b => b.toNat < 0x80 then .ok (asciiText bytes) else .error .unicodeDecodeError

theorem pyDecode_ascii {bytes : List (BitVec 8)} (h : ∀ b ∈ bytes, b.toNat < 0x80) :
    pyDecode bytes = .ok (asciiText bytes) :=
  if_pos (List.all_eq_true.2 fun b hb => decide_eq_true (h b hb))

theorem pyDecode_ok {bytes : List (BitVec 8)} {text : List Char} (h : pyDecode bytes = .ok text) :
    (∀ b ∈ bytes, b.toNat < 0x80) ∧ text = asciiText bytes := by
  unfold pyDecode at h
  split at h
  · next hall => exact ⟨fun b hb => of_decide_eq_true (List.all_eq_true.1 hall b hb), (Except.ok.inj h).symm⟩
  · cases h

theorem asciiText_charByte {text : List Char} (h : ∀ c ∈ text, c.toNat < 0x80) :
    asciiText (text.map charByte) = text := by
  have hsame : ∀ c ∈ text, Char.ofNat (charByte c).toNat = c := by
    intro c hc
    have hsmall := h c hc
    rw [charByte, BitVec.toNat_ofNat, Nat.mod_eq_of_lt (by omega), Char.ofNat_toNat]
  rw [asciiText, List.map_map]
  exact (List.map_congr_left hsame).trans (List.map_id' text)

/-- The white space of `\s` and of `int`. -/
def isSpace (c : Char) : Bool :=
  c = ' ' || c = '\t' || c = '\n' || c = '\r' || c = '\x0b' || c = '\x0c'

/-- `text.splitlines()` of a `str`. -/
def splitlines : List Char → List (List Char)
  | [] => []
  | '\r' :: '\n' :: rest => [] :: splitlines rest
  | c :: rest =>
      if c = '\n' ∨ c = '\r' then [] :: splitlines rest
      else
        match splitlines rest with
        | [] => [[c]]
        | line :: lines => (c :: line) :: lines

example : splitlines "S1\r\n\nS2\rS3".toList = ["S1".toList, [], "S2".toList, "S3".toList] := by decide

/-- `text.splitlines()` of a `unicode` in ASCII, which has more line breaks. -/
def unicodeSplitlines : List Char → List (List Char)
  | [] => []
  | '\r' :: '\n' :: rest => [] :: unicodeSplitlines rest
  | c :: rest =>
      if c ∈ ['\n', '\r', '\x0b', '\x0c', '\x1c', '\x1d', '\x1e'] then [] :: unicodeSplitlines rest
      else
        match unicodeSplitlines rest with
        | [] => [[c]]
        | line :: lines => (c :: line) :: lines

example : unicodeSplitlines "S1\r\n\x0bS2\x1eS3".toList = ["S1".toList, [], "S2".toList, "S3".toList] := by
  decide

/-- `int` of a `unicode` takes these for spaces too. -/
def unicodeSpace (c : Char) : Char :=
  if c ∈ ['\x1c', '\x1d', '\x1e', '\x1f'] then ' ' else c

/-- `array("B", xs)`, whose bytes are `xs`. -/
def arrayB (xs : List Int) : Except PyError (List Int) :=
  if xs.all fun b => 0 ≤ b ∧ b ≤ 0xFF then .ok xs else .error .overflowError

/-- The 16-bit words of bytes, as `struct.unpack` reads them big-endian. -/
def unpackWords : List Int → List Int
  | high :: low :: rest => (high * 0x100 + low) :: unpackWords rest
  | _ => []

end Lib
