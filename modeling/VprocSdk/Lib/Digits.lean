import Mathlib.Data.Nat.Digits.Lemmas

/-!
# Numbers in a text

`numeral b n` is the number `n` as it is written in base `b`, first digit first; zero has one digit. A
printer finds the digits from the last one on, so `lastDigits` takes as many of them as it is asked for. A
parser goes through a text from its beginning and skips what is no digit; `parseStep` is one character of a
parser that counts modulo 2^w.
-/

namespace Lib

universe u

/-! ### Writing -/

def numeral (b n : Nat) : List Nat := if n = 0 then [0] else (Nat.digits b n).reverse

/-- How many digits a number other than zero has, by dividing it again and again. -/
def countDigits (b : Nat) : Nat → Nat → Nat
  | 0, _ => 0
  | fuel + 1, n => if n = 0 then 0 else countDigits b fuel (n / b) + 1

/-- The last `len` digits of a number. -/
def lastDigits (b : Nat) : Nat → Nat → List Nat
  | 0, _ => []
  | len + 1, n => lastDigits b len (n / b) ++ [n % b]

def digitsValue (b : Nat) (digits : List Nat) : Nat := digits.foldl (fun value d => b * value + d) 0

section Write

variable {b n : Nat}

theorem lastDigits_length (b len n : Nat) : (lastDigits b len n).length = len := by
  induction len generalizing n with
  | zero => rfl
  | succ len ih => rw [lastDigits, List.length_append, ih, List.length_singleton]

theorem countDigits_le (b fuel n : Nat) : countDigits b fuel n ≤ fuel := by
  induction fuel generalizing n with
  | zero => exact Nat.le_refl 0
  | succ fuel ih =>
      rw [countDigits]
      split
      · exact Nat.zero_le _
      · exact Nat.succ_le_succ (ih _)

theorem countDigits_eq (hb : 1 < b) {fuel : Nat} (hn : n < b ^ fuel) :
    countDigits b fuel n = (Nat.digits b n).length := by
  induction fuel generalizing n with
  | zero =>
      have hzero : n = 0 := by
        rw [Nat.pow_zero] at hn
        omega
      rw [hzero, Nat.digits_zero]
      rfl
  | succ fuel ih =>
      rw [countDigits]
      by_cases hzero : n = 0
      · rw [if_pos hzero, hzero, Nat.digits_zero]
        rfl
      · have hrest : n / b < b ^ fuel := Nat.div_lt_of_lt_mul (by rwa [← Nat.pow_succ'])
        rw [if_neg hzero, ih hrest, Nat.digits_def' hb (Nat.pos_of_ne_zero hzero), List.length_cons]

theorem lastDigits_all (hb : 1 < b) {len : Nat} (hlen : len = (Nat.digits b n).length) :
    lastDigits b len n = (Nat.digits b n).reverse := by
  induction len generalizing n with
  | zero => rw [List.eq_nil_of_length_eq_zero hlen.symm, lastDigits, List.reverse_nil]
  | succ len ih =>
      have hpos : 0 < n := by
        apply Nat.pos_of_ne_zero
        intro hzero
        rw [hzero, Nat.digits_zero, List.length_nil] at hlen
        omega
      rw [Nat.digits_def' hb hpos, List.length_cons] at hlen
      rw [lastDigits, ih (Nat.succ.inj hlen), Nat.digits_def' hb hpos, List.reverse_cons]

/-- A printer that counts the digits first, with one for zero, writes the numeral. -/
theorem lastDigits_numeral (hb : 1 < b) {fuel : Nat} (hn : n < b ^ fuel) :
    lastDigits b (if n = 0 then 1 else countDigits b fuel n) n = numeral b n := by
  by_cases hzero : n = 0
  · rw [if_pos hzero, numeral, if_pos hzero, hzero, lastDigits, lastDigits, Nat.zero_mod, List.nil_append]
  · rw [if_neg hzero, numeral, if_neg hzero, lastDigits_all hb (countDigits_eq hb hn)]

theorem numeral_of_lt (hn : n < b) : numeral b n = [n] := by
  rw [numeral]
  split
  · rename_i hzero
    rw [hzero]
  · rename_i hpos
    rw [Nat.digits_of_lt b n hpos hn, List.reverse_singleton]

theorem numeral_of_le (hb : 1 < b) (hn : b ≤ n) : numeral b n = numeral b (n / b) ++ [n % b] := by
  have hpos : 0 < n := by omega
  have hrest : n / b ≠ 0 := (Nat.div_pos hn (by omega)).ne'
  rw [numeral, if_neg hpos.ne', numeral, if_neg hrest, Nat.digits_def' hb hpos, List.reverse_cons]

theorem lt_of_mem_numeral (hb : 1 < b) {d : Nat} (h : d ∈ numeral b n) : d < b := by
  rw [numeral] at h
  split at h
  · rw [List.mem_singleton.1 h]
    exact Nat.zero_lt_of_lt hb
  · exact Nat.digits_lt_base hb (List.mem_reverse.1 h)

theorem numeral_head (b : Nat) (hn : n ≠ 0) : ∃ d rest, numeral b n = d :: rest ∧ d ≠ 0 := by
  have hne : Nat.digits b n ≠ [] := Nat.digits_ne_nil_iff_ne_zero.2 hn
  have hlast := List.dropLast_append_getLast hne
  refine ⟨_, (Nat.digits b n).dropLast.reverse, ?_, Nat.getLast_digit_ne_zero b hn⟩
  rw [numeral, if_neg hn, ← List.reverse_concat, hlast]

theorem digitsValue_reverse (b : Nat) (digits : List Nat) :
    digitsValue b digits.reverse = Nat.ofDigits b digits := by
  rw [digitsValue, List.foldl_reverse, Nat.ofDigits_eq_foldr]
  congr 1
  funext d value
  exact Nat.add_comm _ _

theorem digitsValue_numeral (b n : Nat) : digitsValue b (numeral b n) = n := by
  rw [numeral]
  split
  · rename_i hzero
    rw [hzero]
    rfl
  · rw [digitsValue_reverse, Nat.ofDigits_digits]

end Write

/-! ### Reading -/

section Read

variable {α : Type u}

/-- One character of a parser: a digit is appended to the number, anything else is skipped. -/
def parseStep (w b : Nat) (digit : α → Option Nat) (value : BitVec w) (c : α) : BitVec w :=
  match digit c with
  | some d => BitVec.ofNat w b * value + BitVec.ofNat w d
  | none => value

theorem foldl_parseStep (w b : Nat) (digit : α → Option Nat) (text : List α) (value : Nat) :
    text.foldl (parseStep w b digit) (BitVec.ofNat w value)
      = BitVec.ofNat w ((text.filterMap digit).foldl (fun value d => b * value + d) value) := by
  induction text generalizing value with
  | nil => rfl
  | cons c text ih =>
      rw [List.foldl_cons, parseStep]
      cases hc : digit c with
      | none => rw [List.filterMap_cons_none hc, ih]
      | some d =>
          rw [List.filterMap_cons_some hc, List.foldl_cons, ← ih, BitVec.ofNat_add, BitVec.ofNat_mul]

/-- A parser finds the value of the digits of the text, modulo 2^w. -/
theorem parse_eq (w b : Nat) (digit : α → Option Nat) (text : List α) :
    text.foldl (parseStep w b digit) 0 = BitVec.ofNat w (digitsValue b (text.filterMap digit)) :=
  foldl_parseStep w b digit text 0

end Read

end Lib
