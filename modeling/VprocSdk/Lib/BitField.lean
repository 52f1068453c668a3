import Mathlib.Data.Nat.Bitwise
import Mathlib.Tactic.Common

/-!
# Fields of a register

A field is given by a mask and a shift, as code does that reads it with `(x >> shift) & mask` and writes it
with `(x & ~(mask << shift)) | (val << shift)`. The mask need not be a run of ones. What is written reads
back when its bits are bits of the mask and the mask is not shifted out of the register.
-/

namespace Lib

variable {w : Nat}

def getField (mask : BitVec w) (shift : Nat) (x : BitVec w) : BitVec w := x >>> shift &&& mask

def setField (mask : BitVec w) (shift : Nat) (val x : BitVec w) : BitVec w :=
  x &&& ~~~(mask <<< shift) ||| val <<< shift

/-- Shifted, the mask lies in the lower `n` bits. -/
def FieldFits (mask : BitVec w) (shift n : Nat) : Prop := ∀ i, mask.getLsbD i = true → i + shift < n

variable {mask val x : BitVec w} {shift : Nat}

theorem fieldFits_of_lt {n : Nat} (h : mask.toNat * 2 ^ shift < 2 ^ n) : FieldFits mask shift n := by
  intro i hi
  have hbit : 2 ^ i ≤ mask.toNat := Nat.ge_two_pow_of_testBit hi
  have hpow : 2 ^ (i + shift) < 2 ^ n := by
    calc 2 ^ (i + shift) = 2 ^ i * 2 ^ shift := Nat.pow_add _ _ _
      _ ≤ mask.toNat * 2 ^ shift := Nat.mul_le_mul_right _ hbit
      _ < 2 ^ n := h
  exact (Nat.pow_lt_pow_iff_right (by decide)).1 hpow

theorem getLsbD_of_sub (h : val &&& mask = val) {i : Nat} (hi : val.getLsbD i = true) :
    mask.getLsbD i = true := by
  rw [← h, BitVec.getLsbD_and, Bool.and_eq_true] at hi
  exact hi.2

theorem getField_setField (hval : val &&& mask = val) {n : Nat} (hfit : FieldFits mask shift n)
    (hn : n ≤ w) : getField mask shift (setField mask shift val x) = val := by
  apply BitVec.eq_of_getLsbD_eq
  intro i hi
  rw [getField, setField, BitVec.getLsbD_and, BitVec.getLsbD_ushiftRight, BitVec.getLsbD_or,
    BitVec.getLsbD_and, BitVec.getLsbD_not, BitVec.getLsbD_shiftLeft, BitVec.getLsbD_shiftLeft,
    Nat.add_sub_cancel_left]
  by_cases hmask : mask.getLsbD i = true
  · have hlt := hfit i hmask
    have hin : shift + i < w := by omega
    have hnot : ¬ shift + i < shift := by omega
    simp [hmask, hin, hnot]
  · have hclear : val.getLsbD i = false := by
      by_contra hset
      exact hmask (getLsbD_of_sub hval (by simpa using hset))
    simp [hmask, hclear]

theorem setField_getField : setField mask shift (getField mask shift x) x = x := by
  apply BitVec.eq_of_getLsbD_eq
  intro i hi
  rw [setField, getField, BitVec.getLsbD_or, BitVec.getLsbD_and, BitVec.getLsbD_not,
    BitVec.getLsbD_shiftLeft, BitVec.getLsbD_shiftLeft, BitVec.getLsbD_and, BitVec.getLsbD_ushiftRight]
  by_cases hshift : shift ≤ i
  · have hsum : shift + (i - shift) = i := by omega
    have hle : ¬ i < shift := by omega
    rw [hsum]
    cases hmask : mask.getLsbD (i - shift) with
    | true => simp [hi, hle]
    | false => simp [hi]
  · have hlt : i < shift := by omega
    simp [hi, hlt]

theorem setField_outside (hval : val &&& mask = val) :
    setField mask shift val x &&& ~~~(mask <<< shift) = x &&& ~~~(mask <<< shift) := by
  have hshift : val <<< shift &&& ~~~(mask <<< shift) = 0#w := by
    rw [← hval, BitVec.shiftLeft_and_distrib, BitVec.and_assoc, BitVec.and_not_self]
    exact BitVec.and_zero
  rw [setField, BitVec.and_or_distrib_right, BitVec.and_assoc, BitVec.and_self, hshift, BitVec.or_zero]

theorem setField_high (hval : val &&& mask = val) {n : Nat} (hfit : FieldFits mask shift n)
    (hx : ∀ i, n ≤ i → x.getLsbD i = false) (i : Nat) (hi : n ≤ i) :
    (setField mask shift val x).getLsbD i = false := by
  rw [setField, BitVec.getLsbD_or, BitVec.getLsbD_and, hx i hi, BitVec.getLsbD_shiftLeft]
  by_cases hshift : i < shift
  · simp [hshift]
  · have hclear : val.getLsbD (i - shift) = false := by
      by_contra hset
      have hbit := hfit (i - shift) (getLsbD_of_sub hval (by simpa using hset))
      omega
    simp [hclear]

theorem getField_setField_disjoint {mask' : BitVec w} {shift' : Nat} (hval : val &&& mask = val)
    (hdisjoint : mask <<< shift &&& mask' <<< shift' = 0#w) :
    getField mask' shift' (setField mask shift val x) = getField mask' shift' x := by
  apply BitVec.eq_of_getLsbD_eq
  intro i hi
  rw [getField, getField, BitVec.getLsbD_and, BitVec.getLsbD_and, BitVec.getLsbD_ushiftRight,
    BitVec.getLsbD_ushiftRight]
  cases hmask' : mask'.getLsbD i with
  | false => simp
  | true =>
      by_cases hin : shift' + i < w
      · have hother : (mask' <<< shift').getLsbD (shift' + i) = true := by
          simp [hin, hmask']
        have hown : (mask <<< shift).getLsbD (shift' + i) = false := by
          have hboth := congrArg (fun y : BitVec w => y.getLsbD (shift' + i)) hdisjoint
          simpa [BitVec.getLsbD_and, hother] using hboth
        have hsame : setField mask shift val x &&& ~~~(mask <<< shift) = x &&& ~~~(mask <<< shift) :=
          setField_outside hval
        have hout := congrArg (fun y : BitVec w => y.getLsbD (shift' + i)) hsame
        simpa only [BitVec.getLsbD_and, BitVec.getLsbD_not, hin, hown, decide_true, Bool.not_false,
          Bool.and_true] using hout
      · rw [BitVec.getLsbD_of_ge _ _ (by omega), BitVec.getLsbD_of_ge _ _ (by omega)]

/-- A value whose bits are bits of the mask is subtracted without borrow. -/
theorem mask_sub (hval : val &&& mask = val) : mask - val = mask &&& ~~~val := by
  have hdisjoint : (mask &&& ~~~val) &&& val = 0#w := by
    rw [BitVec.and_assoc, BitVec.and_comm (~~~val), BitVec.and_not_self]
    exact BitVec.and_zero
  have hsum : (mask &&& ~~~val) + val = mask := by
    rw [BitVec.add_eq_or_of_and_eq_zero _ _ hdisjoint]
    apply BitVec.eq_of_getLsbD_eq
    intro i hi
    rw [BitVec.getLsbD_or, BitVec.getLsbD_and, BitVec.getLsbD_not]
    cases hbit : val.getLsbD i with
    | false => simp [hi]
    | true => simp [getLsbD_of_sub hval hbit]
  rw [← hsum, BitVec.add_sub_cancel, hsum]

end Lib
