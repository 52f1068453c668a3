import Mathlib.Data.Int.GCD
import Mathlib.Data.Nat.ModEq

/-!
# Strides

An index that moves by a fixed step around `n` places comes to exactly those that differ from its first
one by a multiple of the greatest common divisor of the step and `n`. The last of these places is all that a
loop which waits for the index to reach a bound depends on.
-/

namespace Lib

/-- Where an index is after `k` steps of `s` from `i`, around `n` places. -/
def strideAt (n s i k : Nat) : Nat := (i + k * s) % n

/-- The last place that the index comes to. -/
def strideTop (n s i : Nat) : Nat := n - Nat.gcd s n + i % Nat.gcd s n

section Stride

variable {n s i : Nat}

theorem strideAt_zero (hi : i < n) : strideAt n s i 0 = i := by
  rw [strideAt, Nat.zero_mul, Nat.add_zero, Nat.mod_eq_of_lt hi]

theorem strideAt_step (n s i k : Nat) : strideAt n s ((i + s) % n) k = strideAt n s i (k + 1) := by
  rw [strideAt, strideAt, Nat.mod_add_mod, Nat.succ_mul, Nat.add_assoc, Nat.add_comm s]

theorem strideAt_mod_gcd (k : Nat) : strideAt n s i k % Nat.gcd s n = i % Nat.gcd s n := by
  have hstep : k * s % Nat.gcd s n = 0 := Nat.mod_eq_zero_of_dvd ((Nat.gcd_dvd_left s n).mul_left k)
  rw [strideAt, Nat.mod_mod_of_dvd _ (Nat.gcd_dvd_right s n), Nat.add_mod, hstep, Nat.add_zero, Nat.mod_mod]

theorem strideAt_le_top (hn : 0 < n) (k : Nat) : strideAt n s i k ≤ strideTop n s i := by
  obtain ⟨q, hq⟩ := Nat.gcd_dvd_right s n
  have hlt : strideAt n s i k < n := Nat.mod_lt _ hn
  have hmod := strideAt_mod_gcd (n := n) (s := s) (i := i) k
  have hsplit := Nat.div_add_mod (strideAt n s i k) (Nat.gcd s n)
  have hquot : strideAt n s i k / Nat.gcd s n < q := by
    apply Nat.div_lt_of_lt_mul
    rwa [← hq]
  have hblock : Nat.gcd s n * (strideAt n s i k / Nat.gcd s n + 1) ≤ Nat.gcd s n * q :=
    Nat.mul_le_mul_left _ hquot
  rw [Nat.mul_add, Nat.mul_one, ← hq] at hblock
  rw [strideTop]
  omega

/-- The index comes to every place of its class: Bezout's identity gives the number of steps. -/
theorem exists_strideAt_eq {t : Nat} (ht : t < n) (hmod : t % Nat.gcd s n = i % Nat.gcd s n) :
    ∃ k, strideAt n s i k = t := by
  have hpos : 0 < n := Nat.zero_lt_of_lt ht
  have hwhole : i + (t + (n - 1) * i) = t + n * i := by
    obtain ⟨m, rfl⟩ : ∃ m, n = m + 1 := ⟨n - 1, by omega⟩
    rw [Nat.add_sub_cancel, Nat.succ_mul]
    omega
  have hdvd : Nat.gcd s n ∣ t + (n - 1) * i := by
    have hzero : i + (t + (n - 1) * i) ≡ i + 0 [MOD Nat.gcd s n] := by
      have hround : n * i ≡ 0 [MOD Nat.gcd s n] :=
        (Nat.modEq_zero_iff_dvd).2 ((Nat.gcd_dvd_right s n).mul_right i)
      rw [hwhole, Nat.add_zero]
      exact (Nat.ModEq.add_left t hround).trans hmod
    exact (Nat.modEq_zero_iff_dvd).1 (Nat.ModEq.add_left_cancel' i hzero)
  obtain ⟨q, hq⟩ := hdvd
  have hreach : ∃ k, k * s ≡ t + (n - 1) * i [MOD n] := by
    by_cases hgcd : Nat.gcd s n < n
    · obtain ⟨m, -, hm⟩ := Nat.exists_mul_mod_eq_gcd hgcd
      have hone : s * m ≡ Nat.gcd s n [MOD n] := by
        rw [Nat.ModEq, hm, Nat.mod_eq_of_lt hgcd]
      refine ⟨m * q, ?_⟩
      rw [hq, Nat.mul_comm, ← Nat.mul_assoc]
      exact hone.mul_right q
    · have hall : Nat.gcd s n = n := Nat.le_antisymm (Nat.gcd_le_right s hpos) (Nat.le_of_not_lt hgcd)
      refine ⟨0, ?_⟩
      rw [hq, hall, Nat.zero_mul]
      exact ((Nat.modEq_zero_iff_dvd).2 (Nat.dvd_mul_right n q)).symm
  obtain ⟨k, hk⟩ := hreach
  refine ⟨k, ?_⟩
  have hplace := Nat.ModEq.add_left i hk
  rw [hwhole] at hplace
  rw [strideAt, hplace, Nat.add_mul_mod_self_left, Nat.mod_eq_of_lt ht]

theorem exists_le_strideAt_iff (hn : 0 < n) {bound : Nat} :
    (∃ k, bound ≤ strideAt n s i k) ↔ bound ≤ strideTop n s i := by
  constructor
  · intro hexists
    obtain ⟨k, hk⟩ := hexists
    exact Nat.le_trans hk (strideAt_le_top hn k)
  · intro hbound
    have hpos : 0 < Nat.gcd s n := Nat.gcd_pos_of_pos_right s hn
    have hle : Nat.gcd s n ≤ n := Nat.gcd_le_right s hn
    have hlast : i % Nat.gcd s n < Nat.gcd s n := Nat.mod_lt _ hpos
    have htop : strideTop n s i < n := by
      rw [strideTop]
      omega
    have hmod : strideTop n s i % Nat.gcd s n = i % Nat.gcd s n := by
      have hrest : Nat.gcd s n ∣ n - Nat.gcd s n := Nat.dvd_sub (Nat.gcd_dvd_right s n) (Nat.dvd_refl _)
      rw [strideTop, Nat.add_mod, Nat.mod_eq_zero_of_dvd hrest, Nat.zero_add, Nat.mod_mod, Nat.mod_mod]
    obtain ⟨k, hk⟩ := exists_strideAt_eq htop hmod
    exact ⟨k, by rw [hk]; exact hbound⟩

end Stride

end Lib
