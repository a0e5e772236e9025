import Mathlib.Data.Int.Log
import Mathlib.Data.Rat.Floor
import Mathlib.Tactic.Ring
import Mathlib.Tactic.FieldSimp
import Mathlib.Tactic.Positivity

/-! # Rounding to Double Precision

    A 64-bit floating-point value is modelled by the rational number it
    stands for, and an operation by the exact operation followed by `round`:
    nearest value with a 53-bit significand, ties to even, with the exponent
    range of subnormal numbers at the low end. There is no overflow to
    infinity, so the model is for values below `2 ^ 1024`.

    The one law that programs with small integers need is exactness: an
    integer below `2 ^ 53` rounds to itself.
-/

namespace Binary64

/-- The nearest integer, ties to even. -/
def nearestEven (x : ℚ) : ℤ :=
  let f := ⌊x⌋
  if x - f < 1 / 2 then f
  else if 1 / 2 < x - f then f + 1
  else if f % 2 = 0 then f else f + 1

/-- Exponent of the last place of the significand. -/
def ulpExp (x : ℚ) : ℤ := max (Int.log 2 |x| - 52) (-1074)

def round (x : ℚ) : ℚ := nearestEven (x / 2 ^ ulpExp x) * 2 ^ ulpExp x

/-- Truncation towards zero. -/
def trunc (x : ℚ) : ℤ := if 0 ≤ x then ⌊x⌋ else ⌈x⌉

theorem nearestEven_intCast (n : ℤ) : nearestEven n = n := by
  unfold nearestEven
  simp

@[simp] theorem trunc_intCast (n : ℤ) : trunc (n : ℚ) = n := by
  unfold trunc
  split <;> simp

/-- Small integers have their last place at or below the units. -/
theorem ulpExp_intCast_nonpos {n : ℤ} (h : |n| < 2 ^ 53) : ulpExp n ≤ 0 := by
  have habs : |(n : ℚ)| = ((n.natAbs : ℕ) : ℚ) := by
    rw [Nat.cast_natAbs, Int.cast_abs]
  have hlog : Nat.log 2 n.natAbs < 53 := by
    by_cases h0 : n.natAbs = 0
    · rw [h0]
      simp
    · rw [Int.abs_eq_natAbs] at h
      exact Nat.log_lt_of_lt_pow h0 (by omega)
  unfold ulpExp
  rw [habs, Int.log_natCast]
  omega

/-- **Exactness**: integers below `2 ^ 53` are representable. -/
theorem round_intCast {n : ℤ} (h : |n| < 2 ^ 53) : round n = n := by
  obtain ⟨k, hk⟩ := Int.eq_ofNat_of_zero_le (Int.neg_nonneg.mpr (ulpExp_intCast_nonpos h))
  have hexp : ulpExp (n : ℚ) = -(k : ℤ) := by omega
  have hpow : (2 : ℚ) ^ ulpExp (n : ℚ) = ((2 : ℚ) ^ k)⁻¹ := by
    rw [hexp, zpow_neg, zpow_natCast]
  have hscaled : (n : ℚ) / ((2 : ℚ) ^ k)⁻¹ = ((n * 2 ^ k : ℤ) : ℚ) := by
    push_cast
    field_simp
  unfold round
  rw [hpow, hscaled, nearestEven_intCast]
  push_cast
  field_simp

end Binary64
