/-
# Decimals as rational numbers

Every decimal stands for one rational number, and the operations of the library are read
through that number: bringing a pair to normal form keeps it, exact sums and products are
sums and products of rationals, and the order of decimals is the order of the rationals
they stand for, although it is decided from signs and leading positions first.
-/

import LinearEnclosure.Decimal.Basic
import Mathlib

namespace LinearEnclosure.Decimal

/-- The rational number that a decimal stands for. -/
def toRat (x : Decimal) : ℚ :=
  x.significand * 10 ^ x.exponent

@[simp] theorem toRat_zero : Decimal.zero.toRat = 0 := by
  simp [toRat, Decimal.zero]

@[simp] theorem toRat_one : Decimal.one.toRat = 1 := by
  simp [toRat, Decimal.one]

/-- Normal form does not change the number. -/
@[simp] theorem toRat_of (significand exponent : ℤ) :
    (of significand exponent).toRat = significand * 10 ^ exponent := by
  unfold of
  by_cases zero : significand = 0
  · simp [zero]
  · rw [dif_neg zero]
    have divides : ((10 ^ trailingZeros significand.natAbs : ℕ) : ℤ) ∣ significand :=
      Int.natCast_dvd.mpr (ten_pow_trailingZeros_dvd _)
    simp only [toRat]
    generalize trailingZeros significand.natAbs = zeros at divides ⊢
    obtain ⟨rest, rfl⟩ := divides
    have power : ((10 ^ zeros : ℕ) : ℤ) ≠ 0 := by positivity
    rw [Int.mul_ediv_cancel_left _ power, zpow_add₀ (by norm_num), zpow_natCast]
    push_cast
    ring

@[simp] theorem toRat_neg (x : Decimal) : x.neg.toRat = -x.toRat := by
  simp [toRat, Decimal.neg]

theorem toRat_eq_zero_iff {x : Decimal} : x.toRat = 0 ↔ x.significand = 0 := by
  simp [toRat, zpow_ne_zero]

/-- The test for zero looks at the significand alone. -/
theorem isZero_iff {x : Decimal} : x.isZero = true ↔ x.toRat = 0 := by
  rw [isZero, beq_iff_eq, toRat_eq_zero_iff]

/-- Writing a number with a lower exponent does not change it. -/
theorem scaled_mul_zpow {x : Decimal} {position : ℤ} (below : position ≤ x.exponent) :
    (x.scaled position : ℚ) * 10 ^ position = x.toRat := by
  have gap : ((x.exponent - position).toNat : ℤ) = x.exponent - position := by omega
  rw [scaled, toRat]
  push_cast
  rw [← zpow_natCast, gap, mul_assoc, ← zpow_add₀ (by norm_num), sub_add_cancel]

private theorem exponent_le_of_toRat_eq {x y : Decimal} (same : x.toRat = y.toRat)
    (nonzero : x.significand ≠ 0) : y.exponent ≤ x.exponent := by
  by_contra! finer
  have common : x.significand = y.scaled x.exponent := by
    have power : (10 : ℚ) ^ x.exponent ≠ 0 := by positivity
    have equal := same.trans (scaled_mul_zpow finer.le).symm
    exact_mod_cast mul_right_cancel₀ power equal
  have multiple : (10 : ℤ) ∣ x.significand := by
    have gap : (y.exponent - x.exponent).toNat ≠ 0 := by omega
    rw [common, scaled]
    push_cast
    exact (dvd_pow_self 10 gap).mul_left y.significand
  have normal := x.normal
  omega

/-- In normal form a number is written in one way only. -/
theorem toRat_injective : Function.Injective toRat := by
  intro x y same
  by_cases zero : x.significand = 0
  · have zero' : y.significand = 0 := by
      rw [← toRat_eq_zero_iff, ← same, toRat_eq_zero_iff, zero]
    have normal := x.normal
    have normal' := y.normal
    cases x
    cases y
    simp_all
  · have nonzero : y.significand ≠ 0 := by
      rwa [Ne, ← toRat_eq_zero_iff, ← same, toRat_eq_zero_iff]
    have exponents := le_antisymm (exponent_le_of_toRat_eq same.symm nonzero)
      (exponent_le_of_toRat_eq same zero)
    have significands : x.significand = y.significand := by
      have power : (10 : ℚ) ^ y.exponent ≠ 0 := by positivity
      rw [toRat, toRat, exponents] at same
      exact_mod_cast mul_right_cancel₀ power same
    cases x
    cases y
    simp_all

@[simp] theorem toRat_add (x y : Decimal) : (x.add y).toRat = x.toRat + y.toRat := by
  have left := scaled_mul_zpow (x := x) (min_le_left x.exponent y.exponent)
  have right := scaled_mul_zpow (x := y) (min_le_right x.exponent y.exponent)
  rw [Decimal.add, toRat_of, Int.cast_add, add_mul, left, right]

@[simp] theorem toRat_mul (x y : Decimal) : (x.mul y).toRat = x.toRat * y.toRat := by
  rw [Decimal.mul, toRat_of, zpow_add₀ (by norm_num), toRat, toRat]
  push_cast
  ring

/-! ## Magnitudes -/

/-- The magnitude of a number lies below the power of ten that its top names. -/
theorem abs_toRat_lt (x : Decimal) : |x.toRat| < 10 ^ x.top := by
  have count := lt_ten_pow_digitCount x.significand.natAbs
  have small : |(x.significand : ℚ)| < 10 ^ x.size := by
    rw [← Int.cast_abs, Int.abs_eq_natAbs]
    exact_mod_cast count
  have power : (0 : ℚ) < 10 ^ x.exponent := by positivity
  calc |x.toRat| = |(x.significand : ℚ)| * 10 ^ x.exponent := by
        rw [toRat, abs_mul, abs_of_pos power]
    _ < 10 ^ x.size * 10 ^ x.exponent := by gcongr
    _ = 10 ^ x.top := by
      rw [top, zpow_add₀ (by norm_num), zpow_natCast, mul_comm]

/-- A number that is not zero reaches the power of ten just below its top. -/
theorem zpow_top_le_abs_toRat {x : Decimal} (nonzero : x.significand ≠ 0) :
    10 ^ (x.top - 1) ≤ |x.toRat| := by
  have count := ten_pow_le_of_digitCount (n := x.significand.natAbs) (by omega)
  have long : 0 < x.size := by
    rcases Nat.eq_zero_or_pos x.size with empty | long
    · have := lt_ten_pow_digitCount x.significand.natAbs
      rw [show digitCount x.significand.natAbs = 0 from empty] at this
      omega
    · exact long
  have large : (10 : ℚ) ^ (x.size - 1) ≤ |(x.significand : ℚ)| := by
    rw [← Int.cast_abs, Int.abs_eq_natAbs]
    exact_mod_cast count
  have power : (0 : ℚ) < 10 ^ x.exponent := by positivity
  calc (10 : ℚ) ^ (x.top - 1) = 10 ^ (x.size - 1) * 10 ^ x.exponent := by
        rw [← zpow_natCast, ← zpow_add₀ (by norm_num), top]
        congr 1
        omega
    _ ≤ |(x.significand : ℚ)| * 10 ^ x.exponent := by gcongr
    _ = |x.toRat| := by rw [toRat, abs_mul, abs_of_pos power]

/-! ## Order -/

theorem toRat_pos_iff {x : Decimal} : 0 < x.toRat ↔ 0 < x.significand := by
  have power : (0 : ℚ) < 10 ^ x.exponent := by positivity
  rw [toRat, mul_pos_iff_of_pos_right power, Int.cast_pos]

theorem toRat_neg_iff {x : Decimal} : x.toRat < 0 ↔ x.significand < 0 := by
  have power : (0 : ℚ) < 10 ^ x.exponent := by positivity
  rw [toRat, mul_neg_iff]
  simp [power, power.not_gt]

private theorem toRat_lt_of_sign_lt {x y : Decimal}
    (signs : x.significand.sign < y.significand.sign) : x.toRat < y.toRat := by
  by_cases left : x.significand < 0
  · have nonneg : ¬y.toRat < 0 := by
      intro below
      have right := toRat_neg_iff.mp below
      rw [Int.sign_eq_neg_one_of_neg left, Int.sign_eq_neg_one_of_neg right] at signs
      exact lt_irrefl _ signs
    exact (toRat_neg_iff.mpr left).trans_le (not_lt.mp nonneg)
  · have right : 0 < y.significand := by
      have start : 0 ≤ x.significand.sign := Int.sign_nonneg_iff.mpr (not_lt.mp left)
      exact Int.sign_pos_iff.mp (start.trans_lt signs)
    have nonpos : ¬0 < x.toRat := by
      intro above
      have left := toRat_pos_iff.mp above
      rw [Int.sign_eq_one_of_pos left, Int.sign_eq_one_of_pos right] at signs
      exact lt_irrefl _ signs
    exact (not_lt.mp nonpos).trans_lt (toRat_pos_iff.mpr right)

/-- Of two positive numbers the one with the lower top is smaller. -/
private theorem abs_toRat_lt_of_top_lt {x y : Decimal} (nonzero : y.significand ≠ 0)
    (tops : x.top < y.top) : |x.toRat| < |y.toRat| :=
  calc |x.toRat| < 10 ^ x.top := abs_toRat_lt x
    _ ≤ 10 ^ (y.top - 1) := zpow_le_zpow_right₀ (by norm_num) (by omega)
    _ ≤ |y.toRat| := zpow_top_le_abs_toRat nonzero

private theorem toRat_lt_of_top_lt {x y : Decimal}
    (signs : x.significand.sign = y.significand.sign)
    (tops : x.significand.sign * x.top < y.significand.sign * y.top) : x.toRat < y.toRat := by
  rcases lt_trichotomy y.significand 0 with right | right | right
  · rw [signs, Int.sign_eq_neg_one_of_neg right] at tops
    have left : x.significand < 0 := by
      rwa [Int.sign_eq_neg_one_of_neg right, Int.sign_eq_neg_one_iff_neg] at signs
    have larger := abs_toRat_lt_of_top_lt (x := y) (y := x) (by omega) (by omega)
    rw [abs_of_neg (toRat_neg_iff.mpr right), abs_of_neg (toRat_neg_iff.mpr left)] at larger
    linarith
  · rw [signs, right] at tops
    simp at tops
  · rw [signs, Int.sign_eq_one_of_pos right] at tops
    have left : 0 < x.significand := by
      rwa [Int.sign_eq_one_of_pos right, Int.sign_eq_one_iff_pos] at signs
    have larger := abs_toRat_lt_of_top_lt (x := x) (y := y) (by omega) (by omega)
    rwa [abs_of_pos (toRat_pos_iff.mpr right), abs_of_pos (toRat_pos_iff.mpr left)] at larger

/-- Numbers written with a common exponent are ordered by their significands. -/
private theorem compare_scaled (x y : Decimal) :
    compare (x.scaled (min x.exponent y.exponent)) (y.scaled (min x.exponent y.exponent)) =
      compare x.toRat y.toRat := by
  have left := scaled_mul_zpow (x := x) (min_le_left x.exponent y.exponent)
  have right := scaled_mul_zpow (x := y) (min_le_right x.exponent y.exponent)
  have power : (0 : ℚ) < 10 ^ min x.exponent y.exponent := by positivity
  rw [← left, ← right]
  rcases lt_trichotomy (x.scaled (min x.exponent y.exponent))
    (y.scaled (min x.exponent y.exponent)) with less | same | greater
  · rw [compare_lt_iff_lt.mpr less, eq_comm, compare_lt_iff_lt]
    gcongr
  · rw [same]
    simp
  · rw [compare_gt_iff_gt.mpr greater, eq_comm, compare_gt_iff_gt]
    gcongr

/-- Decimals are ordered as the rational numbers they stand for. -/
theorem compare_eq (x y : Decimal) : x.compare y = compare x.toRat y.toRat := by
  rw [Decimal.compare, compare_scaled]
  rcases lt_trichotomy x.significand.sign y.significand.sign with signs | signs | signs
  · rw [compare_lt_iff_lt.mpr signs, compare_lt_iff_lt.mpr (toRat_lt_of_sign_lt signs)]
    rfl
  · rw [compare_eq_iff_eq.mpr signs, Ordering.eq_then]
    rcases lt_trichotomy (x.significand.sign * x.top) (y.significand.sign * y.top)
      with tops | tops | tops
    · rw [compare_lt_iff_lt.mpr tops, compare_lt_iff_lt.mpr (toRat_lt_of_top_lt signs tops)]
      rfl
    · rw [compare_eq_iff_eq.mpr tops, Ordering.eq_then]
    · rw [compare_gt_iff_gt.mpr tops, compare_gt_iff_gt.mpr (toRat_lt_of_top_lt signs.symm tops)]
      rfl
  · rw [compare_gt_iff_gt.mpr signs, compare_gt_iff_gt.mpr (toRat_lt_of_sign_lt signs)]
    rfl

end LinearEnclosure.Decimal
