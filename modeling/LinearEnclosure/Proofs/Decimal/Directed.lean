/-
# Directed decimal arithmetic

An operation on decimal floating-point numbers may work at the precision of an operand
and round a second time, and where it cuts depends on the digits of both operands. None
of this moves a result across the exact one: a result that is rounded down lies at or
below it, and one that is rounded up at or above it, at every precision of the operands
and of the operation.
-/

import LinearEnclosure.DecimalFloat
import LinearEnclosure.Proofs.Decimal.Grid

namespace LinearEnclosure.DecimalFloat

open Decimal

variable (direction : Direction)

theorem sum_bounds (digits : ℕ) (x y : Decimal) :
    direction.Bounds (x.toRat + y.toRat) (sum direction digits x y).toRat := by
  unfold sum
  by_cases left : x.isZero = true
  · rw [if_pos left, isZero_iff.mp left, zero_add]
    apply Direction.Bounds.refl
  by_cases right : y.isZero = true
  · rw [if_neg left, if_pos right, isZero_iff.mp right, add_zero]
    apply Direction.Bounds.refl
  rw [if_neg left, if_neg right]
  by_cases order : x.exponent < y.exponent
  · rw [if_pos order, toRat_sumAt, add_comm]
    apply Direction.bounds_onGrid
  · rw [if_neg order, toRat_sumAt]
    apply Direction.bounds_onGrid

theorem product_bounds (digits : ℕ) (x y : Decimal) :
    direction.Bounds (x.toRat * y.toRat) (product direction digits x y).toRat := by
  rw [product, toRat_roundTo, toRat_mul]
  apply Direction.bounds_onGrid

theorem quotient_bounds (digits : ℕ) (x : Decimal) {y : Decimal} (nonzero : y.toRat ≠ 0) :
    direction.Bounds (x.toRat / y.toRat) (quotient direction digits x y).toRat := by
  rw [quotient, toRat_quotientAt _ _ _ nonzero]
  apply Direction.bounds_onGrid

/-- Changing the precision moves a number only in the given direction. -/
theorem withPrecision_bounds (precision : ℕ) (x : DecimalFloat) :
    direction.Bounds x.value.toRat (x.withPrecision direction precision).value.toRat := by
  unfold withPrecision
  split
  · rw [toRat_roundTo]
    apply Direction.bounds_onGrid
  · apply Direction.Bounds.refl

/-- An operation that keeps to its side at the working precision keeps to it after the
second rounding. -/
theorem apply_bounds {operation : Direction → ℕ → Decimal → Decimal → Decimal} {exact : ℚ}
    {x y : DecimalFloat}
    (bounds : ∀ digits, direction.Bounds exact (operation direction digits x.value y.value).toRat)
    (precision : ℕ) :
    direction.Bounds exact (apply operation direction precision x y).value.toRat :=
  (bounds _).trans (withPrecision_bounds direction _ _)

theorem add_bounds (precision : ℕ) (x y : DecimalFloat) :
    direction.Bounds (x.value.toRat + y.value.toRat)
      (DecimalFloat.add direction precision x y).value.toRat := by
  apply apply_bounds
  intro digits
  exact sum_bounds direction digits _ _

theorem sub_bounds (precision : ℕ) (x y : DecimalFloat) :
    direction.Bounds (x.value.toRat - y.value.toRat)
      (DecimalFloat.sub direction precision x y).value.toRat := by
  have exactNeg : x.value.toRat - y.value.toRat = x.value.toRat + y.neg.value.toRat := by
    rw [DecimalFloat.neg, toRat_neg, sub_eq_add_neg]
  rw [exactNeg]
  apply apply_bounds
  intro digits
  exact sum_bounds direction digits _ _

theorem mul_bounds (precision : ℕ) (x y : DecimalFloat) :
    direction.Bounds (x.value.toRat * y.value.toRat)
      (DecimalFloat.mul direction precision x y).value.toRat := by
  apply apply_bounds
  intro digits
  exact product_bounds direction digits _ _

theorem div_bounds (precision : ℕ) (x : DecimalFloat) {y : DecimalFloat}
    (nonzero : y.value.toRat ≠ 0) :
    direction.Bounds (x.value.toRat / y.value.toRat)
      (DecimalFloat.div direction precision x y).value.toRat := by
  apply apply_bounds
  intro digits
  exact quotient_bounds direction digits _ nonzero

/-- Rounding an exact decimal keeps to the side of the direction. -/
theorem round_bounds (precision : ℕ) (x : Decimal) :
    direction.Bounds x.toRat (round direction precision x).value.toRat :=
  withPrecision_bounds direction _ (ofDecimal x)

/-- The unit in the last place is positive at every precision. -/
theorem epsilon_pos (precision : ℕ) : 0 < (epsilon precision).value.toRat := by
  simp only [epsilon, ofDecimal, toRat_of, Int.cast_one, one_mul]
  positivity

end LinearEnclosure.DecimalFloat
