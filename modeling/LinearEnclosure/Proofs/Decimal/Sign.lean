/-
# The signs of decimal results

Rounding on a grid goes through zero in no direction, since zero is a point of every grid. So
decimal results have the signs of the exact ones, whatever is rounded and however often.
-/

import LinearEnclosure.Proofs.Decimal.Order
import LinearEnclosure.Proofs.Interval.Sign

namespace LinearEnclosure

namespace Direction

theorem integer_keepsSign (direction : Direction) (q : ℚ) :
    nearest.KeepsSign q (direction.integer q) := by
  have half : (0 : ℚ) ≤ 1 / 2 := by norm_num
  constructor
  · intro _ nonneg
    rw [Int.cast_nonneg_iff]
    cases direction with
    | down => exact Int.floor_nonneg.mpr nonneg
    | up => exact Int.ceil_nonneg nonneg
    | nearest =>
      rw [integer, if_pos nonneg]
      exact Int.floor_nonneg.mpr (add_nonneg nonneg half)
  · intro _ nonpos
    rw [Int.cast_nonpos]
    cases direction with
    | down => exact Int.floor_nonpos nonpos
    | up => exact Int.ceil_nonpos.mpr nonpos
    | nearest =>
      rw [integer]
      split
      · next nonneg =>
        rw [le_antisymm nonpos nonneg]
        norm_num
      · exact neg_nonpos.mpr (Int.floor_nonneg.mpr (add_nonneg (neg_nonneg.mpr nonpos) half))

theorem onGrid_keepsSign (direction : Direction) (position : ℤ) (q : ℚ) :
    nearest.KeepsSign q (direction.onGrid position q) := by
  have power : (0 : ℚ) ≤ 10 ^ position := by positivity
  have scaled := direction.integer_keepsSign (q / 10 ^ position)
  constructor
  · intro notDown nonneg
    exact mul_nonneg (scaled.nonneg notDown (div_nonneg nonneg power)) power
  · intro notUp nonpos
    exact mul_nonpos_of_nonpos_of_nonneg
      (scaled.nonpos notUp (div_nonpos_of_nonpos_of_nonneg nonpos power)) power

end Direction

namespace DecimalFloat

open Decimal Direction

variable (direction : Direction)

theorem sum_keepsSign (digits : ℕ) (x y : Decimal) :
    nearest.KeepsSign (x.toRat + y.toRat) (sum direction digits x y).toRat := by
  unfold sum
  by_cases left : x.isZero = true
  · rw [if_pos left, isZero_iff.mp left, zero_add]
    exact .refl _ _
  by_cases right : y.isZero = true
  · rw [if_neg left, if_pos right, isZero_iff.mp right, add_zero]
    exact .refl _ _
  rw [if_neg left, if_neg right]
  by_cases order : x.exponent < y.exponent
  · rw [if_pos order, toRat_sumAt, add_comm]
    exact onGrid_keepsSign ..
  · rw [if_neg order, toRat_sumAt]
    exact onGrid_keepsSign ..

theorem product_keepsSign (digits : ℕ) (x y : Decimal) :
    nearest.KeepsSign (x.toRat * y.toRat) (product direction digits x y).toRat := by
  rw [product, toRat_roundTo, toRat_mul]
  exact onGrid_keepsSign ..

theorem quotient_keepsSign (digits : ℕ) (x : Decimal) {y : Decimal} (nonzero : y.toRat ≠ 0) :
    nearest.KeepsSign (x.toRat / y.toRat) (quotient direction digits x y).toRat := by
  rw [quotient, toRat_quotientAt _ _ _ nonzero]
  exact onGrid_keepsSign ..

theorem withPrecision_keepsSign (precision : ℕ) (x : DecimalFloat) :
    nearest.KeepsSign x.value.toRat (x.withPrecision direction precision).value.toRat := by
  unfold withPrecision
  split
  · rw [toRat_roundTo]
    exact onGrid_keepsSign ..
  · exact .refl _ _

theorem apply_keepsSign {operation : Direction → ℕ → Decimal → Decimal → Decimal} {exact : ℚ}
    {x y : DecimalFloat}
    (kept : ∀ digits, nearest.KeepsSign exact (operation direction digits x.value y.value).toRat)
    (precision : ℕ) :
    nearest.KeepsSign exact (apply operation direction precision x y).value.toRat := by
  rw [apply]
  exact (kept _).trans (withPrecision_keepsSign direction _ ⟨_, _⟩)

/-- A quotient has the sign of the product. -/
theorem div_keepsSign_mul (a b : ℚ) : nearest.KeepsSign (a * b) (a / b) where
  nonneg _ nonneg := div_nonneg_iff.mpr (mul_nonneg_iff.mp nonneg)
  nonpos _ nonpos := div_nonpos_iff.mpr (mul_nonpos_iff.mp nonpos)

instance : SignedRounding DecimalFloat where
  level_zero := congrArg some toRat_zero
  mul {direction precision x y c} stands := by
    obtain rfl := Option.some.inj stands
    refine ⟨_, _, rfl, rfl, .of_nearest (apply_keepsSign direction ?_ precision)⟩
    exact fun digits => product_keepsSign direction digits _ _
  div {direction precision x y c} stands := by
    obtain rfl := Option.some.inj stands
    refine ⟨_, _, rfl, rfl, fun nonzero => .of_nearest (apply_keepsSign direction ?_ precision)⟩
    intro digits
    exact (div_keepsSign_mul _ _).trans (quotient_keepsSign direction digits _ nonzero)
  sub {direction precision x y c} stands := by
    obtain rfl := Option.some.inj stands
    refine ⟨_, _, rfl, rfl, .of_nearest (apply_keepsSign direction ?_ precision)⟩
    intro digits
    have signs := sum_keepsSign direction digits x.value y.value.neg
    rwa [toRat_neg, ← sub_eq_add_neg] at signs

end DecimalFloat

end LinearEnclosure
