/-
# Operations with a zero

A product or a quotient of zero is zero at every precision, and a zero summand is dropped.
None of this rounds anything, so it holds of the numbers themselves and not only up to their
precisions.
-/

import LinearEnclosure.DecimalFloat
import LinearEnclosure.Proofs.Decimal.Value

namespace LinearEnclosure

@[simp] theorem Direction.quotient_zero (direction : Direction) (denominator : ℕ) :
    direction.quotient 0 denominator = 0 := by
  cases direction with
  | down => simp [quotient]
  | up => simp [quotient]
  | nearest =>
    rw [quotient, if_pos le_rfl, mul_zero, zero_add]
    obtain rfl | positive := Nat.eq_zero_or_pos denominator
    · simp
    · exact Int.ediv_eq_zero_of_lt (by omega) (by omega)

namespace Decimal

theorem isZero_iff_eq {x : Decimal} : x.isZero = true ↔ x = Decimal.zero := by
  rw [isZero_iff, ← toRat_zero, toRat_injective.eq_iff]

theorem isZero_eq_false_iff {x : Decimal} : x.isZero = false ↔ x.significand ≠ 0 :=
  beq_eq_false_iff_ne

@[simp] theorem significand_zero : Decimal.zero.significand = 0 := rfl

@[simp] theorem of_zero (position : ℤ) : of 0 position = Decimal.zero :=
  dif_pos rfl

@[simp] theorem neg_zero : Decimal.zero.neg = Decimal.zero := rfl

@[simp] theorem roundTo_zero (direction : Direction) (digits : ℕ) :
    roundTo direction digits Decimal.zero = Decimal.zero := by
  simp [roundTo, roundAt]

end Decimal

namespace DecimalFloat

open Decimal

variable (direction : Direction) (digits : ℕ) (x : Decimal)

@[simp] theorem sum_zero_right : sum direction digits x Decimal.zero = x := by
  unfold sum
  split
  · next zero => exact (isZero_iff_eq.mp zero).symm
  · rfl

@[simp] theorem product_zero_left : product direction digits Decimal.zero x = Decimal.zero := by
  simp [product, Decimal.mul]

@[simp] theorem product_zero_right : product direction digits x Decimal.zero = Decimal.zero := by
  simp [product, Decimal.mul]

@[simp] theorem quotient_zero_left :
    quotient direction digits Decimal.zero x = Decimal.zero := by
  simp [quotient, quotientAt]

end DecimalFloat

end LinearEnclosure
