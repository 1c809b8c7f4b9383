/-
# The order of decimal endpoints

Decimal endpoints are ordered as the rational numbers they stand for, and every one of them has
a place in that order. A single product or quotient that is rounded in the two directions of a
context lies around the exact one, or is the same number twice. Sums keep their order in dual
mode, where the exact sums stand between the rounded ones.
-/

import LinearEnclosure.Proofs.Decimal.Directed
import LinearEnclosure.Proofs.Interval.Order

namespace LinearEnclosure.DecimalFloat

open Endpoint

instance : Leveled DecimalFloat where
  level x := some x.value.toRat
  compare?_eq x y := congrArg some (Decimal.compare_eq x.value y.value)

@[simp] theorem isUnordered_eq_false (x : DecimalFloat) : Endpoint.isUnordered x = false := rfl

theorem le_iff (x y : DecimalFloat) :
    Endpoint.le x y = true ↔ x.value.toRat ≤ y.value.toRat := by
  simp [le_iff_level, Leveled.level]

theorem eq_iff (x y : DecimalFloat) :
    Endpoint.eq x y = true ↔ x.value.toRat = y.value.toRat := by
  simp [Endpoint.eq, Leveled.compare?_eq, Leveled.level]

theorem notAbove_iff (x y : DecimalFloat) :
    Endpoint.NotAbove x y ↔ x.value.toRat ≤ y.value.toRat := by
  simp [Endpoint.notAbove_iff, Leveled.level]

/-- What lies on its side of one exact result in every direction is in order between the two
directions of a context. -/
theorem notAbove_of_bounds {rounded : Direction → DecimalFloat} {exact : ℚ}
    (bounds : ∀ direction, Direction.Bounds direction exact (rounded direction).value.toRat)
    (context : Context) :
    Endpoint.NotAbove (rounded context.lower) (rounded context.upper) := by
  rw [Context.lower, Context.upper]
  cases context.mode with
  | single => exact .refl _
  | dual =>
    rw [notAbove_iff]
    exact le_trans (bounds .down) (bounds .up)

instance : OrderedRounding DecimalFloat where
  neg {x y} le := by
    rw [notAbove_iff] at *
    simpa [Endpoint.neg, DecimalFloat.neg] using le
  sub_eq_add_neg _ _ _ _ := rfl
  neg_epsilon precision := by
    have positive := epsilon_pos precision
    rw [notAbove_iff]
    simp only [Endpoint.neg, Endpoint.epsilon, DecimalFloat.neg, Decimal.toRat_neg]
    linarith
  mul context x y := notAbove_of_bounds (mul_bounds · context.precision x y) context
  div context x y nonzero := by
    have nonzero : y.value.toRat ≠ 0 := by
      rintro zero
      exact nonzero (by simp [Leveled.level, zero, Endpoint.zero, DecimalFloat.zero])
    exact notAbove_of_bounds (div_bounds · context.precision x nonzero) context

theorem keepsSums {context : Context} (dual : context.mode = .dual) :
    KeepsSums DecimalFloat context := by
  intro a b c d left right
  rw [notAbove_iff] at *
  rw [Context.lower_eq_down dual, Context.upper_eq_up dual]
  calc (DecimalFloat.add .down context.precision a c).value.toRat
      ≤ a.value.toRat + c.value.toRat := add_bounds .down context.precision a c
    _ ≤ b.value.toRat + d.value.toRat := add_le_add left right
    _ ≤ (DecimalFloat.add .up context.precision b d).value.toRat :=
      add_bounds .up context.precision b d

end LinearEnclosure.DecimalFloat
