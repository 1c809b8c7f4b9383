/-
# Rounding decimal numbers

A decimal is rounded at a position, which is the power of ten that the last kept
digit stands for. `roundTo` keeps a number of digits, `quotientAt` divides, and
`sumAt` adds two numbers that may lie arbitrarily far apart. Each of them rounds the
exact result once.
-/

import LinearEnclosure.Decimal.Basic
import LinearEnclosure.Direction

namespace LinearEnclosure.Decimal

-- Powers are those of the core library.
attribute [local instance (high)] instPowNat

/-- The multiple of `10 ^ position` that stands for `x`; a number that is such a
multiple stands for itself. -/
def roundAt (direction : Direction) (position : Int) (x : Decimal) : Decimal :=
  if position ≤ x.exponent then x
  else of (direction.quotient x.significand (10 ^ (position - x.exponent).toNat)) position

/-- The number with at most `digits` digits that stands for `x`. Rounding `9.96` up to
the next power of ten keeps the promise, because the zeros are not counted. -/
def roundTo (direction : Direction) (digits : Nat) (x : Decimal) : Decimal :=
  roundAt direction (x.top - digits) x

/-- The exact quotient of two numbers, rounded at a position. The caller sees to it that
`y` is not zero. -/
def quotientAt (direction : Direction) (position : Int) (x y : Decimal) : Decimal :=
  let shift := x.exponent - y.exponent - position
  of (direction.quotient (y.significand.sign * x.significand * (10 ^ shift.toNat : Nat))
    (y.significand.natAbs * 10 ^ (-shift).toNat)) position

/-- A number of the same sign that is two places smaller than `10 ^ position`. -/
def speck (sign : Int) (position : Int) : Decimal :=
  of sign.sign (position - 2)

/-- The exact sum, rounded at a position. A summand that lies wholly below both the
other one and the position matters only by its sign, so a speck stands in for it and
the gap between the exponents is never written out. -/
def sumAt (direction : Direction) (position : Int) (x y : Decimal) : Decimal :=
  let floor := min x.exponent position
  let small := if y.top < floor then speck y.significand floor else y
  roundAt direction position (x.add small)

end LinearEnclosure.Decimal
