/-
# Decimal floating-point numbers

A `DecimalFloat` is an exact decimal together with the precision it was made at. An
operation works at the largest of the precisions involved, rounds its exact result
once, and rounds a second time only where its own precision is the smaller one.

The digits kept by one rounding are counted in different ways. A product keeps as many
digits as the precision says. A sum of unlike signs keeps one more, counted from the
larger summand, and a zero summand is dropped without any rounding. A quotient that
comes out even is exact. A value may therefore hold more digits than its precision.
-/

import LinearEnclosure.Decimal.DigitBound
import LinearEnclosure.Decimal.Literal
import LinearEnclosure.Decimal.Rounding

namespace LinearEnclosure

-- Powers are those of the core library.
attribute [local instance (high)] instPowNat

/-- A decimal number and the precision, in digits, that it was made at. Precision zero
marks the two constants, which limit nothing. -/
structure DecimalFloat where
  value : Decimal
  precision : Nat
  deriving DecidableEq, Inhabited

namespace DecimalFloat

protected def zero : DecimalFloat := ⟨Decimal.zero, 0⟩

protected def one : DecimalFloat := ⟨Decimal.one, 0⟩

/-- A number that is written with all its digits. -/
def ofDecimal (x : Decimal) : DecimalFloat :=
  ⟨x, max x.size 1⟩

/-- Change the precision, rounding only where it decreases. -/
def withPrecision (direction : Direction) (precision : Nat) (x : DecimalFloat) :
    DecimalFloat :=
  ⟨if precision < x.precision then x.value.roundTo direction precision else x.value,
    precision⟩

/-- Where the smaller summand `y` is cut before the leading position of the sum is
read off. Full alignment is kept where the summands may cancel, judged by the bound on
the digits of `y`. -/
def cutPosition (digits : Nat) (opposite : Bool) (x y : Decimal) : Int :=
  let gap := (x.exponent - y.exponent).toNat
  if opposite && x.size + gap ≤ digitBound y.significand.natAbs + digits then y.exponent
  else x.exponent - min gap (digits - x.size)

/-- The part of `x` above a position, cut toward zero, in units of that position. -/
def headAt (position : Int) (x : Decimal) : Int :=
  let places := (position - x.exponent).toNat
  if x.size ≤ places then 0 else x.scaled position |>.tdiv (10 ^ places : Nat)

/-- The position at which the sum of two nonzero numbers is rounded; the exponent of `x`
is not below that of `y`. Unlike signs leave room for one guard digit. -/
def sumPosition (digits : Nat) (x y : Decimal) : Int :=
  let opposite := y.exponent < x.exponent && x.significand.sign != y.significand.sign
  let cut := cutPosition digits opposite x y
  let head := headAt cut x + headAt cut y
  max (cut + digitCount head.natAbs - (if opposite then digits + 1 else digits)) y.exponent

/-- The sum at a precision. -/
def sum (direction : Direction) (digits : Nat) (x y : Decimal) : Decimal :=
  if x.isZero then y
  else if y.isZero then x
  else if x.exponent < y.exponent then y.sumAt direction (sumPosition digits y x) x
  else x.sumAt direction (sumPosition digits x y) y

/-- The product at a precision. -/
def product (direction : Direction) (digits : Nat) (x y : Decimal) : Decimal :=
  (x.mul y).roundTo direction digits

/-- How many places below the exponents of its operands a quotient is carried on. An
even division needs none. -/
def quotientPlaces (digits : Nat) (x y : Decimal) : Nat :=
  let whole := x.significand.natAbs / y.significand.natAbs
  let rest := x.significand.natAbs % y.significand.natAbs
  if rest = 0 then 0
  else if whole = 0 then y.size + digits - x.size
  else digits - digitCount whole

/-- The quotient at a precision; the divisor is not zero. -/
def quotient (direction : Direction) (digits : Nat) (x y : Decimal) : Decimal :=
  x.quotientAt direction (x.exponent - y.exponent - quotientPlaces digits x y) y

/-- Carry out an operation at the largest precision involved, then settle for the
requested one. -/
def apply (operation : Direction → Nat → Decimal → Decimal → Decimal)
    (direction : Direction) (precision : Nat) (x y : DecimalFloat) : DecimalFloat :=
  let working := max (max precision 1) (max x.precision y.precision)
  withPrecision direction (max precision 1)
    ⟨operation direction working x.value y.value, working⟩

/-- Exact negation. -/
protected def neg (x : DecimalFloat) : DecimalFloat :=
  ⟨x.value.neg, x.precision⟩

protected def add : Direction → Nat → DecimalFloat → DecimalFloat → DecimalFloat :=
  apply sum

protected def sub (direction : Direction) (precision : Nat) (x y : DecimalFloat) :
    DecimalFloat :=
  apply sum direction precision x y.neg

protected def mul : Direction → Nat → DecimalFloat → DecimalFloat → DecimalFloat :=
  apply product

protected def div : Direction → Nat → DecimalFloat → DecimalFloat → DecimalFloat :=
  apply quotient

/-- A signed word of 64 bits holds only so many digits, so a precision beyond it wraps. -/
private def epsilonExponent (precision : Nat) : Int :=
  Int.bmod (1 - Int.bmod (max precision 1) (2 ^ (64 : Nat))) (2 ^ (64 : Nat))

/-- One unit in the last place of a number just above one. -/
def epsilon (precision : Nat) : DecimalFloat :=
  ofDecimal (Decimal.of 1 (epsilonExponent precision))

/-- A decimal, rounded to at most `precision` digits. -/
def round (direction : Direction) (precision : Nat) (x : Decimal) : DecimalFloat :=
  (ofDecimal x).withPrecision direction (max precision 1)

end DecimalFloat

end LinearEnclosure
