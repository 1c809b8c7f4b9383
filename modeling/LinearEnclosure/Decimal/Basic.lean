/-
# Exact decimal numbers

A `Decimal` is a number `significand * 10 ^ exponent`, kept in its only normal
form: the significand does not end in zero, and zero itself has exponent zero.
Two decimals are therefore the same number exactly when they are equal.

`top` is the position just above the leading digit. Magnitudes with different tops
are ordered by them, so numbers are compared without ever writing out a power of ten
as large as the gap between two exponents.
-/

import LinearEnclosure.Decimal.Digits

namespace LinearEnclosure

-- Powers are those of the core library.
attribute [local instance (high)] instPowNat

/-- The number `significand * 10 ^ exponent`, in normal form. -/
structure Decimal where
  significand : Int
  exponent : Int
  normal : significand % 10 ≠ 0 ∨ significand = 0 ∧ exponent = 0
  deriving DecidableEq

namespace Decimal

protected def zero : Decimal := ⟨0, 0, by decide⟩

protected def one : Decimal := ⟨1, 0, by decide⟩

instance : Inhabited Decimal := ⟨Decimal.zero⟩

private theorem stripped_mod {significand : Int} (nonzero : significand ≠ 0) :
    significand / (10 ^ trailingZeros significand.natAbs : Nat) % 10 ≠ 0 := by
  obtain ⟨k, split⟩ := ten_pow_trailingZeros_dvd significand.natAbs
  have rest := div_trailingZeros_mod (n := significand.natAbs) (by omega)
  generalize trailingZeros significand.natAbs = zeros at *
  have power : 0 < 10 ^ zeros := Nat.pow_pos (by decide)
  rw [split, Nat.mul_div_cancel_left _ power] at rest
  have scale : ((10 ^ zeros : Nat) : Int) ≠ 0 := by omega
  rcases Int.natAbs_eq significand with sign | sign
  · rw [sign, split, Int.natCast_mul, Int.mul_ediv_cancel_left _ scale]
    omega
  · rw [sign, split, Int.natCast_mul, ← Int.mul_neg, Int.mul_ediv_cancel_left _ scale]
    omega

/-- The number `significand * 10 ^ exponent`, brought to normal form. -/
def of (significand exponent : Int) : Decimal :=
  if nonzero : significand = 0 then Decimal.zero
  else
    let zeros := trailingZeros significand.natAbs
    ⟨significand / (10 ^ zeros : Nat), exponent + zeros, .inl (stripped_mod nonzero)⟩

/-- The same magnitude with the other sign. -/
protected def neg (x : Decimal) : Decimal :=
  ⟨-x.significand, x.exponent, by have := x.normal; omega⟩

def isZero (x : Decimal) : Bool :=
  x.significand == 0

/-- The number of digits of the significand. -/
def size (x : Decimal) : Nat :=
  digitCount x.significand.natAbs

/-- The least power of ten above the magnitude of a nonzero number. -/
def top (x : Decimal) : Int :=
  x.exponent + x.size

/-- The significand of `x` when it is written with the lower exponent `position`. -/
def scaled (x : Decimal) (position : Int) : Int :=
  x.significand * (10 ^ (x.exponent - position).toNat : Nat)

/-- The exact sum. -/
protected def add (x y : Decimal) : Decimal :=
  let position := min x.exponent y.exponent
  of (x.scaled position + y.scaled position) position

/-- The exact product. -/
protected def mul (x y : Decimal) : Decimal :=
  of (x.significand * y.significand) (x.exponent + y.exponent)

/-- The order of two numbers. Signs decide first, then the leading positions, and
only numbers that agree in both are brought to a common exponent. -/
protected def compare (x y : Decimal) : Ordering :=
  let position := min x.exponent y.exponent
  (compare x.significand.sign y.significand.sign).then
    ((compare (x.significand.sign * x.top) (y.significand.sign * y.top)).then
      (compare (x.scaled position) (y.scaled position)))

/-- Positional notation: every digit is written out and no exponent is used. -/
def plain (x : Decimal) : List Char :=
  let digits := Nat.toDigits 10 x.significand.natAbs
  let sign := if x.significand < 0 then ['-'] else []
  if 0 ≤ x.exponent then sign ++ digits ++ List.replicate x.exponent.toNat '0'
  else
    let places := (-x.exponent).toNat
    let padded := List.replicate (places + 1 - digits.length) '0' ++ digits
    let whole := padded.length - places
    sign ++ padded.take whole ++ '.' :: padded.drop whole

end Decimal

end LinearEnclosure
