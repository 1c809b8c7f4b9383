/-
# Decimal numbers in parts

The parts of a decimal number are its sign, its digits from the first to the last one
that is not zero, and the exponent of the first of them. They are what a reader takes
from a text, whatever zeros stand around the digits there and wherever the point is.
Zero has the single digit zero at exponent zero, and it keeps the sign it is written
with.

A text is compared with a number part by part, so that no power of ten has to be
multiplied out.
-/

import LinearEnclosure.Decimal.Literal
import LinearEnclosure.Text.Blank

namespace LinearEnclosure

-- Powers are those of the core library.
attribute [local instance (high)] instPowNat

/-- A decimal number in parts. The digits stand in reading order. -/
structure Decimal.Parts where
  negative : Bool
  digits : List Char
  exponent : Int
  deriving DecidableEq

namespace Decimal.Parts

protected def zero (negative : Bool) : Parts := ⟨negative, ['0'], 0⟩

def isZero (parts : Parts) : Bool :=
  parts.digits == ['0']

/-- The number with these parts. -/
def value (parts : Parts) : Decimal :=
  let size : Int := Nat.ofDigitChars 10 parts.digits 0
  .of (if parts.negative then -size else size) (parts.exponent + 1 - parts.digits.length)

end Decimal.Parts

/-- The parts of an exact number. -/
def Decimal.parts (x : Decimal) : Parts :=
  if x.isZero then .zero false
  else ⟨x.significand < 0, Nat.toDigits 10 x.significand.natAbs, x.top - 1⟩

/-- The zeros at the front of some digits. -/
def leadingZeros (digits : List Char) : List Char :=
  digits.takeWhile (· == '0')

/-- The digits from the first to the last one that is not zero. -/
def significantDigits (digits : List Char) : List Char :=
  ((digits.dropWhile (· == '0')).reverse.dropWhile (· == '0')).reverse

namespace Literal

/-- An exponent, if it fits into a signed word of 64 bits. -/
def checked (exponent : Int) : Option Int :=
  if fits exponent then some exponent else none

/-- The parts of a literal. Each exponent on the way from the written one to that of the
first significant digit has to fit, and zero has no such digit. -/
def parts? (literal : Literal) : Option Decimal.Parts := do
  let written ← checked literal.exponent
  let all := literal.whole ++ literal.fraction
  let digits := significantDigits all
  if digits.isEmpty then return .zero literal.negative
  let point ← checked (written + literal.whole.length)
  let first ← checked (point - 1)
  let exponent ← checked (first - (leadingZeros all).length)
  return ⟨literal.negative, digits, exponent⟩

end Literal

/-- The parts of the number written in a text, blanks around it aside. -/
def Decimal.Parts.read (text : List Char) : Option Parts :=
  (Literal.read (Text.trim text)).bind Literal.parts?

/-- Whether a text writes the number with these parts. Zero is the same number with either
sign. -/
def Decimal.Parts.isWrittenIn (text : List Char) (parts : Parts) : Bool :=
  match read text with
  | some written =>
    written.digits == parts.digits &&
      (written.isZero ||
        written.negative == parts.negative && written.exponent == parts.exponent)
  | none => false

/-- The number written in a text. -/
def Decimal.read (text : List Char) : Option Decimal :=
  (Parts.read text).map Parts.value

end LinearEnclosure
