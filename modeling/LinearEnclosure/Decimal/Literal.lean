/-
# Decimal literals

A literal is a decimal number as it is written: a sign, digits before and after an
optional point, and an optional power of ten. `Literal.read` accepts exactly this
grammar, and `Literal.value` is the number that is written, however large its
exponent. A reader of endpoints additionally asks that the exponent, and the position
of the leading digit, fit into a signed word of 64 bits.
-/

import LinearEnclosure.Decimal.Basic

namespace LinearEnclosure

-- Powers are those of the core library.
attribute [local instance (high)] instPowNat

/-- A decimal number as written. The digits stand in reading order. -/
structure Literal where
  negative : Bool
  whole : List Char
  fraction : List Char
  exponent : Int
  deriving DecidableEq

namespace Literal

/-- Split an optional sign from a text; the answer is whether it is a minus. -/
def takeSign : List Char → Bool × List Char
  | '-' :: rest => (true, rest)
  | '+' :: rest => (false, rest)
  | rest => (false, rest)

/-- Read what follows the digits: nothing, or a power of ten with at least one digit. -/
def readExponent : List Char → Option Int
  | [] => some 0
  | mark :: rest =>
    let (negative, digits) := takeSign rest
    if (mark == 'e' || mark == 'E') && !digits.isEmpty && digits.all Char.isDigit then
      let size : Int := Nat.ofDigitChars 10 digits 0
      some (if negative then -size else size)
    else none

/-- Split the digits behind an optional point from a text. -/
def takeFraction : List Char → List Char × List Char
  | '.' :: rest => (rest.takeWhile Char.isDigit, rest.dropWhile Char.isDigit)
  | rest => ([], rest)

/-- Read a literal that makes up the whole text. -/
def read (text : List Char) : Option Literal :=
  let (negative, body) := takeSign text
  let whole := body.takeWhile Char.isDigit
  let (fraction, tail) := takeFraction (body.dropWhile Char.isDigit)
  if whole.isEmpty && fraction.isEmpty then none
  else (readExponent tail).map fun exponent => ⟨negative, whole, fraction, exponent⟩

/-- All digits of the literal, read as one natural number. -/
def coefficient (literal : Literal) : Nat :=
  Nat.ofDigitChars 10 (literal.whole ++ literal.fraction) 0

/-- The position of the last written digit. -/
def position (literal : Literal) : Int :=
  literal.exponent - literal.fraction.length

/-- The number that is written. -/
def value (literal : Literal) : Decimal :=
  Decimal.of (if literal.negative then -literal.coefficient else literal.coefficient)
    literal.position

/-- Whether an exponent fits into a signed word of 64 bits. -/
def fits (exponent : Int) : Bool :=
  -2 ^ (63 : Nat) ≤ exponent && exponent < 2 ^ (63 : Nat)

/-- Whether every exponent met on the way from the written exponent to the position of
the leading nonzero digit fits. Zero has no leading digit to place. -/
def inRange (literal : Literal) : Bool :=
  fits literal.exponent &&
    (literal.coefficient == 0 ||
      fits (literal.exponent + literal.whole.length) && fits (literal.value.top - 1))

end Literal

end LinearEnclosure
