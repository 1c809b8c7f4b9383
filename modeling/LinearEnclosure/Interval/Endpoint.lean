/-
# Endpoints

What an interval asks of the numbers at its ends: arithmetic in a direction and at a
precision, an order, and text. There are two kinds of endpoint, the binary numbers of
64 bits, whose precision is fixed, and the decimal floating-point numbers.
-/

import LinearEnclosure.Binary.Directed
import LinearEnclosure.Context
import LinearEnclosure.DecimalFloat

namespace LinearEnclosure

-- Powers are those of the core library.
attribute [local instance (high)] instPowNat

/-- Numbers that can stand at the ends of an interval. -/
class Endpoint (β : Type) where
  /-- The context in which these endpoints are used unless another one is given. -/
  initial : Context
  zero : β
  one : β
  add : Direction → Nat → β → β → β
  sub : Direction → Nat → β → β → β
  mul : Direction → Nat → β → β → β
  /-- The quotient by a divisor that is not zero. -/
  div : Direction → Nat → β → β → β
  neg : β → β
  /-- One unit in the last place at a precision. -/
  epsilon : Nat → β
  /-- The written number, rounded in a direction. -/
  read? : Direction → Nat → List Char → Except Fault β
  ofDouble? : Nat → Double → Except Fault β
  /-- The nearest binary number. -/
  toDouble : β → Double
  isFinite : β → Bool
  isZero : β → Bool
  /-- The order; there is none where one side is not a number. -/
  compare? : β → β → Option Ordering
  scientific : Direction → Nat → β → List Char
  /-- The shortest positional notation. -/
  plain : β → List Char

namespace Endpoint

variable {β : Type} [Endpoint β]

/-- Read an endpoint; a refusal names the text. -/
def read (direction : Direction) (precision : Nat) (text : List Char) :
    Except IntervalError β :=
  (read? direction precision text).mapError (.unreadable (String.ofList text))

/-- Convert a binary number; a refusal names it as it is displayed. -/
def ofDouble (precision : Nat) (x : Double) : Except IntervalError β :=
  (ofDouble? precision x).mapError (.unreadable (String.ofList x.plain))

/-- The shortest positional notation, as a string. -/
def display (x : β) : String := String.ofList (plain x)

def lt (x y : β) : Bool := compare? x y == some .lt

def le (x y : β) : Bool := compare? x y == some .lt || compare? x y == some .eq

def eq (x y : β) : Bool := compare? x y == some .eq

/-- Whether the value has no place in the order, not even beside itself. -/
def isUnordered (x : β) : Bool := compare? x x == none

end Endpoint

namespace Binary

variable {F : Format}

/-- The distance from one to the next value. -/
def epsilon : Binary F := round false (2 ^ (F.unitBits - F.fractionBits)) 1

/-- Read a finite number and round what is written in a direction. The nearest value is
kept only where it is exactly what is written; a nonzero number too small for the
format stays on its side of zero. -/
def readDirected (direction : Direction) (text : List Char) : Except Fault (Binary F) :=
  match read text with
  | .error cause => .error (.notBinary cause)
  | .ok value =>
    if !value.isFinite then .error .notFiniteEndpoint
    else if direction = .nearest then .ok value
    else
      match Decimal.Parts.read text with
      | none => .error .notDecimal
      | some written =>
        if value.isZero then
          match written.isZero, written.negative, direction with
          | true, _, _ => .ok value
          | false, false, .up => .ok (ofRank false 1)
          | false, true, .down => .ok (ofRank true 1)
          | false, _, _ => .ok (ofRank false 0)
        else if value.parts?.any (·.isWrittenIn text) then .ok value
        else .ok (value.step direction)

instance : Endpoint Double where
  initial := ⟨16, 16, .dual⟩
  zero := Binary.zero
  one := Binary.one
  add direction _ := addDirected direction
  sub direction _ := subDirected direction
  mul direction _ := mulDirected direction
  div direction _ := divDirected direction
  neg := Binary.neg
  epsilon _ := epsilon
  read? direction _ := readDirected direction
  ofDouble? _ x := .ok x
  toDouble x := x
  isFinite := isFinite
  isZero := isZero
  compare? := compare?
  scientific := scientific
  plain := plain

end Binary

namespace DecimalFloat

/-- Read a decimal number and round it in a direction. Its last digit must stand at a
position that fits into a signed word of 64 bits. -/
def readDirected (direction : Direction) (precision : Nat) (text : List Char) :
    Except Fault DecimalFloat :=
  match Decimal.read text with
  | none => .error .notDecimal
  | some written =>
    if Literal.fits (written.exponent - 1) then .ok (round direction precision written)
    else .error .exponentOutOfRange

/-- The shortest decimal that reads back as a finite binary number, rounded to nearest. -/
def ofDouble (precision : Nat) (x : Double) : Except Fault DecimalFloat :=
  match x.shortest? with
  | some shortest => .ok (round .nearest precision shortest)
  | none => .error .notFiniteValue

instance : Endpoint DecimalFloat where
  initial := ⟨40, 17, .dual⟩
  zero := DecimalFloat.zero
  one := DecimalFloat.one
  add := DecimalFloat.add
  sub := DecimalFloat.sub
  mul := DecimalFloat.mul
  div := DecimalFloat.div
  neg := DecimalFloat.neg
  epsilon := epsilon
  read? := readDirected
  ofDouble? := ofDouble
  toDouble x := Binary.ofDecimal x.value
  isFinite _ := true
  isZero x := x.value.isZero
  compare? x y := some (x.value.compare y.value)
  scientific direction places x := x.value.scientific direction places
  plain x := x.value.plain

end DecimalFloat

end LinearEnclosure
