/-
# Arithmetics

What elimination asks of the numbers it works on, as one record of operations. A
rounded arithmetic is a record like any other: its precision and rounding mode are
fixed when the record is made, so a solver sees only the operations.

A pivot is a value that may be divided by. Division is defined for pivots alone, and
`div?` is the same operation with the test in front.
-/

import LinearEnclosure.Interval.Basic

namespace LinearEnclosure

/-- The operations of an arithmetic on `α`. -/
structure Arithmetic (α : Type) where
  zero : α
  one : α
  add : α → α → α
  sub : α → α → α
  mul : α → α → α
  /-- The quotient by a pivot. -/
  quotient : α → α → α
  isPivot : α → Bool
  isFinite : α → Bool

namespace Arithmetic

variable {α : Type} (K : Arithmetic α)

/-- The quotient, if the divisor is a pivot. -/
def div? (x y : α) : Option α :=
  if K.isPivot y then some (K.quotient x y) else none

/-- `x` less a sum of products, one product after another. -/
def subProducts (x : α) (terms : List (α × α)) : α :=
  terms.foldl (fun value term => K.sub value (K.mul term.1 term.2)) x

/-- A sum of products, added up from zero in order. -/
def sumProducts (terms : List (α × α)) : α :=
  terms.foldl (fun value term => K.add value (K.mul term.1 term.2)) K.zero

end Arithmetic

/-- Binary arithmetic rounded to nearest. Only the zeros are no pivots: a value that is
not a number, or infinite, is divided by like any other. -/
def Binary.arithmetic {F : Format} : Arithmetic (Binary F) where
  zero := Binary.zero
  one := Binary.one
  add := Binary.add
  sub := Binary.sub
  mul := Binary.mul
  quotient := Binary.div
  isPivot x := !x.isZero
  isFinite := Binary.isFinite

/-- Decimal arithmetic rounded to nearest at the precision of a context. -/
def DecimalFloat.arithmetic (context : Context) : Arithmetic DecimalFloat where
  zero := DecimalFloat.zero
  one := DecimalFloat.one
  add := DecimalFloat.add .nearest context.precision
  sub := DecimalFloat.sub .nearest context.precision
  mul := DecimalFloat.mul .nearest context.precision
  quotient := DecimalFloat.div .nearest context.precision
  isPivot x := !x.value.isZero
  isFinite _ := true

/-- Interval arithmetic in a context. Pivots are the intervals that exclude zero. -/
def Interval.arithmetic {β : Type} [Endpoint β] (context : Context) :
    Arithmetic (Interval β) where
  zero := Interval.zero
  one := Interval.one
  add := Interval.add context
  sub := Interval.sub context
  mul := Interval.mul context
  quotient := Interval.quotient context
  isPivot x := !x.containsZero
  isFinite := Interval.isFinite

end LinearEnclosure
