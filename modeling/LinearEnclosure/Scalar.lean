/-
# Scalars

A scalar is an arithmetic whose values can be read from the text of a system and written
into a report. There are five: binary numbers of both widths, decimal floating-point
numbers, and intervals with either kind of endpoint.
-/

import LinearEnclosure.Interval.Text
import LinearEnclosure.Solver.Error

namespace LinearEnclosure

/-- An arithmetic together with the text of its values. -/
structure Scalar (α : Type) extends Arithmetic α where
  render : α → String
  read : String → Except SolverError α

namespace Scalar

/-- Binary numbers, written with a number of digits behind the point. -/
def binary {F : Format} (places : Nat) : Scalar (Binary F) where
  toArithmetic := Binary.arithmetic
  render x := String.ofList (x.scientific .nearest places)
  read source :=
    let trimmed := Text.trim source.toList
    (Binary.read trimmed).mapError fun cause => .unreadable
      ("cannot parse '" ++ String.ofList trimmed ++ "' as a number: " ++ cause.message)

/-- Binary numbers of 64 bits. Seventeen digits tell any two of them apart. -/
def double : Scalar Double := binary 16

/-- Binary numbers of 32 bits. -/
def single : Scalar Single := binary 7

/-- Decimal floating-point numbers in a context, rounded to nearest throughout. -/
def decimal (context : Context) : Scalar DecimalFloat where
  toArithmetic := DecimalFloat.arithmetic context
  render x := String.ofList (x.value.scientific .nearest context.outDigits)
  read source :=
    (Endpoint.read .nearest context.precision (Text.trim source.toList)).mapError
      SolverError.ofInterval

/-- Intervals in a context. -/
def interval {β : Type} [Endpoint β] (context : Context) : Scalar (Interval β) where
  toArithmetic := Interval.arithmetic context
  render x := x.format context
  read source := (Interval.read context source).mapError SolverError.ofInterval

end Scalar

end LinearEnclosure
