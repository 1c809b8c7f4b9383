/-
# Arithmetic contexts

A context fixes the working precision in digits, the digits that are printed behind the
point, and the rounding mode. In dual mode lower endpoints go down and upper endpoints
go up, so results enclose; in single mode both go to nearest.
-/

import LinearEnclosure.Interval.Error

namespace LinearEnclosure

/-- How the two endpoints of an interval are rounded. -/
inductive RoundingMode
  | single
  | dual
  deriving DecidableEq, Repr, Inhabited

namespace RoundingMode

/-- The direction of lower endpoints. -/
def lower : RoundingMode → Direction
  | single => .nearest
  | dual => .down

/-- The direction of upper endpoints. -/
def upper : RoundingMode → Direction
  | single => .nearest
  | dual => .up

end RoundingMode

/-- Working precision, printed digits and rounding mode of a computation. -/
structure Context where
  precision : Nat
  outDigits : Nat
  mode : RoundingMode
  deriving DecidableEq, Repr, Inhabited

namespace Context

/-- The context itself if both of its digit counts are positive. The precision is
looked at first. -/
def validate (context : Context) : Except IntervalError Context :=
  if context.precision = 0 then .error (.invalidPrecision 0)
  else if context.outDigits = 0 then .error (.invalidPrecision 0)
  else .ok context

def withMode (context : Context) (mode : RoundingMode) : Context :=
  { context with mode }

/-- Replace the working precision, which must be positive. -/
def withPrecision (context : Context) (precision : Nat) : Except IntervalError Context :=
  if precision = 0 then .error (.invalidPrecision 0) else .ok { context with precision }

/-- Replace the number of printed digits, which must be positive. -/
def withOutDigits (context : Context) (outDigits : Nat) : Except IntervalError Context :=
  if outDigits = 0 then .error (.invalidPrecision 0) else .ok { context with outDigits }

/-- The direction of lower endpoints. -/
def lower (context : Context) : Direction := context.mode.lower

/-- The direction of upper endpoints. -/
def upper (context : Context) : Direction := context.mode.upper

end Context

end LinearEnclosure
