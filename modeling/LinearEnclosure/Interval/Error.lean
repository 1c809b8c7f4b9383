/-
# What can go wrong with intervals

An interval is refused because its text cannot be read, because its bounds are
reversed, because a divisor contains zero, or because a number of digits is zero. Each
cause has its wording in one place.
-/

import LinearEnclosure.Binary.Text

namespace LinearEnclosure

/-- Why a text is neither an interval nor an endpoint. -/
inductive Fault
  | emptyInput
  | unbalancedBrackets
  | missingValue
  | missingBound
  | fieldCount (found : Nat)
  | notDecimal
  | exponentOutOfRange
  | notFiniteEndpoint
  | notFiniteValue
  | notBinary (cause : Binary.ReadError)
  | described (reason : String)
  deriving DecidableEq, Repr

def Fault.message : Fault → String
  | emptyInput => "empty input"
  | unbalancedBrackets => "unbalanced brackets"
  | missingValue => "missing value"
  | missingBound => "missing bound"
  | fieldCount found => "expected 1 or 2 fields, found " ++ found.repr
  | notDecimal => "not a decimal number"
  | exponentOutOfRange => "exponent out of range"
  | notFiniteEndpoint => "endpoint is not finite"
  | notFiniteValue => "value is not finite"
  | notBinary cause => cause.message
  | described reason => reason

/-- Why an interval, or the context it is computed in, is refused. Endpoints are kept as
they are displayed. -/
inductive IntervalError
  | divisionByZero (lo hi : String)
  | unreadable (input : String) (fault : Fault)
  | reversedBounds (lo hi : String)
  | invalidPrecision (digits : Nat)
  deriving DecidableEq, Repr

namespace IntervalError

def message : IntervalError → String
  | divisionByZero lo hi => "division by interval containing zero: [" ++ lo ++ ";" ++ hi ++ "]"
  | unreadable input fault =>
    "cannot parse '" ++ input ++ "' as an interval: " ++ fault.message
  | reversedBounds lo hi => "invalid interval bounds: lower (" ++ lo ++ ") > upper (" ++ hi ++ ")"
  | invalidPrecision digits =>
    "invalid precision: " ++ digits.repr ++ " digits (must be >= 1)"

def isDivision : IntervalError → Bool
  | divisionByZero .. => true
  | _ => false

/-- Whether the error comes from reading; reversed bounds are refused there. -/
def isReading : IntervalError → Bool
  | unreadable .. => true
  | reversedBounds .. => true
  | _ => false

def isContext : IntervalError → Bool
  | invalidPrecision .. => true
  | _ => false

end IntervalError

end LinearEnclosure
