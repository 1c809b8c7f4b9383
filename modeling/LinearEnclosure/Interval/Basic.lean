/-
# Intervals

Closed intervals with outward-rounded arithmetic. Lower endpoints are rounded in the
lower direction of the context and upper endpoints in the upper one. A product or
quotient is the hull of the four results at the corners, whatever the signs of the
operands, and one corner that is not a number makes both endpoints of the result such.
-/

import LinearEnclosure.Interval.Endpoint

namespace LinearEnclosure

/-- The numbers from `lo` to `hi`, both included. -/
structure Interval (β : Type) where
  lo : β
  hi : β
  deriving DecidableEq, Inhabited

namespace Interval

variable {β : Type} [Endpoint β]

/-- The interval with given bounds, which must not be reversed. -/
def make? (lo hi : β) : Except IntervalError (Interval β) :=
  if Endpoint.lt hi lo then
    .error (.reversedBounds (Endpoint.display lo) (Endpoint.display hi))
  else .ok ⟨lo, hi⟩

/-- The interval of a single number. -/
def point (x : β) : Interval β := ⟨x, x⟩

/-- The numbers within one unit in the last place of `x`. -/
def widened (context : Context) (x : β) : Interval β :=
  let epsilon := Endpoint.epsilon context.precision
  ⟨Endpoint.sub context.lower context.precision x epsilon,
    Endpoint.add context.upper context.precision x epsilon⟩

protected def zero : Interval β := point Endpoint.zero

protected def one : Interval β := point Endpoint.one

protected def add (context : Context) (x y : Interval β) : Interval β :=
  ⟨Endpoint.add context.lower context.precision x.lo y.lo,
    Endpoint.add context.upper context.precision x.hi y.hi⟩

protected def sub (context : Context) (x y : Interval β) : Interval β :=
  ⟨Endpoint.sub context.lower context.precision x.lo y.hi,
    Endpoint.sub context.upper context.precision x.hi y.lo⟩

protected def neg (x : Interval β) : Interval β :=
  ⟨Endpoint.neg x.hi, Endpoint.neg x.lo⟩

/-- The value that is better than all others, the earlier one where none is strictly
better. The first value without a place in the order is taken instead. -/
def extreme (better : β → β → Bool) (best : β) : List β → β
  | [] => best
  | value :: rest =>
    if Endpoint.isUnordered best then best
    else if Endpoint.isUnordered value then value
    else extreme better (if better value best then value else best) rest

def least : β → List β → β := extreme Endpoint.lt

def greatest : β → List β → β := extreme fun x y => Endpoint.lt y x

/-- The hull of the results of an operation at the four corners. -/
def corners (context : Context) (operation : Direction → Nat → β → β → β)
    (x y : Interval β) : Interval β :=
  let lower := operation context.lower context.precision
  let upper := operation context.upper context.precision
  ⟨least (lower x.lo y.lo) [lower x.lo y.hi, lower x.hi y.lo, lower x.hi y.hi],
    greatest (upper x.lo y.lo) [upper x.lo y.hi, upper x.hi y.lo, upper x.hi y.hi]⟩

protected def mul (context : Context) : Interval β → Interval β → Interval β :=
  corners context Endpoint.mul

/-- The product with a single number. -/
def scale (context : Context) (x : Interval β) (factor : β) : Interval β :=
  x.mul context (point factor)

/-- Whether zero may lie between the endpoints. An endpoint without a place in the
order cannot exclude it. -/
def containsZero (x : Interval β) : Bool :=
  Endpoint.isUnordered x.lo || Endpoint.isUnordered x.hi ||
    Endpoint.le x.lo Endpoint.zero && Endpoint.le Endpoint.zero x.hi

/-- The hull of the quotients at the corners, for a divisor that excludes zero. -/
def quotient (context : Context) : Interval β → Interval β → Interval β :=
  corners context Endpoint.div

/-- The quotient, refused where the divisor may contain zero. -/
def div? (context : Context) (x y : Interval β) : Except IntervalError (Interval β) :=
  if y.containsZero then
    .error (.divisionByZero (Endpoint.display y.lo) (Endpoint.display y.hi))
  else .ok (x.quotient context y)

/-- Whether a number lies between the endpoints. -/
def contains (x : Interval β) (value : β) : Bool :=
  Endpoint.le x.lo value && Endpoint.le value x.hi

def isSubset (x y : Interval β) : Bool :=
  Endpoint.le y.lo x.lo && Endpoint.le x.hi y.hi

/-- The smallest interval around both. -/
def hull (x y : Interval β) : Interval β :=
  ⟨if Endpoint.le x.lo y.lo then x.lo else y.lo,
    if Endpoint.le y.hi x.hi then x.hi else y.hi⟩

/-- Whether two intervals have equal endpoints. -/
def eq (x y : Interval β) : Bool :=
  Endpoint.eq x.lo y.lo && Endpoint.eq x.hi y.hi

def isDegenerate (x : Interval β) : Bool :=
  Endpoint.eq x.lo x.hi

def isFinite (x : Interval β) : Bool :=
  Endpoint.isFinite x.lo && Endpoint.isFinite x.hi

/-- The distance between the endpoints, rounded in the upper direction. -/
def width (context : Context) (x : Interval β) : β :=
  Endpoint.sub context.upper context.precision x.hi x.lo

/-- Half the sum of the endpoints, both steps rounded to nearest. -/
def midpoint (context : Context) (x : Interval β) : β :=
  let two := Endpoint.add .nearest context.precision Endpoint.one Endpoint.one
  Endpoint.div .nearest context.precision
    (Endpoint.add .nearest context.precision x.lo x.hi) two

end Interval

end LinearEnclosure
