/-
# Rounding directions

A value that cannot be represented is replaced by a neighbour, and the direction
says by which one. `Direction.quotient` is the one place where a fraction becomes
an integer: every decimal rounding of the library divides through it.
-/

namespace LinearEnclosure

/-- Where a result that is not representable goes: toward negative infinity,
to the nearest representable value, or toward positive infinity. -/
inductive Direction
  | down
  | nearest
  | up
  deriving DecidableEq, Repr

namespace Direction

/-- The direction that negated values take instead. -/
def reverse : Direction → Direction
  | down => up
  | nearest => nearest
  | up => down

@[simp] theorem reverse_reverse (direction : Direction) :
    direction.reverse.reverse = direction := by
  cases direction <;> rfl

/-- The integer that stands for `numerator / denominator` in this direction: the
floor, the ceiling, or the nearest integer with halves going away from zero. -/
def quotient (direction : Direction) (numerator : Int) (denominator : Nat) : Int :=
  match direction with
  | down => numerator / denominator
  | up => -(-numerator / denominator)
  | nearest =>
    if 0 ≤ numerator then (2 * numerator + denominator) / (2 * denominator)
    else -((-2 * numerator + denominator) / (2 * denominator))

end Direction

end LinearEnclosure
