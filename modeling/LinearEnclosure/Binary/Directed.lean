/-
# Directed binary arithmetic

The operations of a format round to nearest. A directed result starts from the nearest
one and takes one step to the next value where the exact result lies beyond it. On
which side the exact result lies is read off an error term that is itself computed in
the format: the two-sum term of a sum, and the fused residual of a product or a
quotient.

A tiny product or quotient may have an error term that vanishes in the format, so it is
always stepped. An overflow toward the other side comes back to the largest finite
magnitude.
-/

import LinearEnclosure.Binary.Arithmetic
import LinearEnclosure.Direction

namespace LinearEnclosure.Binary

variable {F : Format}

/-- The next value in a direction; the nearest value is the value itself. -/
def step (direction : Direction) (x : Binary F) : Binary F :=
  match direction with
  | .down => x.nextDown
  | .nearest => x
  | .up => x.nextUp

/-- Correct a nearest result by the side on which the exact one lies: `below` and
`above` say that it lies under or over `x`. -/
def adjust (direction : Direction) (below above : Bool) (x : Binary F) : Binary F :=
  match x, direction with
  | infinite false, .down => largest false
  | infinite true, .up => largest true
  | infinite negative, _ => infinite negative
  | x, .down => if below then x.nextDown else x
  | x, .up => if above then x.nextUp else x
  | x, .nearest => x

/-- What a rounded sum leaves out, as two-sum finds it. -/
def sumError (x y sum : Binary F) : Binary F :=
  let back := sum.sub x
  (x.sub (sum.sub back)).add (y.sub back)

/-- The sum in a direction. -/
def addDirected (direction : Direction) (x y : Binary F) : Binary F :=
  let sum := x.add y
  if direction = .nearest then sum
  else
    let error := sumError x y sum
    sum.adjust direction error.isNegative error.isPositive

/-- The difference in a direction. -/
def subDirected (direction : Direction) (x y : Binary F) : Binary F :=
  addDirected direction x y.neg

/-- The product in a direction. -/
def mulDirected (direction : Direction) (x y : Binary F) : Binary F :=
  let product := x.mul y
  if direction = .nearest then product
  else if product.isTiny && !x.isZero && !y.isZero then product.step direction
  else
    let error := mulAdd x y product.neg
    product.adjust direction error.isNegative error.isPositive

/-- The quotient in a direction. A remainder of the divisor's sign says that the exact
quotient lies above; a remainder that is not a number counts as not positive. -/
def divDirected (direction : Direction) (x y : Binary F) : Binary F :=
  let quotient := x.div y
  if direction = .nearest || !quotient.isFinite && y.isZero then quotient
  else if quotient.isTiny && !x.isZero then quotient.step direction
  else
    let rest := mulAdd quotient.neg y x
    let exact := rest.isZero
    let above := rest.isPositive == y.isPositive
    quotient.adjust direction (!exact && !above) (!exact && above)

end LinearEnclosure.Binary
