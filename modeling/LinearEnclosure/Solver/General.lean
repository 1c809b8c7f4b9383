/-
# The general solver

A square matrix is split into a unit lower triangular factor and an upper triangular
one, without exchanging rows. One step divides the first column by the first pivot and
takes the products of that column and the first row out of what remains; the factors of
the rest are bordered by this row and this column. Entries thus lose their products one
at a time, in the order of the pivots.

A pivot that cannot be divided by ends the factorization with its index, also in the
last place.
-/

import LinearEnclosure.Solver.Shape
import LinearEnclosure.Solver.Triangular

namespace LinearEnclosure

variable {α : Type} (K : Arithmetic α)

/-- The factors of a square matrix, the pivots being on the diagonal of the upper one. -/
structure LUFactors (α : Type) (n : Nat) where
  lower : DenseMatrix α n n
  upper : DenseMatrix α n n
  deriving DecidableEq

/-- The solution of one system, with the factors and the intermediate vector. -/
structure GeneralSolution (α : Type) (n : Nat) where
  factors : LUFactors α n
  y : Vector α n
  x : Vector α n
  status : Status
  deriving DecidableEq

namespace LUFactors

/-- What remains of a matrix when its first row and column are eliminated. -/
def reduce {n : Nat} (A : DenseMatrix α (n + 1) (n + 1)) (multipliers : Vector α n) :
    DenseMatrix α n n :=
  .ofFn fun i j => K.sub (A.entry i.succ j.succ) (K.mul (multipliers.get i) (A.entry 0 j.succ))

/-- The factors of a matrix, or the index of the first pivot that is none. -/
def eliminate : {n : Nat} → DenseMatrix α n n → Except Nat (LUFactors α n)
  | 0, A => .ok ⟨A, A⟩
  | n + 1, A =>
    let pivot := A.entry 0 0
    if K.isPivot pivot then
      let multipliers := A.firstColumn.map fun x => K.quotient x pivot
      match eliminate (reduce K A multipliers) with
      | .error index => .error (index + 1)
      | .ok rest =>
        let zeros := Vector.replicate n K.zero
        .ok ⟨.bordered K.one zeros multipliers rest.lower,
          .bordered pivot A.firstRow zeros rest.upper⟩
    else .error 0

/-- The factors of a square matrix. -/
def ofSquare {n : Nat} (A : DenseMatrix α n n) : Except SolverError (LUFactors α n) :=
  (eliminate K A).mapError (.singularPivot .decomposition)

/-- The factors of a matrix of any shape. -/
def ofMatrix {m n : Nat} (A : DenseMatrix α m n) : Except SolverError (LUFactors α m) := do
  ofSquare K (← checkSquare A)

/-- Solve with stored factors. The answer holds the solutions of `L y = b` and of
`U x = y`. -/
def solve {n k : Nat} (factors : LUFactors α n) (b : Vector α k) :
    Except SolverError (Vector α n × Vector α n) := do
  let b ← checkRightHandSide n b
  let y := forwardSubstitute K factors.lower b
  let x ← (backSubstitute K factors.upper y).mapError (.singularPivot .backSubstitution)
  pure (y, x)

end LUFactors

/-- Factor a matrix and solve `A x = b`. Shapes are checked before any arithmetic. -/
def solveGeneral {m n k : Nat} (A : DenseMatrix α m n) (b : Vector α k) :
    Except SolverError (GeneralSolution α m) := do
  let A ← checkSquare A
  let b ← checkRightHandSide m b
  let factors ← LUFactors.ofSquare K A
  let (y, x) ← factors.solve K b
  pure ⟨factors, y, x, Status.of K x⟩

end LinearEnclosure
