/-
# The symmetric solver

A symmetric matrix is split into `L D Lᵀ` with a unit lower triangular `L` and a
diagonal `D`. Only the lower triangle of the matrix is read. One step divides the first
column by the first pivot and takes out of the remaining lower triangle the products of
the multipliers with their weights, a weight being a multiplier times the pivot. On the
diagonal the weight is the left factor of the product, below it the right one.
-/

import LinearEnclosure.Solver.Shape
import LinearEnclosure.Solver.Triangular

namespace LinearEnclosure

variable {α : Type} (K : Arithmetic α)

/-- The factors of a symmetric matrix: `L`, and the diagonal of `D`. -/
structure LDLFactors (α : Type) (n : Nat) where
  lower : DenseMatrix α n n
  diagonal : Vector α n
  deriving DecidableEq

/-- The solution of one system, with the factors and the two intermediate vectors. -/
structure SymmetricSolution (α : Type) (n : Nat) where
  factors : LDLFactors α n
  y : Vector α n
  z : Vector α n
  x : Vector α n
  status : Status
  deriving DecidableEq

namespace LDLFactors

/-- What remains of the lower triangle when the first column is eliminated. Entries above
the diagonal are carried along unread. -/
def reduce {n : Nat} (A : DenseMatrix α (n + 1) (n + 1)) (multipliers weights : Vector α n) :
    DenseMatrix α n n :=
  .ofFn fun i j =>
    let x := A.entry i.succ j.succ
    if j < i then K.sub x (K.mul (multipliers.get i) (weights.get j))
    else if i = j then K.sub x (K.mul (weights.get i) (multipliers.get i))
    else x

/-- The factors of a symmetric matrix, or the index of the first pivot that is none. -/
def eliminate : {n : Nat} → DenseMatrix α n n → Except Nat (LDLFactors α n)
  | 0, A => .ok ⟨A, noEntries⟩
  | n + 1, A =>
    let pivot := A.entry 0 0
    if K.isPivot pivot then
      let multipliers := A.firstColumn.map fun x => K.quotient x pivot
      let weights := multipliers.map fun l => K.mul l pivot
      match eliminate (reduce K A multipliers weights) with
      | .error index => .error (index + 1)
      | .ok rest =>
        .ok ⟨.bordered K.one (Vector.replicate n K.zero) multipliers rest.lower,
          addFirst pivot rest.diagonal⟩
    else .error 0

/-- The factors of a square matrix, of which the lower triangle is read. -/
def ofSquare {n : Nat} (A : DenseMatrix α n n) : Except SolverError (LDLFactors α n) :=
  (eliminate K A).mapError (.singularPivot .decomposition)

/-- The factors of a matrix of any shape. -/
def ofMatrix {m n : Nat} (A : DenseMatrix α m n) : Except SolverError (LDLFactors α m) := do
  ofSquare K (← checkSquare A)

/-- The upper triangular matrix `D Lᵀ`. -/
def upper {n : Nat} (factors : LDLFactors α n) : DenseMatrix α n n :=
  .ofFn fun i j =>
    if i ≤ j then K.mul (factors.diagonal.get i) (factors.lower.entry j i) else K.zero

/-- Solve with stored factors. The answer holds the solutions of `L y = b`, of `D z = y`
and of `Lᵀ x = z`. -/
def solve {n k : Nat} (factors : LDLFactors α n) (b : Vector α k) :
    Except SolverError (Vector α n × Vector α n × Vector α n) := do
  let b ← checkRightHandSide n b
  let y := forwardSubstitute K factors.lower b
  let z ← (scaleByDiagonal K factors.diagonal y).mapError (.singularPivot .diagonalScaling)
  pure (y, z, backSubstituteTransposed K factors.lower z)

end LDLFactors

/-- Factor a symmetric matrix and solve `A x = b`. Shapes are checked before any
arithmetic. -/
def solveSymmetric {m n k : Nat} (A : DenseMatrix α m n) (b : Vector α k) :
    Except SolverError (SymmetricSolution α m) := do
  let A ← checkSquare A
  let b ← checkRightHandSide m b
  let factors ← LDLFactors.ofSquare K A
  let (y, z, x) ← factors.solve K b
  pure ⟨factors, y, z, x, Status.of K x⟩

end LinearEnclosure
