/-
# Linear systems and their solvers

A system is given by a whole matrix or by three bands, and it is solved by the solver
that belongs to its structure. The general and the symmetric solver take matrices, the
tridiagonal one takes bands.
-/

import LinearEnclosure.Solver.General
import LinearEnclosure.Solver.Symmetric
import LinearEnclosure.Solver.Tridiagonal

namespace LinearEnclosure

/-- What is known about the matrix of a system. -/
inductive Structure
  | general
  | symmetric
  | tridiagonal
  deriving DecidableEq, Repr, Inhabited

def Structure.name : Structure → String
  | general => "General"
  | symmetric => "Symmetric"
  | tridiagonal => "Tridiagonal"

/-- A matrix or bands, and a right-hand side, of any sizes. -/
inductive LinearSystem (α : Type)
  | dense {m n k : Nat} (A : DenseMatrix α m n) (b : Vector α k)
  | banded {s d p k : Nat} (sub : Vector α s) (diag : Vector α d) (sup : Vector α p)
      (b : Vector α k)

/-- What a solver finds. -/
inductive Solution (α : Type)
  | general {n : Nat} (solution : GeneralSolution α n)
  | symmetric {n : Nat} (solution : SymmetricSolution α n)
  | tridiagonal {n : Nat} (solution : TridiagonalSolution α n)

namespace Solution

variable {α : Type}

/-- The solution vector. -/
def x : Solution α → List α
  | general solution => solution.x.toList
  | symmetric solution => solution.x.toList
  | tridiagonal solution => solution.x.toList

def status : Solution α → Status
  | general solution => solution.status
  | symmetric solution => solution.status
  | tridiagonal solution => solution.status

end Solution

/-- Solve a system with the solver of a structure. -/
def LinearSystem.solve {α : Type} (K : Arithmetic α) (layout : Structure) :
    LinearSystem α → Except SolverError (Solution α)
  | dense A b =>
    match layout with
    | .general => (solveGeneral K A b).map .general
    | .symmetric => (solveSymmetric K A b).map .symmetric
    | .tridiagonal => .error (mismatch layout)
  | banded sub diag sup b =>
    match layout with
    | .tridiagonal => (solveTridiagonal K sub diag sup b).map .tridiagonal
    | _ => .error (mismatch layout)
where
  /-- The error for a system that comes in the wrong layout. -/
  mismatch (layout : Structure) : SolverError :=
    .unreadable ("system layout does not match structure " ++ layout.name)

end LinearEnclosure
