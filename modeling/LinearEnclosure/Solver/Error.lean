/-
# How a solve ends

A solve is refused because its input has the wrong shape, because a pivot cannot be
divided by, or because its text or its context is unusable. A solve that ends in values
that are not finite is not refused; its status says where the first of them stands.
-/

import LinearEnclosure.Arithmetic

namespace LinearEnclosure

/-- The part of a solve in which a pivot is divided by. -/
inductive Stage
  | decomposition
  | forwardSubstitution
  | diagonalScaling
  | backSubstitution
  deriving DecidableEq, Repr

def Stage.name : Stage → String
  | decomposition => "decomposition"
  | forwardSubstitution => "forward substitution"
  | diagonalScaling => "diagonal scaling"
  | backSubstitution => "back substitution"

/-- The part of the input whose size is wrong. -/
inductive Dimension
  | matrixSize
  | matrixColumns
  | matrixRow
  | rightHandSide
  | mainDiagonal
  | subDiagonal
  | superDiagonal
  deriving DecidableEq, Repr

def Dimension.name : Dimension → String
  | matrixSize => "matrix size (at least 1)"
  | matrixColumns => "matrix columns"
  | matrixRow => "matrix row"
  | rightHandSide => "right-hand side"
  | mainDiagonal => "main diagonal (at least 1)"
  | subDiagonal => "sub-diagonal"
  | superDiagonal => "super-diagonal"

/-- Why a system is not solved. -/
inductive SolverError
  | dimensionMismatch (what : Dimension) (expected got : Nat)
  | singularPivot (stage : Stage) (index : Nat)
  | divisionByZero (lo hi : String)
  | unreadable (reason : String)
  | invalidContext (reason : String)
  deriving DecidableEq, Repr

namespace SolverError

def message : SolverError → String
  | dimensionMismatch what expected got =>
    "dimension mismatch for " ++ what.name ++ ": expected " ++ expected.repr ++ ", got " ++ got.repr
  | singularPivot stage index =>
    "singular pivot at index " ++ index.repr ++ " during " ++ stage.name
  | divisionByZero lo hi => "division by interval containing zero: [" ++ lo ++ ";" ++ hi ++ "]"
  | unreadable reason => "parse error: " ++ reason
  | invalidContext reason => "invalid arithmetic context: " ++ reason

def isDimension : SolverError → Bool
  | dimensionMismatch .. => true
  | _ => false

/-- Whether the system was found singular. A divisor that contains zero counts. -/
def isSingular : SolverError → Bool
  | singularPivot .. => true
  | divisionByZero .. => true
  | _ => false

def isReading : SolverError → Bool
  | unreadable .. => true
  | _ => false

/-- The exit code: three for singular systems, one for everything else. -/
def code (error : SolverError) : Nat :=
  if error.isSingular then 3 else 1

/-- What an error of interval arithmetic means for a solve. -/
def ofInterval (error : IntervalError) : SolverError :=
  match error with
  | .divisionByZero lo hi => divisionByZero lo hi
  | .invalidPrecision _ => invalidContext error.message
  | .unreadable .. => unreadable error.message
  | .reversedBounds .. => unreadable error.message

end SolverError

/-- How a completed solve ended. -/
inductive Status
  | solved
  | nonFinite (index : Nat)
  deriving DecidableEq, Repr

namespace Status

/-- The exit code. -/
def code : Status → Nat
  | solved => 0
  | nonFinite _ => 2

def isSolved : Status → Bool
  | solved => true
  | nonFinite _ => false

def message : Status → String
  | solved => "solved"
  | nonFinite index => "non-finite value in solution at index " ++ index.repr

end Status

/-- The place of the first entry that is not finite. -/
def firstNonFinite {α : Type} {n : Nat} (K : Arithmetic α) (x : Vector α n) : Option Nat :=
  (x.findFinIdx? fun value => !K.isFinite value).map Fin.val

/-- The status of a solution. -/
def Status.of {α : Type} {n : Nat} (K : Arithmetic α) (x : Vector α n) : Status :=
  match firstNonFinite K x with
  | some index => nonFinite index
  | none => solved

end LinearEnclosure
