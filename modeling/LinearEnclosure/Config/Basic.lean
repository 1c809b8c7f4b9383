/-
# Descriptions of systems

A description names the structure of a system and the numbers it is solved in, and gives
all values as texts, so that long decimals and intervals are kept as they are written.
A context is optional; the numbers have a usual one.
-/

import LinearEnclosure.Scalar
import LinearEnclosure.Solver.System

namespace LinearEnclosure

/-- The numbers that a system is solved in. -/
inductive NumberKind
  | double
  | decimal
  | intervalDouble
  | intervalDecimal
  deriving DecidableEq, Repr, Inhabited

/-- The context that goes with the endpoints of a kind of numbers. -/
def NumberKind.initial : NumberKind → Context
  | double => Endpoint.initial Double
  | intervalDouble => Endpoint.initial Double
  | decimal => Endpoint.initial DecimalFloat
  | intervalDecimal => Endpoint.initial DecimalFloat

/-- A system as it is described in a file. -/
structure SystemConfig where
  layout : Structure
  numbers : NumberKind
  context : Option Context
  matrix : List (List String)
  sub : List String
  diag : List String
  sup : List String
  rhs : List String
  deriving DecidableEq, Repr, Inhabited

namespace SystemConfig

variable {α : Type}

/-- The context of the description, or else the usual one for a kind of endpoint. -/
def contextFor (β : Type) [Endpoint β] (config : SystemConfig) : Context :=
  config.context.getD (Endpoint.initial β)

/-- Read texts into a vector, in order. -/
def readVector (S : Scalar α) : (texts : List String) →
    Except SolverError (Vector α texts.length)
  | [] => .ok noEntries
  | text :: texts => do
    let first ← S.read text
    let rest ← readVector S texts
    pure (addFirst first rest)

/-- Read rows of texts into a matrix, in order. A row of the wrong length is refused
before its entries are read. -/
def readMatrix (S : Scalar α) (cols : Nat) : (rows : List (List String)) →
    Except SolverError (DenseMatrix α rows.length cols)
  | [] => .ok ⟨noEntries⟩
  | row :: rows =>
    if size : row.length = cols then do
      let first ← readVector S row
      let rest ← readMatrix S cols rows
      pure ⟨addFirst (first.cast size) rest.rowVectors⟩
    else .error (.dimensionMismatch .matrixRow cols row.length)

/-- The system that a description stands for. The right-hand side is read first. -/
def system (S : Scalar α) (config : SystemConfig) : Except SolverError (LinearSystem α) := do
  let b ← readVector S config.rhs
  match config.layout with
  | .tridiagonal =>
    let sub ← readVector S config.sub
    let diag ← readVector S config.diag
    let sup ← readVector S config.sup
    pure (.banded sub diag sup b)
  | _ =>
    let A ← readMatrix S config.matrix.length config.matrix
    pure (.dense A b)

end SystemConfig

end LinearEnclosure
