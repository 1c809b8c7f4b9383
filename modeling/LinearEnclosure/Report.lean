/-
# Reports

The text of a solved system: the factors, the intermediate vectors and the solution, one
block each, and a last line with the status. Blocks are separated by empty lines. The
cells of a matrix are padded to a common width, and the entries of a vector stand on
lines of their own, as in `x[0] = 1.5000E+000`.
-/

import LinearEnclosure.Config.Basic

namespace LinearEnclosure

namespace Report

/-- A title and the lines below it. -/
structure Block where
  title : String
  lines : List String
  deriving DecidableEq, Repr

/-- The line of one entry of a vector. -/
def entryLine (name : String) (index : Nat) (value : String) : String :=
  name ++ "[" ++ index.repr ++ "] = " ++ value

/-- The block of a vector whose entries are written already. -/
def vectorBlock (title name : String) (values : List String) : Block :=
  ⟨title, values.mapIdx (entryLine name)⟩

/-- The width of the columns of a matrix: one more than the widest cell, and at least
fifteen. -/
def columnWidth (cells : List String) : Nat :=
  (cells.map fun cell => cell.length + 1).foldl max 15

/-- A cell padded on the right to a width. -/
def padded (width : Nat) (cell : String) : List Char :=
  cell.toList ++ List.replicate (width - cell.length) ' '

/-- The block of a matrix whose entries are written already. -/
def matrixBlock (title : String) (rows : List (List String)) : Block :=
  let width := columnWidth rows.flatten
  ⟨title, rows.map fun row => String.ofList (Text.trimEnd (row.flatMap (padded width)))⟩

section Blocks

variable {α : Type} (S : Scalar α)

def vector {n : Nat} (title name : String) (values : Vector α n) : Block :=
  vectorBlock title name (values.toList.map S.render)

def matrix {m n : Nat} (title : String) (A : DenseMatrix α m n) : Block :=
  matrixBlock title (A.toRows.map fun row => row.map S.render)

/-- The blocks of a solution, in the order of the computation. -/
def blocks : Solution α → List Block
  | .general solution =>
    [matrix S "Matrix L" solution.factors.lower,
      matrix S "Matrix U" solution.factors.upper,
      vector S "Vector y (from L·y = b)" "y" solution.y,
      vector S "Solution x" "x" solution.x]
  | .symmetric solution =>
    [matrix S "Matrix L" solution.factors.lower,
      vector S "Diagonal D" "D" solution.factors.diagonal,
      matrix S "Matrix U = D·Lᵀ" (solution.factors.upper S.toArithmetic),
      vector S "Vector y (from L·y = b)" "y" solution.y,
      vector S "Vector z (from D·z = y)" "z" solution.z,
      vector S "Solution x" "x" solution.x]
  | .tridiagonal solution =>
    [vector S "Multipliers L" "l" solution.factors.multipliers,
      vector S "Pivots D" "d" solution.factors.pivots,
      vector S "Super-diagonal U" "u" solution.factors.sup,
      vector S "Vector y (from L·y = b)" "y" solution.y,
      vector S "Solution x" "x" solution.x]

/-- The last line of a report. -/
def statusLine (status : Status) : String :=
  "Status: " ++ status.code.repr ++ " (" ++ status.message ++ ")"

/-- The lines of a block, with an empty line at the end. -/
def Block.toLines (block : Block) : List String :=
  (block.title ++ ":") :: block.lines ++ [""]

/-- All lines of a report. -/
def lines (solution : Solution α) : List String :=
  (blocks S solution).flatMap Block.toLines ++ [statusLine solution.status]

/-- The text of a report, every line ended by a line break. -/
def render (solution : Solution α) : String :=
  String.join ((lines S solution).map (· ++ "\n"))

end Blocks

end Report

/-- A rendered solution and its status. -/
structure Report where
  text : String
  status : Status
  deriving DecidableEq, Repr

namespace SystemConfig

/-- Read, solve and render the described system with given scalars. -/
def solveIn {α : Type} (S : Scalar α) (config : SystemConfig) : Except SolverError Report := do
  let system ← config.system S
  let solution ← system.solve S.toArithmetic config.layout
  pure ⟨Report.render S solution, solution.status⟩

/-- Solve the described system in the numbers that it names. A context that is given is
checked first, even where the numbers make no use of it. -/
def run (config : SystemConfig) : Except SolverError Report := do
  if let some context := config.context then
    let _ ← context.validate.mapError SolverError.ofInterval
  match config.numbers with
  | .double => config.solveIn Scalar.double
  | .decimal => config.solveIn (Scalar.decimal (config.contextFor DecimalFloat))
  | .intervalDouble =>
    config.solveIn (Scalar.interval (config.contextFor Double) : Scalar (Interval Double))
  | .intervalDecimal =>
    config.solveIn
      (Scalar.interval (config.contextFor DecimalFloat) : Scalar (Interval DecimalFloat))

end SystemConfig

end LinearEnclosure
