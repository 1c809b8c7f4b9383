/-
# The tridiagonal solver

A tridiagonal matrix is split into a unit lower bidiagonal factor and an upper
bidiagonal one in a single sweep along the bands. The super-diagonal is kept as it is, so
only multipliers and pivots are computed. Work and storage grow with the number of rows.
-/

import LinearEnclosure.Solver.Shape
import LinearEnclosure.Solver.Triangular

namespace LinearEnclosure

variable {α : Type} (K : Arithmetic α)

/-- The factors of a tridiagonal matrix with `n + 1` rows: the multipliers below the unit
diagonal of the lower one, and the pivots and super-diagonal of the upper one. -/
structure TridiagonalFactors (α : Type) (n : Nat) where
  multipliers : Vector α n
  pivots : Vector α (n + 1)
  sup : Vector α n
  deriving DecidableEq

/-- The solution of one system with `n + 1` unknowns, with the factors and the
intermediate vector. -/
structure TridiagonalSolution (α : Type) (n : Nat) where
  factors : TridiagonalFactors α n
  y : Vector α (n + 1)
  x : Vector α (n + 1)
  status : Status
  deriving DecidableEq

namespace TridiagonalFactors

/-- Sweep along the bands behind a first pivot; the answer is the multipliers and all
pivots, or the index of the first pivot that is none. -/
def sweep : {n : Nat} → (pivot : α) → (sub diag sup : Vector α n) →
    Except Nat (Vector α n × Vector α (n + 1))
  | 0, pivot, _, _, _ =>
    if K.isPivot pivot then .ok (noEntries, #v[pivot]) else .error 0
  | _ + 1, pivot, sub, diag, sup =>
    if K.isPivot pivot then
      let multiplier := K.quotient (sub.get 0) pivot
      let next := K.sub (diag.get 0) (K.mul multiplier (sup.get 0))
      match sweep next (dropFirst sub) (dropFirst diag) (dropFirst sup) with
      | .error index => .error (index + 1)
      | .ok (multipliers, pivots) =>
        .ok (addFirst multiplier multipliers, addFirst pivot pivots)
    else .error 0

/-- The factors of a tridiagonal matrix, or the index of the first pivot that is none. -/
def eliminate {n : Nat} (bands : Bands α n) : Except Nat (TridiagonalFactors α n) :=
  (sweep K (bands.diag.get 0) bands.sub (dropFirst bands.diag) bands.sup).map
    fun (multipliers, pivots) => ⟨multipliers, pivots, bands.sup⟩

/-- The factors of a tridiagonal matrix. -/
def ofBands {n : Nat} (bands : Bands α n) : Except SolverError (TridiagonalFactors α n) :=
  (eliminate K bands).mapError (.singularPivot .decomposition)

/-- The factors of a matrix given by bands of any sizes. -/
def ofVectors {s d p : Nat} (sub : Vector α s) (diag : Vector α d) (sup : Vector α p) :
    Except SolverError (TridiagonalFactors α (d - 1)) := do
  ofBands K (← checkBands sub diag sup)

/-- Solve with the lower factor, where `y` is the first entry of the solution. -/
def forward : {n : Nat} → (y : α) → (multipliers b : Vector α n) → Vector α (n + 1)
  | 0, y, _, _ => #v[y]
  | _ + 1, y, multipliers, b =>
    addFirst y (forward (K.sub (b.get 0) (K.mul (multipliers.get 0) y)) (dropFirst multipliers)
      (dropFirst b))

/-- Solve with the upper factor. The error is the greatest index of an entry that is no
pivot. -/
def backward : {n : Nat} → (pivots : Vector α (n + 1)) → (sup : Vector α n) →
    (y : Vector α (n + 1)) → Except Nat (Vector α (n + 1))
  | 0, pivots, _, y =>
    match K.div? (y.get 0) (pivots.get 0) with
    | some x => .ok #v[x]
    | none => .error 0
  | _ + 1, pivots, sup, y =>
    match backward (dropFirst pivots) (dropFirst sup) (dropFirst y) with
    | .error index => .error (index + 1)
    | .ok rest =>
      match K.div? (K.sub (y.get 0) (K.mul (sup.get 0) (rest.get 0))) (pivots.get 0) with
      | some x => .ok (addFirst x rest)
      | none => .error 0

/-- Solve with stored factors. The answer holds the solutions of the lower and of the
upper bidiagonal system. -/
def solve {n k : Nat} (factors : TridiagonalFactors α n) (b : Vector α k) :
    Except SolverError (Vector α (n + 1) × Vector α (n + 1)) := do
  let b ← checkRightHandSide (n + 1) b
  let y := forward K (b.get 0) factors.multipliers (dropFirst b)
  let x ← (backward K factors.pivots factors.sup y).mapError (.singularPivot .backSubstitution)
  pure (y, x)

/-- The lower factor with all its entries. -/
def lowerDense {n : Nat} (factors : TridiagonalFactors α n) : DenseMatrix α (n + 1) (n + 1) :=
  Bands.toDense K ⟨factors.multipliers, Vector.replicate (n + 1) K.one, Vector.replicate n K.zero⟩

/-- The upper factor with all its entries. -/
def upperDense {n : Nat} (factors : TridiagonalFactors α n) : DenseMatrix α (n + 1) (n + 1) :=
  Bands.toDense K ⟨Vector.replicate n K.zero, factors.pivots, factors.sup⟩

end TridiagonalFactors

/-- Factor a tridiagonal matrix and solve `A x = b`. Shapes are checked before any
arithmetic. -/
def solveTridiagonal {s d p k : Nat} (sub : Vector α s) (diag : Vector α d) (sup : Vector α p)
    (b : Vector α k) : Except SolverError (TridiagonalSolution α (d - 1)) := do
  let bands ← checkBands sub diag sup
  let b ← checkRightHandSide d b
  let factors ← TridiagonalFactors.ofBands K bands
  let (y, x) ← factors.solve K b
  pure ⟨factors, y, x, Status.of K x⟩

end LinearEnclosure
