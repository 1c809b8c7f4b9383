/-
# Shapes of linear systems

The inputs of a solver may have any size. The checks here refuse the wrong ones and hand
on the right ones with their sizes in their types. The matrix or the bands are looked at
before the right-hand side.
-/

import LinearEnclosure.Dense.Matrix
import LinearEnclosure.Solver.Error

namespace LinearEnclosure

variable {α : Type}

/-- A matrix that is square and not empty. -/
def checkSquare {m n : Nat} (A : DenseMatrix α m n) : Except SolverError (DenseMatrix α m m) :=
  if m = 0 then .error (.dimensionMismatch .matrixSize 1 0)
  else if square : n = m then .ok (square ▸ A)
  else .error (.dimensionMismatch .matrixColumns m n)

/-- A right-hand side of a given size. -/
def checkRightHandSide {k : Nat} (n : Nat) (b : Vector α k) : Except SolverError (Vector α n) :=
  if size : k = n then .ok (b.cast size)
  else .error (.dimensionMismatch .rightHandSide n k)

/-- The three bands of a tridiagonal matrix with `n + 1` rows. -/
structure Bands (α : Type) (n : Nat) where
  sub : Vector α n
  diag : Vector α (n + 1)
  sup : Vector α n
  deriving DecidableEq

/-- Three bands whose sizes fit together; the main diagonal has one entry more than the
others, and at least one. -/
def checkBands : {s d p : Nat} → Vector α s → Vector α d → Vector α p →
    Except SolverError (Bands α (d - 1))
  | _, 0, _, _, _, _ => .error (.dimensionMismatch .mainDiagonal 1 0)
  | s, n + 1, p, sub, diag, sup =>
    if below : s = n then
      if above : p = n then .ok ⟨sub.cast below, diag, sup.cast above⟩
      else .error (.dimensionMismatch .superDiagonal n p)
    else .error (.dimensionMismatch .subDiagonal n s)

/-- The matrix with given bands and zeros everywhere else. -/
def Bands.toDense (K : Arithmetic α) {n : Nat} (bands : Bands α n) :
    DenseMatrix α (n + 1) (n + 1) :=
  .ofFn fun i j =>
    if i = j then bands.diag.get i
    else if below : i.val = j.val + 1 then bands.sub.get ⟨j.val, lt_of_val_eq_succ below⟩
    else if above : j.val = i.val + 1 then bands.sup.get ⟨i.val, lt_of_val_eq_succ above⟩
    else K.zero

end LinearEnclosure
