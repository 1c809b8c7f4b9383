/-
# Dense matrices

A matrix stores all its entries, row by row, and its size is part of its type. It is
described by its entries: `ofFn` makes a matrix from them, and `entry` reads them back.
`bordered` puts a first row and column around a matrix, which is how elimination builds
its factors.
-/

import LinearEnclosure.Arithmetic
import LinearEnclosure.Dense.Vector

namespace LinearEnclosure

/-- A matrix with its entries stored by rows. -/
structure DenseMatrix (α : Type) (rows cols : Nat) where
  rowVectors : Vector (Vector α cols) rows
  deriving DecidableEq

namespace DenseMatrix

variable {α : Type} {m n k : Nat}

/-- The entry in a row and a column. -/
def entry (A : DenseMatrix α m n) (i : Fin m) (j : Fin n) : α :=
  (A.rowVectors.get i).get j

/-- The matrix with given entries. -/
def ofFn (f : Fin m → Fin n → α) : DenseMatrix α m n :=
  ⟨Vector.ofFn fun i => Vector.ofFn (f i)⟩

@[simp] theorem entry_ofFn (f : Fin m → Fin n → α) (i : Fin m) (j : Fin n) :
    (ofFn f).entry i j = f i j := by
  have row : (ofFn f).rowVectors.get i = Vector.ofFn (f i) := Vector.getElem_ofFn i.isLt
  rw [entry, row]
  exact Vector.getElem_ofFn j.isLt

/-- Matrices with equal entries are equal. -/
theorem ext_entry {A B : DenseMatrix α m n} (same : ∀ i j, A.entry i j = B.entry i j) :
    A = B := by
  obtain ⟨A⟩ := A
  obtain ⟨B⟩ := B
  congr 1
  exact ext_get fun i => ext_get fun j => same i j

/-- The matrix with given rows, if they all have the same length. -/
def ofRows? (cols : Nat) (rows : List (List α)) : Option (DenseMatrix α rows.length cols) :=
  if even : ∀ row ∈ rows, row.length = cols then
    some (ofFn fun i j =>
      rows[i].get (j.cast (even rows[i] (List.getElem_mem i.isLt)).symm))
  else none

def toRows (A : DenseMatrix α m n) : List (List α) :=
  A.rowVectors.toList.map Vector.toList

/-- The matrix with one row and column fewer, the first ones being left out. -/
def minor (A : DenseMatrix α (m + 1) (n + 1)) : DenseMatrix α m n :=
  ofFn fun i j => A.entry i.succ j.succ

/-- The first row, without the corner. -/
def firstRow (A : DenseMatrix α (m + 1) (n + 1)) : Vector α n :=
  Vector.ofFn fun j => A.entry 0 j.succ

/-- The first column, without the corner. -/
def firstColumn (A : DenseMatrix α (m + 1) (n + 1)) : Vector α m :=
  Vector.ofFn fun i => A.entry i.succ 0

@[simp] theorem entry_minor (A : DenseMatrix α (m + 1) (n + 1)) (i : Fin m) (j : Fin n) :
    A.minor.entry i j = A.entry i.succ j.succ := by
  simp [minor]

@[simp] theorem get_firstRow (A : DenseMatrix α (m + 1) (n + 1)) (j : Fin n) :
    A.firstRow.get j = A.entry 0 j.succ :=
  Vector.getElem_ofFn j.isLt

@[simp] theorem get_firstColumn (A : DenseMatrix α (m + 1) (n + 1)) (i : Fin m) :
    A.firstColumn.get i = A.entry i.succ 0 :=
  Vector.getElem_ofFn i.isLt

/-- The matrix with a first row and a first column put around another one. -/
def bordered (corner : α) (row : Vector α n) (column : Vector α m) (rest : DenseMatrix α m n) :
    DenseMatrix α (m + 1) (n + 1) :=
  ofFn fun i j =>
    Fin.cases (Fin.cases corner (fun j => row.get j) j)
      (fun i => Fin.cases (column.get i) (fun j => rest.entry i j) j) i

/-- A property of positions, shown at the corner, along the first row and column, and in the
rest. -/
theorem forall_bordered {P : Fin (m + 1) → Fin (n + 1) → Prop} (corner : P 0 0)
    (row : ∀ j : Fin n, P 0 j.succ) (column : ∀ i : Fin m, P i.succ 0)
    (rest : ∀ (i : Fin m) (j : Fin n), P i.succ j.succ) (i : Fin (m + 1)) (j : Fin (n + 1)) :
    P i j := by
  cases i using Fin.cases with
  | zero =>
    cases j using Fin.cases with
    | zero => exact corner
    | succ j => exact row j
  | succ i =>
    cases j using Fin.cases with
    | zero => exact column i
    | succ j => exact rest i j

section Bordered

variable (corner : α) (row : Vector α n) (column : Vector α m) (rest : DenseMatrix α m n)

@[simp] theorem entry_bordered_corner : (bordered corner row column rest).entry 0 0 = corner := by
  simp [bordered]

@[simp] theorem entry_bordered_row (j : Fin n) :
    (bordered corner row column rest).entry 0 j.succ = row.get j := by
  simp [bordered]

@[simp] theorem entry_bordered_column (i : Fin m) :
    (bordered corner row column rest).entry i.succ 0 = column.get i := by
  simp [bordered]

@[simp] theorem entry_bordered_rest (i : Fin m) (j : Fin n) :
    (bordered corner row column rest).entry i.succ j.succ = rest.entry i j := by
  simp [bordered]

@[simp] theorem firstRow_bordered : (bordered corner row column rest).firstRow = row := by
  apply ext_get
  simp

@[simp] theorem firstColumn_bordered : (bordered corner row column rest).firstColumn = column := by
  apply ext_get
  simp

@[simp] theorem minor_bordered : (bordered corner row column rest).minor = rest := by
  apply ext_entry
  simp

end Bordered

/-- The product with a vector, each sum taken from left to right. -/
def mulVec (K : Arithmetic α) (A : DenseMatrix α m n) (x : Vector α n) : Vector α m :=
  Vector.ofFn fun i => K.sumProducts (List.ofFn fun j => (A.entry i j, x.get j))

/-- The product of two matrices, each sum taken from left to right. -/
protected def mul (K : Arithmetic α) (A : DenseMatrix α m n) (B : DenseMatrix α n k) :
    DenseMatrix α m k :=
  ofFn fun i j => K.sumProducts (List.ofFn fun l => (A.entry i l, B.entry l j))

end DenseMatrix

end LinearEnclosure
