/-
# Triangular systems

Substitution in the systems that a factorization leaves behind. Each function peels off
the first unknown: forward substitution takes its column out of the remaining equations,
and back substitution solves the remaining ones before it comes to the first. Every
entry loses its products one at a time, in increasing order of the unknowns.

Only the triangle that a system is named for is read. Where a diagonal entry is no
pivot, its index is the error.
-/

import LinearEnclosure.Dense.Matrix

namespace LinearEnclosure

variable {α : Type} (K : Arithmetic α)

/-- Solve `L y = b`, where the diagonal of the lower triangular `L` is taken to be one. -/
def forwardSubstitute : {n : Nat} → DenseMatrix α n n → Vector α n → Vector α n
  | 0, _, _ => noEntries
  | _ + 1, L, b =>
    let y := b.get 0
    let column := L.firstColumn
    let rest := dropFirst b
    addFirst y (forwardSubstitute L.minor
      (Vector.ofFn fun i => K.sub (rest.get i) (K.mul (column.get i) y)))

/-- The pairs of entries of two vectors. -/
def pairs {n : Nat} (xs ys : Vector α n) : List (α × α) :=
  List.ofFn fun i : Fin n => (xs.get i, ys.get i)

/-- Solve `U x = y` for an upper triangular `U`. The last pivots are divided by first,
so the error is the greatest index of an entry that is no pivot. -/
def backSubstitute : {n : Nat} → DenseMatrix α n n → Vector α n → Except Nat (Vector α n)
  | 0, _, _ => .ok noEntries
  | _ + 1, U, y =>
    match backSubstitute U.minor (dropFirst y) with
    | .error index => .error (index + 1)
    | .ok rest =>
      match K.div? (K.subProducts (y.get 0) (pairs U.firstRow rest)) (U.entry 0 0) with
      | some x => .ok (addFirst x rest)
      | none => .error 0

/-- Solve `Lᵀ x = z`, where the diagonal of the lower triangular `L` is taken to be one. -/
def backSubstituteTransposed : {n : Nat} → DenseMatrix α n n → Vector α n → Vector α n
  | 0, _, _ => noEntries
  | _ + 1, L, z =>
    let rest := backSubstituteTransposed L.minor (dropFirst z)
    addFirst (K.subProducts (z.get 0) (pairs L.firstColumn rest)) rest

/-- Solve `D z = y` for the diagonal `D`. The error is the least index of an entry that is
no pivot. -/
def scaleByDiagonal : {n : Nat} → Vector α n → Vector α n → Except Nat (Vector α n)
  | 0, _, _ => .ok noEntries
  | _ + 1, d, y =>
    match K.div? (y.get 0) (d.get 0) with
    | none => .error 0
    | some z =>
      match scaleByDiagonal (dropFirst d) (dropFirst y) with
      | .ok rest => .ok (addFirst z rest)
      | .error index => .error (index + 1)

end LinearEnclosure
