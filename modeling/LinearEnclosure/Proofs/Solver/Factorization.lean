/-
# Triangular factorizations

What it means for matrices over a field to be the factors `L U` or `L D Lᵀ` of another
one, and why a regular matrix has at most one pair of them. A solver that finds factors
has thus found the factors: the statements about solvers can name them without saying
how they were computed.
-/

import Mathlib

namespace LinearEnclosure

open Matrix

variable {F : Type} [Field F] {n : ℕ}

/-- A lower triangular matrix with ones on its diagonal. -/
structure IsUnitLower (L : Matrix (Fin n) (Fin n) F) : Prop where
  lower : L.IsLowerTriangular
  diagonal : ∀ i, L i i = 1

/-- A unit lower triangular and an upper triangular matrix with the product `A`. -/
structure IsLU (A L U : Matrix (Fin n) (Fin n) F) : Prop where
  lower : IsUnitLower L
  upper : U.IsUpperTriangular
  product : L * U = A

/-- A unit lower triangular `L` and an invertible diagonal with `A = L D Lᵀ`. -/
structure IsLDL (A L : Matrix (Fin n) (Fin n) F) (d : Fin n → F) : Prop where
  lower : IsUnitLower L
  regular : ∀ i, d i ≠ 0
  product : L * diagonal d * Lᵀ = A

variable {A L U : Matrix (Fin n) (Fin n) F}

theorem IsUnitLower.above (lower : IsUnitLower L) {i j : Fin n} (order : i < j) : L i j = 0 :=
  lower.lower order

theorem IsUnitLower.det_eq_one (lower : IsUnitLower L) : L.det = 1 := by
  rw [det_of_isLowerTriangular L lower.lower]
  apply Finset.prod_eq_one
  intro i _
  exact lower.diagonal i

theorem IsUnitLower.det_ne_zero (lower : IsUnitLower L) : L.det ≠ 0 := by
  rw [lower.det_eq_one]
  exact one_ne_zero

/-- A matrix of determinant other than zero has one solution for each right-hand side. -/
theorem mulVec_eq_iff_of_det_ne_zero (regular : A.det ≠ 0) {b x : Fin n → F}
    (solves : A *ᵥ x = b) (z : Fin n → F) : A *ᵥ z = b ↔ z = x := by
  constructor
  · intro other
    exact mulVec_injective_of_det_ne_zero regular (other.trans solves.symm)
  · rintro rfl
    exact solves

namespace IsLU

theorem det_eq_prod (factors : IsLU A L U) : A.det = ∏ i, U i i := by
  rw [← factors.product, det_mul, factors.lower.det_eq_one, one_mul,
    det_of_isUpperTriangular factors.upper]

theorem det_ne_zero (factors : IsLU A L U) (pivots : ∀ i, U i i ≠ 0) : A.det ≠ 0 := by
  rw [factors.det_eq_prod]
  apply Finset.prod_ne_zero_iff.mpr
  intro i _
  exact pivots i

/-- A matrix that is both lower and upper triangular is diagonal; this is the change from
one pair of factors to another, and the unit diagonals leave only the identity. -/
theorem unique {L' U' : Matrix (Fin n) (Fin n) F} (first : IsLU A L U) (regular : A.det ≠ 0)
    (second : IsLU A L' U') : L' = L ∧ U' = U := by
  have unitLower : IsUnit L'.det := by simp [second.lower.det_eq_one]
  have unitUpper : IsUnit U.det := by
    rw [← first.product, det_mul] at regular
    exact (right_ne_zero_of_mul regular).isUnit
  let _ := invertibleOfIsUnitDet L' unitLower
  let _ := invertibleOfIsUnitDet U unitUpper
  have change : L'⁻¹ * L = U' * U⁻¹ := by
    calc L'⁻¹ * L = L'⁻¹ * (L * U) * U⁻¹ := by
          rw [Matrix.mul_assoc, Matrix.mul_assoc, mul_nonsing_inv U unitUpper, Matrix.mul_one]
      _ = L'⁻¹ * (L' * U') * U⁻¹ := by rw [first.product, second.product]
      _ = U' * U⁻¹ := by rw [← Matrix.mul_assoc L'⁻¹, nonsing_inv_mul L' unitLower, Matrix.one_mul]
  have lower : (L'⁻¹ * L).IsLowerTriangular :=
    (blockTriangular_inv_of_blockTriangular second.lower.lower).mul first.lower.lower
  have upper : (L'⁻¹ * L).IsUpperTriangular := by
    rw [change]
    exact second.upper.mul (blockTriangular_inv_of_blockTriangular first.upper)
  have diagonal : L'⁻¹ * L = Matrix.diagonal fun i => (L'⁻¹ * L) i i := by
    ext i j
    obtain below | rfl | above := lt_trichotomy j i
    · rw [diagonal_apply_ne _ below.ne']
      exact upper below
    · rw [diagonal_apply_eq]
    · rw [diagonal_apply_ne _ above.ne]
      exact lower above
  have identity : L'⁻¹ * L = 1 := by
    rw [diagonal, ← Matrix.diagonal_one]
    congr 1
    funext i
    have entry := congrFun (congrFun (mul_nonsing_inv_cancel_left L' L unitLower) i) i
    rw [diagonal, mul_diagonal, first.lower.diagonal, second.lower.diagonal, one_mul] at entry
    exact entry
  have lowerSame : L' = L := by
    rw [← mul_nonsing_inv_cancel_left L' L unitLower, identity, Matrix.mul_one]
  have upperSame : U' = U := by
    rw [← nonsing_inv_mul_cancel_left L' U' unitLower, second.product, ← first.product,
      ← Matrix.mul_assoc, identity, Matrix.one_mul]
  exact ⟨lowerSame, upperSame⟩

theorem isLU_iff (factors : IsLU A L U) (regular : A.det ≠ 0) {L' U' : Matrix (Fin n) (Fin n) F} :
    IsLU A L' U' ↔ L' = L ∧ U' = U := by
  constructor
  · intro other
    exact factors.unique regular other
  · rintro ⟨rfl, rfl⟩
    exact factors

end IsLU

namespace IsLDL

variable {d : Fin n → F}

theorem toLU (factors : IsLDL A L d) : IsLU A L (diagonal d * Lᵀ) where
  lower := factors.lower
  upper := by
    intro i j below
    rw [diagonal_mul, transpose_apply, factors.lower.lower below, mul_zero]
  product := by rw [← Matrix.mul_assoc, factors.product]

theorem pivot (factors : IsLDL A L d) (i : Fin n) : (diagonal d * Lᵀ) i i = d i := by
  rw [diagonal_mul, transpose_apply, factors.lower.diagonal, mul_one]

theorem det_ne_zero (factors : IsLDL A L d) : A.det ≠ 0 := by
  apply factors.toLU.det_ne_zero
  intro i
  rw [factors.pivot]
  exact factors.regular i

theorem unique {L' : Matrix (Fin n) (Fin n) F} {d' : Fin n → F} (first : IsLDL A L d)
    (second : IsLDL A L' d') : L' = L ∧ d' = d := by
  obtain ⟨same, upper⟩ := first.toLU.unique first.det_ne_zero second.toLU
  have pivots : ∀ i, d' i = d i := by
    intro i
    rw [← second.pivot, upper, first.pivot]
  exact ⟨same, funext pivots⟩

theorem isLDL_iff (factors : IsLDL A L d) {L' : Matrix (Fin n) (Fin n) F} {d' : Fin n → F} :
    IsLDL A L' d' ↔ L' = L ∧ d' = d := by
  constructor
  · intro other
    exact factors.unique other
  · rintro ⟨rfl, rfl⟩
    exact factors

end IsLDL

end LinearEnclosure
