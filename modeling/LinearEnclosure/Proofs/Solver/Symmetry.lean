/-
# The symmetric solver against the general one

The two solvers peel a symmetric matrix in step. They divide by the same pivots and their
remaining matrices have the same lower triangle, which is all the symmetric solver reads:
above the diagonal it carries entries it never looks at. So they stop at the same pivot.

Where neither stops, nothing has to be followed any further. A regular matrix has one pair
of triangular factors, and one solution for each right-hand side.
-/

import LinearEnclosure.Proofs.Solver.LeadingMinors

namespace LinearEnclosure

open Matrix

variable {F : Type} [Field F] {n : ℕ}

theorem isSymm_reduce {A : DenseMatrix F (n + 1) (n + 1)} (symmetric : A.toMatrix.IsSymm) :
    (LUFactors.reduce (.ofField F) A (multipliers (.ofField F) A)).toMatrix.IsSymm := by
  have mirrored (i j) : A.toMatrix j i = A.toMatrix i j := symmetric.apply i j
  rw [toMatrix_reduce]
  ext i j
  rw [transpose_apply, schurComplement, of_apply, of_apply, mirrored i.succ j.succ,
    mirrored 0 j.succ, mirrored 0 i.succ]
  ring

/-- The remaining matrices have the same lower triangle. -/
theorem lowerRel_reduce {A B : DenseMatrix F (n + 1) (n + 1)} (symmetric : A.toMatrix.IsSymm)
    (same : LowerRel Eq A B) (pivot : A.entry 0 0 ≠ 0) :
    LowerRel Eq (LUFactors.reduce (.ofField F) A (multipliers (.ofField F) A))
      (LDLFactors.reduce (.ofField F) B (multipliers (.ofField F) B)
        ((multipliers (.ofField F) B).map fun l => l * B.entry 0 0)) := by
  intro i j below
  have corner : A.entry 0 0 = B.entry 0 0 := same 0 0 le_rfl
  have column (k : Fin n) : A.entry k.succ 0 = B.entry k.succ 0 := same k.succ 0 (Fin.zero_le _)
  have mirrored : A.entry 0 j.succ = A.entry j.succ 0 := symmetric.apply j.succ 0
  have entry : A.entry i.succ j.succ = B.entry i.succ j.succ :=
    same i.succ j.succ (Fin.succ_le_succ_iff.mpr below)
  rw [reduce_of_le below, LUFactors.reduce, DenseMatrix.entry_ofFn, Arithmetic.ofField_sub,
    Arithmetic.ofField_mul, mirrored, entry]
  simp only [get_multipliers, Arithmetic.ofField_quotient, ← corner, ← column]
  field_simp

theorem eliminate_eq_error_iff {A B : DenseMatrix F n n} (symmetric : A.toMatrix.IsSymm)
    (same : LowerRel Eq A B) {k : ℕ} :
    LUFactors.eliminate (.ofField F) A = .error k ↔
      LDLFactors.eliminate (.ofField F) B = .error k := by
  induction n generalizing k with
  | zero => exact ⟨nofun, nofun⟩
  | succ n ih =>
    rw [LUFactors.eliminate_succ_eq_error_iff, LDLFactors.eliminate_succ_eq_error_iff,
      ← same 0 0 le_rfl]
    apply or_congr_right
    apply and_congr_right
    intro pivot
    rw [Arithmetic.ofField_isPivot] at pivot
    have rest := lowerRel_reduce symmetric same pivot
    rw [← same 0 0 le_rfl] at rest
    apply exists_congr
    intro j
    exact and_congr_left' (ih (isSymm_reduce symmetric) rest)

/-! ## Exact arithmetics -/

section Exact

variable {K : Arithmetic F} (isExact : K.IsExact)
include isExact

theorem toMatrix_upper {factors : LDLFactors F n} (lower : IsUnitLower factors.lower.toMatrix) :
    (factors.upper K).toMatrix = diagonal factors.diagonal.get * factors.lower.toMatrixᵀ := by
  ext i j
  rw [diagonal_mul, transpose_apply, DenseMatrix.toMatrix_apply, DenseMatrix.toMatrix_apply,
    LDLFactors.upper, DenseMatrix.entry_ofFn]
  by_cases order : i ≤ j
  · rw [if_pos order, isExact.mul]
  · have above : factors.lower.entry j i = 0 := lower.above (not_le.mp order)
    rw [if_neg order, isExact.zero, above, mul_zero]

/-- The symmetric factors, written out, are what the general elimination returns. -/
theorem eq_writtenOut {A : DenseMatrix F n n} (symmetric : A.toMatrix.IsSymm)
    {general : LUFactors F n} {factors : LDLFactors F n}
    (factored : LUFactors.eliminate (.ofField F) A = .ok general)
    (factored' : LDLFactors.eliminate (.ofField F) A = .ok factors) :
    general = ⟨factors.lower, factors.upper K⟩ := by
  have isLDL := eliminate_isLDL symmetric factored'
  obtain ⟨lower, upper⟩ := isLDL.toLU.unique isLDL.det_ne_zero (eliminate_isLU factored).1
  rw [← toMatrix_upper isExact isLDL.lower] at upper
  apply congrArg₂ LUFactors.mk
  · exact DenseMatrix.ext_entry fun i j => congrFun (congrFun lower i) j
  · exact DenseMatrix.ext_entry fun i j => congrFun (congrFun upper i) j

/-- Scaling and transposed substitution find what the substitution in `D Lᵀ` finds. -/
theorem exists_solve_both {A : DenseMatrix F n n} (symmetric : A.toMatrix.IsSymm)
    {general : LUFactors F n} {factors : LDLFactors F n}
    (factored : LUFactors.eliminate (.ofField F) A = .ok general)
    (factored' : LDLFactors.eliminate (.ofField F) A = .ok factors) (b : Vector F n) :
    ∃ y z x, factors.solve K b = .ok (y, z, x) ∧ general.solve K b = .ok (y, x) ∧
      A.toMatrix *ᵥ x.get = b.get := by
  have isLDL := eliminate_isLDL symmetric factored'
  obtain ⟨y, x, run, lower, unique⟩ := exists_solve isExact factored b
  obtain ⟨rfl, -⟩ := LUFactors.solve_eq_ok_iff.mp run
  obtain rfl := eq_writtenOut isExact symmetric factored factored'
  let y := forwardSubstitute K factors.lower b
  obtain ⟨z, scaled⟩ := exists_scaleByDiagonal (K := K)
    (fun i => (isExact.isPivot _).mpr (isLDL.regular i)) y
  let x' := backSubstituteTransposed K factors.lower z
  have first : factors.lower.toMatrix *ᵥ y.get = b.get := (lower y.get).mpr rfl
  have middle : diagonal factors.diagonal.get *ᵥ z.get = y.get :=
    scaleByDiagonal_eq_ok (isExact.scaleByDiagonal_eq_ok scaled)
  have last : factors.lower.toMatrixᵀ *ᵥ x'.get = z.get := by
    rw [show x' = _ from isExact.backSubstituteTransposed_eq factors.lower z]
    exact mulVec_backSubstituteTransposed isLDL.lower z
  have solves : A.toMatrix *ᵥ x'.get = b.get := by
    rw [← isLDL.product, ← mulVec_mulVec, last, ← mulVec_mulVec, middle, first]
  have same : x' = x := ext_get (congrFun ((unique x'.get).mp solves))
  exact ⟨y, z, x, LDLFactors.solve_eq_ok_iff.mpr ⟨rfl, scaled, same.symm⟩, run,
    (unique x.get).mpr rfl⟩

/-- On a symmetric matrix both eliminations fail at the same pivot, or both succeed. Then they
have the same lower factor, the upper factor of the general one is `D Lᵀ`, and the factors solve
every system alike. -/
theorem ofMatrix_sameOutcome {A : DenseMatrix F (n + 1) (n + 1)}
    (symmetric : A.toMatrix.IsSymm) :
    SameOutcome
      (fun general factors =>
        general.lower = factors.lower ∧ general.upper = factors.upper K ∧
        IsLDL A.toMatrix factors.lower.toMatrix factors.diagonal.get ∧
        ∀ b, ∃ y z x, factors.solve K b = .ok (y, z, x) ∧ general.solve K b = .ok (y, x) ∧
          A.toMatrix *ᵥ x.get = b.get)
      (LUFactors.ofMatrix K A) (LDLFactors.ofMatrix K A) ∧
    ∀ error, LDLFactors.ofMatrix K A = .error error →
      ∃ k, error = .singularPivot .decomposition k := by
  rw [LUFactors.ofMatrix_succ, LDLFactors.ofMatrix_succ, isExact.eliminateGeneral_eq,
    isExact.eliminateSymmetric_eq]
  have failure (k : ℕ) := eliminate_eq_error_iff (k := k) symmetric fun i j _ => rfl
  cases eliminated : LDLFactors.eliminate (.ofField F) A with
  | error k =>
    rw [(failure k).mpr eliminated]
    refine ⟨.error _, ?_⟩
    rintro _ ⟨⟩
    exact ⟨k, rfl⟩
  | ok factors =>
    cases factored : LUFactors.eliminate (.ofField F) A with
    | error k =>
      rw [(failure k).mp factored] at eliminated
      cases eliminated
    | ok general =>
      refine ⟨.ok ?_, nofun⟩
      have solves := exists_solve_both isExact symmetric factored eliminated
      obtain rfl := eq_writtenOut isExact symmetric factored eliminated
      exact ⟨rfl, rfl, eliminate_isLDL symmetric eliminated, solves⟩

end Exact

/-- Three equations with the pivots `2`, `1 / 2` and `-1`. -/
def mirroredTriple : DenseMatrix ℚ 3 3 :=
  .ofFn ![![2, 1, 4], ![1, 1, 3], ![4, 3, 9]]

theorem ofMatrix_sameOutcome_triple :
    mirroredTriple.toMatrix.IsSymm ∧
    ∃ general factors, LUFactors.ofMatrix .rational mirroredTriple = .ok general ∧
      LDLFactors.ofMatrix .rational mirroredTriple = .ok factors ∧
      general.upper = factors.upper .rational ∧
      ∃ y z x, factors.solve .rational #v[1, 2, 3] = .ok (y, z, x) ∧
        general.solve .rational #v[1, 2, 3] = .ok (y, x) := by
  have symmetric : mirroredTriple.toMatrix.IsSymm := by
    apply IsSymm.ext
    simp [Fin.forall_fin_succ, mirroredTriple]
  obtain ⟨general, factored⟩ := exists_of_isOk
    (r := LUFactors.ofMatrix .rational mirroredTriple) (by decide +kernel)
  obtain ⟨factors, factored'⟩ := exists_of_isOk
    (r := LDLFactors.ofMatrix .rational mirroredTriple) (by decide +kernel)
  obtain ⟨same, -⟩ := ofMatrix_sameOutcome Arithmetic.rational_isExact symmetric
  rw [factored, factored'] at same
  cases same with
  | ok related =>
    obtain ⟨-, upper, -, solves⟩ := related
    obtain ⟨y, z, x, run, run', -⟩ := solves #v[1, 2, 3]
    exact ⟨symmetric, general, factors, factored, factored', upper, y, z, x, run, run'⟩

end LinearEnclosure
