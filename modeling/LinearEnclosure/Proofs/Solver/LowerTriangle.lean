/-
# Symmetric solves read one triangle

The symmetric solver is handed a whole square matrix and takes it on trust that the matrix is
symmetric. It looks at the diagonal and below, and nothing it computes depends on what stands
above the diagonal: two matrices with the same lower triangle have the same factors and the same
solutions, and where one of them is refused, so is the other, for the same reason. The entries
above the diagonal may be anything, numbers that are not finite included.

The elimination carries the upper entries along. What a step leaves behind therefore differs for
the two matrices, but only above the diagonal again, and this is the invariant of the induction.
-/

import LinearEnclosure.Proofs.Solver.Simulation

namespace LinearEnclosure

variable {α : Type} {n : ℕ} {K : Arithmetic α}

namespace LowerRel

variable {A B : DenseMatrix α (n + 1) (n + 1)}

theorem corner (same : LowerRel Eq A B) : A.entry 0 0 = B.entry 0 0 :=
  same 0 0 le_rfl

/-- The first column lies in the lower triangle. -/
theorem multipliers (same : LowerRel Eq A B) : multipliers K A = multipliers K B := by
  apply ext_get
  intro i
  rw [get_multipliers, get_multipliers, same i.succ 0 (Fin.zero_le _), same.corner]

/-- One step of an elimination keeps apart only what it found apart. -/
theorem reduce (same : LowerRel Eq A B) (multipliers weights : Vector α n) :
    LowerRel Eq (LDLFactors.reduce K A multipliers weights)
      (LDLFactors.reduce K B multipliers weights) := by
  intro i j below
  rw [LDLFactors.reduce, LDLFactors.reduce, DenseMatrix.entry_ofFn, DenseMatrix.entry_ofFn,
    same i.succ j.succ (Fin.succ_le_succ_iff.mpr below)]

end LowerRel

theorem LDLFactors.eliminate_eq_of_lower {A B : DenseMatrix α n n} (same : LowerRel Eq A B) :
    eliminate K A = eliminate K B := by
  induction n with
  | zero => rw [DenseMatrix.ext_entry (A := A) (B := B) fun i => i.elim0]
  | succ n ih =>
    cases pivot : K.isPivot (A.entry 0 0) with
    | false =>
      rw [eliminate_eq_error pivot, eliminate_eq_error (same.corner ▸ pivot)]
    | true =>
      rw [eliminate_of_isPivot pivot, eliminate_of_isPivot (same.corner ▸ pivot),
        same.multipliers, same.corner, ih (same.reduce _ _)]

theorem LDLFactors.ofMatrix_eq_of_lower {A B : DenseMatrix α n n} (same : LowerRel Eq A B) :
    ofMatrix K A = ofMatrix K B := by
  cases n with
  | zero => rfl
  | succ n => rw [ofMatrix_succ, ofMatrix_succ, eliminate_eq_of_lower same]

/-- A symmetric solve in any arithmetic, with a right-hand side of any size. Two matrices with the
same entries on the diagonal and below are factored alike and lead to the same outcome: the same
refusal, or the same factors, intermediate vectors, solution and status. -/
theorem solveSymmetric_eq_of_lower (K : Arithmetic α) {n : ℕ} {A B : DenseMatrix α n n}
    (same : ∀ i j, j ≤ i → A.entry i j = B.entry i j) :
    LDLFactors.ofMatrix K A = LDLFactors.ofMatrix K B ∧
      ∀ {k : ℕ} (b : Vector α k), solveSymmetric K A b = solveSymmetric K B b := by
  refine ⟨LDLFactors.ofMatrix_eq_of_lower same, fun b => ?_⟩
  cases n with
  | zero => rfl
  | succ n =>
    simp only [solveSymmetric, checkSquare_succ, ok_bind, LDLFactors.ofSquare,
      LDLFactors.eliminate_eq_of_lower same]

/-- What is not a number stands above the diagonal of the first matrix, and the solve does not
notice. -/
theorem solveSymmetric_eq_of_lower_nan :
    let two : Double := Binary.ofDecimal (.of 2 0)
    let A : DenseMatrix Double 2 2 := .ofFn ![![.one, .nan], ![two, .one]]
    let B : DenseMatrix Double 2 2 := .ofFn ![![.one, two], ![two, .one]]
    let b : Vector Double 2 := #v[.one, two]
    (∀ i j, j ≤ i → A.entry i j = B.entry i j) ∧
      ∃ solution, solveSymmetric Binary.arithmetic A b = .ok solution ∧
        solveSymmetric Binary.arithmetic B b = .ok solution := by
  intro two A B b
  have same : ∀ i j, j ≤ i → A.entry i j = B.entry i j := by
    decide +kernel
  have solved : (solveSymmetric Binary.arithmetic B b).isOk = true := by
    decide +kernel
  obtain ⟨solution, solved⟩ := exists_of_isOk solved
  exact ⟨same, solution,
    ((solveSymmetric_eq_of_lower Binary.arithmetic same).2 b).trans solved, solved⟩

end LinearEnclosure
