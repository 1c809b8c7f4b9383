/-
# Leading minors

Elimination without exchanges of rows needs a pivot in every corner it comes to. Over a
field the corners are ratios of leading minors: a step divides every minor by the pivot
and makes the next one the first. So the elimination of a matrix succeeds exactly when no
leading minor vanishes, and otherwise it stops at the first one that does.

What is shown over a field holds for every exact arithmetic, which does the same.
-/

import LinearEnclosure.Proofs.Solver.Agreement
import LinearEnclosure.Proofs.Solver.Exact

namespace LinearEnclosure

open Matrix

variable {F : Type} [Field F] {n : ℕ}

/-- The determinant of the first `m` rows and columns. -/
def leadingMinor (A : Matrix (Fin n) (Fin n) F) {m : ℕ} (fits : m ≤ n) : F :=
  (A.submatrix (Fin.castLE fits) (Fin.castLE fits)).det

/-- What remains of a matrix when its first row and column are eliminated. -/
def schurComplement (A : Matrix (Fin (n + 1)) (Fin (n + 1)) F) : Matrix (Fin n) (Fin n) F :=
  Matrix.of fun i j => A i.succ j.succ - A i.succ 0 / A 0 0 * A 0 j.succ

theorem toMatrix_reduce (A : DenseMatrix F (n + 1) (n + 1)) :
    (LUFactors.reduce (.ofField F) A (multipliers (.ofField F) A)).toMatrix =
      schurComplement A.toMatrix := by
  ext i j
  rw [DenseMatrix.toMatrix_apply, LUFactors.reduce, DenseMatrix.entry_ofFn, get_multipliers]
  rfl

/-- Multiples of the first row are taken from the others, and then the first column has only
the pivot. -/
theorem det_eq_pivot_mul_det {A : Matrix (Fin (n + 1)) (Fin (n + 1)) F} (pivot : A 0 0 ≠ 0) :
    A.det = A 0 0 * (schurComplement A).det := by
  let multiplier : Fin (n + 1) → F := Fin.cases 0 fun i => A i.succ 0 / A 0 0
  let cleared : Matrix (Fin (n + 1)) (Fin (n + 1)) F :=
    Matrix.of fun i j => A i j - multiplier i * A 0 j
  have corner : cleared 0 0 = A 0 0 := by simp [cleared, multiplier]
  have column (i : Fin n) : cleared i.succ 0 = 0 := by simp [cleared, multiplier, pivot]
  calc A.det
      = cleared.det := by
        apply det_eq_of_forall_row_eq_smul_add_const multiplier 0 rfl
        intro i j
        simp [cleared, multiplier]
    _ = cleared 0 0 * (cleared.submatrix Fin.succ Fin.succ).det := by
        rw [det_succ_column_zero, Fin.sum_univ_succ, Finset.sum_eq_zero, add_zero]
        · simp
        · intro i _
          rw [column, mul_zero, zero_mul]
    _ = A 0 0 * (schurComplement A).det := by
        rw [corner]
        rfl

theorem leadingMinor_zero (A : Matrix (Fin n) (Fin n) F) (fits : 0 ≤ n) :
    leadingMinor A fits = 1 :=
  det_isEmpty

theorem leadingMinor_one (A : Matrix (Fin (n + 1)) (Fin (n + 1)) F) (fits : 1 ≤ n + 1) :
    leadingMinor A fits = A 0 0 :=
  det_unique _

/-- A step takes one row, one column and one factor from every minor. -/
theorem leadingMinor_succ {A : Matrix (Fin (n + 1)) (Fin (n + 1)) F} (pivot : A 0 0 ≠ 0) {m : ℕ}
    (fits : m + 1 ≤ n + 1) :
    leadingMinor A fits =
      A 0 0 * leadingMinor (schurComplement A) (Nat.le_of_succ_le_succ fits) :=
  det_eq_pivot_mul_det pivot

theorem leadingMinor_ne_zero_of_eliminate {A : DenseMatrix F n n} {factors : LUFactors F n}
    (factored : LUFactors.eliminate (.ofField F) A = .ok factors) {m : ℕ} (fits : m ≤ n) :
    leadingMinor A.toMatrix fits ≠ 0 := by
  induction n generalizing m with
  | zero =>
    obtain rfl := Nat.le_zero.mp fits
    rw [leadingMinor_zero]
    exact one_ne_zero
  | succ n ih =>
    obtain ⟨pivot, rest, eliminated, rfl⟩ := LUFactors.eliminate_succ_eq_ok_iff.mp factored
    rw [Arithmetic.ofField_isPivot] at pivot
    cases m with
    | zero =>
      rw [leadingMinor_zero]
      exact one_ne_zero
    | succ m =>
      rw [leadingMinor_succ (A := A.toMatrix) pivot, ← toMatrix_reduce]
      exact mul_ne_zero pivot (ih eliminated _)

/-- The orders, less one, of the leading minors that vanish. -/
def vanishingMinors (A : Matrix (Fin n) (Fin n) F) : Set ℕ :=
  {k | ∃ fits : k + 1 ≤ n, leadingMinor A fits = 0}

theorem isLeast_of_eliminate {A : DenseMatrix F n n} {k : ℕ}
    (failed : LUFactors.eliminate (.ofField F) A = .error k) :
    IsLeast (vanishingMinors A.toMatrix) k := by
  induction n generalizing k with
  | zero => cases failed
  | succ n ih =>
    obtain ⟨invalid, rfl⟩ | ⟨pivot, j, behind, rfl⟩ :=
      LUFactors.eliminate_succ_eq_error_iff.mp failed
    · rw [← Bool.not_eq_true, Arithmetic.ofField_isPivot, not_not] at invalid
      exact ⟨⟨Nat.le_add_left 1 n, (leadingMinor_one _ _).trans invalid⟩, fun _ _ => Nat.zero_le _⟩
    · rw [Arithmetic.ofField_isPivot] at pivot
      obtain ⟨⟨fits, vanishes⟩, least⟩ := ih behind
      rw [toMatrix_reduce] at vanishes least
      constructor
      · refine ⟨Nat.succ_le_succ fits, ?_⟩
        rw [leadingMinor_succ (A := A.toMatrix) pivot, vanishes, mul_zero]
      · rintro m ⟨fits', vanishes'⟩
        cases m with
        | zero =>
          rw [leadingMinor_one] at vanishes'
          exact absurd vanishes' pivot
        | succ m =>
          rw [leadingMinor_succ (A := A.toMatrix) pivot] at vanishes'
          exact Nat.succ_le_succ
            (least ⟨_, (mul_eq_zero.mp vanishes').resolve_left pivot⟩)

/-! ## Exact arithmetics -/

section Exact

variable {K : Arithmetic F} (isExact : K.IsExact)
include isExact

/-- The factors of an exact elimination solve every system. -/
theorem exists_solve {A : DenseMatrix F n n} {factors : LUFactors F n}
    (factored : LUFactors.eliminate (.ofField F) A = .ok factors) (b : Vector F n) :
    ∃ y x, factors.solve K b = .ok (y, x) ∧
      (∀ v, factors.lower.toMatrix *ᵥ v = b.get ↔ v = y.get) ∧
      ∀ v, A.toMatrix *ᵥ v = b.get ↔ v = x.get := by
  obtain ⟨isLU, pivots⟩ := eliminate_isLU factored
  let y := forwardSubstitute K factors.lower b
  obtain ⟨x, substituted⟩ := exists_backSubstitute (K := K)
    (fun i => (isExact.isPivot _).mpr (pivots i)) y
  have lower : factors.lower.toMatrix *ᵥ y.get = b.get := by
    rw [show y = _ from isExact.forwardSubstitute_eq factors.lower b]
    exact mulVec_forwardSubstitute isLU.lower b
  have upper : factors.upper.toMatrix *ᵥ x.get = y.get :=
    mulVec_backSubstitute isLU.upper (isExact.backSubstitute_eq_ok substituted)
  have solves : A.toMatrix *ᵥ x.get = b.get := by
    rw [← isLU.product, ← mulVec_mulVec, upper, lower]
  exact ⟨y, x, LUFactors.solve_eq_ok_iff.mpr ⟨rfl, substituted⟩,
    mulVec_eq_iff_of_det_ne_zero isLU.lower.det_ne_zero lower,
    mulVec_eq_iff_of_det_ne_zero (isLU.det_ne_zero pivots) solves⟩

/-- An exact elimination succeeds exactly when no leading minor vanishes, and otherwise its
error is the place of the first one that does. The factors it returns are those of the matrix,
and they give the only solution of each system. -/
theorem ofMatrix_exact (A : DenseMatrix F (n + 1) (n + 1)) :
    ((∃ factors, LUFactors.ofMatrix K A = .ok factors) ↔
      ∀ (m : ℕ) (fits : m ≤ n + 1), leadingMinor A.toMatrix fits ≠ 0) ∧
    (∀ error, LUFactors.ofMatrix K A = .error error →
      ∃ k, error = .singularPivot .decomposition k ∧
        IsLeast (vanishingMinors A.toMatrix) k) ∧
    ∀ factors, LUFactors.ofMatrix K A = .ok factors →
      IsLU A.toMatrix factors.lower.toMatrix factors.upper.toMatrix ∧
      ∀ b, ∃ y x, factors.solve K b = .ok (y, x) ∧
        (∀ v, factors.lower.toMatrix *ᵥ v = b.get ↔ v = y.get) ∧
        ∀ v, A.toMatrix *ᵥ v = b.get ↔ v = x.get := by
  rw [LUFactors.ofMatrix_succ, isExact.eliminateGeneral_eq]
  cases eliminated : LUFactors.eliminate (.ofField F) A with
  | error k =>
    have least := isLeast_of_eliminate eliminated
    obtain ⟨fits, vanishes⟩ := least.1
    refine ⟨⟨?_, ?_⟩, ?_, ?_⟩
    · rintro ⟨factors, factored⟩
      cases factored
    · intro nonzero
      exact absurd vanishes (nonzero (k + 1) fits)
    · rintro _ ⟨⟩
      exact ⟨k, rfl, least⟩
    · rintro factors ⟨⟩
  | ok factors =>
    refine ⟨⟨?_, ?_⟩, ?_, ?_⟩
    · intro _ m fits
      exact leadingMinor_ne_zero_of_eliminate eliminated fits
    · intro _
      exact ⟨factors, rfl⟩
    · rintro _ ⟨⟩
    · rintro _ ⟨⟩
      exact ⟨(eliminate_isLU eliminated).1, exists_solve isExact eliminated⟩

end Exact

/-- The arithmetic of the rational numbers, which can be run. -/
def Arithmetic.rational : Arithmetic ℚ where
  zero := 0
  one := 1
  add x y := x + y
  sub x y := x - y
  mul x y := x * y
  quotient x y := x / y
  isPivot x := decide (x ≠ 0)
  isFinite _ := true

theorem Arithmetic.rational_isExact : rational.IsExact where
  zero := rfl
  one := rfl
  add _ _ := rfl
  sub _ _ := rfl
  mul _ _ := rfl
  quotient _ _ _ := rfl
  isPivot _ := decide_eq_true_iff

/-- Three equations whose pivots are `2`, `3` and `5 / 6`. -/
def regularTriple : DenseMatrix ℚ 3 3 :=
  .ofFn ![![2, 1, 1], ![4, 5, 3], ![2, 2, 13 / 6]]

/-- Three equations whose second pivot vanishes, although no row is a multiple of another. -/
def blockedTriple : DenseMatrix ℚ 3 3 :=
  .ofFn ![![1, 2, 3], ![2, 4, 5], ![3, 5, 6]]

/-- The factors and the blocked second pivot. -/
theorem ofMatrix_exact_triples :
    (∃ factors, LUFactors.ofMatrix .rational regularTriple = .ok factors ∧
      IsLU regularTriple.toMatrix factors.lower.toMatrix factors.upper.toMatrix ∧
      leadingMinor regularTriple.toMatrix (Nat.le_succ 2) ≠ 0 ∧
      ∃ y x, factors.solve .rational #v[1, 2, 3] = .ok (y, x) ∧
        regularTriple.toMatrix *ᵥ x.get = (#v[1, 2, 3] : Vector ℚ 3).get) ∧
    LUFactors.ofMatrix .rational blockedTriple = .error (.singularPivot .decomposition 1) ∧
      IsLeast (vanishingMinors blockedTriple.toMatrix) 1 := by
  obtain ⟨factors, factored⟩ := exists_of_isOk
    (r := LUFactors.ofMatrix .rational regularTriple) (by decide +kernel)
  have blocked : LUFactors.ofMatrix .rational blockedTriple =
      .error (.singularPivot .decomposition 1) := by decide +kernel
  obtain ⟨minors, -, solves⟩ := ofMatrix_exact Arithmetic.rational_isExact regularTriple
  obtain ⟨-, first, -⟩ := ofMatrix_exact Arithmetic.rational_isExact blockedTriple
  obtain ⟨isLU, solved⟩ := solves factors factored
  obtain ⟨y, x, run, -, unique⟩ := solved #v[1, 2, 3]
  obtain ⟨k, same, least⟩ := first _ blocked
  obtain ⟨rfl⟩ := same
  exact ⟨⟨factors, factored, isLU, minors.mp ⟨factors, factored⟩ 2 _, y, x, run,
    (unique x.get).mpr rfl⟩, blocked, least⟩

end LinearEnclosure
