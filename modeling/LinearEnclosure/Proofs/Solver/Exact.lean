/-
# Solvers over a field

Without rounding, a solver computes what its name says. The eliminations return the
triangular factors of their matrix, and each substitution returns the solution of its
triangular system. A solve that comes to an end has thus found the factors and the
solution of a regular system.

The inductions follow the recursions: one row and column are split off from every matrix
product, and what remains is the statement for the rest.
-/

import LinearEnclosure.Proofs.Arithmetic
import LinearEnclosure.Proofs.Solver.Bidiagonal
import LinearEnclosure.Proofs.Solver.Stages

namespace LinearEnclosure

open Matrix

variable {F : Type} [Field F] {n : ℕ}

/-- The entries of a dense matrix as a matrix. -/
def DenseMatrix.toMatrix {α : Type} {m n : ℕ} (A : DenseMatrix α m n) : Matrix (Fin m) (Fin n) α :=
  Matrix.of A.entry

/-- A matrix with its entries stored. -/
def DenseMatrix.ofMatrix {α : Type} {m n : ℕ} (A : Matrix (Fin m) (Fin n) α) : DenseMatrix α m n :=
  .ofFn fun i j => A i j

@[simp] theorem DenseMatrix.toMatrix_apply {α : Type} {m n : ℕ} (A : DenseMatrix α m n) (i : Fin m)
    (j : Fin n) : A.toMatrix i j = A.entry i j := rfl

@[simp] theorem DenseMatrix.entry_ofMatrix {α : Type} {m n : ℕ} (A : Matrix (Fin m) (Fin n) α)
    (i : Fin m) (j : Fin n) : (DenseMatrix.ofMatrix A).entry i j = A i j :=
  DenseMatrix.entry_ofFn _ i j

@[simp] theorem DenseMatrix.toMatrix_ofMatrix {α : Type} {m n : ℕ} (A : Matrix (Fin m) (Fin n) α) :
    (DenseMatrix.ofMatrix A).toMatrix = A := by
  ext i j
  exact DenseMatrix.entry_ofMatrix A i j

theorem ofField_subProducts_pairs (x : F) (u v : Vector F n) :
    (Arithmetic.ofField F).subProducts x (pairs u v) = x - ∑ i, u.get i * v.get i := by
  rw [Arithmetic.ofField_subProducts, pairs, List.map_ofFn, List.sum_ofFn]
  rfl

/-- The first term of a row times a vector, and the others. -/
theorem mulVec_apply_succ {m : ℕ} (A : Matrix (Fin m) (Fin (n + 1)) F) (v : Fin (n + 1) → F)
    (i : Fin m) : (A *ᵥ v) i = A i 0 * v 0 + ∑ j : Fin n, A i j.succ * v j.succ := by
  rw [mulVec, dotProduct, Fin.sum_univ_succ]

/-- A row of the remaining matrix times the remaining vector. -/
theorem minor_mulVec (A : DenseMatrix F (n + 1) (n + 1)) (v : Fin n → F) (i : Fin n) :
    (A.minor.toMatrix *ᵥ v) i = ∑ j : Fin n, A.entry i.succ j.succ * v j := by
  simp [mulVec, dotProduct]

theorem IsUnitLower.minor {L : DenseMatrix F (n + 1) (n + 1)} (lower : IsUnitLower L.toMatrix) :
    IsUnitLower L.minor.toMatrix where
  lower i j above := by
    rw [DenseMatrix.toMatrix_apply, DenseMatrix.entry_minor]
    exact lower.lower (Fin.succ_lt_succ_iff.mpr above)
  diagonal i := by
    rw [DenseMatrix.toMatrix_apply, DenseMatrix.entry_minor]
    exact lower.diagonal i.succ

theorem isUpperTriangular_minor {U : DenseMatrix F (n + 1) (n + 1)}
    (upper : U.toMatrix.IsUpperTriangular) : U.minor.toMatrix.IsUpperTriangular := by
  intro i j below
  rw [DenseMatrix.toMatrix_apply, DenseMatrix.entry_minor]
  exact upper (Fin.succ_lt_succ_iff.mpr below)

/-! ## Substitution -/

theorem mulVec_forwardSubstitute {L : DenseMatrix F n n} (lower : IsUnitLower L.toMatrix)
    (b : Vector F n) :
    L.toMatrix *ᵥ (forwardSubstitute (.ofField F) L b).get = b.get := by
  induction n with
  | zero => exact funext fun i => i.elim0
  | succ n ih =>
    funext i
    rw [mulVec_apply_succ, forwardSubstitute, get_addFirst_zero]
    simp only [get_addFirst_succ]
    cases i using Fin.cases with
    | zero =>
      rw [lower.diagonal, one_mul, Finset.sum_eq_zero, add_zero]
      intro j _
      rw [lower.above (Fin.succ_pos j), zero_mul]
    | succ i =>
      have rest := congrFun (ih lower.minor (Vector.ofFn fun i =>
        (dropFirst b).get i - L.firstColumn.get i * b.get 0)) i
      rw [minor_mulVec, Vector.get_ofFn, get_dropFirst, DenseMatrix.get_firstColumn] at rest
      calc L.entry i.succ 0 * b.get 0 + _
          = L.entry i.succ 0 * b.get 0 + (b.get i.succ - L.entry i.succ 0 * b.get 0) :=
            congrArg _ rest
        _ = b.get i.succ := add_sub_cancel _ _

theorem mulVec_backSubstitute {U : DenseMatrix F n n} {y x : Vector F n}
    (upper : U.toMatrix.IsUpperTriangular) (solved : backSubstitute (.ofField F) U y = .ok x) :
    U.toMatrix *ᵥ x.get = y.get := by
  induction n with
  | zero => exact funext fun i => i.elim0
  | succ n ih =>
    obtain ⟨rest, first, substituted, divided, rfl⟩ := backSubstitute_succ_eq_ok_iff.mp solved
    obtain ⟨nonzero, quotient⟩ := Arithmetic.ofField_div?_eq_some divided
    rw [ofField_subProducts_pairs] at quotient
    funext i
    rw [mulVec_apply_succ, get_addFirst_zero]
    simp only [get_addFirst_succ]
    cases i using Fin.cases with
    | zero =>
      rw [DenseMatrix.toMatrix_apply, quotient, mul_div_cancel₀ _ nonzero]
      simp only [DenseMatrix.get_firstRow, DenseMatrix.toMatrix_apply]
      exact sub_add_cancel _ _
    | succ i =>
      have below : U.toMatrix i.succ 0 = 0 := upper (Fin.succ_pos i)
      have row := congrFun (ih (isUpperTriangular_minor upper) substituted) i
      rw [minor_mulVec, get_dropFirst] at row
      rw [below, zero_mul, zero_add]
      exact row

theorem mulVec_backSubstituteTransposed {L : DenseMatrix F n n} (lower : IsUnitLower L.toMatrix)
    (z : Vector F n) :
    L.toMatrixᵀ *ᵥ (backSubstituteTransposed (.ofField F) L z).get = z.get := by
  induction n with
  | zero => exact funext fun i => i.elim0
  | succ n ih =>
    have rest := ih lower.minor (dropFirst z)
    funext i
    rw [mulVec_apply_succ, backSubstituteTransposed, get_addFirst_zero]
    simp only [get_addFirst_succ, transpose_apply]
    cases i using Fin.cases with
    | zero =>
      rw [lower.diagonal, one_mul, ofField_subProducts_pairs]
      simp only [DenseMatrix.get_firstColumn, DenseMatrix.toMatrix_apply]
      exact sub_add_cancel _ _
    | succ i =>
      have row := congrFun rest i
      rw [get_dropFirst] at row
      rw [lower.above (Fin.succ_pos i), zero_mul, zero_add, ← row]
      simp [mulVec, dotProduct]

theorem scaleByDiagonal_eq_ok {d y z : Vector F n}
    (solved : scaleByDiagonal (.ofField F) d y = .ok z) :
    diagonal d.get *ᵥ z.get = y.get := by
  induction n with
  | zero => exact funext fun i => i.elim0
  | succ n ih =>
    obtain ⟨first, rest, divided, scaled, rfl⟩ := scaleByDiagonal_succ_eq_ok_iff.mp solved
    obtain ⟨nonzero, rfl⟩ := Arithmetic.ofField_div?_eq_some divided
    funext i
    rw [mulVec_diagonal]
    cases i using Fin.cases with
    | zero =>
      rw [get_addFirst_zero]
      exact mul_div_cancel₀ _ nonzero
    | succ i =>
      have entry := congrFun (ih scaled) i
      rw [mulVec_diagonal, get_dropFirst, get_dropFirst] at entry
      rw [get_addFirst_succ]
      exact entry

/-! ## Elimination -/

section Bordered

variable {corner : F} {row column : Vector F n} {rest : DenseMatrix F n n}

theorem IsUnitLower.bordered (lower : IsUnitLower rest.toMatrix) :
    IsUnitLower (DenseMatrix.bordered 1 (Vector.replicate n 0) column rest).toMatrix where
  lower := by
    apply DenseMatrix.forall_bordered
    case corner =>
      intro order
      exact absurd order (lt_irrefl _)
    case row =>
      intro j _
      rw [DenseMatrix.toMatrix_apply, DenseMatrix.entry_bordered_row]
      simp
    case column =>
      intro i order
      exact absurd order (Fin.not_lt_zero _)
    case rest =>
      intro i j order
      rw [DenseMatrix.toMatrix_apply, DenseMatrix.entry_bordered_rest]
      exact lower.above (Fin.succ_lt_succ_iff.mp order)
  diagonal i := by
    cases i using Fin.cases with
    | zero => rw [DenseMatrix.toMatrix_apply, DenseMatrix.entry_bordered_corner]
    | succ i =>
      rw [DenseMatrix.toMatrix_apply, DenseMatrix.entry_bordered_rest]
      exact lower.diagonal i

theorem isUpperTriangular_bordered (upper : rest.toMatrix.IsUpperTriangular) :
    (DenseMatrix.bordered corner row (Vector.replicate n 0) rest).toMatrix.IsUpperTriangular := by
  apply DenseMatrix.forall_bordered
  case corner =>
    intro order
    exact absurd order (lt_irrefl _)
  case row =>
    intro j order
    exact absurd order (Fin.not_lt_zero _)
  case column =>
    intro i _
    rw [DenseMatrix.toMatrix_apply, DenseMatrix.entry_bordered_column]
    simp
  case rest =>
    intro i j order
    rw [DenseMatrix.toMatrix_apply, DenseMatrix.entry_bordered_rest]
    exact upper (Fin.succ_lt_succ_iff.mp order)

end Bordered

/-- A multiplier times the pivot it was divided by. -/
theorem multiplier_mul {A : DenseMatrix F (n + 1) (n + 1)} (pivot : A.entry 0 0 ≠ 0) (i : Fin n) :
    (multipliers (.ofField F) A).get i * A.entry 0 0 = A.entry i.succ 0 := by
  rw [get_multipliers, Arithmetic.ofField_quotient, div_mul_cancel₀ _ pivot]

/-- One step of an elimination, undone: the factors of what remains are bordered by the
multipliers and the first row. -/
theorem bordered_mul_bordered {A : DenseMatrix F (n + 1) (n + 1)} {column : Vector F n}
    {L U : DenseMatrix F n n} (divided : ∀ i, column.get i * A.entry 0 0 = A.entry i.succ 0)
    (product : ∀ i j, (L.toMatrix * U.toMatrix) i j =
      A.entry i.succ j.succ - column.get i * A.entry 0 j.succ) :
    (DenseMatrix.bordered 1 (Vector.replicate n 0) column L).toMatrix *
        (DenseMatrix.bordered (A.entry 0 0) A.firstRow (Vector.replicate n 0) U).toMatrix =
      A.toMatrix := by
  apply Matrix.ext
  simp only [Matrix.mul_apply, Fin.sum_univ_succ, DenseMatrix.toMatrix_apply] at product ⊢
  apply DenseMatrix.forall_bordered
  case corner => simp
  case row =>
    intro j
    rw [DenseMatrix.entry_bordered_row, DenseMatrix.get_firstRow]
    simp
  case column =>
    intro i
    rw [DenseMatrix.entry_bordered_column, DenseMatrix.entry_bordered_corner, divided]
    simp
  case rest =>
    intro i j
    rw [DenseMatrix.entry_bordered_column, DenseMatrix.entry_bordered_row,
      DenseMatrix.get_firstRow]
    simp only [DenseMatrix.entry_bordered_rest]
    rw [product, add_sub_cancel]

theorem eliminate_isLU {A : DenseMatrix F n n} {factors : LUFactors F n}
    (factored : LUFactors.eliminate (.ofField F) A = .ok factors) :
    IsLU A.toMatrix factors.lower.toMatrix factors.upper.toMatrix ∧
      ∀ i, factors.upper.entry i i ≠ 0 := by
  induction n with
  | zero =>
    exact ⟨⟨⟨fun i => i.elim0, fun i => i.elim0⟩, fun i => i.elim0, Matrix.ext fun i => i.elim0⟩,
      fun i => i.elim0⟩
  | succ n ih =>
    obtain ⟨pivot, rest, eliminated, rfl⟩ := LUFactors.eliminate_succ_eq_ok_iff.mp factored
    rw [Arithmetic.ofField_isPivot] at pivot
    obtain ⟨⟨lower, upper, product⟩, pivots⟩ := ih eliminated
    constructor
    · apply IsLU.mk lower.bordered (isUpperTriangular_bordered upper)
      apply bordered_mul_bordered (multiplier_mul pivot)
      intro i j
      rw [product, DenseMatrix.toMatrix_apply, LUFactors.reduce, DenseMatrix.entry_ofFn]
      rfl
    · intro i
      cases i using Fin.cases with
      | zero => rwa [DenseMatrix.entry_bordered_corner]
      | succ i =>
        rw [DenseMatrix.entry_bordered_rest]
        exact pivots i

/-- On and below the diagonal a weighted product is taken away, whichever of its factors
has the weight. -/
theorem reduce_of_le {A : DenseMatrix F (n + 1) (n + 1)} {column : Vector F n} {i j : Fin n}
    (below : j ≤ i) :
    (LDLFactors.reduce (.ofField F) A column (column.map fun l => l * A.entry 0 0)).entry i j =
      A.entry i.succ j.succ - column.get i * A.entry 0 0 * column.get j := by
  have weight (k : Fin n) :
      (column.map fun l => l * A.entry 0 0).get k = column.get k * A.entry 0 0 := by
    simp
  rw [LDLFactors.reduce, DenseMatrix.entry_ofFn, weight, weight]
  by_cases order : j < i
  · rw [if_pos order, Arithmetic.ofField_sub, Arithmetic.ofField_mul]
    ring
  · obtain rfl := le_antisymm below (not_lt.mp order)
    rw [if_neg order, if_pos rfl, Arithmetic.ofField_sub, Arithmetic.ofField_mul]

/-- The elimination of a symmetric matrix accounts for the lower triangle, the only one it
has read. -/
theorem eliminate_lower {A : DenseMatrix F n n} {factors : LDLFactors F n}
    (factored : LDLFactors.eliminate (.ofField F) A = .ok factors) :
    IsUnitLower factors.lower.toMatrix ∧ (∀ i, factors.diagonal.get i ≠ 0) ∧
      ∀ i j, j ≤ i → ∑ k, factors.lower.entry i k * factors.diagonal.get k *
        factors.lower.entry j k = A.entry i j := by
  induction n with
  | zero =>
    exact ⟨⟨fun i => i.elim0, fun i => i.elim0⟩, fun i => i.elim0, fun i => i.elim0⟩
  | succ n ih =>
    obtain ⟨pivot, rest, eliminated, rfl⟩ := LDLFactors.eliminate_succ_eq_ok_iff.mp factored
    rw [Arithmetic.ofField_isPivot] at pivot
    obtain ⟨lower, pivots, products⟩ := ih eliminated
    refine ⟨lower.bordered, ?_, ?_⟩
    · intro i
      cases i using Fin.cases with
      | zero => rwa [get_addFirst_zero]
      | succ i =>
        rw [get_addFirst_succ]
        exact pivots i
    · simp only [Fin.sum_univ_succ, get_addFirst_zero, get_addFirst_succ]
      apply DenseMatrix.forall_bordered
      case corner => simp
      case row =>
        intro j order
        exact absurd order (not_le_of_gt (Fin.succ_pos j))
      case column =>
        intro i _
        rw [DenseMatrix.entry_bordered_column, DenseMatrix.entry_bordered_corner,
          multiplier_mul pivot]
        simp
      case rest =>
        intro i j order
        have below := Fin.succ_le_succ_iff.mp order
        have entry := products i j below
        simp only [Arithmetic.ofField_mul] at entry
        rw [reduce_of_le below] at entry
        rw [DenseMatrix.entry_bordered_column, DenseMatrix.entry_bordered_column]
        simp only [DenseMatrix.entry_bordered_rest]
        rw [entry, add_sub_cancel]

theorem eliminate_isLDL {A : DenseMatrix F n n} (symmetric : A.toMatrix.IsSymm)
    {factors : LDLFactors F n} (factored : LDLFactors.eliminate (.ofField F) A = .ok factors) :
    IsLDL A.toMatrix factors.lower.toMatrix factors.diagonal.get := by
  obtain ⟨lower, pivots, products⟩ := eliminate_lower factored
  refine ⟨lower, pivots, ?_⟩
  ext i j
  rw [Matrix.mul_apply]
  simp only [mul_diagonal, transpose_apply, DenseMatrix.toMatrix_apply]
  obtain below | above := le_total j i
  · exact products i j below
  · calc ∑ k, factors.lower.entry i k * factors.diagonal.get k * factors.lower.entry j k
        = ∑ k, factors.lower.entry j k * factors.diagonal.get k *
            factors.lower.entry i k := Finset.sum_congr rfl fun k _ => by ring
      _ = A.entry j i := products j i above
      _ = A.entry i j := symmetric.apply i j

/-! ## Bands -/

/-- The recurrence of the sweep, read off at every row. -/
theorem sweep_eq_ok {pivot : F} {sub diag sup : Vector F n} {swept : Vector F n × Vector F (n + 1)}
    (factored : TridiagonalFactors.sweep (.ofField F) pivot sub diag sup = .ok swept) :
    swept.2.get 0 = pivot ∧ (∀ i, swept.2.get i ≠ 0) ∧
      ∀ k : Fin n,
        swept.1.get k = sub.get k / swept.2.get k.castSucc ∧
        swept.2.get k.succ =
          diag.get k - swept.1.get k * sup.get k := by
  induction n generalizing pivot with
  | zero =>
    obtain ⟨valid, rfl⟩ := TridiagonalFactors.sweep_zero_eq_ok_iff.mp factored
    rw [Arithmetic.ofField_isPivot] at valid
    exact ⟨rfl, Fin.forall_fin_one.mpr valid, fun k => k.elim0⟩
  | succ n ih =>
    obtain ⟨valid, rest, behind, rfl⟩ := TridiagonalFactors.sweep_succ_eq_ok_iff.mp factored
    rw [Arithmetic.ofField_isPivot] at valid
    obtain ⟨first, pivots, rows⟩ := ih behind
    simp only [get_addFirst_zero, true_and]
    constructor
    · intro i
      cases i using Fin.cases with
      | zero => rwa [get_addFirst_zero]
      | succ i =>
        rw [get_addFirst_succ]
        exact pivots i
    · intro k
      cases k using Fin.cases with
      | zero =>
        rw [Fin.castSucc_zero, get_addFirst_zero, get_addFirst_zero, get_addFirst_succ]
        exact ⟨rfl, first⟩
      | succ k =>
        rw [← Fin.succ_castSucc, get_addFirst_succ, get_addFirst_succ, get_addFirst_succ]
        simpa only [get_dropFirst] using rows k

/-- The three bands of a matrix. -/
def Bands.ofMatrix {α : Type} (A : Matrix (Fin (n + 1)) (Fin (n + 1)) α) : Bands α n where
  sub := .ofFn fun k => A k.succ k.castSucc
  diag := .ofFn fun i => A i i
  sup := .ofFn fun k => A k.castSucc k.succ

theorem eliminate_isThomas {A : Matrix (Fin (n + 1)) (Fin (n + 1)) F}
    {factors : TridiagonalFactors F n}
    (factored : TridiagonalFactors.eliminate (.ofField F) (.ofMatrix A) = .ok factors) :
    IsThomas A factors.multipliers.get factors.pivots.get ∧
      (∀ i, factors.pivots.get i ≠ 0) ∧
      ∀ k : Fin n, factors.sup.get k = A k.castSucc k.succ := by
  obtain ⟨⟨l, d⟩, behind, rfl⟩ := map_eq_ok_iff.mp factored
  obtain ⟨first, pivots, rows⟩ := sweep_eq_ok behind
  refine ⟨⟨?_, fun k => ?_, fun k => ?_⟩, pivots, fun k => ?_⟩
  · rw [first]
    simp [Bands.ofMatrix]
  · rw [(rows k).1, Bands.ofMatrix, Vector.get_ofFn]
  · rw [(rows k).2, Bands.ofMatrix, get_dropFirst, Vector.get_ofFn, Vector.get_ofFn]
  · rw [Bands.ofMatrix, Vector.get_ofFn]

theorem forward_apply (y : F) (l b : Vector F n) :
    (TridiagonalFactors.forward (.ofField F) y l b).get 0 = y ∧
      ∀ k : Fin n, (TridiagonalFactors.forward (.ofField F) y l b).get k.succ =
        b.get k - l.get k *
          (TridiagonalFactors.forward (.ofField F) y l b).get k.castSucc := by
  induction n generalizing y with
  | zero => exact ⟨rfl, fun k => k.elim0⟩
  | succ n ih =>
    obtain ⟨first, rows⟩ := ih (b.get 0 - l.get 0 * y) (dropFirst l) (dropFirst b)
    rw [TridiagonalFactors.forward]
    refine ⟨get_addFirst_zero _ _, fun k => ?_⟩
    cases k using Fin.cases with
    | zero =>
      rw [Fin.castSucc_zero, get_addFirst_zero, get_addFirst_succ]
      exact first
    | succ k =>
      rw [← Fin.succ_castSucc, get_addFirst_succ, get_addFirst_succ]
      simpa only [get_dropFirst, Arithmetic.ofField_sub, Arithmetic.ofField_mul]
        using rows k

theorem backward_eq_ok {pivots y x : Vector F (n + 1)} {sup : Vector F n}
    (solved : TridiagonalFactors.backward (.ofField F) pivots sup y = .ok x) :
    pivots.get (Fin.last n) * x.get (Fin.last n) = y.get (Fin.last n) ∧
      ∀ k : Fin n,
        pivots.get k.castSucc * x.get k.castSucc +
          sup.get k * x.get k.succ = y.get k.castSucc := by
  induction n with
  | zero =>
    obtain ⟨first, divided, rfl⟩ := TridiagonalFactors.backward_zero_eq_ok_iff.mp solved
    obtain ⟨nonzero, rfl⟩ := Arithmetic.ofField_div?_eq_some divided
    exact ⟨mul_div_cancel₀ _ nonzero, fun k => k.elim0⟩
  | succ n ih =>
    obtain ⟨rest, first, substituted, divided, rfl⟩ :=
      TridiagonalFactors.backward_succ_eq_ok_iff.mp solved
    obtain ⟨nonzero, quotient⟩ := Arithmetic.ofField_div?_eq_some divided
    obtain ⟨last, rows⟩ := ih substituted
    constructor
    · rw [← Fin.succ_last, get_addFirst_succ]
      simpa only [get_dropFirst] using last
    · intro k
      cases k using Fin.cases with
      | zero =>
        rw [Fin.castSucc_zero, get_addFirst_zero, get_addFirst_succ, quotient,
          mul_div_cancel₀ _ nonzero]
        exact sub_add_cancel _ _
      | succ k =>
        rw [← Fin.succ_castSucc, get_addFirst_succ, get_addFirst_succ]
        simpa only [get_dropFirst] using rows k

/-! ## Whole solves -/

theorem solveGeneral_exact {A : DenseMatrix F n n} {b : Vector F n} {solution : GeneralSolution F n}
    (solved : solveGeneral (.ofField F) A b = .ok solution) :
    A.toMatrix.det ≠ 0 ∧
      IsLU A.toMatrix solution.factors.lower.toMatrix solution.factors.upper.toMatrix ∧
      solution.factors.lower.toMatrix *ᵥ solution.y.get = b.get ∧
      A.toMatrix *ᵥ solution.x.get = b.get := by
  obtain ⟨-, factored, forward, substituted, -⟩ := solveGeneral_eq_ok_iff.mp solved
  obtain ⟨factors, pivots⟩ := eliminate_isLU factored
  have lower := mulVec_forwardSubstitute factors.lower b
  rw [← forward] at lower
  have upper := mulVec_backSubstitute factors.upper substituted
  refine ⟨factors.det_ne_zero pivots, factors, lower, ?_⟩
  rw [← factors.product, ← mulVec_mulVec, upper, lower]

theorem solveSymmetric_exact {A : DenseMatrix F n n} (symmetric : A.toMatrix.IsSymm)
    {b : Vector F n} {solution : SymmetricSolution F n}
    (solved : solveSymmetric (.ofField F) A b = .ok solution) :
    IsLDL A.toMatrix solution.factors.lower.toMatrix solution.factors.diagonal.get ∧
      solution.factors.lower.toMatrix *ᵥ solution.y.get = b.get ∧
      diagonal solution.factors.diagonal.get *ᵥ solution.z.get =
        solution.y.get ∧
      solution.factors.lower.toMatrixᵀ *ᵥ solution.x.get = solution.z.get ∧
      A.toMatrix *ᵥ solution.x.get = b.get := by
  obtain ⟨-, factored, forward, scaled, back, -⟩ := solveSymmetric_eq_ok_iff.mp solved
  have factors := eliminate_isLDL symmetric factored
  have lower := mulVec_forwardSubstitute factors.lower b
  rw [← forward] at lower
  have middle := scaleByDiagonal_eq_ok scaled
  have transposed := mulVec_backSubstituteTransposed factors.lower solution.z
  rw [← back] at transposed
  refine ⟨factors, lower, middle, transposed, ?_⟩
  rw [← factors.product, ← mulVec_mulVec, transposed, ← mulVec_mulVec, middle, lower]

/-- The solve of a tridiagonal matrix, which reads its three bands. -/
theorem solveTridiagonal_exact {A : Matrix (Fin (n + 1)) (Fin (n + 1)) F} (banded : IsTridiagonal A)
    {b : Vector F (n + 1)} {solution : TridiagonalSolution F n}
    (solved : solveTridiagonal (.ofField F) (Bands.ofMatrix A).sub (Bands.ofMatrix A).diag
      (Bands.ofMatrix A).sup b = .ok solution) :
    A.det ≠ 0 ∧
      IsThomas A solution.factors.multipliers.get
        solution.factors.pivots.get ∧
      lowerBidiagonal solution.factors.multipliers.get *ᵥ solution.y.get =
        b.get ∧
      A *ᵥ solution.x.get = b.get := by
  obtain ⟨factored, forward, substituted, -⟩ := solveTridiagonal_eq_ok_iff.mp solved
  obtain ⟨thomas, pivots, kept⟩ := eliminate_isThomas factored
  have factors := thomas.isLU banded pivots
  have lower : lowerBidiagonal solution.factors.multipliers.get *ᵥ
      solution.y.get = b.get := by
    obtain ⟨start, next⟩ := forward_apply (b.get 0) solution.factors.multipliers (dropFirst b)
    rw [← forward] at start next
    funext i
    cases i using Fin.cases with
    | zero => rw [lowerBidiagonal_mulVec_zero, start]
    | succ k => rw [lowerBidiagonal_mulVec_succ, next, sub_add_cancel, get_dropFirst]
  have upper : upperBidiagonal A solution.factors.pivots.get *ᵥ
      solution.x.get = solution.y.get := by
    obtain ⟨last, before⟩ := backward_eq_ok substituted
    funext i
    cases i using Fin.lastCases with
    | last => rw [upperBidiagonal_mulVec_last, last]
    | cast k => rw [upperBidiagonal_mulVec_castSucc, ← before, kept]
  refine ⟨thomas.det_ne_zero banded pivots, thomas, lower, ?_⟩
  rw [← factors.product, ← mulVec_mulVec, upper, lower]

end LinearEnclosure
