/-
# Enclosure of all members

In dual mode a solver bounds every real system inside its intervals at once. If it comes
to an end, then each such system is regular, its exact factors lie in the computed factors
entry by entry, and so do the exact intermediate vectors and the solution. The factors of a
regular matrix being unique, it does not matter how the exact ones are found.

Nothing is assumed about the number of digits, nor about the width of the intervals. What
a solver refuses is not covered: a system may be regular and have a pivot that its
intervals cannot tell from zero.
-/

import LinearEnclosure.Proofs.Interval.Containment
import LinearEnclosure.Proofs.Solver.Exact
import LinearEnclosure.Proofs.Solver.Simulation

namespace LinearEnclosure

open Matrix

variable {n : ℕ} {context : Context}

/-- The entries of a vector of intervals contain the one solution of `A x = b`. -/
def EnclosesSolution (x : Vector (Interval DecimalFloat) n) (A : Matrix (Fin n) (Fin n) ℝ)
    (b : Fin n → ℝ) : Prop :=
  ∃ exact : Fin n → ℝ, (∀ z, A *ᵥ z = b ↔ z = exact) ∧ ∀ i, exact i ∈ x.get i

theorem EnclosesSolution.of_mulVec_eq {x : Vector (Interval DecimalFloat) n}
    {A : Matrix (Fin n) (Fin n) ℝ} {b exact : Fin n → ℝ} (regular : A.det ≠ 0)
    (solves : A *ᵥ exact = b) (inside : ∀ i, exact i ∈ x.get i) : EnclosesSolution x A b :=
  ⟨exact, mulVec_eq_iff_of_det_ne_zero regular solves, inside⟩

/-- Numbers inside a vector of intervals, as the input of an exact solve. -/
theorem vectorRel_ofFn {xs : Vector (Interval DecimalFloat) n} {f : Fin n → ℝ}
    (inside : ∀ i, f i ∈ xs.get i) :
    VectorRel (fun (x : Interval DecimalFloat) r => r ∈ x) xs (Vector.ofFn f) := by
  intro i
  rw [Vector.get_ofFn]
  exact inside i

theorem matrixRel_ofMatrix {m : ℕ} {A : DenseMatrix (Interval DecimalFloat) m n}
    {A' : Matrix (Fin m) (Fin n) ℝ} (inside : ∀ i j, A' i j ∈ A.entry i j) :
    MatrixRel (fun (x : Interval DecimalFloat) r => r ∈ x) A (.ofMatrix A') := by
  intro i j
  rw [DenseMatrix.entry_ofMatrix]
  exact inside i j

section General

variable {A : DenseMatrix (Interval DecimalFloat) n n} {A' : Matrix (Fin n) (Fin n) ℝ}

theorem LUFactors.exists_isLU (dual : context.mode = .dual)
    {factors : LUFactors (Interval DecimalFloat) n}
    (factored : eliminate (Interval.arithmetic context) A = .ok factors)
    (inside : ∀ i j, A' i j ∈ A.entry i j) :
    A'.det ≠ 0 ∧ ∃ L U, IsLU A' L U ∧ (∀ i j, L i j ∈ factors.lower.entry i j) ∧
      ∀ i j, U i j ∈ factors.upper.entry i j := by
  obtain ⟨exact, eliminated, lower, upper⟩ :=
    (Interval.arithmetic_simulates dual).eliminateGeneral (matrixRel_ofMatrix inside) factored
  obtain ⟨split, pivots⟩ := eliminate_isLU eliminated
  rw [DenseMatrix.toMatrix_ofMatrix] at split
  exact ⟨split.det_ne_zero pivots, _, _, split, lower, upper⟩

theorem exists_solution_general (dual : context.mode = .dual)
    {b : Vector (Interval DecimalFloat) n} {solution : GeneralSolution (Interval DecimalFloat) n}
    (solved : solveGeneral (Interval.arithmetic context) A b = .ok solution)
    (inside : ∀ i j, A' i j ∈ A.entry i j) {b' : Fin n → ℝ} (sides : ∀ i, b' i ∈ b.get i) :
    A'.det ≠ 0 ∧ ∃ L U y x, IsLU A' L U ∧ L *ᵥ y = b' ∧ (∀ i, y i ∈ solution.y.get i) ∧
      A' *ᵥ x = b' ∧ ∀ i, x i ∈ solution.x.get i := by
  obtain ⟨exact, finished, -, -, middle, last⟩ :=
    (Interval.arithmetic_simulates dual).solveGeneral (matrixRel_ofMatrix inside)
      (vectorRel_ofFn sides) solved
  obtain ⟨regular, split, lower, whole⟩ := solveGeneral_exact finished
  rw [DenseMatrix.toMatrix_ofMatrix] at regular split whole
  rw [funext (Vector.get_ofFn b')] at lower whole
  exact ⟨regular, _, _, _, _, split, lower, middle, whole, last⟩

/-- The factors and the solution of every member of a solved system, which is regular. -/
theorem solveGeneral_encloses (dual : context.mode = .dual)
    {b : Vector (Interval DecimalFloat) n} {solution : GeneralSolution (Interval DecimalFloat) n}
    (solved : solveGeneral (Interval.arithmetic context) A b = .ok solution)
    (inside : ∀ i j, A' i j ∈ A.entry i j) :
    A'.det ≠ 0 ∧ ∃ L' U', (∀ L U, IsLU A' L U ↔ L = L' ∧ U = U') ∧
      (∀ i j, L' i j ∈ solution.factors.lower.entry i j) ∧
      (∀ i j, U' i j ∈ solution.factors.upper.entry i j) ∧
      ∀ b' : Fin n → ℝ, (∀ i, b' i ∈ b.get i) →
        EnclosesSolution solution.y L' b' ∧ EnclosesSolution solution.x A' b' := by
  obtain ⟨-, factored, -, -, -⟩ := solveGeneral_eq_ok_iff.mp solved
  obtain ⟨regular, L', U', split, lower, upper⟩ := LUFactors.exists_isLU dual factored inside
  refine ⟨regular, L', U', fun L U => split.isLU_iff regular, lower, upper, ?_⟩
  intro b' sides
  obtain ⟨-, L, U, y, x, other, forward, inY, whole, inX⟩ :=
    exists_solution_general dual solved inside sides
  obtain ⟨rfl, -⟩ := split.unique regular other
  have unit := other.lower.det_ne_zero
  exact ⟨.of_mulVec_eq unit forward inY, .of_mulVec_eq regular whole inX⟩

/-- Two equations, with a matrix that is not symmetric. -/
def pairMatrix : DenseMatrix (Interval DecimalFloat) 2 2 :=
  .ofFn ![![.ofIntegers 2 3, .ofIntegers 1 1], ![.ofIntegers (-1) 2, .ofIntegers 5 6]]

/-- Their right-hand side. -/
def pairSides : Vector (Interval DecimalFloat) 2 :=
  #v[.ofIntegers 1 2, .ofIntegers 3 3]

theorem mem_pairSides : ∀ i : Fin 2, (![3 / 2, 3] : Fin 2 → ℝ) i ∈ pairSides.get i := by
  simp [Fin.forall_fin_two, pairSides]
  norm_num

theorem solveGeneral_encloses_pair :
    ∃ solution, solveGeneral (Interval.arithmetic ⟨3, 3, .dual⟩) pairMatrix pairSides =
        .ok solution ∧
      EnclosesSolution solution.x !![5 / 2, 1; -1 / 2, 6] ![3 / 2, 3] := by
  obtain ⟨solution, solved⟩ := exists_of_isOk
    (r := solveGeneral (Interval.arithmetic ⟨3, 3, .dual⟩) pairMatrix pairSides)
    (by decide +kernel)
  have inside : ∀ i j : Fin 2,
      (!![5 / 2, 1; -1 / 2, 6] : Matrix (Fin 2) (Fin 2) ℝ) i j ∈ pairMatrix.entry i j := by
    simp [Fin.forall_fin_two, pairMatrix]
    norm_num
  obtain ⟨-, _, _, -, -, -, sides⟩ := solveGeneral_encloses rfl solved inside
  exact ⟨solution, solved, (sides _ mem_pairSides).2⟩

end General

section Symmetric

variable {A : DenseMatrix (Interval DecimalFloat) n n} {A' : Matrix (Fin n) (Fin n) ℝ}

theorem lowerRel_ofMatrix (inside : ∀ i j, j ≤ i → A' i j ∈ A.entry i j) :
    LowerRel (fun (x : Interval DecimalFloat) r => r ∈ x) A (.ofMatrix A') := by
  intro i j below
  rw [DenseMatrix.entry_ofMatrix]
  exact inside i j below

theorem LDLFactors.exists_isLDL (dual : context.mode = .dual)
    {factors : LDLFactors (Interval DecimalFloat) n}
    (factored : eliminate (Interval.arithmetic context) A = .ok factors)
    (symmetric : A'.IsSymm) (inside : ∀ i j, j ≤ i → A' i j ∈ A.entry i j) :
    ∃ L d, IsLDL A' L d ∧ (∀ i j, L i j ∈ factors.lower.entry i j) ∧
      ∀ i, d i ∈ factors.diagonal.get i := by
  obtain ⟨exact, eliminated, lower, pivots⟩ :=
    (Interval.arithmetic_simulates dual).eliminateSymmetric (lowerRel_ofMatrix inside) factored
  have split := eliminate_isLDL (by rwa [DenseMatrix.toMatrix_ofMatrix]) eliminated
  rw [DenseMatrix.toMatrix_ofMatrix] at split
  exact ⟨_, _, split, lower, pivots⟩

theorem exists_solution_symmetric (dual : context.mode = .dual)
    {b : Vector (Interval DecimalFloat) n}
    {solution : SymmetricSolution (Interval DecimalFloat) n}
    (solved : solveSymmetric (Interval.arithmetic context) A b = .ok solution)
    (symmetric : A'.IsSymm) (inside : ∀ i j, j ≤ i → A' i j ∈ A.entry i j)
    {b' : Fin n → ℝ} (sides : ∀ i, b' i ∈ b.get i) :
    ∃ L d y z x, IsLDL A' L d ∧ L *ᵥ y = b' ∧ (∀ i, y i ∈ solution.y.get i) ∧
      diagonal d *ᵥ z = y ∧ (∀ i, z i ∈ solution.z.get i) ∧
      Lᵀ *ᵥ x = z ∧ A' *ᵥ x = b' ∧ ∀ i, x i ∈ solution.x.get i := by
  obtain ⟨exact, finished, -, -, first, second, third⟩ :=
    (Interval.arithmetic_simulates dual).solveSymmetric (lowerRel_ofMatrix inside)
      (vectorRel_ofFn sides) solved
  obtain ⟨split, lower, middle, upper, whole⟩ :=
    solveSymmetric_exact (by rwa [DenseMatrix.toMatrix_ofMatrix]) finished
  rw [DenseMatrix.toMatrix_ofMatrix] at split whole
  rw [funext (Vector.get_ofFn b')] at lower whole
  exact ⟨_, _, _, _, _, split, lower, first, middle, second, upper, whole, third⟩

/-- The factors, the intermediate vectors and the solution of every symmetric member. Only
its lower triangle need lie in the intervals. -/
theorem solveSymmetric_encloses (dual : context.mode = .dual)
    {b : Vector (Interval DecimalFloat) n}
    {solution : SymmetricSolution (Interval DecimalFloat) n}
    (solved : solveSymmetric (Interval.arithmetic context) A b = .ok solution)
    (symmetric : A'.IsSymm) (inside : ∀ i j, j ≤ i → A' i j ∈ A.entry i j) :
    A'.det ≠ 0 ∧ ∃ L' d', (∀ L d, IsLDL A' L d ↔ L = L' ∧ d = d') ∧
      (∀ i j, L' i j ∈ solution.factors.lower.entry i j) ∧
      (∀ i, d' i ∈ solution.factors.diagonal.get i) ∧
      ∀ b' : Fin n → ℝ, (∀ i, b' i ∈ b.get i) →
        EnclosesSolution solution.y L' b' ∧
        (∀ y, L' *ᵥ y = b' → EnclosesSolution solution.z (diagonal d') y ∧
          ∀ z, diagonal d' *ᵥ z = y → EnclosesSolution solution.x L'ᵀ z) ∧
        EnclosesSolution solution.x A' b' := by
  obtain ⟨-, factored, -, -, -, -⟩ := solveSymmetric_eq_ok_iff.mp solved
  obtain ⟨L', d', split, lower, pivots⟩ :=
    LDLFactors.exists_isLDL dual factored symmetric inside
  refine ⟨split.det_ne_zero, L', d', fun L d => split.isLDL_iff, lower, pivots, ?_⟩
  intro b' sides
  obtain ⟨L, d, y, z, x, other, first, inY, second, inZ, third, whole, inX⟩ :=
    exists_solution_symmetric dual solved symmetric inside sides
  obtain ⟨rfl, rfl⟩ := split.unique other
  have unit := other.lower.det_ne_zero
  have invertible : (diagonal d).det ≠ 0 := by
    rw [det_diagonal]
    apply Finset.prod_ne_zero_iff.mpr
    intro i _
    exact other.regular i
  have transposed : Lᵀ.det ≠ 0 := by rwa [det_transpose]
  refine ⟨.of_mulVec_eq unit first inY, ?_, .of_mulVec_eq split.det_ne_zero whole inX⟩
  intro v solves
  obtain rfl := (mulVec_eq_iff_of_det_ne_zero unit first v).mp solves
  refine ⟨.of_mulVec_eq invertible second inZ, ?_⟩
  intro w scaled
  obtain rfl := (mulVec_eq_iff_of_det_ne_zero invertible second w).mp scaled
  exact .of_mulVec_eq transposed third inX

theorem solveSymmetric_encloses_pair :
    ∃ solution, solveSymmetric (Interval.arithmetic ⟨3, 3, .dual⟩) pairMatrix pairSides =
        .ok solution ∧
      EnclosesSolution solution.x !![5 / 2, -1 / 2; -1 / 2, 6] ![3 / 2, 3] := by
  obtain ⟨solution, solved⟩ := exists_of_isOk
    (r := solveSymmetric (Interval.arithmetic ⟨3, 3, .dual⟩) pairMatrix pairSides)
    (by decide +kernel)
  have symmetric : (!![5 / 2, -1 / 2; -1 / 2, 6] : Matrix (Fin 2) (Fin 2) ℝ).IsSymm :=
    Matrix.IsSymm.ext (by simp [Fin.forall_fin_two])
  have inside : ∀ i j : Fin 2, j ≤ i →
      (!![5 / 2, -1 / 2; -1 / 2, 6] : Matrix (Fin 2) (Fin 2) ℝ) i j ∈ pairMatrix.entry i j := by
    simp [Fin.forall_fin_two, pairMatrix]
    norm_num
  obtain ⟨-, _, _, -, -, -, sides⟩ := solveSymmetric_encloses rfl solved symmetric inside
  exact ⟨solution, solved, (sides _ mem_pairSides).2.2⟩

end Symmetric

section Tridiagonal

variable {sub sup : Vector (Interval DecimalFloat) n}
  {diag : Vector (Interval DecimalFloat) (n + 1)} {A' : Matrix (Fin (n + 1)) (Fin (n + 1)) ℝ}

theorem TridiagonalFactors.exists_isThomas (dual : context.mode = .dual)
    {factors : TridiagonalFactors (Interval DecimalFloat) n}
    (factored : eliminate (Interval.arithmetic context) ⟨sub, diag, sup⟩ = .ok factors)
    (below : ∀ k : Fin n, A' k.succ k.castSucc ∈ sub.get k) (main : ∀ i, A' i i ∈ diag.get i)
    (above : ∀ k : Fin n, A' k.castSucc k.succ ∈ sup.get k) :
    ∃ l d, IsThomas A' l d ∧ (∀ i, d i ≠ 0) ∧ (∀ k, l k ∈ factors.multipliers.get k) ∧
      ∀ i, d i ∈ factors.pivots.get i := by
  obtain ⟨exact, eliminated, left, right, -⟩ :=
    (Interval.arithmetic_simulates dual).eliminateTridiagonal (vectorRel_ofFn below)
      (vectorRel_ofFn main) (vectorRel_ofFn above) factored
  obtain ⟨thomas, pivots, -⟩ := eliminate_isThomas eliminated
  exact ⟨_, _, thomas, pivots, left, right⟩

theorem exists_solution_tridiagonal (dual : context.mode = .dual)
    {b : Vector (Interval DecimalFloat) (n + 1)}
    {solution : TridiagonalSolution (Interval DecimalFloat) n}
    (solved : solveTridiagonal (Interval.arithmetic context) sub diag sup b = .ok solution)
    (banded : IsTridiagonal A') (below : ∀ k : Fin n, A' k.succ k.castSucc ∈ sub.get k)
    (main : ∀ i, A' i i ∈ diag.get i) (above : ∀ k : Fin n, A' k.castSucc k.succ ∈ sup.get k)
    {b' : Fin (n + 1) → ℝ} (sides : ∀ i, b' i ∈ b.get i) :
    A'.det ≠ 0 ∧ ∃ l d y x, IsThomas A' l d ∧ lowerBidiagonal l *ᵥ y = b' ∧
      (∀ i, y i ∈ solution.y.get i) ∧ A' *ᵥ x = b' ∧ ∀ i, x i ∈ solution.x.get i := by
  obtain ⟨exact, finished, -, -, -, middle, last⟩ :=
    (Interval.arithmetic_simulates dual).solveTridiagonal (vectorRel_ofFn below)
      (vectorRel_ofFn main) (vectorRel_ofFn above) (vectorRel_ofFn sides) solved
  obtain ⟨regular, thomas, lower, whole⟩ := solveTridiagonal_exact banded finished
  rw [funext (Vector.get_ofFn b')] at lower whole
  exact ⟨regular, _, _, _, _, thomas, lower, middle, whole, last⟩

/-- The multipliers, the pivots and the solution of every tridiagonal member, which is
regular. -/
theorem solveTridiagonal_encloses (dual : context.mode = .dual)
    {b : Vector (Interval DecimalFloat) (n + 1)}
    {solution : TridiagonalSolution (Interval DecimalFloat) n}
    (solved : solveTridiagonal (Interval.arithmetic context) sub diag sup b = .ok solution)
    (banded : IsTridiagonal A') (below : ∀ k : Fin n, A' k.succ k.castSucc ∈ sub.get k)
    (main : ∀ i, A' i i ∈ diag.get i) (above : ∀ k : Fin n, A' k.castSucc k.succ ∈ sup.get k) :
    A'.det ≠ 0 ∧ ∃ l' d', (∀ l d, IsThomas A' l d ↔ l = l' ∧ d = d') ∧ (∀ i, d' i ≠ 0) ∧
      (∀ k, l' k ∈ solution.factors.multipliers.get k) ∧
      (∀ i, d' i ∈ solution.factors.pivots.get i) ∧
      ∀ b' : Fin (n + 1) → ℝ, (∀ i, b' i ∈ b.get i) →
        EnclosesSolution solution.y (lowerBidiagonal l') b' ∧
        EnclosesSolution solution.x A' b' := by
  obtain ⟨factored, -, -, -⟩ := solveTridiagonal_eq_ok_iff.mp solved
  obtain ⟨l', d', thomas, pivots, left, right⟩ :=
    TridiagonalFactors.exists_isThomas dual factored below main above
  have regular := thomas.det_ne_zero banded pivots
  refine ⟨regular, l', d', fun l d => thomas.isThomas_iff, pivots, left, right, ?_⟩
  intro b' sides
  obtain ⟨-, l, d, y, x, other, forward, inY, whole, inX⟩ :=
    exists_solution_tridiagonal dual solved banded below main above sides
  obtain ⟨rfl, rfl⟩ := thomas.unique other
  have unit := (isUnitLower_lowerBidiagonal l).det_ne_zero
  exact ⟨.of_mulVec_eq unit forward inY, .of_mulVec_eq regular whole inX⟩

theorem solveTridiagonal_encloses_triple :
    ∃ solution : TridiagonalSolution (Interval DecimalFloat) 2,
      solveTridiagonal (Interval.arithmetic ⟨3, 3, .dual⟩)
        #v[.ofIntegers (-1) 2, .ofIntegers 1 1]
        #v[.ofIntegers 2 3, .ofIntegers 5 6, .ofIntegers 4 4]
        #v[.ofIntegers 1 1, .ofIntegers (-1) 0]
        #v[.ofIntegers 1 2, .ofIntegers 3 3, .ofIntegers 0 1] = .ok solution ∧
      EnclosesSolution solution.x !![5 / 2, 1, 0; -1 / 2, 6, -1 / 2; 0, 1, 4] ![3 / 2, 3, 1] := by
  obtain ⟨solution, solved⟩ := exists_of_isOk
    (r := solveTridiagonal (Interval.arithmetic ⟨3, 3, .dual⟩)
      #v[.ofIntegers (-1) 2, .ofIntegers 1 1]
      #v[.ofIntegers 2 3, .ofIntegers 5 6, .ofIntegers 4 4]
      #v[.ofIntegers 1 1, .ofIntegers (-1) 0]
      #v[.ofIntegers 1 2, .ofIntegers 3 3, .ofIntegers 0 1]) (by decide +kernel)
  have banded : IsTridiagonal
      (!![5 / 2, 1, 0; -1 / 2, 6, -1 / 2; 0, 1, 4] : Matrix (Fin 3) (Fin 3) ℝ) := by
    simp [IsTridiagonal, Fin.forall_fin_succ]
  obtain ⟨-, _, _, -, -, -, -, sides⟩ := solveTridiagonal_encloses rfl solved banded
    (by simp [Fin.forall_fin_succ]; norm_num) (by simp [Fin.forall_fin_succ]; norm_num)
    (by simp [Fin.forall_fin_succ]; norm_num)
  refine ⟨solution, solved, (sides _ ?_).2⟩
  simp [Fin.forall_fin_succ]
  norm_num

end Tridiagonal

end LinearEnclosure
