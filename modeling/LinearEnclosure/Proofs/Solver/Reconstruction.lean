/-
# What multiplies back

The answer of a solver can be checked against its input. In dual mode every entry of the matrix
lies in the product of the computed factors, and every right-hand side in the product of the
matrix with the computed solution. The products are rounded outward like everything else.

A product contains the exact products of the factors of any member, and these are that member
again. The lower ends of all entries are a member, and so are the upper ends; what lies
between two members of an interval is in it as well.
-/

import LinearEnclosure.Proofs.Solver.Enclosure

namespace LinearEnclosure

open Matrix

variable {m n k : ℕ} {context : Context}

/-! ## Products -/

section Exact

variable {F : Type} [Field F]

theorem DenseMatrix.entry_mul_ofField (A : DenseMatrix F m n) (B : DenseMatrix F n k) (i : Fin m)
    (j : Fin k) : (A.mul (.ofField F) B).entry i j = (A.toMatrix * B.toMatrix) i j := by
  rw [DenseMatrix.mul, entry_ofFn, Arithmetic.ofField_sumProducts, List.map_ofFn, List.sum_ofFn,
    Matrix.mul_apply]
  rfl

theorem DenseMatrix.get_mulVec_ofField (A : DenseMatrix F m n) (x : Vector F n) (i : Fin m) :
    (A.mulVec (.ofField F) x).get i = (A.toMatrix *ᵥ x.get) i := by
  rw [DenseMatrix.mulVec, Vector.get_ofFn, Arithmetic.ofField_sumProducts, List.map_ofFn,
    List.sum_ofFn]
  rfl

end Exact

section Members

variable (dual : context.mode = .dual)
include dual

/-- The product of two members is a member of the product. -/
theorem mem_matrixMul {A : DenseMatrix (Interval DecimalFloat) m n}
    {B : DenseMatrix (Interval DecimalFloat) n k} {A' : Matrix (Fin m) (Fin n) ℝ}
    {B' : Matrix (Fin n) (Fin k) ℝ} (left : ∀ i j, A' i j ∈ A.entry i j)
    (right : ∀ i j, B' i j ∈ B.entry i j) (i : Fin m) (j : Fin k) :
    (A' * B') i j ∈ (A.mul (Interval.arithmetic context) B).entry i j := by
  have entry := (Interval.arithmetic_simulates dual).matrixMul (matrixRel_ofMatrix left)
    (matrixRel_ofMatrix right) i j
  rwa [DenseMatrix.entry_mul_ofField, DenseMatrix.toMatrix_ofMatrix,
    DenseMatrix.toMatrix_ofMatrix] at entry

theorem mem_mulVec {A : DenseMatrix (Interval DecimalFloat) m n}
    {x : Vector (Interval DecimalFloat) n} {A' : Matrix (Fin m) (Fin n) ℝ} {x' : Fin n → ℝ}
    (entries : ∀ i j, A' i j ∈ A.entry i j) (inside : ∀ i, x' i ∈ x.get i) (i : Fin m) :
    (A' *ᵥ x') i ∈ (A.mulVec (Interval.arithmetic context) x).get i := by
  have entry := (Interval.arithmetic_simulates dual).mulVec (matrixRel_ofMatrix entries)
    (vectorRel_ofFn inside) i
  rwa [DenseMatrix.get_mulVec_ofField, DenseMatrix.toMatrix_ofMatrix,
    funext (Vector.get_ofFn x')] at entry

/-- The exact `D Lᵀ` lies in the computed one. -/
theorem LDLFactors.mem_upper {factors : LDLFactors (Interval DecimalFloat) n}
    {L : Matrix (Fin n) (Fin n) ℝ} {d : Fin n → ℝ} (lower : IsUnitLower L)
    (entries : ∀ i j, L i j ∈ factors.lower.entry i j) (pivots : ∀ i, d i ∈ factors.diagonal.get i)
    (i j : Fin n) :
    (Matrix.diagonal d * Lᵀ) i j ∈ (factors.upper (Interval.arithmetic context)).entry i j := by
  rw [upper, DenseMatrix.entry_ofFn, diagonal_mul, transpose_apply]
  split
  · exact Interval.mem_mul dual (pivots i) (entries j i)
  · next above =>
    rw [lower.above (not_le.mp above), mul_zero]
    exact (Interval.arithmetic_simulates dual).zero

theorem TridiagonalFactors.mem_lowerDense {factors : TridiagonalFactors (Interval DecimalFloat) n}
    {l : Fin n → ℝ} (inside : ∀ k, l k ∈ factors.multipliers.get k) (i j : Fin (n + 1)) :
    lowerBidiagonal l i j ∈ (factors.lowerDense (Interval.arithmetic context)).entry i j := by
  have simulates := Interval.arithmetic_simulates dual
  rw [lowerDense, Bands.toDense, DenseMatrix.entry_ofFn, lowerBidiagonal, of_apply]
  split
  · simpa using simulates.one
  split
  · exact inside _
  split
  · simpa using simulates.zero
  · exact simulates.zero

theorem TridiagonalFactors.mem_upperDense {factors : TridiagonalFactors (Interval DecimalFloat) n}
    {A' : Matrix (Fin (n + 1)) (Fin (n + 1)) ℝ} {d : Fin (n + 1) → ℝ}
    (pivots : ∀ i, d i ∈ factors.pivots.get i)
    (above : ∀ k : Fin n, A' k.castSucc k.succ ∈ factors.sup.get k) (i j : Fin (n + 1)) :
    upperBidiagonal A' d i j ∈ (factors.upperDense (Interval.arithmetic context)).entry i j := by
  have simulates := Interval.arithmetic_simulates dual
  rw [upperDense, Bands.toDense, DenseMatrix.entry_ofFn, upperBidiagonal, of_apply]
  split
  · exact pivots i
  split
  · next below =>
    rw [if_neg (by omega)]
    simpa using simulates.zero
  split
  · next next =>
    have entry := above ⟨i.val, lt_of_val_eq_succ next⟩
    rwa [show Fin.succ ⟨i.val, lt_of_val_eq_succ next⟩ = j from Fin.ext next.symm] at entry
  · exact simulates.zero

/-! ## Members of a solved system -/

theorem LUFactors.mem_mul {A : DenseMatrix (Interval DecimalFloat) n n}
    {factors : LUFactors (Interval DecimalFloat) n} {A' : Matrix (Fin n) (Fin n) ℝ}
    (factored : eliminate (Interval.arithmetic context) A = .ok factors)
    (inside : ∀ i j, A' i j ∈ A.entry i j) (i j : Fin n) :
    A' i j ∈ (factors.lower.mul (Interval.arithmetic context) factors.upper).entry i j := by
  obtain ⟨-, L, U, split, lower, upper⟩ := LUFactors.exists_isLU dual factored inside
  rw [← split.product]
  exact mem_matrixMul dual lower upper i j

theorem LDLFactors.mem_mul {A : DenseMatrix (Interval DecimalFloat) n n}
    {factors : LDLFactors (Interval DecimalFloat) n} {A' : Matrix (Fin n) (Fin n) ℝ}
    (factored : eliminate (Interval.arithmetic context) A = .ok factors) (symmetric : A'.IsSymm)
    (inside : ∀ i j, A' i j ∈ A.entry i j) (i j : Fin n) :
    A' i j ∈ (factors.lower.mul (Interval.arithmetic context)
      (factors.upper (Interval.arithmetic context))).entry i j := by
  obtain ⟨L, d, split, lower, pivots⟩ :=
    LDLFactors.exists_isLDL dual factored symmetric fun i j _ => inside i j
  rw [← split.product, Matrix.mul_assoc]
  exact mem_matrixMul dual lower (LDLFactors.mem_upper dual split.lower lower pivots) i j

theorem TridiagonalFactors.mem_mul {sub sup : Vector (Interval DecimalFloat) n}
    {diag : Vector (Interval DecimalFloat) (n + 1)}
    {factors : TridiagonalFactors (Interval DecimalFloat) n}
    {A' : Matrix (Fin (n + 1)) (Fin (n + 1)) ℝ}
    (factored : eliminate (Interval.arithmetic context) ⟨sub, diag, sup⟩ = .ok factors)
    (banded : IsTridiagonal A') (below : ∀ k : Fin n, A' k.succ k.castSucc ∈ sub.get k)
    (main : ∀ i, A' i i ∈ diag.get i) (above : ∀ k : Fin n, A' k.castSucc k.succ ∈ sup.get k)
    (i j : Fin (n + 1)) :
    A' i j ∈ ((factors.lowerDense (Interval.arithmetic context)).mul (Interval.arithmetic context)
      (factors.upperDense (Interval.arithmetic context))).entry i j := by
  obtain ⟨l, d, thomas, regular, multipliers, pivots⟩ :=
    TridiagonalFactors.exists_isThomas dual factored below main above
  have kept : ∀ k : Fin n, A' k.castSucc k.succ ∈ factors.sup.get k := by
    obtain ⟨_, -, rfl⟩ := map_eq_ok_iff.mp factored
    exact above
  rw [← (thomas.isLU banded regular).product]
  exact mem_matrixMul dual (TridiagonalFactors.mem_lowerDense dual multipliers)
    (TridiagonalFactors.mem_upperDense dual pivots kept) i j

end Members

/-! ## Both ends of all entries -/

/-- `pick` takes the lower end of every interval, or the upper end of every interval. -/
def Interval.IsSide (pick : Interval DecimalFloat → DecimalFloat) : Prop :=
  pick = Interval.lo ∨ pick = Interval.hi

/-- A matrix of intervals, reduced to one end of every entry. -/
def DenseMatrix.side (pick : Interval DecimalFloat → DecimalFloat)
    (A : DenseMatrix (Interval DecimalFloat) m n) : Matrix (Fin m) (Fin n) ℝ :=
  Matrix.of fun i j => ((pick (A.entry i j)).value.toRat : ℝ)

namespace Interval

variable {pick : Interval DecimalFloat → DecimalFloat} {x y : Interval DecimalFloat}

theorem IsSide.mem (side : IsSide pick) (order : x.Ordered) :
    ((pick x).value.toRat : ℝ) ∈ x := by
  rcases side with rfl | rfl
  · exact IsEnd.mem (.inl rfl) order
  · exact IsEnd.mem (.inr rfl) order

/-- Equal intervals have equal ends on either side, though not always of equal precision. -/
theorem IsSide.toRat_eq (side : IsSide pick) (same : x.eq y = true) :
    (pick x).value.toRat = (pick y).value.toRat := by
  rw [Interval.eq, Bool.and_eq_true, DecimalFloat.eq_iff, DecimalFloat.eq_iff] at same
  rcases side with rfl | rfl
  · exact same.1
  · exact same.2

end Interval

/-- Where both sides of a matrix lie in another one, so do its entries. -/
theorem MatrixRel.covers_of_sides {A B : DenseMatrix (Interval DecimalFloat) m n}
    (inside : ∀ pick, Interval.IsSide pick → ∀ i j, B.side pick i j ∈ A.entry i j) :
    MatrixRel Interval.Covers A B :=
  fun i j => Interval.covers_of_mem (inside Interval.lo (.inl rfl) i j)
    (inside Interval.hi (.inr rfl) i j)

theorem VectorRel.covers_of_sides {xs ys : Vector (Interval DecimalFloat) n}
    (inside : ∀ pick, Interval.IsSide pick →
      ∀ i, ((pick (ys.get i)).value.toRat : ℝ) ∈ xs.get i) :
    VectorRel Interval.Covers xs ys :=
  fun i => Interval.covers_of_mem (inside Interval.lo (.inl rfl) i)
    (inside Interval.hi (.inr rfl) i)

section Sides

variable {pick : Interval DecimalFloat → DecimalFloat} (side : Interval.IsSide pick)
include side

theorem DenseMatrix.side_mem {A : DenseMatrix (Interval DecimalFloat) m n}
    (ordered : ∀ i j, (A.entry i j).Ordered) (i : Fin m) (j : Fin n) :
    A.side pick i j ∈ A.entry i j :=
  side.mem (ordered i j)

theorem DenseMatrix.side_isSymm {A : DenseMatrix (Interval DecimalFloat) n n}
    (symmetric : ∀ i j, (A.entry i j).eq (A.entry j i) = true) : (A.side pick).IsSymm :=
  Matrix.IsSymm.ext fun i j => congrArg Rat.cast (side.toRat_eq (symmetric j i))

end Sides

namespace Bands

variable {α : Type} {K : Arithmetic α} (bands : Bands α n)

theorem entry_toDense_diag (i : Fin (n + 1)) : (bands.toDense K).entry i i = bands.diag.get i := by
  rw [toDense, DenseMatrix.entry_ofFn, if_pos rfl]

theorem entry_toDense_sub (k : Fin n) :
    (bands.toDense K).entry k.succ k.castSucc = bands.sub.get k := by
  rw [toDense, DenseMatrix.entry_ofFn, if_neg k.castSucc_lt_succ.ne', dif_pos (by simp)]
  rfl

theorem entry_toDense_sup (k : Fin n) :
    (bands.toDense K).entry k.castSucc k.succ = bands.sup.get k := by
  rw [toDense, DenseMatrix.entry_ofFn, if_neg k.castSucc_lt_succ.ne, dif_neg (by simp; omega),
    dif_pos (by simp)]
  rfl

theorem entry_toDense_of_apart {i j : Fin (n + 1)}
    (apart : i.val + 1 < j.val ∨ j.val + 1 < i.val) : (bands.toDense K).entry i j = K.zero := by
  rw [toDense, DenseMatrix.entry_ofFn, if_neg (Fin.ne_of_val_ne (by omega)), dif_neg (by omega),
    dif_neg (by omega)]

theorem isTridiagonal_side {pick : Interval DecimalFloat → DecimalFloat}
    (side : Interval.IsSide pick) (bands : Bands (Interval DecimalFloat) n) :
    IsTridiagonal ((bands.toDense (Interval.arithmetic context)).side pick) := by
  intro i j apart
  rw [DenseMatrix.side, of_apply, bands.entry_toDense_of_apart apart]
  rcases side with rfl | rfl <;>
    simp [Interval.arithmetic, Interval.zero, Interval.point, Endpoint.zero, DecimalFloat.zero]

theorem toDense_ordered (bands : Bands (Interval DecimalFloat) n)
    (sub : ∀ k, (bands.sub.get k).Ordered) (diag : ∀ i, (bands.diag.get i).Ordered)
    (sup : ∀ k, (bands.sup.get k).Ordered) (i j : Fin (n + 1)) :
    ((bands.toDense (Interval.arithmetic context)).entry i j).Ordered := by
  rw [toDense, DenseMatrix.entry_ofFn]
  split
  · exact diag i
  split
  · exact sub _
  split
  · exact sup _
  · exact Interval.ordered_iff.mpr le_rfl

end Bands

/-! ## Solved systems -/

section Solved

variable (dual : context.mode = .dual)
include dual

theorem covers_general {A : DenseMatrix (Interval DecimalFloat) n n}
    {b : Vector (Interval DecimalFloat) n} {solution : GeneralSolution (Interval DecimalFloat) n}
    (entries : ∀ i j, (A.entry i j).Ordered) (sides : ∀ i, (b.get i).Ordered)
    (solved : solveGeneral (Interval.arithmetic context) A b = .ok solution) :
    MatrixRel Interval.Covers
        (solution.factors.lower.mul (Interval.arithmetic context) solution.factors.upper) A ∧
      VectorRel Interval.Covers (A.mulVec (Interval.arithmetic context) solution.x) b := by
  obtain ⟨-, factored, -, -, -⟩ := solveGeneral_eq_ok_iff.mp solved
  constructor
  · apply MatrixRel.covers_of_sides
    intro pick side
    exact LUFactors.mem_mul dual factored (DenseMatrix.side_mem side entries)
  · apply VectorRel.covers_of_sides
    intro pick side i
    have inside := DenseMatrix.side_mem side entries
    obtain ⟨-, L, U, y, x, -, -, -, whole, inX⟩ :=
      exists_solution_general dual solved inside fun i => side.mem (sides i)
    rw [← congrFun whole i]
    exact mem_mulVec dual inside inX i

theorem covers_symmetric {A : DenseMatrix (Interval DecimalFloat) n n}
    {b : Vector (Interval DecimalFloat) n}
    {solution : SymmetricSolution (Interval DecimalFloat) n}
    (symmetric : ∀ i j, (A.entry i j).eq (A.entry j i) = true)
    (entries : ∀ i j, (A.entry i j).Ordered) (sides : ∀ i, (b.get i).Ordered)
    (solved : solveSymmetric (Interval.arithmetic context) A b = .ok solution) :
    MatrixRel Interval.Covers
        (solution.factors.lower.mul (Interval.arithmetic context)
          (solution.factors.upper (Interval.arithmetic context))) A ∧
      VectorRel Interval.Covers (A.mulVec (Interval.arithmetic context) solution.x) b := by
  obtain ⟨-, factored, -, -, -, -⟩ := solveSymmetric_eq_ok_iff.mp solved
  constructor
  · apply MatrixRel.covers_of_sides
    intro pick side
    exact LDLFactors.mem_mul dual factored (DenseMatrix.side_isSymm side symmetric)
      (DenseMatrix.side_mem side entries)
  · apply VectorRel.covers_of_sides
    intro pick side i
    have inside := DenseMatrix.side_mem side entries
    obtain ⟨L, d, y, z, x, -, -, -, -, -, -, whole, inX⟩ :=
      exists_solution_symmetric dual solved (DenseMatrix.side_isSymm side symmetric)
        (fun i j _ => inside i j) fun i => side.mem (sides i)
    rw [← congrFun whole i]
    exact mem_mulVec dual inside inX i

theorem covers_tridiagonal {sub sup : Vector (Interval DecimalFloat) n}
    {diag b : Vector (Interval DecimalFloat) (n + 1)}
    {solution : TridiagonalSolution (Interval DecimalFloat) n}
    (below : ∀ k, (sub.get k).Ordered) (main : ∀ i, (diag.get i).Ordered)
    (above : ∀ k, (sup.get k).Ordered) (sides : ∀ i, (b.get i).Ordered)
    (solved : solveTridiagonal (Interval.arithmetic context) sub diag sup b = .ok solution) :
    MatrixRel Interval.Covers
        ((solution.factors.lowerDense (Interval.arithmetic context)).mul
          (Interval.arithmetic context)
          (solution.factors.upperDense (Interval.arithmetic context)))
        (Bands.toDense (Interval.arithmetic context) ⟨sub, diag, sup⟩) ∧
      VectorRel Interval.Covers
        ((Bands.toDense (Interval.arithmetic context) ⟨sub, diag, sup⟩).mulVec
          (Interval.arithmetic context) solution.x) b := by
  obtain ⟨factored, -, -, -⟩ := solveTridiagonal_eq_ok_iff.mp solved
  let bands : Bands (Interval DecimalFloat) n := ⟨sub, diag, sup⟩
  let whole := bands.toDense (Interval.arithmetic context)
  have inside {pick} (side : Interval.IsSide pick) (i j) : whole.side pick i j ∈ whole.entry i j :=
    DenseMatrix.side_mem side (bands.toDense_ordered below main above) i j
  have inSub {pick} (side : Interval.IsSide pick) (k : Fin n) :
      whole.side pick k.succ k.castSucc ∈ sub.get k := by
    rw [← bands.entry_toDense_sub k]
    exact inside side _ _
  have inDiag {pick} (side : Interval.IsSide pick) (i : Fin (n + 1)) :
      whole.side pick i i ∈ diag.get i := by
    rw [← bands.entry_toDense_diag i]
    exact inside side _ _
  have inSup {pick} (side : Interval.IsSide pick) (k : Fin n) :
      whole.side pick k.castSucc k.succ ∈ sup.get k := by
    rw [← bands.entry_toDense_sup k]
    exact inside side _ _
  constructor
  · apply MatrixRel.covers_of_sides
    intro pick side
    exact TridiagonalFactors.mem_mul dual factored (Bands.isTridiagonal_side side bands)
      (inSub side) (inDiag side) (inSup side)
  · apply VectorRel.covers_of_sides
    intro pick side i
    obtain ⟨-, l, d, y, x, -, -, -, solves, inX⟩ :=
      exists_solution_tridiagonal dual solved (Bands.isTridiagonal_side side bands) (inSub side)
        (inDiag side) (inSup side) fun i => side.mem (sides i)
    rw [← congrFun solves i]
    exact mem_mulVec dual (inside side) inX i

/-- Each entry of the matrix is a part of the product of the factors, and each right-hand side
of the product with the solution, for each of the solvers. -/
theorem products_cover :
    (∀ {n : ℕ} {A : DenseMatrix (Interval DecimalFloat) n n}
      {b : Vector (Interval DecimalFloat) n}
      {solution : GeneralSolution (Interval DecimalFloat) n},
      (∀ i j, (A.entry i j).Ordered) → (∀ i, (b.get i).Ordered) →
      solveGeneral (Interval.arithmetic context) A b = .ok solution →
      MatrixRel Interval.Covers
          (solution.factors.lower.mul (Interval.arithmetic context) solution.factors.upper) A ∧
        VectorRel Interval.Covers (A.mulVec (Interval.arithmetic context) solution.x) b) ∧
    (∀ {n : ℕ} {A : DenseMatrix (Interval DecimalFloat) n n}
      {b : Vector (Interval DecimalFloat) n}
      {solution : SymmetricSolution (Interval DecimalFloat) n},
      (∀ i j, (A.entry i j).eq (A.entry j i) = true) →
      (∀ i j, (A.entry i j).Ordered) → (∀ i, (b.get i).Ordered) →
      solveSymmetric (Interval.arithmetic context) A b = .ok solution →
      MatrixRel Interval.Covers
          (solution.factors.lower.mul (Interval.arithmetic context)
            (solution.factors.upper (Interval.arithmetic context))) A ∧
        VectorRel Interval.Covers (A.mulVec (Interval.arithmetic context) solution.x) b) ∧
    ∀ {n : ℕ} {sub sup : Vector (Interval DecimalFloat) n}
      {diag b : Vector (Interval DecimalFloat) (n + 1)}
      {solution : TridiagonalSolution (Interval DecimalFloat) n},
      (∀ k, (sub.get k).Ordered) → (∀ i, (diag.get i).Ordered) → (∀ k, (sup.get k).Ordered) →
      (∀ i, (b.get i).Ordered) →
      solveTridiagonal (Interval.arithmetic context) sub diag sup b = .ok solution →
      MatrixRel Interval.Covers
          ((solution.factors.lowerDense (Interval.arithmetic context)).mul
            (Interval.arithmetic context)
            (solution.factors.upperDense (Interval.arithmetic context)))
          (Bands.toDense (Interval.arithmetic context) ⟨sub, diag, sup⟩) ∧
        VectorRel Interval.Covers
          ((Bands.toDense (Interval.arithmetic context) ⟨sub, diag, sup⟩).mulVec
            (Interval.arithmetic context) solution.x) b :=
  ⟨covers_general dual, covers_symmetric dual, covers_tridiagonal dual⟩

end Solved

/-- Two equations with a symmetric matrix. -/
def symmetricPair : DenseMatrix (Interval DecimalFloat) 2 2 :=
  .ofFn ![![.ofIntegers 2 3, .ofIntegers (-1) 1], ![.ofIntegers (-1) 1, .ofIntegers 5 6]]

/-- The products at three digits, for two equations. -/
theorem products_cover_pair :
    (∃ solution,
      solveGeneral (Interval.arithmetic ⟨3, 3, .dual⟩) pairMatrix pairSides = .ok solution ∧
      MatrixRel Interval.Covers
        (solution.factors.lower.mul (Interval.arithmetic ⟨3, 3, .dual⟩) solution.factors.upper)
        pairMatrix) ∧
    (∃ solution,
      solveSymmetric (Interval.arithmetic ⟨3, 3, .dual⟩) symmetricPair pairSides = .ok solution ∧
      VectorRel Interval.Covers
        (symmetricPair.mulVec (Interval.arithmetic ⟨3, 3, .dual⟩) solution.x) pairSides) ∧
    ∃ solution : TridiagonalSolution (Interval DecimalFloat) 1,
      solveTridiagonal (Interval.arithmetic ⟨3, 3, .dual⟩) #v[.ofIntegers (-1) 2] pairSides
        #v[.ofIntegers 1 1] pairSides = .ok solution ∧
      VectorRel Interval.Covers
        ((Bands.toDense (Interval.arithmetic ⟨3, 3, .dual⟩)
          ⟨#v[.ofIntegers (-1) 2], pairSides, #v[.ofIntegers 1 1]⟩).mulVec
          (Interval.arithmetic ⟨3, 3, .dual⟩) solution.x) pairSides := by
  obtain ⟨general, solvedGeneral⟩ := exists_of_isOk
    (r := solveGeneral (Interval.arithmetic ⟨3, 3, .dual⟩) pairMatrix pairSides)
    (by decide +kernel)
  obtain ⟨symmetric, solvedSymmetric⟩ := exists_of_isOk
    (r := solveSymmetric (Interval.arithmetic ⟨3, 3, .dual⟩) symmetricPair pairSides)
    (by decide +kernel)
  obtain ⟨tridiagonal, solvedTridiagonal⟩ := exists_of_isOk
    (r := solveTridiagonal (Interval.arithmetic ⟨3, 3, .dual⟩) #v[.ofIntegers (-1) 2] pairSides
      #v[.ofIntegers 1 1] pairSides) (by decide +kernel)
  have entries : ∀ i j, (pairMatrix.entry i j).Ordered := by
    simp [Fin.forall_fin_two, pairMatrix, Interval.ofIntegers_ordered]
  have symmetricEntries : ∀ i j, (symmetricPair.entry i j).Ordered := by
    simp [Fin.forall_fin_two, symmetricPair, Interval.ofIntegers_ordered]
  have mirrored : ∀ i j, (symmetricPair.entry i j).eq (symmetricPair.entry j i) = true := by
    decide +kernel
  have sides : ∀ i, (pairSides.get i).Ordered :=
    Fin.forall_fin_two.mpr ⟨Interval.ofIntegers_ordered.mpr (by decide),
      Interval.ofIntegers_ordered.mpr (by decide)⟩
  have dual : (⟨3, 3, .dual⟩ : Context).mode = .dual := rfl
  obtain ⟨coverGeneral, coverSymmetric, coverTridiagonal⟩ := products_cover dual
  refine ⟨⟨general, solvedGeneral, (coverGeneral entries sides solvedGeneral).1⟩,
    ⟨symmetric, solvedSymmetric,
      (coverSymmetric mirrored symmetricEntries sides solvedSymmetric).2⟩,
    tridiagonal, solvedTridiagonal, (coverTridiagonal ?_ sides ?_ sides solvedTridiagonal).2⟩
  · exact Fin.forall_fin_one.mpr (Interval.ofIntegers_ordered.mpr (by decide))
  · exact Fin.forall_fin_one.mpr (Interval.ofIntegers_ordered.mpr (by decide))

end LinearEnclosure
