/-
# Solves at a higher precision

More digits never hurt: a system that is solved at one precision is solved at every higher
one, and all that the second solve finds lies inside what the first one found. The second
system may be narrower than the first, but it need not be.

A higher precision accepts every pivot that a lower one accepts, because the interval in its
place is a part of the other one. So this is a simulation like the one by exact arithmetic,
with `Surrounds` in the place of membership.
-/

import LinearEnclosure.Proofs.Interval.Nesting
import LinearEnclosure.Proofs.Solver.Enclosure

namespace LinearEnclosure

variable {n : ℕ}

/-- Whatever the general solver leaves behind, the second time inside the first. -/
structure GeneralSolution.Covers (outer inner : GeneralSolution (Interval DecimalFloat) n) :
    Prop where
  lower : MatrixRel Interval.Covers outer.factors.lower inner.factors.lower
  upper : MatrixRel Interval.Covers outer.factors.upper inner.factors.upper
  y : VectorRel Interval.Covers outer.y inner.y
  x : VectorRel Interval.Covers outer.x inner.x

/-- Whatever the symmetric solver leaves behind, with `D Lᵀ` written out. -/
structure SymmetricSolution.Covers (low high : Context)
    (outer inner : SymmetricSolution (Interval DecimalFloat) n) : Prop where
  lower : MatrixRel Interval.Covers outer.factors.lower inner.factors.lower
  diagonal : VectorRel Interval.Covers outer.factors.diagonal inner.factors.diagonal
  upper : MatrixRel Interval.Covers (outer.factors.upper (Interval.arithmetic low))
    (inner.factors.upper (Interval.arithmetic high))
  y : VectorRel Interval.Covers outer.y inner.y
  z : VectorRel Interval.Covers outer.z inner.z
  x : VectorRel Interval.Covers outer.x inner.x

/-- Whatever the tridiagonal solver leaves behind, with both factors written out. -/
structure TridiagonalSolution.Covers (low high : Context)
    (outer inner : TridiagonalSolution (Interval DecimalFloat) n) : Prop where
  multipliers : VectorRel Interval.Covers outer.factors.multipliers inner.factors.multipliers
  pivots : VectorRel Interval.Covers outer.factors.pivots inner.factors.pivots
  sup : VectorRel Interval.Covers outer.factors.sup inner.factors.sup
  lower : MatrixRel Interval.Covers (outer.factors.lowerDense (Interval.arithmetic low))
    (inner.factors.lowerDense (Interval.arithmetic high))
  upper : MatrixRel Interval.Covers (outer.factors.upperDense (Interval.arithmetic low))
    (inner.factors.upperDense (Interval.arithmetic high))
  y : VectorRel Interval.Covers outer.y inner.y
  x : VectorRel Interval.Covers outer.x inner.x

theorem VectorRel.covers {xs xs' : Vector (Interval DecimalFloat) n}
    (nested : VectorRel Interval.Surrounds xs xs') : VectorRel Interval.Covers xs xs' :=
  fun i => (nested i).inside

theorem MatrixRel.covers {m : ℕ} {A A' : DenseMatrix (Interval DecimalFloat) m n}
    (nested : MatrixRel Interval.Surrounds A A') : MatrixRel Interval.Covers A A' :=
  fun i j => (nested i j).inside

section Simulation

variable {low high : Context}
  (simulates : (Interval.arithmetic low).Simulates (Interval.arithmetic high) Interval.Surrounds)
include simulates

theorem exists_solveGeneral_covers {A A' : DenseMatrix (Interval DecimalFloat) n n}
    {b b' : Vector (Interval DecimalFloat) n} {solution : GeneralSolution (Interval DecimalFloat) n}
    (entries : MatrixRel Interval.Surrounds A A') (sides : VectorRel Interval.Surrounds b b')
    (solved : solveGeneral (Interval.arithmetic low) A b = .ok solution) :
    ∃ solution', solveGeneral (Interval.arithmetic high) A' b' = .ok solution' ∧
      solution.Covers solution' := by
  obtain ⟨solution', solved', lower, upper, middle, last⟩ :=
    simulates.solveGeneral entries sides solved
  exact ⟨solution', solved', lower.covers, upper.covers, middle.covers, last.covers⟩

theorem exists_solveSymmetric_covers {A A' : DenseMatrix (Interval DecimalFloat) n n}
    {b b' : Vector (Interval DecimalFloat) n}
    {solution : SymmetricSolution (Interval DecimalFloat) n}
    (entries : LowerRel Interval.Surrounds A A') (sides : VectorRel Interval.Surrounds b b')
    (solved : solveSymmetric (Interval.arithmetic low) A b = .ok solution) :
    ∃ solution', solveSymmetric (Interval.arithmetic high) A' b' = .ok solution' ∧
      solution.Covers low high solution' := by
  obtain ⟨solution', solved', lower, diagonal, first, second, third⟩ :=
    simulates.solveSymmetric entries sides solved
  exact ⟨solution', solved', lower.covers, diagonal.covers,
    (simulates.upper lower diagonal).covers, first.covers, second.covers, third.covers⟩

theorem exists_solveTridiagonal_covers {sub sub' sup sup' : Vector (Interval DecimalFloat) n}
    {diag diag' b b' : Vector (Interval DecimalFloat) (n + 1)}
    {solution : TridiagonalSolution (Interval DecimalFloat) n}
    (below : VectorRel Interval.Surrounds sub sub') (main : VectorRel Interval.Surrounds diag diag')
    (above : VectorRel Interval.Surrounds sup sup') (sides : VectorRel Interval.Surrounds b b')
    (solved : solveTridiagonal (Interval.arithmetic low) sub diag sup b = .ok solution) :
    ∃ solution' : TridiagonalSolution (Interval DecimalFloat) n,
      solveTridiagonal (Interval.arithmetic high) sub' diag' sup' b' = .ok solution' ∧
      solution.Covers low high solution' := by
  obtain ⟨solution', solved', multipliers, pivots, kept, middle, last⟩ :=
    simulates.solveTridiagonal below main above sides solved
  exact ⟨solution', solved', multipliers.covers, pivots.covers, kept.covers,
    (simulates.lowerDense multipliers).covers, (simulates.upperDense pivots kept).covers,
    middle.covers, last.covers⟩

end Simulation

/-- A system that is solved at one precision is solved at every higher one, by each of the
solvers, and all that is found lies inside what was found before. The symmetric solver needs
the lower triangle only. -/
theorem solves_nest {low high : Context} (dualLow : low.mode = .dual) (dualHigh : high.mode = .dual)
    (positive : 1 ≤ low.precision) (finer : low.precision < high.precision) :
    (∀ {n : ℕ} {A A' : DenseMatrix (Interval DecimalFloat) n n}
      {b b' : Vector (Interval DecimalFloat) n}
      {solution : GeneralSolution (Interval DecimalFloat) n},
      MatrixRel Interval.Surrounds A A' → VectorRel Interval.Surrounds b b' →
      solveGeneral (Interval.arithmetic low) A b = .ok solution →
      ∃ solution', solveGeneral (Interval.arithmetic high) A' b' = .ok solution' ∧
        solution.Covers solution') ∧
    (∀ {n : ℕ} {A A' : DenseMatrix (Interval DecimalFloat) n n}
      {b b' : Vector (Interval DecimalFloat) n}
      {solution : SymmetricSolution (Interval DecimalFloat) n},
      LowerRel Interval.Surrounds A A' → VectorRel Interval.Surrounds b b' →
      solveSymmetric (Interval.arithmetic low) A b = .ok solution →
      ∃ solution', solveSymmetric (Interval.arithmetic high) A' b' = .ok solution' ∧
        solution.Covers low high solution') ∧
    ∀ {n : ℕ} {sub sub' sup sup' : Vector (Interval DecimalFloat) n}
      {diag diag' b b' : Vector (Interval DecimalFloat) (n + 1)}
      {solution : TridiagonalSolution (Interval DecimalFloat) n},
      VectorRel Interval.Surrounds sub sub' → VectorRel Interval.Surrounds diag diag' →
      VectorRel Interval.Surrounds sup sup' → VectorRel Interval.Surrounds b b' →
      solveTridiagonal (Interval.arithmetic low) sub diag sup b = .ok solution →
      ∃ solution' : TridiagonalSolution (Interval DecimalFloat) n,
        solveTridiagonal (Interval.arithmetic high) sub' diag' sup' b' = .ok solution' ∧
        solution.Covers low high solution' := by
  have simulates := Interval.arithmetic_surrounds dualLow dualHigh positive finer
  exact ⟨exists_solveGeneral_covers simulates, exists_solveSymmetric_covers simulates,
    exists_solveTridiagonal_covers simulates⟩

/-- A part of `pairMatrix`, with a single number at two places. -/
def partMatrix : DenseMatrix (Interval DecimalFloat) 2 2 :=
  .ofFn ![![.ofIntegers 3 3, .ofIntegers 1 1], ![.ofIntegers (-1) 1, .ofIntegers 5 5]]

theorem pairMatrix_surrounds : MatrixRel Interval.Surrounds pairMatrix partMatrix := by
  simp only [MatrixRel, Fin.forall_fin_two, pairMatrix, partMatrix, DenseMatrix.entry_ofFn]
  exact ⟨⟨.ofIntegers (by decide), .ofIntegers (by decide)⟩,
    .ofIntegers (by decide), .ofIntegers (by decide)⟩

theorem pairSides_surrounds : VectorRel Interval.Surrounds pairSides pairSides :=
  Fin.forall_fin_two.mpr ⟨.ofIntegers (by decide), .ofIntegers (by decide)⟩

/-- A system at three digits and a part of it at five. -/
theorem solves_nest_pair :
    (∃ solution solution',
      solveGeneral (Interval.arithmetic ⟨3, 3, .dual⟩) pairMatrix pairSides = .ok solution ∧
      solveGeneral (Interval.arithmetic ⟨5, 3, .dual⟩) partMatrix pairSides = .ok solution' ∧
      solution.Covers solution') ∧
    (∃ solution solution',
      solveSymmetric (Interval.arithmetic ⟨3, 3, .dual⟩) pairMatrix pairSides = .ok solution ∧
      solveSymmetric (Interval.arithmetic ⟨5, 3, .dual⟩) partMatrix pairSides = .ok solution' ∧
      solution.Covers ⟨3, 3, .dual⟩ ⟨5, 3, .dual⟩ solution') ∧
    ∃ solution solution' : TridiagonalSolution (Interval DecimalFloat) 1,
      solveTridiagonal (Interval.arithmetic ⟨3, 3, .dual⟩) #v[.ofIntegers (-1) 2] pairSides
        #v[.ofIntegers 1 1] pairSides = .ok solution ∧
      solveTridiagonal (Interval.arithmetic ⟨5, 3, .dual⟩) #v[.ofIntegers 0 1] pairSides
        #v[.ofIntegers 1 1] pairSides = .ok solution' ∧
      solution.Covers ⟨3, 3, .dual⟩ ⟨5, 3, .dual⟩ solution' := by
  have general := exists_of_isOk
    (r := solveGeneral (Interval.arithmetic ⟨3, 3, .dual⟩) pairMatrix pairSides)
    (by decide +kernel)
  have symmetric := exists_of_isOk
    (r := solveSymmetric (Interval.arithmetic ⟨3, 3, .dual⟩) pairMatrix pairSides)
    (by decide +kernel)
  have tridiagonal := exists_of_isOk
    (r := solveTridiagonal (Interval.arithmetic ⟨3, 3, .dual⟩) #v[.ofIntegers (-1) 2] pairSides
      #v[.ofIntegers 1 1] pairSides) (by decide +kernel)
  have low : (⟨3, 3, .dual⟩ : Context).mode = .dual := rfl
  have high : (⟨5, 3, .dual⟩ : Context).mode = .dual := rfl
  obtain ⟨nestGeneral, nestSymmetric, nestTridiagonal⟩ :=
    solves_nest low high (by decide) (by decide)
  refine ⟨?_, ?_, ?_⟩
  · obtain ⟨solution, solved⟩ := general
    obtain ⟨solution', solved', covers⟩ :=
      nestGeneral pairMatrix_surrounds pairSides_surrounds solved
    exact ⟨solution, solution', solved, solved', covers⟩
  · obtain ⟨solution, solved⟩ := symmetric
    obtain ⟨solution', solved', covers⟩ :=
      nestSymmetric (fun i j _ => pairMatrix_surrounds i j) pairSides_surrounds solved
    exact ⟨solution, solution', solved, solved', covers⟩
  · have below : VectorRel Interval.Surrounds #v[.ofIntegers (-1) 2] #v[.ofIntegers 0 1] :=
      Fin.forall_fin_one.mpr (.ofIntegers (by decide))
    have above : VectorRel Interval.Surrounds #v[.ofIntegers 1 1] #v[.ofIntegers 1 1] :=
      Fin.forall_fin_one.mpr (.ofIntegers (by decide))
    obtain ⟨solution, solved⟩ := tridiagonal
    obtain ⟨solution', solved', covers⟩ :=
      nestTridiagonal below pairSides_surrounds above pairSides_surrounds solved
    exact ⟨solution, solution', solved, solved', covers⟩

end LinearEnclosure
