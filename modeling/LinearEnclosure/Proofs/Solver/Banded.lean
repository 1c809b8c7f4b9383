/-
# Bands and whole matrices

The general solver, given a tridiagonal matrix with all its zeros, does what the tridiagonal
solver does and a great deal more: it divides zeros, multiplies by them and takes them away.
In an arithmetic where such steps change nothing the two solvers agree, and the additional
entries of the dense factors stay zero.

Nothing is changed only up to a relation, since a product with a zero may be written
differently from the zero itself. The matrix that remains after a step is again tridiagonal,
with a new first pivot, up to this relation.
-/

import LinearEnclosure.Proofs.Solver.Agreement

namespace LinearEnclosure

variable {α : Type} {n : ℕ}

/-- Operations with a zero change nothing, up to a relation that all operations keep. Numbers
that are related to themselves are those the arithmetic is used for. -/
structure Arithmetic.AbsorbsZero (K : Arithmetic α) (R : α → α → Prop) : Prop
    extends K.Agrees K R where
  symm {x y : α} : R x y → R y x
  trans {x y z : α} : R x y → R y z → R x z
  mul_zero {x : α} : R x x → R (K.mul x K.zero) K.zero
  zero_mul {x : α} : R x x → R (K.mul K.zero x) K.zero
  sub_zero {x : α} : R x x → R (K.sub x K.zero) x
  zero_quotient {x : α} : R x x → K.isPivot x = true → R (K.quotient K.zero x) K.zero

/-- Matrices of one entry are related if their entries are. -/
theorem MatrixRel.ofCorner {β : Type} {R : α → β → Prop} {A : DenseMatrix α 1 1}
    {B : DenseMatrix β 1 1} (corner : R (A.entry 0 0) (B.entry 0 0)) : MatrixRel R A B :=
  Fin.forall_fin_one.mpr (Fin.forall_fin_one.mpr corner)

section Bands

variable {K : Arithmetic α}

theorem addFirst_replicate (x : α) : addFirst x (.replicate n x) = .replicate (n + 1) x := by
  apply ext_get
  intro i
  cases i using Fin.cases with
  | zero =>
    rw [get_addFirst_zero]
    simp
  | succ i =>
    rw [get_addFirst_succ]
    simp

theorem dropFirst_replicate (x : α) :
    dropFirst (.replicate (n + 1) x : Vector α (n + 1)) = .replicate n x := by
  rw [← addFirst_replicate, dropFirst_addFirst]

theorem addFirst_dropFirst (xs : Vector α (n + 1)) : addFirst (xs.get 0) (dropFirst xs) = xs := by
  apply ext_get
  intro i
  cases i using Fin.cases with
  | zero => rw [get_addFirst_zero]
  | succ i => rw [get_addFirst_succ, get_dropFirst]

/-- A sweep ends at once where its first pivot is none. -/
theorem TridiagonalFactors.sweep_eq_error {pivot : α} {sub diag sup : Vector α n}
    (invalid : K.isPivot pivot = false) : sweep K pivot sub diag sup = .error 0 := by
  cases n with
  | zero => simp [sweep, invalid]
  | succ n => simp [sweep, invalid]

theorem pairs_succ (xs ys : Vector α (n + 1)) :
    pairs xs ys = (xs.get 0, ys.get 0) :: pairs (dropFirst xs) (dropFirst ys) := by
  simp [pairs, List.ofFn_succ]

theorem Bands.entry_toDense_corner (bands : Bands α n) :
    (bands.toDense K).entry 0 0 = bands.diag.get 0 := by
  rw [toDense, DenseMatrix.entry_ofFn, if_pos rfl]

/-- The first row and column of a tridiagonal matrix, and the rest, which is tridiagonal. -/
theorem Bands.toDense_succ (sub sup : Vector α (n + 1)) (diag : Vector α (n + 2)) :
    toDense K ⟨sub, diag, sup⟩ =
      .bordered (diag.get 0) (addFirst (sup.get 0) (.replicate n K.zero))
        (addFirst (sub.get 0) (.replicate n K.zero))
        (toDense K ⟨dropFirst sub, dropFirst diag, dropFirst sup⟩) := by
  apply DenseMatrix.ext_entry
  apply DenseMatrix.forall_bordered
  case corner => simp [toDense]
  case row =>
    intro j
    rw [DenseMatrix.entry_bordered_row, toDense, DenseMatrix.entry_ofFn]
    cases j using Fin.cases with
    | zero => simp
    | succ j => simp [(Fin.succ_ne_zero _).symm]
  case column =>
    intro i
    rw [DenseMatrix.entry_bordered_column, toDense, DenseMatrix.entry_ofFn]
    cases i using Fin.cases with
    | zero => simp
    | succ i => simp
  case rest =>
    intro i j
    rw [DenseMatrix.entry_bordered_rest, toDense, DenseMatrix.entry_ofFn, toDense,
      DenseMatrix.entry_ofFn]
    simp

/-- Apart from its corner a tridiagonal matrix does not depend on its first pivot. -/
theorem Bands.entry_toDense_addFirst {sub sup diag : Vector α n} {p q : α} {i j : Fin (n + 1)}
    (apart : i ≠ 0 ∨ j ≠ 0) :
    (toDense K ⟨sub, addFirst p diag, sup⟩).entry i j =
      (toDense K ⟨sub, addFirst q diag, sup⟩).entry i j := by
  rw [toDense, toDense, DenseMatrix.entry_ofFn, DenseMatrix.entry_ofFn]
  by_cases same : i = j
  · subst same
    obtain ⟨k, rfl⟩ := Fin.exists_succ_eq.mpr (or_self_iff.mp apart)
    simp
  · simp [same]

theorem TridiagonalFactors.lowerDense_succ (factors : TridiagonalFactors α (n + 1)) :
    factors.lowerDense K =
      .bordered K.one (.replicate (n + 1) K.zero)
        (addFirst (factors.multipliers.get 0) (.replicate n K.zero))
        (lowerDense K ⟨dropFirst factors.multipliers, dropFirst factors.pivots,
          dropFirst factors.sup⟩) := by
  rw [lowerDense, Bands.toDense_succ]
  simp [lowerDense, addFirst_replicate, dropFirst_replicate]

theorem TridiagonalFactors.upperDense_succ (factors : TridiagonalFactors α (n + 1)) :
    factors.upperDense K =
      .bordered (factors.pivots.get 0) (addFirst (factors.sup.get 0) (.replicate n K.zero))
        (.replicate (n + 1) K.zero)
        (upperDense K ⟨dropFirst factors.multipliers, dropFirst factors.pivots,
          dropFirst factors.sup⟩) := by
  rw [upperDense, Bands.toDense_succ]
  simp [upperDense, addFirst_replicate, dropFirst_replicate]

end Bands

namespace Arithmetic.AbsorbsZero

variable {K : Arithmetic α} {R : α → α → Prop} (absorbs : K.AbsorbsZero R)
include absorbs

theorem left {x y : α} (related : R x y) : R x x :=
  absorbs.trans related (absorbs.symm related)

theorem matrix_trans {m : ℕ} {A B C : DenseMatrix α m n} (first : MatrixRel R A B)
    (second : MatrixRel R B C) : MatrixRel R A C :=
  fun i j => absorbs.trans (first i j) (second i j)

theorem vector_trans {xs ys zs : Vector α n} (first : VectorRel R xs ys)
    (second : VectorRel R ys zs) : VectorRel R xs zs :=
  fun i => absorbs.trans (first i) (second i)

/-! ## Zeros in a step -/

theorem mul_of_zero_left {x y : α} (zero : R x K.zero) (valid : R y y) :
    R (K.mul x y) K.zero :=
  absorbs.trans (absorbs.mul zero valid) (absorbs.zero_mul valid)

theorem sub_of_zero {x y : α} (valid : R x x) (zero : R y K.zero) : R (K.sub x y) x :=
  absorbs.trans (absorbs.sub valid zero) (absorbs.sub_zero valid)

theorem subProducts_of_zero {x : α} {terms : List (α × α)} (valid : R x x)
    (zero : ∀ term ∈ terms, R (K.mul term.1 term.2) K.zero) : R (K.subProducts x terms) x := by
  unfold Arithmetic.subProducts
  induction terms generalizing x with
  | nil => exact valid
  | cons term terms ih =>
    rw [List.forall_mem_cons] at zero
    have first := absorbs.sub_of_zero valid zero.1
    exact absorbs.trans (ih (absorbs.left first) zero.2) first

/-- A row of the upper factor has one entry beside its pivot that is not zero. -/
theorem subProducts_pairs {x s : α} {rest : Vector α (n + 1)} (start : R x x) (band : R s s)
    (valid : VectorRel R rest rest) :
    R (K.subProducts x (pairs (addFirst s (.replicate n K.zero)) rest))
      (K.sub x (K.mul s (rest.get 0))) := by
  rw [pairs_succ, get_addFirst_zero, dropFirst_addFirst]
  apply absorbs.subProducts_of_zero (absorbs.sub start (absorbs.mul band (valid 0)))
  intro term member
  obtain ⟨i, rfl⟩ := List.mem_ofFn.mp member
  rw [get_dropFirst]
  simpa using absorbs.zero_mul (valid i.succ)

/-! ## Elimination -/

section Elimination

variable {sub sup : Vector α (n + 1)} {diag : Vector α (n + 2)} (below : VectorRel R sub sub)
  (main : VectorRel R diag diag) (above : VectorRel R sup sup)
  (pivot : K.isPivot (diag.get 0) = true)

variable (sup) in
include below main pivot in
theorem multipliers_toDense :
    VectorRel R (multipliers K (Bands.toDense K ⟨sub, diag, sup⟩))
      (addFirst (K.quotient (sub.get 0) (diag.get 0)) (.replicate n K.zero)) := by
  intro i
  rw [Bands.toDense_succ, get_multipliers, DenseMatrix.entry_bordered_column,
    DenseMatrix.entry_bordered_corner]
  cases i using Fin.cases with
  | zero =>
    rw [get_addFirst_zero, get_addFirst_zero]
    exact absorbs.quotient (below 0) (main 0) pivot
  | succ i =>
    rw [get_addFirst_succ, get_addFirst_succ]
    simpa using absorbs.zero_quotient (main 0) pivot

include below main above pivot in
/-- One step changes the first entry of what remains and nothing else. -/
theorem reduce_toDense :
    MatrixRel R
      (LUFactors.reduce K (Bands.toDense K ⟨sub, diag, sup⟩)
        (multipliers K (Bands.toDense K ⟨sub, diag, sup⟩)))
      (Bands.toDense K ⟨dropFirst sub,
        addFirst (K.sub ((dropFirst diag).get 0)
            (K.mul (K.quotient (sub.get 0) (diag.get 0)) (sup.get 0)))
          (dropFirst (dropFirst diag)), dropFirst sup⟩) := by
  have column := absorbs.multipliers_toDense sup below main pivot
  have row : VectorRel R (addFirst (sup.get 0) (.replicate n K.zero))
      (addFirst (sup.get 0) (.replicate n K.zero)) :=
    .addFirst (above 0) (.replicate absorbs.zero)
  have rest := absorbs.toDense below.dropFirst main.dropFirst above.dropFirst
  generalize multipliers K (Bands.toDense K ⟨sub, diag, sup⟩) = factors at column ⊢
  intro i j
  rw [LUFactors.reduce, DenseMatrix.entry_ofFn, Bands.toDense_succ,
    DenseMatrix.entry_bordered_rest, DenseMatrix.entry_bordered_row]
  by_cases corner : i = 0 ∧ j = 0
  · obtain ⟨rfl, rfl⟩ := corner
    have first := column 0
    rw [get_addFirst_zero] at first
    simpa [Bands.toDense] using absorbs.sub (main 1) (absorbs.mul first (above 0))
  · have apart : i ≠ 0 ∨ j ≠ 0 := not_and_or.mp corner
    rw [Bands.entry_toDense_addFirst (q := (dropFirst diag).get 0) apart, addFirst_dropFirst]
    apply absorbs.sub_of_zero (rest i j)
    obtain offRow | offColumn := apart
    · obtain ⟨i, rfl⟩ := Fin.exists_succ_eq.mpr offRow
      have zero := column i.succ
      rw [get_addFirst_succ] at zero
      exact absorbs.mul_of_zero_left (by simpa using zero) (row j)
    · obtain ⟨j, rfl⟩ := Fin.exists_succ_eq.mpr offColumn
      rw [get_addFirst_succ]
      simpa using absorbs.mul_zero (absorbs.left (column i))

end Elimination

/-- The dense elimination and the sweep stop at the same pivot, or they find the same factors. -/
theorem eliminate_toDense {sub sup : Vector α n} {diag : Vector α (n + 1)}
    (below : VectorRel R sub sub) (main : VectorRel R diag diag) (above : VectorRel R sup sup) :
    SameOutcome
      (fun dense swept =>
        MatrixRel R dense.lower (TridiagonalFactors.lowerDense K ⟨swept.1, swept.2, sup⟩) ∧
        MatrixRel R dense.upper (TridiagonalFactors.upperDense K ⟨swept.1, swept.2, sup⟩))
      (LUFactors.eliminate K (Bands.toDense K ⟨sub, diag, sup⟩))
      (TridiagonalFactors.sweep K (diag.get 0) sub (dropFirst diag) sup) := by
  induction n with
  | zero =>
    by_cases pivot : K.isPivot (diag.get 0) = true
    · rw [TridiagonalFactors.sweep_zero_eq_ok_iff.mpr ⟨pivot, rfl⟩,
        LUFactors.eliminate_of_isPivot (by rwa [Bands.entry_toDense_corner])]
      refine .ok ⟨.ofCorner ?_, .ofCorner ?_⟩
      · rw [DenseMatrix.entry_bordered_corner, TridiagonalFactors.lowerDense,
          Bands.entry_toDense_corner]
        simpa using absorbs.one
      · rw [DenseMatrix.entry_bordered_corner, TridiagonalFactors.upperDense,
          Bands.entry_toDense_corner, Bands.entry_toDense_corner]
        exact main 0
    · rw [Bool.not_eq_true] at pivot
      rw [LUFactors.eliminate_eq_error (by rwa [Bands.entry_toDense_corner]),
        TridiagonalFactors.sweep_eq_error pivot]
      exact .error 0
  | succ n ih =>
    by_cases pivot : K.isPivot (diag.get 0) = true
    · have multiplier := absorbs.quotient (below 0) (main 0) pivot
      have next := absorbs.sub (main.dropFirst 0) (absorbs.mul multiplier (above 0))
      have behind := ih below.dropFirst (.addFirst next main.dropFirst.dropFirst) above.dropFirst
      rw [get_addFirst_zero, dropFirst_addFirst] at behind
      have remaining := absorbs.eliminateGeneral_sameOutcome
        (absorbs.reduce_toDense below main above pivot)
      have same := remaining.trans behind fun _ _ _ first second =>
        And.intro (absorbs.matrix_trans first.1 second.1) (absorbs.matrix_trans first.2 second.2)
      rw [LUFactors.eliminate_of_isPivot (by rwa [Bands.entry_toDense_corner]),
        TridiagonalFactors.sweep_of_isPivot pivot]
      apply (same.mapError (· + 1)).map
      rintro dense swept ⟨lower, upper⟩
      rw [TridiagonalFactors.lowerDense_succ, TridiagonalFactors.upperDense_succ]
      simp only [get_addFirst_zero, dropFirst_addFirst]
      constructor
      · exact .bordered absorbs.one (.replicate absorbs.zero)
          (absorbs.multipliers_toDense sup below main pivot) lower
      · rw [Bands.entry_toDense_corner, Bands.toDense_succ, DenseMatrix.firstRow_bordered]
        exact .bordered (main 0) (.addFirst (above 0) (.replicate absorbs.zero))
          (.replicate absorbs.zero) upper
    · rw [Bool.not_eq_true] at pivot
      rw [LUFactors.eliminate_eq_error (by rwa [Bands.entry_toDense_corner]),
        TridiagonalFactors.sweep_eq_error pivot]
      exact .error 0

/-! ## Substitution -/

theorem forwardSubstitute_lowerDense (factors : TridiagonalFactors α n) {y : α} {b : Vector α n}
    (first : R y y) (below : VectorRel R factors.multipliers factors.multipliers)
    (sides : VectorRel R b b) :
    VectorRel R (forwardSubstitute K (factors.lowerDense K) (addFirst y b))
      (TridiagonalFactors.forward K y factors.multipliers b) := by
  induction n generalizing y with
  | zero => exact Fin.forall_fin_one.mpr first
  | succ n ih =>
    have next := absorbs.sub (sides 0) (absorbs.mul (below 0) first)
    let rest : TridiagonalFactors α n :=
      ⟨dropFirst factors.multipliers, dropFirst factors.pivots, dropFirst factors.sup⟩
    have behind := ih rest next below.dropFirst sides.dropFirst
    have remaining : VectorRel R
        (Vector.ofFn fun i => K.sub (b.get i)
          (K.mul ((addFirst (factors.multipliers.get 0) (.replicate n K.zero)).get i) y))
        (addFirst (K.sub (b.get 0) (K.mul (factors.multipliers.get 0) y)) (dropFirst b)) := by
      intro i
      rw [Vector.get_ofFn]
      cases i using Fin.cases with
      | zero =>
        rw [get_addFirst_zero, get_addFirst_zero]
        exact next
      | succ i =>
        rw [get_addFirst_succ, get_addFirst_succ, get_dropFirst]
        apply absorbs.sub_of_zero (sides i.succ)
        simpa using absorbs.zero_mul first
    have lower : MatrixRel R (rest.lowerDense K) (rest.lowerDense K) :=
      absorbs.lowerDense below.dropFirst
    rw [TridiagonalFactors.lowerDense_succ, forwardSubstitute]
    simp only [get_addFirst_zero, dropFirst_addFirst, DenseMatrix.firstColumn_bordered,
      DenseMatrix.minor_bordered]
    exact .addFirst first
      (absorbs.vector_trans (absorbs.forwardSubstitute lower remaining) behind)

theorem backSubstitute_upperDense (factors : TridiagonalFactors α n) {y x : Vector α (n + 1)}
    (main : VectorRel R factors.pivots factors.pivots)
    (above : VectorRel R factors.sup factors.sup) (sides : VectorRel R y y)
    (solved : backSubstitute K (factors.upperDense K) y = .ok x) :
    ∃ x', TridiagonalFactors.backward K factors.pivots factors.sup y = .ok x' ∧
      VectorRel R x x' := by
  induction n with
  | zero =>
    obtain ⟨rest, first, -, divided, rfl⟩ := backSubstitute_succ_eq_ok_iff.mp solved
    rw [TridiagonalFactors.upperDense, Bands.entry_toDense_corner] at divided
    obtain ⟨first', divided', close⟩ := absorbs.div? (sides 0) (main 0) divided
    exact ⟨_, TridiagonalFactors.backward_zero_eq_ok_iff.mpr ⟨first', divided', rfl⟩,
      Fin.forall_fin_one.mpr close⟩
  | succ n ih =>
    rw [TridiagonalFactors.upperDense_succ] at solved
    obtain ⟨rest, first, substituted, divided, rfl⟩ := backSubstitute_succ_eq_ok_iff.mp solved
    rw [DenseMatrix.minor_bordered] at substituted
    rw [DenseMatrix.firstRow_bordered, DenseMatrix.entry_bordered_corner] at divided
    obtain ⟨rest', substituted', related⟩ :=
      ih _ main.dropFirst above.dropFirst sides.dropFirst substituted
    have valid : VectorRel R rest rest := fun i => absorbs.left (related i)
    have dividend := absorbs.trans (absorbs.subProducts_pairs (sides 0) (above 0) valid)
      (absorbs.sub (sides 0) (absorbs.mul (above 0) (related 0)))
    obtain ⟨first', divided', close⟩ := absorbs.div? dividend (main 0) divided
    exact ⟨_, TridiagonalFactors.backward_succ_eq_ok_iff.mpr
      ⟨rest', first', substituted', divided', rfl⟩, .addFirst close related⟩

end Arithmetic.AbsorbsZero

/-! ## Whole solves -/

/-- A solution found on the whole matrix is the one found on the bands: the factors have the
bands of the others and no other entries, and both vectors are the same. -/
structure TridiagonalSolution.Matches (K : Arithmetic α) (R : α → α → Prop)
    (dense : GeneralSolution α (n + 1)) (banded : TridiagonalSolution α n) : Prop where
  lower : MatrixRel R dense.factors.lower (banded.factors.lowerDense K)
  upper : MatrixRel R dense.factors.upper (banded.factors.upperDense K)
  y : VectorRel R dense.y banded.y
  x : VectorRel R dense.x banded.x

theorem TridiagonalSolution.Matches.mono {K : Arithmetic α} {R S : α → α → Prop}
    {dense : GeneralSolution α (n + 1)} {banded : TridiagonalSolution α n}
    (same : Matches K R dense banded) (implies : ∀ x y, R x y → S x y) :
    Matches K S dense banded where
  lower i j := implies _ _ (same.lower i j)
  upper i j := implies _ _ (same.upper i j)
  y i := implies _ _ (same.y i)
  x i := implies _ _ (same.x i)

theorem Arithmetic.AbsorbsZero.solve_sameOutcome {K : Arithmetic α} {R : α → α → Prop}
    (absorbs : K.AbsorbsZero R) {sub sup : Vector α n} {diag b : Vector α (n + 1)}
    (below : VectorRel R sub sub) (main : VectorRel R diag diag) (above : VectorRel R sup sup)
    (sides : VectorRel R b b) :
    SameOutcome (TridiagonalSolution.Matches K R)
      (solveGeneral K (Bands.toDense K ⟨sub, diag, sup⟩) b)
      (solveTridiagonal K sub diag sup b) := by
  have same := absorbs.eliminate_toDense below main above
  cases eliminated : LUFactors.eliminate K (Bands.toDense K ⟨sub, diag, sup⟩) with
  | error k =>
    rw [eliminated] at same
    have swept : TridiagonalFactors.eliminate K ⟨sub, diag, sup⟩ = .error k := by
      rw [TridiagonalFactors.eliminate, same.of_error]
      rfl
    rw [solveGeneral_eq_error_iff.mpr ⟨k, eliminated, rfl⟩, solveTridiagonal_eq_error swept]
    exact .error _
  | ok dense =>
    rw [eliminated] at same
    obtain ⟨swept, behind, lower, upper⟩ := same.of_ok
    let banded : TridiagonalFactors α n := ⟨swept.1, swept.2, sup⟩
    obtain ⟨_, again, multipliers, pivots⟩ :=
      absorbs.sweep (main 0) below main.dropFirst above behind
    obtain rfl : swept = _ := Except.ok.inj (behind.symm.trans again)
    -- The substitutions go from the dense factors to the written-out ones, and then to the bands.
    let y := forwardSubstitute K dense.lower b
    let y' := TridiagonalFactors.forward K (b.get 0) swept.1 (dropFirst b)
    have middle : VectorRel R y y' := by
      have first := absorbs.forwardSubstitute lower sides
      have second := absorbs.forwardSubstitute_lowerDense banded (sides 0) multipliers
        sides.dropFirst
      rw [addFirst_dropFirst] at second
      exact absorbs.vector_trans first second
    have valid : VectorRel R y' y' := fun i => absorbs.left (absorbs.symm (middle i))
    obtain ⟨x, substituted⟩ := exists_backSubstitute (LUFactors.isPivot_of_eliminate eliminated) y
    obtain ⟨_, substituted', close⟩ := absorbs.backSubstitute upper middle substituted
    obtain ⟨x', substituted'', close'⟩ :=
      absorbs.backSubstitute_upperDense banded pivots above valid substituted'
    have solved : solveGeneral K (Bands.toDense K ⟨sub, diag, sup⟩) b =
        .ok ⟨dense, y, x, Status.of K x⟩ :=
      solveGeneral_eq_ok_iff.mpr ⟨n.succ_ne_zero, eliminated, rfl, substituted, rfl⟩
    have solved' : solveTridiagonal K sub diag sup b = .ok ⟨banded, y', x', Status.of K x'⟩ :=
      solveTridiagonal_eq_ok_iff.mpr
        ⟨map_eq_ok_iff.mpr ⟨swept, behind, rfl⟩, rfl, substituted'', rfl⟩
    rw [solved, solved']
    exact .ok ⟨lower, upper, middle, absorbs.vector_trans close close'⟩

/-- A solve that ends like a general one fails at a pivot or not at all. -/
theorem singular_of_sameOutcome {γ : Type} {K : Arithmetic α}
    {A : DenseMatrix α (n + 1) (n + 1)} {b : Vector α (n + 1)}
    {R : GeneralSolution α (n + 1) → γ → Prop} {run : Except SolverError γ} {error : SolverError}
    (same : SameOutcome R (solveGeneral K A b) run) (failed : run = .error error) :
    ∃ k, error = .singularPivot .decomposition k := by
  rw [failed] at same
  obtain ⟨k, -, rfl⟩ := solveGeneral_eq_error_iff.mp same.to_error
  exact ⟨k, rfl⟩

end LinearEnclosure
