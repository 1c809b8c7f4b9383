/-
# The stages of a solve

On inputs of matching sizes a solve is its stages in a row: it succeeds exactly when the
system is not empty, the elimination succeeds, and every division of the substitutions is
carried out. Its answer is what the stages leave behind. Statements about whole solves
start from these equivalences and never open a solver again.
-/

import LinearEnclosure.Solver.System
import Mathlib

namespace LinearEnclosure

section Except

variable {ε ε' β γ : Type}

theorem ok_bind (x : β) (f : β → Except ε γ) : (Except.ok x >>= f) = f x := rfl

theorem error_bind (cause : ε) (f : β → Except ε γ) : (Except.error cause >>= f) = .error cause :=
  rfl

theorem bind_eq_ok_iff {r : Except ε β} {f : β → Except ε γ} {c : γ} :
    (r >>= f) = .ok c ↔ ∃ x, r = .ok x ∧ f x = .ok c := by
  cases r with
  | error cause => simp [bind, Except.bind]
  | ok x => simp [bind, Except.bind]

theorem mapError_eq_ok_iff {r : Except ε β} {f : ε → ε'} {x : β} :
    r.mapError f = .ok x ↔ r = .ok x := by
  cases r <;> simp [Except.mapError]

theorem map_eq_ok_iff {r : Except ε β} {f : β → γ} {c : γ} :
    r.map f = .ok c ↔ ∃ x, r = .ok x ∧ f x = c := by
  cases r <;> simp [Except.map]

theorem exists_of_isOk {r : Except ε β} (ok : r.isOk = true) : ∃ x, r = .ok x := by
  cases r with
  | error cause => cases ok
  | ok x => exact ⟨x, rfl⟩

end Except

variable {α : Type} {n : ℕ} {K : Arithmetic α}

/-! ## One step

What a step of an elimination or of a substitution that divides can do. Where it fails is
of no interest here: a success tells that every step before it succeeded. -/

/-- The multipliers of the first step of an elimination. -/
def multipliers (K : Arithmetic α) (A : DenseMatrix α (n + 1) (n + 1)) : Vector α n :=
  A.firstColumn.map fun x => K.quotient x (A.entry 0 0)

@[simp] theorem get_multipliers (A : DenseMatrix α (n + 1) (n + 1)) (i : Fin n) :
    (multipliers K A).get i = K.quotient (A.entry i.succ 0) (A.entry 0 0) := by
  rw [← DenseMatrix.get_firstColumn]
  simp [multipliers]

theorem LUFactors.eliminate_succ_eq_ok_iff {A : DenseMatrix α (n + 1) (n + 1)}
    {factors : LUFactors α (n + 1)} :
    eliminate K A = .ok factors ↔
      K.isPivot (A.entry 0 0) = true ∧
        ∃ rest, eliminate K (reduce K A (multipliers K A)) = .ok rest ∧
          factors = ⟨.bordered K.one (.replicate n K.zero) (multipliers K A) rest.lower,
            .bordered (A.entry 0 0) A.firstRow (.replicate n K.zero) rest.upper⟩ := by
  rw [eliminate, ← multipliers]
  by_cases pivot : K.isPivot (A.entry 0 0) = true
  · simp only [pivot, if_true, true_and]
    cases eliminate K (reduce K A (multipliers K A)) with
    | error index => simp
    | ok rest => simp [eq_comm]
  · simp [pivot]

/-- An elimination ends at once where its first pivot is none. -/
theorem LUFactors.eliminate_eq_error {A : DenseMatrix α (n + 1) (n + 1)}
    (invalid : K.isPivot (A.entry 0 0) = false) : eliminate K A = .error 0 := by
  rw [eliminate, if_neg (Bool.eq_false_iff.mp invalid)]

/-- One step with a pivot, and what remains. -/
theorem LUFactors.eliminate_of_isPivot {A : DenseMatrix α (n + 1) (n + 1)}
    (pivot : K.isPivot (A.entry 0 0) = true) :
    eliminate K A =
      ((eliminate K (reduce K A (multipliers K A))).mapError (· + 1)).map fun rest =>
        ⟨.bordered K.one (.replicate n K.zero) (multipliers K A) rest.lower,
          .bordered (A.entry 0 0) A.firstRow (.replicate n K.zero) rest.upper⟩ := by
  rw [eliminate, ← multipliers]
  simp only [pivot, if_true]
  cases eliminate K (reduce K A (multipliers K A)) with
  | error index => rfl
  | ok rest => rfl

theorem LDLFactors.eliminate_eq_error {A : DenseMatrix α (n + 1) (n + 1)}
    (invalid : K.isPivot (A.entry 0 0) = false) : eliminate K A = .error 0 := by
  rw [eliminate, if_neg (Bool.eq_false_iff.mp invalid)]

/-- One step with a pivot, and what remains. -/
theorem LDLFactors.eliminate_of_isPivot {A : DenseMatrix α (n + 1) (n + 1)}
    (pivot : K.isPivot (A.entry 0 0) = true) :
    eliminate K A =
      ((eliminate K (reduce K A (multipliers K A)
        ((multipliers K A).map fun l => K.mul l (A.entry 0 0)))).mapError (· + 1)).map fun rest =>
          ⟨.bordered K.one (.replicate n K.zero) (multipliers K A) rest.lower,
            addFirst (A.entry 0 0) rest.diagonal⟩ := by
  rw [eliminate, ← multipliers]
  simp only [pivot, if_true]
  cases eliminate K (reduce K A (multipliers K A)
      ((multipliers K A).map fun l => K.mul l (A.entry 0 0))) with
  | error index => rfl
  | ok rest => rfl

theorem LDLFactors.eliminate_succ_eq_ok_iff {A : DenseMatrix α (n + 1) (n + 1)}
    {factors : LDLFactors α (n + 1)} :
    eliminate K A = .ok factors ↔
      K.isPivot (A.entry 0 0) = true ∧
        ∃ rest, eliminate K (reduce K A (multipliers K A)
            ((multipliers K A).map fun l => K.mul l (A.entry 0 0))) = .ok rest ∧
          factors = ⟨.bordered K.one (.replicate n K.zero) (multipliers K A) rest.lower,
            addFirst (A.entry 0 0) rest.diagonal⟩ := by
  rw [eliminate, ← multipliers]
  by_cases pivot : K.isPivot (A.entry 0 0) = true
  · simp only [pivot, if_true, true_and]
    cases eliminate K (reduce K A (multipliers K A)
        ((multipliers K A).map fun l => K.mul l (A.entry 0 0))) with
    | error index => simp
    | ok rest => simp [eq_comm]
  · simp [pivot]

theorem backSubstitute_succ_eq_ok_iff {U : DenseMatrix α (n + 1) (n + 1)}
    {y x : Vector α (n + 1)} :
    backSubstitute K U y = .ok x ↔
      ∃ rest first, backSubstitute K U.minor (dropFirst y) = .ok rest ∧
        K.div? (K.subProducts (y.get 0) (pairs U.firstRow rest)) (U.entry 0 0) = some first ∧
        x = addFirst first rest := by
  rw [backSubstitute]
  cases backSubstitute K U.minor (dropFirst y) with
  | error index => simp
  | ok rest =>
    cases divided : K.div? (K.subProducts (y.get 0) (pairs U.firstRow rest)) (U.entry 0 0) with
    | none => simp [divided]
    | some first => simp [divided, eq_comm]

theorem scaleByDiagonal_succ_eq_ok_iff {d y z : Vector α (n + 1)} :
    scaleByDiagonal K d y = .ok z ↔
      ∃ first rest, K.div? (y.get 0) (d.get 0) = some first ∧
        scaleByDiagonal K (dropFirst d) (dropFirst y) = .ok rest ∧ z = addFirst first rest := by
  rw [scaleByDiagonal]
  cases divided : K.div? (y.get 0) (d.get 0) with
  | none => simp
  | some first =>
    cases scaleByDiagonal K (dropFirst d) (dropFirst y) with
    | error index => simp
    | ok rest => simp [eq_comm]

theorem TridiagonalFactors.sweep_zero_eq_ok_iff {pivot : α} {sub diag sup : Vector α 0}
    {swept : Vector α 0 × Vector α 1} :
    sweep K pivot sub diag sup = .ok swept ↔
      K.isPivot pivot = true ∧ swept = (noEntries, #v[pivot]) := by
  rw [sweep]
  by_cases valid : K.isPivot pivot = true
  · simp [valid, eq_comm]
  · simp [valid]

theorem TridiagonalFactors.sweep_of_isPivot {pivot : α} {sub diag sup : Vector α (n + 1)}
    (valid : K.isPivot pivot = true) :
    sweep K pivot sub diag sup =
      ((sweep K (K.sub (diag.get 0) (K.mul (K.quotient (sub.get 0) pivot) (sup.get 0)))
        (dropFirst sub) (dropFirst diag) (dropFirst sup)).mapError (· + 1)).map fun rest =>
          (addFirst (K.quotient (sub.get 0) pivot) rest.1, addFirst pivot rest.2) := by
  rw [sweep]
  simp only [valid, if_true]
  cases sweep K (K.sub (diag.get 0) (K.mul (K.quotient (sub.get 0) pivot) (sup.get 0)))
      (dropFirst sub) (dropFirst diag) (dropFirst sup) with
  | error index => rfl
  | ok rest => rfl

theorem TridiagonalFactors.sweep_succ_eq_ok_iff {pivot : α} {sub diag sup : Vector α (n + 1)}
    {swept : Vector α (n + 1) × Vector α (n + 2)} :
    sweep K pivot sub diag sup = .ok swept ↔
      K.isPivot pivot = true ∧
        ∃ rest, sweep K (K.sub (diag.get 0) (K.mul (K.quotient (sub.get 0) pivot) (sup.get 0)))
            (dropFirst sub) (dropFirst diag) (dropFirst sup) = .ok rest ∧
          swept = (addFirst (K.quotient (sub.get 0) pivot) rest.1, addFirst pivot rest.2) := by
  rw [sweep]
  by_cases valid : K.isPivot pivot = true
  · simp only [valid, if_true, true_and]
    cases sweep K (K.sub (diag.get 0) (K.mul (K.quotient (sub.get 0) pivot) (sup.get 0)))
        (dropFirst sub) (dropFirst diag) (dropFirst sup) with
    | error index => simp
    | ok rest => simp [eq_comm]
  · simp [valid]

theorem TridiagonalFactors.backward_zero_eq_ok_iff {pivots y x : Vector α 1} {sup : Vector α 0} :
    backward K pivots sup y = .ok x ↔ ∃ first, K.div? (y.get 0) (pivots.get 0) = some first ∧
      x = #v[first] := by
  rw [backward]
  cases divided : K.div? (y.get 0) (pivots.get 0) with
  | none => simp
  | some first => simp [eq_comm]

theorem TridiagonalFactors.backward_succ_eq_ok_iff {pivots y x : Vector α (n + 2)}
    {sup : Vector α (n + 1)} :
    backward K pivots sup y = .ok x ↔
      ∃ rest first, backward K (dropFirst pivots) (dropFirst sup) (dropFirst y) = .ok rest ∧
        K.div? (K.sub (y.get 0) (K.mul (sup.get 0) (rest.get 0))) (pivots.get 0) = some first ∧
        x = addFirst first rest := by
  rw [backward]
  cases backward K (dropFirst pivots) (dropFirst sup) (dropFirst y) with
  | error index => simp
  | ok rest =>
    cases divided : K.div? (K.sub (y.get 0) (K.mul (sup.get 0) (rest.get 0))) (pivots.get 0) with
    | none => simp [divided]
    | some first => simp [divided, eq_comm]

/-! ## Substitutions that divide by pivots only -/

theorem div?_eq_some_iff {x y q : α} :
    K.div? x y = some q ↔ K.isPivot y = true ∧ q = K.quotient x y := by
  cases pivot : K.isPivot y <;> simp [Arithmetic.div?, pivot, eq_comm]

theorem div?_eq_some (x : α) {y : α} (pivot : K.isPivot y = true) :
    K.div? x y = some (K.quotient x y) :=
  div?_eq_some_iff.mpr ⟨pivot, rfl⟩

theorem exists_backSubstitute {U : DenseMatrix α n n} (pivots : ∀ i, K.isPivot (U.entry i i) = true)
    (y : Vector α n) : ∃ x, backSubstitute K U y = .ok x := by
  induction n with
  | zero => exact ⟨noEntries, rfl⟩
  | succ n ih =>
    obtain ⟨rest, substituted⟩ :=
      ih (U := U.minor) (fun i => by simpa using pivots i.succ) (dropFirst y)
    exact ⟨_, backSubstitute_succ_eq_ok_iff.mpr
      ⟨rest, _, substituted, div?_eq_some _ (pivots 0), rfl⟩⟩

theorem exists_scaleByDiagonal {d : Vector α n} (pivots : ∀ i, K.isPivot (d.get i) = true)
    (y : Vector α n) : ∃ z, scaleByDiagonal K d y = .ok z := by
  induction n with
  | zero => exact ⟨noEntries, rfl⟩
  | succ n ih =>
    obtain ⟨rest, scaled⟩ :=
      ih (d := dropFirst d) (fun i => by simpa using pivots i.succ) (dropFirst y)
    exact ⟨_, scaleByDiagonal_succ_eq_ok_iff.mpr
      ⟨_, rest, div?_eq_some _ (pivots 0), scaled, rfl⟩⟩

theorem LUFactors.isPivot_of_eliminate {A : DenseMatrix α n n} {factors : LUFactors α n}
    (factored : eliminate K A = .ok factors) (i : Fin n) :
    K.isPivot (factors.upper.entry i i) = true := by
  induction n with
  | zero => exact i.elim0
  | succ n ih =>
    obtain ⟨pivot, rest, eliminated, rfl⟩ := eliminate_succ_eq_ok_iff.mp factored
    cases i using Fin.cases with
    | zero => rwa [DenseMatrix.entry_bordered_corner]
    | succ i =>
      rw [DenseMatrix.entry_bordered_rest]
      exact ih eliminated i

/-! ## Whole solves -/

theorem checkSquare_eq_ok_iff {A B : DenseMatrix α n n} :
    checkSquare A = .ok B ↔ n ≠ 0 ∧ B = A := by
  unfold checkSquare
  by_cases empty : n = 0
  · simp [empty]
  · simp [empty, eq_comm]

@[simp] theorem checkRightHandSide_self (b : Vector α n) : checkRightHandSide n b = .ok b := by
  simp [checkRightHandSide]

@[simp] theorem checkBands_self (sub : Vector α n) (diag : Vector α (n + 1)) (sup : Vector α n) :
    checkBands sub diag sup = .ok ⟨sub, diag, sup⟩ := by
  simp [checkBands]

theorem size_of_checkRightHandSide {k : ℕ} {b : Vector α k} {b' : Vector α n}
    (accepted : checkRightHandSide n b = .ok b') : k = n := by
  unfold checkRightHandSide at accepted
  split at accepted
  · assumption
  · cases accepted

theorem size_of_checkBands {s d p : ℕ} {sub : Vector α s} {diag : Vector α d} {sup : Vector α p}
    {bands : Bands α (d - 1)} (accepted : checkBands sub diag sup = .ok bands) :
    d = s + 1 ∧ p = s := by
  cases d with
  | zero => cases accepted
  | succ d =>
    simp only [checkBands] at accepted
    split at accepted
    · next below =>
      split at accepted
      · next above => exact ⟨by rw [below], by rw [above, below]⟩
      · cases accepted
    · cases accepted

/-! A solve that succeeds was given inputs of matching sizes. -/

theorem size_of_solveGeneral {m k : ℕ} {A : DenseMatrix α m m} {b : Vector α k}
    {solution : GeneralSolution α m} (solved : solveGeneral K A b = .ok solution) : k = m := by
  simp only [solveGeneral, bind_eq_ok_iff] at solved
  obtain ⟨_, -, _, accepted, -⟩ := solved
  exact size_of_checkRightHandSide accepted

theorem size_of_solveSymmetric {m k : ℕ} {A : DenseMatrix α m m} {b : Vector α k}
    {solution : SymmetricSolution α m} (solved : solveSymmetric K A b = .ok solution) : k = m := by
  simp only [solveSymmetric, bind_eq_ok_iff] at solved
  obtain ⟨_, -, _, accepted, -⟩ := solved
  exact size_of_checkRightHandSide accepted

theorem size_of_solveTridiagonal {s d p k : ℕ} {sub : Vector α s} {diag : Vector α d}
    {sup : Vector α p} {b : Vector α k} {solution : TridiagonalSolution α (d - 1)}
    (solved : solveTridiagonal K sub diag sup b = .ok solution) :
    d = s + 1 ∧ p = s ∧ k = s + 1 := by
  simp only [solveTridiagonal, bind_eq_ok_iff] at solved
  obtain ⟨_, bands, _, sides, -⟩ := solved
  obtain ⟨main, above⟩ := size_of_checkBands bands
  exact ⟨main, above, (size_of_checkRightHandSide sides).trans main⟩

theorem checkSquare_succ (A : DenseMatrix α (n + 1) (n + 1)) : checkSquare A = .ok A :=
  checkSquare_eq_ok_iff.mpr ⟨n.succ_ne_zero, rfl⟩

theorem LUFactors.ofMatrix_succ (A : DenseMatrix α (n + 1) (n + 1)) :
    ofMatrix K A = (eliminate K A).mapError (.singularPivot .decomposition) := by
  rw [ofMatrix, checkSquare_succ]
  rfl

theorem LDLFactors.ofMatrix_succ (A : DenseMatrix α (n + 1) (n + 1)) :
    ofMatrix K A = (eliminate K A).mapError (.singularPivot .decomposition) := by
  rw [ofMatrix, checkSquare_succ]
  rfl

theorem TridiagonalFactors.ofVectors_self (sub : Vector α n) (diag : Vector α (n + 1))
    (sup : Vector α n) :
    ofVectors K sub diag sup =
      (eliminate K ⟨sub, diag, sup⟩).mapError (.singularPivot .decomposition) := by
  rw [ofVectors, checkBands_self]
  rfl

theorem LUFactors.solve_eq_ok_iff {factors : LUFactors α n} {b y x : Vector α n} :
    factors.solve K b = .ok (y, x) ↔
      y = forwardSubstitute K factors.lower b ∧ backSubstitute K factors.upper y = .ok x := by
  simp only [solve, checkRightHandSide_self, bind_eq_ok_iff, mapError_eq_ok_iff, pure, Except.pure,
    Except.ok.injEq, Prod.mk.injEq]
  constructor
  · rintro ⟨_, rfl, _, substituted, rfl, rfl⟩
    exact ⟨rfl, substituted⟩
  · rintro ⟨rfl, substituted⟩
    exact ⟨b, rfl, x, substituted, rfl, rfl⟩

theorem LDLFactors.solve_eq_ok_iff {factors : LDLFactors α n} {b y z x : Vector α n} :
    factors.solve K b = .ok (y, z, x) ↔
      y = forwardSubstitute K factors.lower b ∧ scaleByDiagonal K factors.diagonal y = .ok z ∧
        x = backSubstituteTransposed K factors.lower z := by
  simp only [solve, checkRightHandSide_self, bind_eq_ok_iff, mapError_eq_ok_iff, pure, Except.pure,
    Except.ok.injEq, Prod.mk.injEq]
  constructor
  · rintro ⟨_, rfl, _, scaled, rfl, rfl, rfl⟩
    exact ⟨rfl, scaled, rfl⟩
  · rintro ⟨rfl, scaled, rfl⟩
    exact ⟨b, rfl, z, scaled, rfl, rfl, rfl⟩

theorem solveGeneral_eq_ok_iff {A : DenseMatrix α n n} {b : Vector α n}
    {solution : GeneralSolution α n} :
    solveGeneral K A b = .ok solution ↔
      n ≠ 0 ∧ LUFactors.eliminate K A = .ok solution.factors ∧
      solution.y = forwardSubstitute K solution.factors.lower b ∧
      backSubstitute K solution.factors.upper solution.y = .ok solution.x ∧
      solution.status = Status.of K solution.x := by
  obtain ⟨factors, y, x, status⟩ := solution
  simp only [solveGeneral, LUFactors.solve, LUFactors.ofSquare, bind_eq_ok_iff,
    checkSquare_eq_ok_iff, checkRightHandSide_self, mapError_eq_ok_iff, pure, Except.pure,
    Except.ok.injEq, exists_eq_left', GeneralSolution.mk.injEq, Prod.exists, Prod.mk.injEq,
    and_assoc]
  constructor
  · rintro ⟨_, nonempty, rfl, _, factored, _, _, ⟨_, solved, rfl, rfl⟩, rfl, rfl, rfl, rfl⟩
    exact ⟨nonempty, factored, rfl, solved, rfl⟩
  · rintro ⟨nonempty, factored, rfl, solved, rfl⟩
    exact ⟨A, nonempty, rfl, factors, factored, _, x, ⟨x, solved, rfl, rfl⟩, rfl, rfl, rfl, rfl⟩

/-- A back substitution divides by the pivots that the elimination has accepted. -/
theorem exists_solveGeneral {A : DenseMatrix α (n + 1) (n + 1)}
    {factors : LUFactors α (n + 1)} (eliminated : LUFactors.eliminate K A = .ok factors)
    (b : Vector α (n + 1)) :
    ∃ solution, solveGeneral K A b = .ok solution ∧ solution.factors = factors := by
  obtain ⟨x, substituted⟩ := exists_backSubstitute (LUFactors.isPivot_of_eliminate eliminated)
    (forwardSubstitute K factors.lower b)
  exact ⟨⟨factors, forwardSubstitute K factors.lower b, x, Status.of K x⟩,
    solveGeneral_eq_ok_iff.mpr ⟨n.succ_ne_zero, eliminated, rfl, substituted, rfl⟩, rfl⟩

/-- So a solve of matching sizes fails in the elimination or not at all. -/
theorem solveGeneral_eq_error_iff {A : DenseMatrix α (n + 1) (n + 1)} {b : Vector α (n + 1)}
    {error : SolverError} :
    solveGeneral K A b = .error error ↔
      ∃ k, LUFactors.eliminate K A = .error k ∧ error = .singularPivot .decomposition k := by
  cases eliminated : LUFactors.eliminate K A with
  | error k =>
    have failed : solveGeneral K A b = .error (.singularPivot .decomposition k) := by
      rw [solveGeneral, checkSquare_succ, checkRightHandSide_self]
      simp only [ok_bind, LUFactors.ofSquare, eliminated, Except.mapError, error_bind]
    simp [failed, eq_comm]
  | ok factors =>
    obtain ⟨solution, solved, -⟩ := exists_solveGeneral eliminated b
    simp [solved]

theorem solveSymmetric_eq_ok_iff {A : DenseMatrix α n n} {b : Vector α n}
    {solution : SymmetricSolution α n} :
    solveSymmetric K A b = .ok solution ↔
      n ≠ 0 ∧ LDLFactors.eliminate K A = .ok solution.factors ∧
      solution.y = forwardSubstitute K solution.factors.lower b ∧
      scaleByDiagonal K solution.factors.diagonal solution.y = .ok solution.z ∧
      solution.x = backSubstituteTransposed K solution.factors.lower solution.z ∧
      solution.status = Status.of K solution.x := by
  obtain ⟨factors, y, z, x, status⟩ := solution
  simp only [solveSymmetric, LDLFactors.solve, LDLFactors.ofSquare, bind_eq_ok_iff,
    checkSquare_eq_ok_iff, checkRightHandSide_self, mapError_eq_ok_iff, pure, Except.pure,
    Except.ok.injEq, exists_eq_left', SymmetricSolution.mk.injEq, Prod.exists, Prod.mk.injEq,
    and_assoc]
  constructor
  · rintro ⟨_, nonempty, rfl, _, factored, _, _, _, ⟨_, scaled, rfl, rfl, rfl⟩, rfl, rfl, rfl, rfl,
      rfl⟩
    exact ⟨nonempty, factored, rfl, scaled, rfl, rfl⟩
  · rintro ⟨nonempty, factored, rfl, scaled, rfl, rfl⟩
    exact ⟨A, nonempty, rfl, factors, factored, _, z, _, ⟨z, scaled, rfl, rfl, rfl⟩, rfl, rfl, rfl,
      rfl, rfl⟩

theorem solveTridiagonal_eq_error {sub sup : Vector α n} {diag b : Vector α (n + 1)} {k : ℕ}
    (failed : TridiagonalFactors.eliminate K ⟨sub, diag, sup⟩ = .error k) :
    solveTridiagonal K sub diag sup b = .error (.singularPivot .decomposition k) := by
  rw [solveTridiagonal, checkBands_self, checkRightHandSide_self]
  simp only [ok_bind, TridiagonalFactors.ofBands, failed, Except.mapError, error_bind]

theorem solveTridiagonal_eq_ok_iff {sub sup : Vector α n} {diag b : Vector α (n + 1)}
    {solution : TridiagonalSolution α n} :
    solveTridiagonal K sub diag sup b = .ok solution ↔
      TridiagonalFactors.eliminate K ⟨sub, diag, sup⟩ = .ok solution.factors ∧
      solution.y =
        TridiagonalFactors.forward K (b.get 0) solution.factors.multipliers (dropFirst b) ∧
      TridiagonalFactors.backward K solution.factors.pivots solution.factors.sup solution.y =
        .ok solution.x ∧
      solution.status = Status.of K solution.x := by
  obtain ⟨factors, y, x, status⟩ := solution
  -- The answer is typed by the size of the main diagonal less one.
  have sized : checkRightHandSide (n + 1 - 1 + 1) b = .ok b := checkRightHandSide_self b
  simp only [solveTridiagonal, TridiagonalFactors.solve, TridiagonalFactors.ofBands,
    bind_eq_ok_iff, checkBands_self, checkRightHandSide_self, sized, mapError_eq_ok_iff, pure,
    Except.pure, Except.ok.injEq, exists_eq_left', TridiagonalSolution.mk.injEq, Prod.exists,
    Prod.mk.injEq]
  constructor
  · rintro ⟨_, factored, _, _, ⟨_, solved, rfl, rfl⟩, rfl, rfl, rfl, rfl⟩
    exact ⟨factored, rfl, solved, rfl⟩
  · rintro ⟨factored, rfl, solved, rfl⟩
    exact ⟨factors, factored, _, x, ⟨x, solved, rfl, rfl⟩, rfl, rfl, rfl, rfl⟩

end LinearEnclosure
