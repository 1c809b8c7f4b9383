/-
# The outcomes of a solve

A solve has three ends. Its input has the wrong shape, which is found before any arithmetic;
or the elimination meets a value that cannot be divided by; or there is a solution, with a
status. Nothing else can happen: the substitutions divide by the stored pivots alone, and
each of them has passed the test that the division makes.

To say which pivot is the first to fail, the pivots are computed here without any test, in
the order in which a matrix loses its products. Behind the first value that is no pivot
these numbers mean nothing, and nothing is said about them.
-/

import LinearEnclosure.Proofs.Solver.Banded

namespace LinearEnclosure

variable {α : Type} {n : ℕ} {K : Arithmetic α}

/-! ## The first value that fails a test -/

/-- The place `k` holds the first of some values that fails a test. -/
def IsFirstFailure (test : α → Bool) (values : Fin n → α) (k : ℕ) : Prop :=
  ∃ i : Fin n, i.val = k ∧ IsLeast {j | test (values j) = false} i

/-- The first failure is at the front or is the first one behind it. -/
theorem isFirstFailure_succ_iff {test : α → Bool} {values : Fin (n + 1) → α} {k : ℕ} :
    IsFirstFailure test values k ↔
      test (values 0) = false ∧ k = 0 ∨
        test (values 0) = true ∧
          ∃ j, IsFirstFailure test (fun i => values i.succ) j ∧ k = j + 1 := by
  constructor
  · rintro ⟨i, rfl, fails, least⟩
    cases i using Fin.cases with
    | zero => exact .inl ⟨fails, rfl⟩
    | succ i =>
      have passes : test (values 0) = true := by
        by_contra front
        exact absurd (least (Bool.not_eq_true _ |>.mp front)) (not_le_of_gt (Fin.succ_pos i))
      refine .inr ⟨passes, i, ⟨i, rfl, fails, fun j failing => ?_⟩, Fin.val_succ i⟩
      exact Fin.succ_le_succ_iff.mp (least failing)
  · rintro (⟨fails, rfl⟩ | ⟨passes, _, ⟨i, rfl, fails, least⟩, rfl⟩)
    · exact ⟨0, rfl, fails, fun j _ => Fin.zero_le j⟩
    · refine ⟨i.succ, Fin.val_succ i, fails, fun j failing => ?_⟩
      cases j using Fin.cases with
      | zero => exact absurd passes (Bool.eq_false_iff.mp failing)
      | succ j => exact Fin.succ_le_succ_iff.mpr (least failing)

/-- The status of a solution tells the place of its first value that is not finite. -/
def Status.Describes (K : Arithmetic α) (x : Vector α n) : Status → Prop
  | solved => ∀ i, K.isFinite (x.get i) = true
  | nonFinite k => IsFirstFailure K.isFinite x.get k

theorem Status.of_describes (K : Arithmetic α) (x : Vector α n) :
    (Status.of K x).Describes K x := by
  obtain ⟨values, rfl⟩ := x
  rw [Status.of, firstNonFinite, Vector.findFinIdx?]
  cases found : values.findFinIdx? fun value => !K.isFinite value with
  | none =>
    intro i
    have finite := Array.findFinIdx?_eq_none_iff.mp found values[i] (Array.getElem_mem i.isLt)
    simpa using finite
  | some i =>
    obtain ⟨fails, before⟩ := Array.findFinIdx?_eq_some_iff.mp found
    refine ⟨i, rfl, by simpa using fails, fun j failing => not_lt.mp fun earlier => ?_⟩
    refine before j earlier ?_
    exact Bool.not_eq_eq_eq_not.mpr failing

/-- There is one status that describes a solution. -/
theorem Status.Describes.unique {x : Vector α n} {s t : Status} (left : s.Describes K x)
    (right : t.Describes K x) : s = t := by
  cases s with
  | solved =>
    cases t with
    | solved => rfl
    | nonFinite k =>
      obtain ⟨i, -, fails, -⟩ := right
      exact absurd (left i) (Bool.eq_false_iff.mp fails)
  | nonFinite k =>
    obtain ⟨i, rfl, first⟩ := left
    cases t with
    | solved => exact absurd (right i) (Bool.eq_false_iff.mp first.1)
    | nonFinite k' =>
      obtain ⟨j, rfl, first'⟩ := right
      rw [first.unique first']

/-! ## Pivots computed without a test -/

/-- One step of the general elimination in place. It takes away the products of the
multipliers, which are quotients by the pivot, and the row of the pivot. -/
def LUFactors.step (K : Arithmetic α) (k : Fin n) (entries : Fin n → Fin n → α) (i j : Fin n) : α :=
  K.sub (entries i j) (K.mul (K.quotient (entries i k) (entries k k)) (entries k j))

/-- The entries of a matrix after some steps of the general elimination. -/
def LUFactors.remaining (K : Arithmetic α) (A : DenseMatrix α n n) :
    Fin (n + 1) → Fin n → Fin n → α :=
  Fin.induction A.entry (step K)

/-- The pivot of a step of the general elimination. -/
def LUFactors.pivot (K : Arithmetic α) (A : DenseMatrix α n n) (k : Fin n) : α :=
  remaining K A k.castSucc k k

/-- One step of the symmetric elimination in place. It takes away the products of the
multipliers and their weights; on the diagonal the weight is the left factor. -/
def LDLFactors.step (K : Arithmetic α) (k : Fin n) (entries : Fin n → Fin n → α)
    (i j : Fin n) : α :=
  let multiplier := fun row => K.quotient (entries row k) (entries k k)
  let weight := fun row => K.mul (multiplier row) (entries k k)
  if j < i then K.sub (entries i j) (K.mul (multiplier i) (weight j))
  else if i = j then K.sub (entries i j) (K.mul (weight i) (multiplier i))
  else entries i j

/-- The entries of a lower triangle after some steps of the symmetric elimination. -/
def LDLFactors.remaining (K : Arithmetic α) (A : DenseMatrix α n n) :
    Fin (n + 1) → Fin n → Fin n → α :=
  Fin.induction A.entry (step K)

/-- The pivot of a step of the symmetric elimination. -/
def LDLFactors.pivot (K : Arithmetic α) (A : DenseMatrix α n n) (k : Fin n) : α :=
  remaining K A k.castSucc k k

/-- The pivots of a sweep along three bands. -/
def TridiagonalFactors.pivot (K : Arithmetic α) (bands : Bands α n) : Fin (n + 1) → α :=
  Fin.induction (bands.diag.get 0) fun i previous =>
    K.sub (bands.diag.get i.succ)
      (K.mul (K.quotient (bands.sub.get i) previous) (bands.sup.get i))

theorem LUFactors.remaining_succ (A : DenseMatrix α n n) (k : Fin n) :
    remaining K A k.succ = step K k (remaining K A k.castSucc) :=
  Fin.induction_succ ..

/-- Behind the first row and column, the steps are those on what the first one leaves. -/
theorem LUFactors.remaining_reduce (A : DenseMatrix α (n + 1) (n + 1)) (k : Fin (n + 1))
    (i j : Fin n) :
    remaining K A k.succ i.succ j.succ = remaining K (reduce K A (multipliers K A)) k i j := by
  induction k using Fin.induction generalizing i j with
  | zero =>
    rw [remaining_succ]
    simp [step, remaining, reduce]
  | succ k ih =>
    rw [remaining_succ, remaining_succ, ← Fin.succ_castSucc]
    simp only [step, ih]

theorem LUFactors.pivot_zero (A : DenseMatrix α (n + 1) (n + 1)) : pivot K A 0 = A.entry 0 0 := rfl

theorem LUFactors.pivot_succ (A : DenseMatrix α (n + 1) (n + 1)) (k : Fin n) :
    pivot K A k.succ = pivot K (reduce K A (multipliers K A)) k :=
  remaining_reduce A k.castSucc k k

theorem LDLFactors.remaining_succ (A : DenseMatrix α n n) (k : Fin n) :
    remaining K A k.succ = step K k (remaining K A k.castSucc) :=
  Fin.induction_succ ..

theorem LDLFactors.remaining_reduce (A : DenseMatrix α (n + 1) (n + 1)) (k : Fin (n + 1))
    (i j : Fin n) :
    remaining K A k.succ i.succ j.succ =
      remaining K (reduce K A (multipliers K A)
        ((multipliers K A).map fun l => K.mul l (A.entry 0 0))) k i j := by
  induction k using Fin.induction generalizing i j with
  | zero =>
    rw [remaining_succ]
    simp [step, remaining, reduce]
  | succ k ih =>
    rw [remaining_succ, remaining_succ, ← Fin.succ_castSucc]
    simp only [step, ih, Fin.succ_lt_succ_iff, Fin.succ_inj]

theorem LDLFactors.pivot_zero (A : DenseMatrix α (n + 1) (n + 1)) : pivot K A 0 = A.entry 0 0 := rfl

theorem LDLFactors.pivot_succ (A : DenseMatrix α (n + 1) (n + 1)) (k : Fin n) :
    pivot K A k.succ = pivot K (reduce K A (multipliers K A)
      ((multipliers K A).map fun l => K.mul l (A.entry 0 0))) k :=
  remaining_reduce A k.castSucc k k

theorem TridiagonalFactors.pivot_zero (bands : Bands α n) : pivot K bands 0 = bands.diag.get 0 :=
  rfl

theorem TridiagonalFactors.pivot_succ (bands : Bands α n) (i : Fin n) :
    pivot K bands i.succ =
      K.sub (bands.diag.get i.succ)
        (K.mul (K.quotient (bands.sub.get i) (pivot K bands i.castSucc)) (bands.sup.get i)) :=
  Fin.induction_succ ..

/-- Behind the first one, the pivots are those of the remaining bands with a new first pivot. -/
theorem TridiagonalFactors.pivot_dropFirst (p : α) (sub diag sup : Vector α (n + 1))
    (i : Fin (n + 1)) :
    pivot K ⟨sub, addFirst p diag, sup⟩ i.succ =
      pivot K ⟨dropFirst sub, addFirst (K.sub (diag.get 0)
        (K.mul (K.quotient (sub.get 0) p) (sup.get 0))) (dropFirst diag), dropFirst sup⟩ i := by
  induction i using Fin.induction with
  | zero => rw [pivot_succ, Fin.castSucc_zero, pivot_zero, pivot_zero, get_addFirst_succ,
      get_addFirst_zero, get_addFirst_zero]
  | succ i ih =>
    rw [pivot_succ, pivot_succ, ← Fin.succ_castSucc, ih, get_addFirst_succ, get_addFirst_succ,
      get_dropFirst, get_dropFirst, get_dropFirst]

/-! ## Eliminations -/

/-- The elimination fails at the first pivot that is none. -/
theorem LUFactors.eliminate_eq_error_iff {A : DenseMatrix α n n} {k : ℕ} :
    eliminate K A = .error k ↔ IsFirstFailure K.isPivot (pivot K A) k := by
  induction n generalizing k with
  | zero => simp [eliminate, IsFirstFailure]
  | succ n ih =>
    rw [eliminate_succ_eq_error_iff, isFirstFailure_succ_iff]
    simp only [ih, pivot_zero, pivot_succ]

theorem LUFactors.entry_upper_of_eliminate {A : DenseMatrix α n n} {factors : LUFactors α n}
    (factored : eliminate K A = .ok factors) (i : Fin n) :
    factors.upper.entry i i = pivot K A i := by
  induction n with
  | zero => exact i.elim0
  | succ n ih =>
    obtain ⟨-, rest, eliminated, rfl⟩ := eliminate_succ_eq_ok_iff.mp factored
    cases i using Fin.cases with
    | zero => rw [DenseMatrix.entry_bordered_corner, pivot_zero]
    | succ i => rw [DenseMatrix.entry_bordered_rest, ih eliminated, pivot_succ]

theorem LDLFactors.eliminate_eq_error_iff {A : DenseMatrix α n n} {k : ℕ} :
    eliminate K A = .error k ↔ IsFirstFailure K.isPivot (pivot K A) k := by
  induction n generalizing k with
  | zero => simp [eliminate, IsFirstFailure]
  | succ n ih =>
    rw [eliminate_succ_eq_error_iff, isFirstFailure_succ_iff]
    simp only [ih, pivot_zero, pivot_succ]

theorem LDLFactors.get_diagonal_of_eliminate {A : DenseMatrix α n n} {factors : LDLFactors α n}
    (factored : eliminate K A = .ok factors) (i : Fin n) :
    factors.diagonal.get i = pivot K A i ∧ K.isPivot (factors.diagonal.get i) = true := by
  induction n with
  | zero => exact i.elim0
  | succ n ih =>
    obtain ⟨valid, rest, eliminated, rfl⟩ := eliminate_succ_eq_ok_iff.mp factored
    cases i using Fin.cases with
    | zero =>
      rw [get_addFirst_zero, pivot_zero]
      exact ⟨rfl, valid⟩
    | succ i =>
      rw [get_addFirst_succ, pivot_succ]
      exact ih eliminated i

theorem TridiagonalFactors.sweep_eq_error_iff {p : α} {sub diag sup : Vector α n} {k : ℕ} :
    sweep K p sub diag sup = .error k ↔
      IsFirstFailure K.isPivot (pivot K ⟨sub, addFirst p diag, sup⟩) k := by
  induction n generalizing p k with
  | zero =>
    rw [isFirstFailure_succ_iff, pivot_zero, get_addFirst_zero, sweep]
    by_cases valid : K.isPivot p = true
    · simp [valid, IsFirstFailure]
    · simp [valid, eq_comm]
  | succ n ih =>
    rw [isFirstFailure_succ_iff, pivot_zero, get_addFirst_zero]
    simp only [pivot_dropFirst, ← ih]
    cases valid : K.isPivot p with
    | false => simp [sweep_eq_error valid, eq_comm]
    | true =>
      rw [sweep_of_isPivot valid]
      generalize sweep K _ (dropFirst sub) (dropFirst diag) (dropFirst sup) = swept
      cases swept with
      | error index => simp [Except.mapError, Except.map, eq_comm]
      | ok swept => simp [Except.mapError, Except.map]

theorem TridiagonalFactors.get_pivots_of_sweep {p : α} {sub diag sup : Vector α n}
    {swept : Vector α n × Vector α (n + 1)} (factored : sweep K p sub diag sup = .ok swept)
    (i : Fin (n + 1)) :
    swept.2.get i = pivot K ⟨sub, addFirst p diag, sup⟩ i ∧ K.isPivot (swept.2.get i) = true := by
  induction n generalizing p with
  | zero =>
    obtain ⟨valid, rfl⟩ := sweep_zero_eq_ok_iff.mp factored
    rw [Fin.fin_one_eq_zero i, pivot_zero, get_addFirst_zero]
    exact ⟨rfl, valid⟩
  | succ n ih =>
    obtain ⟨valid, rest, behind, rfl⟩ := sweep_succ_eq_ok_iff.mp factored
    cases i using Fin.cases with
    | zero =>
      rw [get_addFirst_zero, pivot_zero, get_addFirst_zero]
      exact ⟨rfl, valid⟩
    | succ i =>
      rw [get_addFirst_succ, pivot_dropFirst]
      exact ih behind i

theorem TridiagonalFactors.eliminate_eq_error_iff {bands : Bands α n} {k : ℕ} :
    eliminate K bands = .error k ↔ IsFirstFailure K.isPivot (pivot K bands) k := by
  have swept : sweep K (bands.diag.get 0) bands.sub (dropFirst bands.diag) bands.sup = .error k ↔
      IsFirstFailure K.isPivot (pivot K bands) k := by
    rw [sweep_eq_error_iff, addFirst_dropFirst]
  rw [← swept, eliminate]
  cases sweep K (bands.diag.get 0) bands.sub (dropFirst bands.diag) bands.sup with
  | error index => simp [Except.map]
  | ok rest => simp [Except.map]

theorem TridiagonalFactors.get_pivots_of_eliminate {bands : Bands α n}
    {factors : TridiagonalFactors α n} (factored : eliminate K bands = .ok factors)
    (i : Fin (n + 1)) :
    factors.pivots.get i = pivot K bands i ∧ K.isPivot (factors.pivots.get i) = true := by
  obtain ⟨swept, behind, rfl⟩ := map_eq_ok_iff.mp factored
  have computed := get_pivots_of_sweep behind i
  rwa [addFirst_dropFirst] at computed

/-! ## Solves that complete

Behind an elimination that succeeds, no division is refused. -/

theorem exists_solveSymmetric {A : DenseMatrix α (n + 1) (n + 1)} {factors : LDLFactors α (n + 1)}
    (eliminated : LDLFactors.eliminate K A = .ok factors) (b : Vector α (n + 1)) :
    ∃ solution, solveSymmetric K A b = .ok solution := by
  obtain ⟨z, scaled⟩ := exists_scaleByDiagonal
    (fun i => (LDLFactors.get_diagonal_of_eliminate eliminated i).2)
    (forwardSubstitute K factors.lower b)
  let x := backSubstituteTransposed K factors.lower z
  exact ⟨⟨factors, forwardSubstitute K factors.lower b, z, x, Status.of K x⟩,
    solveSymmetric_eq_ok_iff.mpr ⟨n.succ_ne_zero, eliminated, rfl, scaled, rfl, rfl⟩⟩

theorem TridiagonalFactors.exists_backward {pivots : Vector α (n + 1)}
    (valid : ∀ i, K.isPivot (pivots.get i) = true) (sup : Vector α n) (y : Vector α (n + 1)) :
    ∃ x, backward K pivots sup y = .ok x := by
  induction n with
  | zero =>
    exact ⟨_, backward_zero_eq_ok_iff.mpr ⟨_, div?_eq_some _ (valid 0), rfl⟩⟩
  | succ n ih =>
    have behind : ∀ i, K.isPivot ((dropFirst pivots).get i) = true := by
      simpa using fun i => valid (Fin.succ i)
    obtain ⟨rest, substituted⟩ := ih behind (dropFirst sup) (dropFirst y)
    exact ⟨_, backward_succ_eq_ok_iff.mpr
      ⟨rest, _, substituted, div?_eq_some _ (valid 0), rfl⟩⟩

theorem exists_solveTridiagonal {sub sup : Vector α n} {diag : Vector α (n + 1)}
    {factors : TridiagonalFactors α n}
    (eliminated : TridiagonalFactors.eliminate K ⟨sub, diag, sup⟩ = .ok factors)
    (b : Vector α (n + 1)) :
    ∃ solution : TridiagonalSolution α n, solveTridiagonal K sub diag sup b = .ok solution := by
  obtain ⟨x, substituted⟩ := TridiagonalFactors.exists_backward
    (fun i => (TridiagonalFactors.get_pivots_of_eliminate eliminated i).2) factors.sup
    (TridiagonalFactors.forward K (b.get 0) factors.multipliers (dropFirst b))
  exact ⟨⟨factors, _, x, Status.of K x⟩,
    solveTridiagonal_eq_ok_iff.mpr ⟨eliminated, rfl, substituted, rfl⟩⟩

theorem solveSymmetric_eq_error {A : DenseMatrix α (n + 1) (n + 1)} {b : Vector α (n + 1)} {k : ℕ}
    (failed : LDLFactors.eliminate K A = .error k) :
    solveSymmetric K A b = .error (.singularPivot .decomposition k) := by
  rw [solveSymmetric, checkSquare_succ, checkRightHandSide_self]
  simp only [ok_bind, LDLFactors.ofSquare, failed, Except.mapError, error_bind]

/-! ## Inputs of matching sizes -/

/-- What a solve of matching sizes may end in. Either the first pivot that is none ends the
elimination, or the solve completes. Then the stored pivots are those computed, each of them
can be divided by, and the status describes the solution. -/
inductive IsOutcome {σ : Type} (K : Arithmetic α) (pivots : Fin n → α) (stored : σ → Fin n → α)
    (x : σ → Vector α n) (status : σ → Status) : Except SolverError σ → Prop
  | singular {k : ℕ} : IsFirstFailure K.isPivot pivots k →
      IsOutcome K pivots stored x status (.error (.singularPivot .decomposition k))
  | complete {solution : σ} : stored solution = pivots →
      (∀ i, K.isPivot (stored solution i) = true) →
      (status solution).Describes K (x solution) →
      IsOutcome K pivots stored x status (.ok solution)

theorem solveGeneral_isOutcome (A : DenseMatrix α (n + 1) (n + 1)) (b : Vector α (n + 1)) :
    IsOutcome K (LUFactors.pivot K A) (fun solution i => solution.factors.upper.entry i i)
      GeneralSolution.x GeneralSolution.status (solveGeneral K A b) := by
  cases eliminated : LUFactors.eliminate K A with
  | error k =>
    rw [solveGeneral_eq_error_iff.mpr ⟨k, eliminated, rfl⟩]
    exact .singular (LUFactors.eliminate_eq_error_iff.mp eliminated)
  | ok factors =>
    obtain ⟨solution, solved, rfl⟩ := exists_solveGeneral eliminated b
    obtain ⟨-, -, -, -, status⟩ := solveGeneral_eq_ok_iff.mp solved
    rw [solved]
    exact .complete (funext (LUFactors.entry_upper_of_eliminate eliminated))
      (LUFactors.isPivot_of_eliminate eliminated) (status ▸ Status.of_describes K solution.x)

theorem solveSymmetric_isOutcome (A : DenseMatrix α (n + 1) (n + 1)) (b : Vector α (n + 1)) :
    IsOutcome K (LDLFactors.pivot K A) (fun solution => solution.factors.diagonal.get)
      SymmetricSolution.x SymmetricSolution.status (solveSymmetric K A b) := by
  cases eliminated : LDLFactors.eliminate K A with
  | error k =>
    rw [solveSymmetric_eq_error eliminated]
    exact .singular (LDLFactors.eliminate_eq_error_iff.mp eliminated)
  | ok factors =>
    obtain ⟨solution, solved⟩ := exists_solveSymmetric eliminated b
    obtain ⟨-, factored, -, -, -, status⟩ := solveSymmetric_eq_ok_iff.mp solved
    have stored := LDLFactors.get_diagonal_of_eliminate factored
    rw [solved]
    exact .complete (funext fun i => (stored i).1) (fun i => (stored i).2)
      (status ▸ Status.of_describes K solution.x)

theorem solveTridiagonal_isOutcome (sub sup : Vector α n) (diag b : Vector α (n + 1)) :
    IsOutcome K (TridiagonalFactors.pivot K ⟨sub, diag, sup⟩)
      (fun solution : TridiagonalSolution α n => solution.factors.pivots.get)
      TridiagonalSolution.x TridiagonalSolution.status (solveTridiagonal K sub diag sup b) := by
  cases eliminated : TridiagonalFactors.eliminate K ⟨sub, diag, sup⟩ with
  | error k =>
    rw [solveTridiagonal_eq_error eliminated]
    exact .singular (TridiagonalFactors.eliminate_eq_error_iff.mp eliminated)
  | ok factors =>
    obtain ⟨solution, solved⟩ := exists_solveTridiagonal eliminated b
    obtain ⟨factored, -, -, status⟩ := solveTridiagonal_eq_ok_iff.mp solved
    have stored := TridiagonalFactors.get_pivots_of_eliminate factored
    rw [solved]
    exact .complete (funext fun i => (stored i).1) (fun i => (stored i).2)
      (status ▸ Status.of_describes K solution.x)

/-! ## Inputs of any size

Whether the sizes of an input fit, and which one is named if they do not, does not depend on
the entries or on the arithmetic. -/

section Shapes

variable {m k : ℕ}

theorem checkSquare_eq_error (wrong : ¬(m ≠ 0 ∧ n = m)) :
    ∃ what expected got, ∀ {α : Type} (A : DenseMatrix α m n),
      checkSquare A = .error (.dimensionMismatch what expected got) := by
  by_cases empty : m = 0
  · exact ⟨.matrixSize, 1, 0, fun _ => if_pos empty⟩
  · have rectangular : n ≠ m := fun square => wrong ⟨empty, square⟩
    refine ⟨.matrixColumns, m, n, fun A => ?_⟩
    rw [checkSquare, if_neg empty, dif_neg rectangular]

theorem checkRightHandSide_eq_error {b : Vector α k} (wrong : k ≠ n) :
    checkRightHandSide n b = .error (.dimensionMismatch .rightHandSide n k) :=
  dif_neg wrong

theorem checkBands_eq_error {s d p : ℕ} (wrong : ¬(d = s + 1 ∧ p = s)) :
    ∃ what expected got, ∀ {α : Type} (sub : Vector α s) (diag : Vector α d) (sup : Vector α p),
      checkBands sub diag sup = .error (.dimensionMismatch what expected got) := by
  cases d with
  | zero => exact ⟨.mainDiagonal, 1, 0, fun _ _ _ => rfl⟩
  | succ d =>
    by_cases below : s = d
    · have above : p ≠ d := by
        rintro rfl
        exact wrong ⟨by rw [below], below.symm⟩
      refine ⟨.superDiagonal, d, p, fun sub diag sup => ?_⟩
      simp only [checkBands]
      rw [dif_pos below, dif_neg above]
    · refine ⟨.subDiagonal, d, s, fun sub diag sup => ?_⟩
      simp only [checkBands]
      rw [dif_neg below]

/-- The solvers for whole matrices check the matrix and then the right-hand side. -/
private theorem shapes_eq_error (wrong : ¬(m ≠ 0 ∧ n = m ∧ k = m)) :
    ∃ what expected got, ∀ {α σ : Type} (A : DenseMatrix α m n) (b : Vector α k)
      (next : DenseMatrix α m m → Vector α m → Except SolverError σ),
      (checkSquare A >>= fun A => checkRightHandSide m b >>= next A) =
        .error (.dimensionMismatch what expected got) := by
  by_cases square : m ≠ 0 ∧ n = m
  · obtain ⟨nonempty, rfl⟩ := square
    have sides : k ≠ n := fun size => wrong ⟨nonempty, rfl, size⟩
    refine ⟨.rightHandSide, n, k, fun A b next => ?_⟩
    rw [checkSquare_eq_ok_iff.mpr ⟨nonempty, rfl⟩, ok_bind, checkRightHandSide_eq_error sides,
      error_bind]
  · obtain ⟨what, expected, got, refused⟩ := checkSquare_eq_error square
    refine ⟨what, expected, got, fun A b next => ?_⟩
    rw [refused, error_bind]

theorem solveGeneral_eq_mismatch (wrong : ¬(m ≠ 0 ∧ n = m ∧ k = m)) :
    ∃ what expected got, ∀ {α : Type} (K : Arithmetic α) (A : DenseMatrix α m n) (b : Vector α k),
      solveGeneral K A b = .error (.dimensionMismatch what expected got) := by
  obtain ⟨what, expected, got, refused⟩ := shapes_eq_error wrong
  exact ⟨what, expected, got, fun K A b => refused A b _⟩

theorem solveSymmetric_eq_mismatch (wrong : ¬(m ≠ 0 ∧ n = m ∧ k = m)) :
    ∃ what expected got, ∀ {α : Type} (K : Arithmetic α) (A : DenseMatrix α m n) (b : Vector α k),
      solveSymmetric K A b = .error (.dimensionMismatch what expected got) := by
  obtain ⟨what, expected, got, refused⟩ := shapes_eq_error wrong
  exact ⟨what, expected, got, fun K A b => refused A b _⟩

theorem solveTridiagonal_eq_mismatch {s d p : ℕ} (wrong : ¬(d = s + 1 ∧ p = s ∧ k = d)) :
    ∃ what expected got, ∀ {α : Type} (K : Arithmetic α) (sub : Vector α s) (diag : Vector α d)
      (sup : Vector α p) (b : Vector α k),
      solveTridiagonal K sub diag sup b = .error (.dimensionMismatch what expected got) := by
  by_cases bands : d = s + 1 ∧ p = s
  · obtain ⟨rfl, rfl⟩ := bands
    have sides : k ≠ p + 1 := fun size => wrong ⟨rfl, rfl, size⟩
    refine ⟨.rightHandSide, p + 1, k, fun K sub diag sup b => ?_⟩
    rw [solveTridiagonal, checkBands_self, ok_bind, checkRightHandSide_eq_error sides, error_bind]
  · obtain ⟨what, expected, got, refused⟩ := checkBands_eq_error bands
    refine ⟨what, expected, got, fun K sub diag sup b => ?_⟩
    rw [solveTridiagonal, refused, error_bind]

/-- A run that is refused because of a size. -/
def IsMismatch {σ : Type} (run : Except SolverError σ) : Prop :=
  ∃ what expected got, run = .error (.dimensionMismatch what expected got)

theorem IsOutcome.not_isMismatch {σ : Type} {pivots : Fin n → α} {stored : σ → Fin n → α}
    {x : σ → Vector α n} {status : σ → Status} {run : Except SolverError σ}
    (outcome : IsOutcome K pivots stored x status run) : ¬IsMismatch run := by
  rintro ⟨what, expected, got, rfl⟩
  cases outcome

theorem solveGeneral_isMismatch_iff {A : DenseMatrix α m n} {b : Vector α k} :
    IsMismatch (solveGeneral K A b) ↔ ¬(m ≠ 0 ∧ n = m ∧ k = m) := by
  constructor
  · rintro mismatch ⟨nonempty, rfl, rfl⟩
    obtain ⟨size, rfl⟩ := Nat.exists_eq_succ_of_ne_zero nonempty
    exact (solveGeneral_isOutcome A b).not_isMismatch mismatch
  · intro wrong
    obtain ⟨what, expected, got, refused⟩ := solveGeneral_eq_mismatch wrong
    exact ⟨what, expected, got, refused K A b⟩

theorem solveSymmetric_isMismatch_iff {A : DenseMatrix α m n} {b : Vector α k} :
    IsMismatch (solveSymmetric K A b) ↔ ¬(m ≠ 0 ∧ n = m ∧ k = m) := by
  constructor
  · rintro mismatch ⟨nonempty, rfl, rfl⟩
    obtain ⟨size, rfl⟩ := Nat.exists_eq_succ_of_ne_zero nonempty
    exact (solveSymmetric_isOutcome A b).not_isMismatch mismatch
  · intro wrong
    obtain ⟨what, expected, got, refused⟩ := solveSymmetric_eq_mismatch wrong
    exact ⟨what, expected, got, refused K A b⟩

theorem solveTridiagonal_isMismatch_iff {s d p : ℕ} {sub : Vector α s} {diag : Vector α d}
    {sup : Vector α p} {b : Vector α k} :
    IsMismatch (solveTridiagonal K sub diag sup b) ↔ ¬(d = s + 1 ∧ p = s ∧ k = d) := by
  constructor
  · rintro mismatch ⟨rfl, rfl, rfl⟩
    exact (solveTridiagonal_isOutcome sub sup diag b).not_isMismatch mismatch
  · intro wrong
    obtain ⟨what, expected, got, refused⟩ := solveTridiagonal_eq_mismatch wrong
    exact ⟨what, expected, got, refused K sub diag sup b⟩

end Shapes

/-- Every solve ends in one of three ways, whatever its arithmetic. It is refused for its shape
exactly where the shape is wrong; otherwise the first pivot that is none is named, with the
elimination as the stage, or there is a solution with valid pivots and a status that is true. -/
theorem solve_isOutcome (K : Arithmetic α) :
    (∀ {m n k : ℕ} (A : DenseMatrix α m n) (b : Vector α k),
      (IsMismatch (solveGeneral K A b) ↔ ¬(m ≠ 0 ∧ n = m ∧ k = m)) ∧
        (IsMismatch (solveSymmetric K A b) ↔ ¬(m ≠ 0 ∧ n = m ∧ k = m))) ∧
    (∀ {s d p k : ℕ} (sub : Vector α s) (diag : Vector α d) (sup : Vector α p) (b : Vector α k),
      IsMismatch (solveTridiagonal K sub diag sup b) ↔ ¬(d = s + 1 ∧ p = s ∧ k = d)) ∧
    ∀ n : ℕ,
      (∀ (A : DenseMatrix α (n + 1) (n + 1)) (b : Vector α (n + 1)),
        IsOutcome K (LUFactors.pivot K A) (fun solution i => solution.factors.upper.entry i i)
          GeneralSolution.x GeneralSolution.status (solveGeneral K A b) ∧
        IsOutcome K (LDLFactors.pivot K A) (fun solution => solution.factors.diagonal.get)
          SymmetricSolution.x SymmetricSolution.status (solveSymmetric K A b)) ∧
      ∀ (sub sup : Vector α n) (diag b : Vector α (n + 1)),
        IsOutcome K (TridiagonalFactors.pivot K ⟨sub, diag, sup⟩)
          (fun solution : TridiagonalSolution α n => solution.factors.pivots.get)
          TridiagonalSolution.x TridiagonalSolution.status (solveTridiagonal K sub diag sup b) :=
  ⟨fun _ _ => ⟨solveGeneral_isMismatch_iff, solveSymmetric_isMismatch_iff⟩,
    fun _ _ _ _ => solveTridiagonal_isMismatch_iff,
    fun _ => ⟨fun A b => ⟨solveGeneral_isOutcome A b, solveSymmetric_isOutcome A b⟩,
      fun sub sup diag b => solveTridiagonal_isOutcome sub sup diag b⟩⟩

/-- The division of an interval is refused where the interval is no pivot, and nowhere else. -/
theorem Interval.div?_toOption {β : Type} [Endpoint β] (context : Context) (x y : Interval β) :
    (x.div? context y).toOption = (Interval.arithmetic context).div? x y := by
  cases zero : y.containsZero with
  | true => simp [div?, Arithmetic.div?, Interval.arithmetic, zero, Except.toOption]
  | false => simp [div?, Arithmetic.div?, Interval.arithmetic, zero, Except.toOption]

end LinearEnclosure
