/-
# Solving with stored factors

Factors may be stored and used for one right-hand side after another, and nobody checks them
before. The substitutions divide by the stored pivots and by nothing else, so a solve is refused
where one of them cannot be divided by, and only there. Which of several bad pivots is named
depends on the order of the divisions: a back substitution comes to the last one first, and the
scaling by a diagonal to the first one.

Neither the right-hand side nor the entries beside the pivots decide anything, since the test of
a pivot looks at its value alone.
-/

import LinearEnclosure.Proofs.Solver.Outcomes

namespace LinearEnclosure

variable {α : Type} {n : ℕ} {K : Arithmetic α}

/-! ## The last value that fails a test -/

/-- The place `k` holds the last of some values that fails a test. -/
def IsLastFailure (test : α → Bool) (values : Fin n → α) (k : ℕ) : Prop :=
  ∃ i : Fin n, i.val = k ∧ IsGreatest {j | test (values j) = false} i

/-- The last failure is the last one behind the front, or the front if there is none. -/
theorem isLastFailure_succ_iff {test : α → Bool} {values : Fin (n + 1) → α} {k : ℕ} :
    IsLastFailure test values k ↔
      (∃ j, IsLastFailure test (fun i => values i.succ) j ∧ k = j + 1) ∨
        (∀ i : Fin n, test (values i.succ) = true) ∧ test (values 0) = false ∧ k = 0 := by
  constructor
  · rintro ⟨i, rfl, fails, greatest⟩
    cases i using Fin.cases with
    | zero =>
      refine .inr ⟨fun i => ?_, fails, rfl⟩
      by_contra behind
      exact absurd (greatest (Bool.not_eq_true _ |>.mp behind)) (not_le_of_gt (Fin.succ_pos i))
    | succ i =>
      refine .inl ⟨i, ⟨i, rfl, fails, fun j failing => ?_⟩, Fin.val_succ i⟩
      exact Fin.succ_le_succ_iff.mp (greatest failing)
  · rintro (⟨_, ⟨i, rfl, fails, greatest⟩, rfl⟩ | ⟨passes, fails, rfl⟩)
    · refine ⟨i.succ, Fin.val_succ i, fails, fun j failing => ?_⟩
      cases j using Fin.cases with
      | zero => exact Fin.zero_le _
      | succ j => exact Fin.succ_le_succ_iff.mpr (greatest failing)
    · refine ⟨0, rfl, fails, fun j failing => ?_⟩
      cases j using Fin.cases with
      | zero => exact le_rfl
      | succ j => exact absurd (passes j) (Bool.eq_false_iff.mp failing)

/-! ## Substitutions that are refused -/

theorem div?_eq_none {x y : α} (invalid : K.isPivot y = false) : K.div? x y = none :=
  if_neg (Bool.eq_false_iff.mp invalid)

/-- A back substitution fails behind the first pivot, or else at the first one. -/
theorem backSubstitute_succ_eq_error_iff {U : DenseMatrix α (n + 1) (n + 1)} {y : Vector α (n + 1)}
    {k : ℕ} :
    backSubstitute K U y = .error k ↔
      (∃ j, backSubstitute K U.minor (dropFirst y) = .error j ∧ k = j + 1) ∨
        (∃ rest, backSubstitute K U.minor (dropFirst y) = .ok rest) ∧
          K.isPivot (U.entry 0 0) = false ∧ k = 0 := by
  rw [backSubstitute]
  cases backSubstitute K U.minor (dropFirst y) with
  | error index => simp [eq_comm (b := k)]
  | ok rest =>
    cases valid : K.isPivot (U.entry 0 0) with
    | false => simp [div?_eq_none valid, eq_comm (b := k)]
    | true => simp [div?_eq_some _ valid]

theorem isPivot_of_backSubstitute {U : DenseMatrix α n n} {y x : Vector α n}
    (substituted : backSubstitute K U y = .ok x) (i : Fin n) : K.isPivot (U.entry i i) = true := by
  induction n with
  | zero => exact i.elim0
  | succ n ih =>
    obtain ⟨rest, first, behind, divided, rfl⟩ := backSubstitute_succ_eq_ok_iff.mp substituted
    cases i using Fin.cases with
    | zero => exact (div?_eq_some_iff.mp divided).1
    | succ i => simpa using ih behind i

/-- It completes where every pivot can be divided by. -/
theorem exists_backSubstitute_iff {U : DenseMatrix α n n} {y : Vector α n} :
    (∃ x, backSubstitute K U y = .ok x) ↔ ∀ i, K.isPivot (U.entry i i) = true :=
  ⟨fun ⟨_, substituted⟩ => isPivot_of_backSubstitute substituted,
    fun pivots => exists_backSubstitute pivots y⟩

/-- A back substitution is refused at the last pivot that is none. -/
theorem backSubstitute_eq_error_iff {U : DenseMatrix α n n} {y : Vector α n} {k : ℕ} :
    backSubstitute K U y = .error k ↔ IsLastFailure K.isPivot (fun i => U.entry i i) k := by
  induction n generalizing k with
  | zero => simp [backSubstitute, IsLastFailure]
  | succ n ih =>
    rw [backSubstitute_succ_eq_error_iff, isLastFailure_succ_iff, exists_backSubstitute_iff]
    simp only [ih, DenseMatrix.entry_minor]

theorem isPivot_of_scaleByDiagonal {d y z : Vector α n} (scaled : scaleByDiagonal K d y = .ok z)
    (i : Fin n) : K.isPivot (d.get i) = true := by
  induction n with
  | zero => exact i.elim0
  | succ n ih =>
    obtain ⟨first, rest, divided, behind, rfl⟩ := scaleByDiagonal_succ_eq_ok_iff.mp scaled
    cases i using Fin.cases with
    | zero => exact (div?_eq_some_iff.mp divided).1
    | succ i => simpa using ih behind i

/-- A scaling is refused at the first entry that is no pivot. -/
theorem scaleByDiagonal_eq_error_iff {d y : Vector α n} {k : ℕ} :
    scaleByDiagonal K d y = .error k ↔ IsFirstFailure K.isPivot d.get k := by
  induction n generalizing k with
  | zero => simp [scaleByDiagonal, IsFirstFailure]
  | succ n ih =>
    have behind : (dropFirst d).get = fun i => d.get i.succ := funext (get_dropFirst d)
    rw [isFirstFailure_succ_iff, ← behind, scaleByDiagonal]
    simp only [← ih (y := dropFirst y)]
    cases valid : K.isPivot (d.get 0) with
    | false => simp [div?_eq_none valid, eq_comm]
    | true =>
      rw [div?_eq_some _ valid]
      cases scaleByDiagonal K (dropFirst d) (dropFirst y) with
      | error index => simp [eq_comm]
      | ok rest => simp

namespace TridiagonalFactors

/-- With two bands a back substitution fails behind the first pivot, or else at the first one. -/
theorem backward_succ_eq_error_iff {pivots y : Vector α (n + 2)} {sup : Vector α (n + 1)} {k : ℕ} :
    backward K pivots sup y = .error k ↔
      (∃ j, backward K (dropFirst pivots) (dropFirst sup) (dropFirst y) = .error j ∧ k = j + 1) ∨
        (∃ rest, backward K (dropFirst pivots) (dropFirst sup) (dropFirst y) = .ok rest) ∧
          K.isPivot (pivots.get 0) = false ∧ k = 0 := by
  rw [backward]
  cases backward K (dropFirst pivots) (dropFirst sup) (dropFirst y) with
  | error index => simp [eq_comm (b := k)]
  | ok rest =>
    cases valid : K.isPivot (pivots.get 0) with
    | false => simp [div?_eq_none valid, eq_comm (b := k)]
    | true => simp [div?_eq_some _ valid]

theorem isPivot_of_backward {pivots y x : Vector α (n + 1)} {sup : Vector α n}
    (substituted : backward K pivots sup y = .ok x) (i : Fin (n + 1)) :
    K.isPivot (pivots.get i) = true := by
  induction n with
  | zero =>
    obtain ⟨first, divided, rfl⟩ := backward_zero_eq_ok_iff.mp substituted
    rw [Fin.fin_one_eq_zero i]
    exact (div?_eq_some_iff.mp divided).1
  | succ n ih =>
    obtain ⟨rest, first, behind, divided, rfl⟩ := backward_succ_eq_ok_iff.mp substituted
    cases i using Fin.cases with
    | zero => exact (div?_eq_some_iff.mp divided).1
    | succ i => simpa using ih behind i

theorem exists_backward_iff {pivots y : Vector α (n + 1)} {sup : Vector α n} :
    (∃ x, backward K pivots sup y = .ok x) ↔ ∀ i, K.isPivot (pivots.get i) = true :=
  ⟨fun ⟨_, substituted⟩ => isPivot_of_backward substituted,
    fun valid => exists_backward valid sup y⟩

/-- It too is refused at the last pivot that is none. -/
theorem backward_eq_error_iff {pivots y : Vector α (n + 1)} {sup : Vector α n} {k : ℕ} :
    backward K pivots sup y = .error k ↔ IsLastFailure K.isPivot pivots.get k := by
  induction n generalizing k with
  | zero =>
    rw [isLastFailure_succ_iff, backward]
    cases valid : K.isPivot (pivots.get 0) with
    | false => simp [div?_eq_none valid, IsLastFailure, eq_comm (b := k)]
    | true => simp [div?_eq_some _ valid, IsLastFailure]
  | succ n ih =>
    rw [backward_succ_eq_error_iff, isLastFailure_succ_iff, exists_backward_iff]
    simp only [ih, funext (get_dropFirst pivots), get_dropFirst]

end TridiagonalFactors

/-! ## Verdicts -/

/-- What a solve with stored factors ends in, told by the tests of the pivots and the size of the
right-hand side. Of the pivots that fail, `IsNamed` says which one is named. -/
inductive Verdict {σ : Type} (stage : Stage) (IsNamed : Set (Fin n) → Fin n → Prop)
    (valid : Fin n → Bool) (size : ℕ) : Except SolverError σ → Prop
  | mismatch : size ≠ n →
      Verdict stage IsNamed valid size (.error (.dimensionMismatch .rightHandSide n size))
  | singular {i : Fin n} : size = n → IsNamed {j | valid j = false} i →
      Verdict stage IsNamed valid size (.error (.singularPivot stage i))
  | complete {answer : σ} : size = n → (∀ i, valid i = true) →
      Verdict stage IsNamed valid size (.ok answer)

/-- A way to choose a member of a set, which is never in doubt. -/
structure Names (IsNamed : Set (Fin n) → Fin n → Prop) : Prop where
  mem {s : Set (Fin n)} {i : Fin n} : IsNamed s i → i ∈ s
  unique {s : Set (Fin n)} {i j : Fin n} : IsNamed s i → IsNamed s j → i = j

theorem names_isLeast : Names (IsLeast (α := Fin n)) := ⟨fun least => least.1, IsLeast.unique⟩

theorem names_isGreatest : Names (IsGreatest (α := Fin n)) :=
  ⟨fun greatest => greatest.1, IsGreatest.unique⟩

/-- So there is one verdict. -/
theorem Verdict.sameOutcome {σ : Type} {stage : Stage} {IsNamed : Set (Fin n) → Fin n → Prop}
    {valid : Fin n → Bool} {size : ℕ} {run run' : Except SolverError σ} (names : Names IsNamed)
    (first : Verdict stage IsNamed valid size run)
    (second : Verdict stage IsNamed valid size run') : SameOutcome (fun _ _ => True) run run' := by
  cases first with
  | mismatch wrong =>
    cases second with
    | mismatch => exact .error _
    | singular right => exact absurd right wrong
    | complete right => exact absurd right wrong
  | singular right named =>
    cases second with
    | mismatch wrong => exact absurd right wrong
    | singular _ named' =>
      rw [names.unique named named']
      exact .error _
    | complete _ all => exact absurd (all _) (Bool.eq_false_iff.mp (names.mem named))
  | complete right all =>
    cases second with
    | mismatch wrong => exact absurd right wrong
    | singular _ named => exact absurd (all _) (Bool.eq_false_iff.mp (names.mem named))
    | complete => exact .ok trivial

/-- A solve checks its right-hand side, and then only its divisions can fail. -/
theorem verdict_of_divisions {σ τ : Type} {stage : Stage}
    {IsNamed : Set (Fin n) → Fin n → Prop} {valid : Fin n → Bool}
    (divide : Vector α n → Except ℕ τ) (answer : Vector α n → τ → σ)
    (refused : ∀ b k, divide b = .error k → ∃ i, i.val = k ∧ IsNamed {j | valid j = false} i)
    (completed : ∀ b x, divide b = .ok x → ∀ i, valid i = true) {k : ℕ} (b : Vector α k) :
    Verdict stage IsNamed valid k
      (checkRightHandSide n b >>= fun b =>
        (divide b).mapError (.singularPivot stage) >>= fun x => pure (answer b x)) := by
  by_cases size : k = n
  · subst size
    rw [checkRightHandSide_self, ok_bind]
    cases ended : divide b with
    | error index =>
      obtain ⟨i, rfl, named⟩ := refused b index ended
      exact .singular rfl named
    | ok x => exact .complete rfl (completed b x ended)
  · rw [checkRightHandSide_eq_error size, error_bind]
    exact .mismatch size

theorem LUFactors.solve_verdict {k : ℕ} (factors : LUFactors α n) (b : Vector α k) :
    Verdict .backSubstitution IsGreatest (fun i => K.isPivot (factors.upper.entry i i)) k
      (factors.solve K b) :=
  verdict_of_divisions
    (fun b => backSubstitute K factors.upper (forwardSubstitute K factors.lower b))
    (fun b x => (forwardSubstitute K factors.lower b, x))
    (fun _ _ => backSubstitute_eq_error_iff.mp) (fun _ _ => isPivot_of_backSubstitute) b

theorem LDLFactors.solve_verdict {k : ℕ} (factors : LDLFactors α n) (b : Vector α k) :
    Verdict .diagonalScaling IsLeast (fun i => K.isPivot (factors.diagonal.get i)) k
      (factors.solve K b) :=
  verdict_of_divisions
    (fun b => scaleByDiagonal K factors.diagonal (forwardSubstitute K factors.lower b))
    (fun b z => (forwardSubstitute K factors.lower b, z,
      backSubstituteTransposed K factors.lower z))
    (fun _ _ => scaleByDiagonal_eq_error_iff.mp) (fun _ _ => isPivot_of_scaleByDiagonal) b

theorem TridiagonalFactors.solve_verdict {k : ℕ} (factors : TridiagonalFactors α n)
    (b : Vector α k) :
    Verdict .backSubstitution IsGreatest (fun i => K.isPivot (factors.pivots.get i)) k
      (factors.solve K b) :=
  verdict_of_divisions
    (fun b => backward K factors.pivots factors.sup
      (forward K (b.get 0) factors.multipliers (dropFirst b)))
    (fun b x => (forward K (b.get 0) factors.multipliers (dropFirst b), x))
    (fun _ _ => backward_eq_error_iff.mp) (fun _ _ => isPivot_of_backward) b

/-! ## What decides -/

/-- Arithmetics on the same values that accept the same pivots. -/
def Arithmetic.SamePivots (K K' : Arithmetic α) : Prop :=
  ∀ x, K'.isPivot x = K.isPivot x

/-- Whether a pivot can be divided by does not depend on the context. -/
theorem DecimalFloat.samePivots (context context' : Context) :
    (DecimalFloat.arithmetic context).SamePivots (DecimalFloat.arithmetic context') :=
  fun _ => rfl

theorem Interval.samePivots {β : Type} [Endpoint β] (context context' : Context) :
    (Interval.arithmetic context : Arithmetic (Interval β)).SamePivots
      (Interval.arithmetic context') :=
  fun _ => rfl

/-- Solves with stored factors, in any arithmetic. A right-hand side of the wrong size is refused.
Otherwise the solve is refused at a pivot that is none, if there is one: at the last one by the
general and the tridiagonal solver, at the first one by the symmetric solver. Otherwise there is
an answer. Neither the right-hand side nor the entries beside the pivots nor the context make any
difference to this. -/
theorem stored_verdict (K : Arithmetic α) :
    (∀ {n k : ℕ} (factors : LUFactors α n) (b : Vector α k),
      Verdict .backSubstitution IsGreatest (fun i => K.isPivot (factors.upper.entry i i)) k
        (factors.solve K b)) ∧
    (∀ {n k : ℕ} (factors : LDLFactors α n) (b : Vector α k),
      Verdict .diagonalScaling IsLeast (fun i => K.isPivot (factors.diagonal.get i)) k
        (factors.solve K b)) ∧
    (∀ {n k : ℕ} (factors : TridiagonalFactors α n) (b : Vector α k),
      Verdict .backSubstitution IsGreatest (fun i => K.isPivot (factors.pivots.get i)) k
        (factors.solve K b)) ∧
    (∀ K' : Arithmetic α, K.SamePivots K' → ∀ {n k : ℕ} (b b' : Vector α k),
      (∀ factors factors' : LUFactors α n,
        (∀ i, factors'.upper.entry i i = factors.upper.entry i i) →
          SameOutcome (fun _ _ => True) (factors.solve K b) (factors'.solve K' b')) ∧
      (∀ factors factors' : LDLFactors α n, factors'.diagonal = factors.diagonal →
        SameOutcome (fun _ _ => True) (factors.solve K b) (factors'.solve K' b')) ∧
      ∀ factors factors' : TridiagonalFactors α n, factors'.pivots = factors.pivots →
        SameOutcome (fun _ _ => True) (factors.solve K b) (factors'.solve K' b')) ∧
    ∀ context context' : Context,
      (DecimalFloat.arithmetic context).SamePivots (DecimalFloat.arithmetic context') ∧
      ∀ {β : Type} [Endpoint β], (Interval.arithmetic context : Arithmetic (Interval β)).SamePivots
        (Interval.arithmetic context') := by
  refine ⟨LUFactors.solve_verdict, LDLFactors.solve_verdict, TridiagonalFactors.solve_verdict,
    fun K' same n k b b' => ⟨?general, ?symmetric, ?tridiagonal⟩,
    fun context context' => ⟨DecimalFloat.samePivots context context',
      Interval.samePivots context context'⟩⟩
  case general =>
    intro factors factors' stored
    have verdict := factors'.solve_verdict (K := K') b'
    simp only [same _, stored] at verdict
    exact (factors.solve_verdict b).sameOutcome names_isGreatest verdict
  case symmetric =>
    intro factors factors' stored
    have verdict := factors'.solve_verdict (K := K') b'
    simp only [same _, stored] at verdict
    exact (factors.solve_verdict b).sameOutcome names_isLeast verdict
  case tridiagonal =>
    intro factors factors' stored
    have verdict := factors'.solve_verdict (K := K') b'
    simp only [same _, stored] at verdict
    exact (factors.solve_verdict b).sameOutcome names_isGreatest verdict

/-- Of three pivots the first and the last are zero. Two contexts and quite different factors
lead to the same refusals. -/
theorem stored_verdict_zeros :
    let narrow := DecimalFloat.arithmetic ⟨1, 1, .single⟩
    let wide := DecimalFloat.arithmetic ⟨16, 16, .dual⟩
    let pivots : Vector DecimalFloat 3 := #v[.zero, .one, .zero]
    let b : Vector DecimalFloat 3 := #v[.one, .zero, .one]
    let symmetric : LDLFactors DecimalFloat 3 := ⟨.ofFn fun _ _ => .zero, pivots⟩
    let symmetric' : LDLFactors DecimalFloat 3 := ⟨.ofFn fun _ _ => .one, pivots⟩
    let banded : TridiagonalFactors DecimalFloat 2 := ⟨#v[.zero, .one], pivots, #v[.one, .one]⟩
    let banded' : TridiagonalFactors DecimalFloat 2 := ⟨#v[.one, .one], pivots, #v[.one, .zero]⟩
    narrow.SamePivots wide ∧
      symmetric.solve narrow b = .error (.singularPivot .diagonalScaling 0) ∧
      symmetric'.solve wide pivots = .error (.singularPivot .diagonalScaling 0) ∧
      banded.solve narrow b = .error (.singularPivot .backSubstitution 2) ∧
      banded'.solve wide pivots = .error (.singularPivot .backSubstitution 2) := by
  intro narrow wide pivots b symmetric symmetric' banded banded'
  obtain ⟨-, -, -, independent, contexts⟩ := stored_verdict narrow
  have same : narrow.SamePivots wide := (contexts ⟨1, 1, .single⟩ ⟨16, 16, .dual⟩).1
  obtain ⟨-, scaled, -⟩ := independent wide same b pivots
  obtain ⟨-, -, substituted⟩ := independent wide same b pivots
  have scaling := scaled symmetric symmetric' rfl
  have substitution := substituted banded banded' rfl
  have refused : symmetric.solve narrow b = .error (.singularPivot .diagonalScaling 0) := by
    decide +kernel
  have refused' : banded.solve narrow b = .error (.singularPivot .backSubstitution 2) := by
    decide +kernel
  rw [refused] at scaling
  rw [refused'] at substitution
  exact ⟨same, refused, scaling.of_error, refused', substitution.of_error⟩

end LinearEnclosure
