/-
# Rows of zeros

A row in which no entry may be divided by loses its first entry with every step of an
elimination, and what remains of it is such a row again: a quotient of a non-pivot is none, nor
is its product with anything, nor the difference of two of them. So the elimination ends at the
pivot of that row or before. This covers decimal numbers and intervals of both kinds.

Binary numbers are different. A zero times an infinity is not a number, and what is not a number
is divided by like any other pivot. Then the elimination goes on to its end, and the unknowns up
to that row are not numbers, which the status of the solution says. This takes an entry of the
upper factor, above the row, that is no longer finite.
-/

import LinearEnclosure.Proofs.Binary.Sign
import LinearEnclosure.Proofs.Decimal.Sign
import LinearEnclosure.Proofs.Decimal.Zero
import LinearEnclosure.Proofs.Solver.Stages

namespace LinearEnclosure

variable {α : Type} {n : ℕ} {K : Arithmetic α}

/-- A run fails at an index below a bound, unless its result has a property. -/
def FailsBefore {γ : Type} (bound : ℕ) (P : γ → Prop) : Except ℕ γ → Prop
  | .error index => index < bound
  | .ok result => P result

/-- A solve is refused at a pivot that is not behind a row. -/
def SingularBy {γ : Type} (r : ℕ) (run : Except SolverError γ) : Prop :=
  ∃ k ≤ r, run = .error (.singularPivot .decomposition k)

namespace FailsBefore

variable {γ : Type} {bound : ℕ} {P Q : γ → Prop} {run : Except ℕ γ}

theorem mono {bound' : ℕ} (fails : FailsBefore bound P run) (le : bound ≤ bound')
    (implies : ∀ result, P result → Q result) : FailsBefore bound' Q run := by
  cases run with
  | error index => exact lt_of_lt_of_le fails le
  | ok result => exact implies _ fails

/-- A step counts what comes behind it from one. -/
theorem step {A : DenseMatrix α (n + 1) (n + 1)} {P : LUFactors α n → Prop}
    {Q : LUFactors α (n + 1) → Prop} (pivot : K.isPivot (A.entry 0 0) = true)
    (behind : FailsBefore bound P
      (LUFactors.eliminate K (LUFactors.reduce K A (multipliers K A))))
    (next : ∀ lower (rest : LUFactors α n), P rest →
      Q ⟨lower, .bordered (A.entry 0 0) A.firstRow (.replicate n K.zero) rest.upper⟩) :
    FailsBefore (bound + 1) Q (LUFactors.eliminate K A) := by
  rw [LUFactors.eliminate_of_isPivot pivot]
  cases ran : LUFactors.eliminate K (LUFactors.reduce K A (multipliers K A)) with
  | error index =>
    rw [ran] at behind
    exact Nat.succ_lt_succ behind
  | ok rest =>
    rw [ran] at behind
    exact next _ rest behind

theorem of_corner {A : DenseMatrix α (n + 1) (n + 1)} {P : LUFactors α (n + 1) → Prop}
    (invalid : K.isPivot (A.entry 0 0) = false) (positive : 0 < bound) :
    FailsBefore bound P (LUFactors.eliminate K A) := by
  rw [LUFactors.eliminate_eq_error invalid]
  exact positive

theorem solve {A : DenseMatrix α (n + 1) (n + 1)} {r : ℕ} {P : LUFactors α (n + 1) → Prop}
    (fails : FailsBefore (r + 1) P (LUFactors.eliminate K A)) (b : Vector α (n + 1)) :
    SingularBy r (solveGeneral K A b) ∨
      ∃ solution, solveGeneral K A b = .ok solution ∧ P solution.factors := by
  cases eliminated : LUFactors.eliminate K A with
  | error k =>
    rw [eliminated] at fails
    exact .inl ⟨k, Nat.lt_succ_iff.mp fails,
      solveGeneral_eq_error_iff.mpr ⟨k, eliminated, rfl⟩⟩
  | ok factors =>
    rw [eliminated] at fails
    obtain ⟨solution, solved, rfl⟩ := exists_solveGeneral eliminated b
    exact .inr ⟨solution, solved, fails⟩

end FailsBefore

/-! ## Rows without pivots -/

/-- What is no pivot stays none, as long as nothing else is added to it. -/
structure Arithmetic.KeepsNonPivots (K : Arithmetic α) : Prop where
  quotient {x y : α} : K.isPivot x = false → K.isPivot y = true →
    K.isPivot (K.quotient x y) = false
  mul {x y : α} : K.isPivot x = false → K.isPivot (K.mul x y) = false
  sub {x y : α} : K.isPivot x = false → K.isPivot y = false → K.isPivot (K.sub x y) = false

namespace Arithmetic.KeepsNonPivots

theorem eliminate (keeps : K.KeepsNonPivots) {A : DenseMatrix α n n} {r : Fin n}
    (row : ∀ j, K.isPivot (A.entry r j) = false) :
    FailsBefore (r + 1) (fun _ => False) (LUFactors.eliminate K A) := by
  induction n with
  | zero => exact r.elim0
  | succ n ih =>
    cases pivot : K.isPivot (A.entry 0 0) with
    | false => exact .of_corner pivot r.val.succ_pos
    | true =>
      cases r using Fin.cases with
      | zero => simp [row] at pivot
      | succ r =>
        refine .step pivot (ih (r := r) ?_) fun _ _ => id
        intro j
        rw [LUFactors.reduce, DenseMatrix.entry_ofFn, get_multipliers]
        exact keeps.sub (row _) (keeps.mul (keeps.quotient (row _) pivot))

theorem solve (keeps : K.KeepsNonPivots) {A : DenseMatrix α (n + 1) (n + 1)} {r : Fin (n + 1)}
    (row : ∀ j, K.isPivot (A.entry r j) = false) (b : Vector α (n + 1)) :
    SingularBy r (solveGeneral K A b) := by
  obtain singular | ⟨_, -, impossible⟩ := (keeps.eliminate row).solve b
  · exact singular
  · exact impossible.elim

end Arithmetic.KeepsNonPivots

/-- What an operation makes of zero, at every precision, stays zero when it is rounded again. -/
theorem DecimalFloat.apply_eq_zero {operation : Direction → ℕ → Decimal → Decimal → Decimal}
    {direction : Direction} {precision : ℕ} {x y : DecimalFloat}
    (zero : ∀ digits, operation direction digits x.value y.value = Decimal.zero) :
    (apply operation direction precision x y).value = Decimal.zero := by
  simp [apply, withPrecision, zero]

theorem DecimalFloat.keepsNonPivots (context : Context) :
    (DecimalFloat.arithmetic context).KeepsNonPivots := by
  have zero (x : DecimalFloat) : (DecimalFloat.arithmetic context).isPivot x = false ↔
      x.value = Decimal.zero := by
    rw [← Decimal.isZero_iff_eq, arithmetic, Bool.not_eq_false']
  constructor
  case quotient =>
    intro x y dividend _
    rw [zero] at *
    apply apply_eq_zero
    simp [dividend]
  case mul =>
    intro x y factor
    rw [zero] at *
    apply apply_eq_zero
    simp [factor]
  case sub =>
    intro x y left right
    rw [zero] at *
    apply apply_eq_zero
    simp [DecimalFloat.neg, left, right]

theorem Interval.keepsNonPivots {β : Type} [Endpoint β] [Leveled β] [SignedRounding β]
    (context : Context) : (Interval.arithmetic (β := β) context).KeepsNonPivots where
  quotient dividend divisor := by
    simp only [Interval.arithmetic, Bool.not_eq_false', Bool.not_eq_true'] at *
    exact containsZero_quotient divisor dividend
  mul factor := by
    simp only [Interval.arithmetic, Bool.not_eq_false'] at *
    exact containsZero_mul _ factor
  sub left right := by
    simp only [Interval.arithmetic, Bool.not_eq_false'] at *
    exact containsZero_sub left right

/-! ## Rows with entries that are not numbers -/

/-- Factors with a pivot that is not a number, and an entry above its row that is not finite. -/
structure LUFactors.SpoiltBy {F : Format} (r : Fin n) (factors : LUFactors (Binary F) n) :
    Prop where
  pivot : factors.upper.entry r r = .nan
  cause : ∃ i < r, ∃ j, i ≤ j ∧ j ≤ r ∧ (factors.upper.entry i j).isFinite = false

/-- A step before the cause moves it, together with the pivot. -/
theorem LUFactors.SpoiltBy.succ {F : Format} {r : Fin n} {rest : LUFactors (Binary F) n}
    (spoilt : rest.SpoiltBy r) {lower : DenseMatrix (Binary F) (n + 1) (n + 1)}
    {corner : Binary F} {row column : Vector (Binary F) n} :
    SpoiltBy r.succ ⟨lower, .bordered corner row column rest.upper⟩ where
  pivot := by
    rw [DenseMatrix.entry_bordered_rest]
    exact spoilt.pivot
  cause := by
    obtain ⟨i, above, j, left, right, cause⟩ := spoilt.cause
    refine ⟨i.succ, Fin.succ_lt_succ_iff.mpr above, j.succ, Fin.succ_le_succ_iff.mpr left,
      Fin.succ_le_succ_iff.mpr right, ?_⟩
    rwa [DenseMatrix.entry_bordered_rest]

namespace Binary

open LUFactors

variable {F : Format}

section Step

variable {A : DenseMatrix (Binary F) (n + 1) (n + 1)} {r : Fin n}

theorem isPivot_of_eq_nan {x : Binary F} (spoilt : x = nan) : arithmetic.isPivot x = true := by
  rw [spoilt]
  rfl

/-- What remains of a row whose multiplier is not a number. -/
theorem reduce_of_multiplier {factors : Vector (Binary F) n} (multiplier : factors.get r = nan)
    (j : Fin n) : (reduce arithmetic A factors).entry r j = nan := by
  rw [reduce, DenseMatrix.entry_ofFn, multiplier]
  simp [arithmetic]

theorem multipliers_of_corner (corner : A.entry 0 0 = nan) (i : Fin n) :
    (multipliers arithmetic A).get i = nan := by
  rw [get_multipliers, corner]
  simp [arithmetic]

end Step

/-- A pivot that is not a number makes all later ones such, so none of them is refused. -/
theorem exists_eliminate_of_corner {A : DenseMatrix (Binary F) (n + 1) (n + 1)}
    (corner : A.entry 0 0 = nan) :
    ∃ factors, eliminate arithmetic A = .ok factors ∧ factors.upper.entry 0 0 = nan := by
  have pivot := isPivot_of_eq_nan corner
  induction n with
  | zero =>
    exact ⟨_, eliminate_succ_eq_ok_iff.mpr ⟨pivot, _, rfl, rfl⟩, by simpa using corner⟩
  | succ n ih =>
    have next := reduce_of_multiplier (A := A) (multipliers_of_corner corner 0) 0
    obtain ⟨rest, behind, -⟩ := ih next (isPivot_of_eq_nan next)
    exact ⟨_, eliminate_succ_eq_ok_iff.mpr ⟨pivot, rest, behind, rfl⟩, by simpa using corner⟩

/-- An entry up to the pivot of its row that is not a number makes that pivot such. -/
theorem eliminate_of_nan_entry {A : DenseMatrix (Binary F) n n} {r c : Fin n} (before : c ≤ r)
    (spoilt : A.entry r c = nan) :
    FailsBefore r (fun factors => factors.upper.entry r r = nan) (eliminate arithmetic A) := by
  induction n with
  | zero => exact r.elim0
  | succ n ih =>
    cases r using Fin.cases with
    | zero =>
      obtain rfl : c = 0 := Fin.le_zero_iff.mp before
      obtain ⟨factors, eliminated, pivot⟩ := exists_eliminate_of_corner spoilt
      rw [eliminated]
      exact pivot
    | succ r =>
      cases pivot : arithmetic.isPivot (A.entry 0 0) with
      | false => exact .of_corner pivot r.succ_pos
      | true =>
        have further :
            ∃ c ≤ r, (reduce arithmetic A (multipliers arithmetic A)).entry r c = nan := by
          cases c using Fin.cases with
          | zero =>
            refine ⟨r, le_rfl, reduce_of_multiplier ?_ r⟩
            rw [get_multipliers, spoilt]
            rfl
          | succ c =>
            refine ⟨c, Fin.succ_le_succ_iff.mp before, ?_⟩
            rw [reduce, DenseMatrix.entry_ofFn, spoilt]
            rfl
        obtain ⟨c, before, spoilt⟩ := further
        rw [Fin.val_succ]
        refine .step pivot (ih before spoilt) fun _ rest spoilt => ?_
        rwa [DenseMatrix.entry_bordered_rest]

/-- The row of zeros is spoilt in the first step, by an entry of the first row. -/
theorem eliminate_of_spoilt_step {A : DenseMatrix (Binary F) (n + 1) (n + 1)} {r c : Fin n}
    {j : Fin (n + 1)} (pivot : arithmetic.isPivot (A.entry 0 0) = true) (before : c ≤ r)
    (spoilt : (reduce arithmetic A (multipliers arithmetic A)).entry r c = nan)
    (within : j ≤ r.succ) (cause : (A.entry 0 j).isFinite = false) :
    FailsBefore (r.succ + 1) (SpoiltBy r.succ) (eliminate arithmetic A) := by
  have behind := (eliminate_of_nan_entry before spoilt).mono r.val.le_succ fun _ => id
  refine .step pivot behind fun _ rest pivot => ⟨?_, 0, r.succ_pos, j, j.zero_le, within, ?_⟩
  · rwa [DenseMatrix.entry_bordered_rest]
  · cases j using Fin.cases with
    | zero => simpa using cause
    | succ j => simpa using cause

/-- A row that is zero up to its pivot has no such pivot in the end, unless it was spoilt. -/
theorem eliminate_of_zeros {A : DenseMatrix (Binary F) n n} {r : Fin n}
    (zeros : ∀ j ≤ r, (A.entry r j).isZero = true) :
    FailsBefore (r + 1) (SpoiltBy r) (eliminate arithmetic A) := by
  induction n with
  | zero => exact r.elim0
  | succ n ih =>
    cases pivot : arithmetic.isPivot (A.entry 0 0) with
    | false => exact .of_corner pivot r.val.succ_pos
    | true =>
      cases r using Fin.cases with
      | zero => simp [arithmetic, zeros] at pivot
      | succ r =>
        by_cases corner : A.entry 0 0 = nan
        · exact eliminate_of_spoilt_step pivot le_rfl
            (reduce_of_multiplier (multipliers_of_corner corner r) r) (Fin.zero_le _)
            (by rw [corner]; rfl)
        have multiplier : ((multipliers arithmetic A).get r).isZero = true := by
          rw [get_multipliers]
          exact isZero_div (zeros 0 (Fin.zero_le _)) (by simpa [arithmetic] using pivot) corner
        by_cases finite : ∀ j ≤ r, (A.entry 0 j.succ).isFinite = true
        · -- Nothing is spoilt in this step, and the rest of the row is zero again.
          refine .step pivot (ih fun j before => ?_) fun _ rest spoilt => ?_
          · rw [reduce, DenseMatrix.entry_ofFn]
            exact isZero_sub (zeros _ (Fin.succ_le_succ_iff.mpr before))
              (isZero_mul multiplier (finite j before))
          · exact spoilt.succ
        · push Not at finite
          obtain ⟨j, before, infinite⟩ := finite
          rw [ne_eq, Bool.not_eq_true] at infinite
          have product : arithmetic.mul ((multipliers arithmetic A).get r) (A.entry 0 j.succ) =
              nan := mul_eq_nan multiplier infinite
          refine eliminate_of_spoilt_step pivot before ?_ (Fin.succ_le_succ_iff.mpr before) infinite
          rw [reduce, DenseMatrix.entry_ofFn, product]
          exact sub_nan _

/-! ## Unknowns that are not numbers -/

theorem subProducts_nan (terms : List (Binary F × Binary F)) :
    arithmetic.subProducts nan terms = nan := by
  induction terms with
  | nil => rfl
  | cons term terms ih => exact ih

theorem subProducts_of_mem {x a : Binary F} {terms : List (Binary F × Binary F)}
    (member : (a, nan) ∈ terms) : arithmetic.subProducts x terms = nan := by
  induction terms generalizing x with
  | nil => cases member
  | cons term terms ih =>
    rw [Arithmetic.subProducts, List.foldl_cons]
    rcases List.mem_cons.mp member with rfl | later
    · have spoilt : arithmetic.sub x (arithmetic.mul a nan) = nan := by simp [arithmetic]
      rw [spoilt]
      exact subProducts_nan terms
    · exact ih later

/-- A pivot that is not a number makes its unknown and all those before it such. -/
theorem backSubstitute_of_nan {U : DenseMatrix (Binary F) n n} {y x : Vector (Binary F) n}
    {r : Fin n} (pivot : U.entry r r = nan) (solved : backSubstitute arithmetic U y = .ok x) :
    ∀ i ≤ r, x.get i = nan := by
  induction n with
  | zero => exact r.elim0
  | succ n ih =>
    obtain ⟨rest, first, substituted, divided, rfl⟩ := backSubstitute_succ_eq_ok_iff.mp solved
    have quotient := (div?_eq_some_iff.mp divided).2
    cases r using Fin.cases with
    | zero =>
      intro i before
      obtain rfl : i = 0 := Fin.le_zero_iff.mp before
      rw [get_addFirst_zero, quotient, pivot]
      exact div_nan _
    | succ r =>
      have behind := ih (by rwa [DenseMatrix.entry_minor]) substituted
      intro i before
      cases i using Fin.cases with
      | zero =>
        have member : (U.firstRow.get r, nan) ∈ pairs U.firstRow rest :=
          List.mem_ofFn.mpr ⟨r, by rw [behind r le_rfl]⟩
        rw [get_addFirst_zero, quotient, subProducts_of_mem member]
        rfl
      | succ i =>
        rw [get_addFirst_succ]
        exact behind i (Fin.succ_le_succ_iff.mp before)

end Binary

theorem Status.of_eq_nonFinite_zero {x : Vector α (n + 1)} (first : K.isFinite (x.get 0) = false) :
    Status.of K x = .nonFinite 0 := by
  have found : x.findFinIdx? (fun value => !K.isFinite value) = some 0 := by
    rw [Vector.findFinIdx?, Option.map_eq_some_iff]
    refine ⟨⟨0, by simp⟩, Array.findFinIdx?_eq_some_iff.mpr ?_, rfl⟩
    exact ⟨congrArg Bool.not first, fun j before => absurd before (Nat.not_lt_zero _)⟩
  simp [Status.of, firstNonFinite, found]

/-- A solution that says that its first unknown is not finite. The unknowns up to a row are not
numbers, and an entry of the upper factor above that row is not finite. -/
structure GeneralSolution.SpoiltBy {F : Format} (r : Fin n)
    (solution : GeneralSolution (Binary F) n) : Prop where
  status : solution.status = .nonFinite 0
  unknowns : ∀ i ≤ r, solution.x.get i = .nan
  factors : solution.factors.SpoiltBy r

theorem Binary.solve_of_zeros {F : Format} {A : DenseMatrix (Binary F) (n + 1) (n + 1)}
    {r : Fin (n + 1)} (zeros : ∀ j, (A.entry r j).isZero = true)
    (b : Vector (Binary F) (n + 1)) :
    SingularBy r (solveGeneral arithmetic A b) ∨
      ∃ solution, solveGeneral arithmetic A b = .ok solution ∧ solution.SpoiltBy r := by
  obtain singular | ⟨solution, solved, spoilt⟩ :=
    (eliminate_of_zeros fun j _ => zeros j).solve b
  · exact .inl singular
  · obtain ⟨-, -, -, substituted, status⟩ := solveGeneral_eq_ok_iff.mp solved
    have unknowns := backSubstitute_of_nan spoilt.pivot substituted
    refine .inr ⟨solution, solved, ?_, unknowns, spoilt⟩
    rw [status]
    apply Status.of_eq_nonFinite_zero
    rw [unknowns 0 (Fin.zero_le _)]
    rfl

/-! ## Zero rows in every arithmetic -/

/-- A row of zeros is found by a refused pivot. Binary numbers have to stay finite for this: else
the solution says that it is not finite. -/
theorem zeroRow_reported (r : Fin (n + 1)) :
    (∀ (A : DenseMatrix Double (n + 1) (n + 1)) (b : Vector Double (n + 1)),
      (∀ j, (A.entry r j).isZero = true) →
        SingularBy r (solveGeneral Binary.arithmetic A b) ∨
          ∃ solution, solveGeneral Binary.arithmetic A b = .ok solution ∧ solution.SpoiltBy r) ∧
    (∀ context (A : DenseMatrix DecimalFloat (n + 1) (n + 1)) (b : Vector DecimalFloat (n + 1)),
      (∀ j, (A.entry r j).value.isZero = true) →
        SingularBy r (solveGeneral (DecimalFloat.arithmetic context) A b)) ∧
    (∀ context (A : DenseMatrix (Interval Double) (n + 1) (n + 1))
      (b : Vector (Interval Double) (n + 1)), (∀ j, (A.entry r j).containsZero = true) →
        SingularBy r (solveGeneral (Interval.arithmetic context) A b)) ∧
    ∀ context (A : DenseMatrix (Interval DecimalFloat) (n + 1) (n + 1))
      (b : Vector (Interval DecimalFloat) (n + 1)), (∀ j, (A.entry r j).containsZero = true) →
        SingularBy r (solveGeneral (Interval.arithmetic context) A b) := by
  refine ⟨fun A b zeros => Binary.solve_of_zeros zeros b, ?decimal, ?doubles, ?decimals⟩
  case decimal =>
    intro context A b zeros
    apply (DecimalFloat.keepsNonPivots context).solve
    simpa [DecimalFloat.arithmetic] using zeros
  case doubles =>
    intro context A b zeros
    apply (Interval.keepsNonPivots context).solve
    simpa [Interval.arithmetic] using zeros
  case decimals =>
    intro context A b zeros
    apply (Interval.keepsNonPivots context).solve
    simpa [Interval.arithmetic] using zeros

/-- Two equations with nothing but a one in the corner. -/
def unitCorner (K : Arithmetic α) : DenseMatrix α 2 2 :=
  .ofFn ![![K.one, K.zero], ![K.zero, K.zero]]

/-- Sixteen digits, rounded outward. -/
def sixteenDigits : Context := ⟨16, 16, .dual⟩

theorem zeroRow_reported_unitCorner :
    ((∀ j, ((unitCorner (α := Double) Binary.arithmetic).entry 1 j).isZero = true) ∧
      SingularBy 1 (solveGeneral (α := Double) Binary.arithmetic (unitCorner Binary.arithmetic)
        #v[Binary.one, Binary.zero])) ∧
    ((∀ j, ((unitCorner (DecimalFloat.arithmetic sixteenDigits)).entry 1 j).value.isZero = true) ∧
      SingularBy 1 (solveGeneral (DecimalFloat.arithmetic sixteenDigits) (unitCorner
        (DecimalFloat.arithmetic sixteenDigits)) #v[DecimalFloat.one, DecimalFloat.zero])) ∧
    ((∀ j, ((unitCorner (α := Interval Double) (Interval.arithmetic sixteenDigits)).entry 1
        j).containsZero = true) ∧
      SingularBy 1 (solveGeneral (α := Interval Double) (Interval.arithmetic sixteenDigits)
        (unitCorner (Interval.arithmetic sixteenDigits)) #v[Interval.one, Interval.zero])) ∧
    (∀ j, ((unitCorner (α := Interval DecimalFloat) (Interval.arithmetic sixteenDigits)).entry 1
        j).containsZero = true) ∧
      SingularBy 1 (solveGeneral (α := Interval DecimalFloat) (Interval.arithmetic sixteenDigits)
        (unitCorner (Interval.arithmetic sixteenDigits)) #v[Interval.one, Interval.zero]) := by
  obtain ⟨binary, decimal, doubles, decimals⟩ := zeroRow_reported (1 : Fin 2)
  refine ⟨⟨by decide +kernel, (binary _ _ (by decide +kernel)).resolve_right ?_⟩,
    ⟨by decide +kernel, decimal _ _ _ (by decide +kernel)⟩,
    ⟨by decide +kernel, doubles _ _ _ (by decide +kernel)⟩,
    by decide +kernel, decimals _ _ _ (by decide +kernel)⟩
  rintro ⟨solution, solved, -⟩
  have refused : (solveGeneral (α := Double) Binary.arithmetic (unitCorner Binary.arithmetic)
    #v[Binary.one, Binary.zero]).isOk = false := by decide +kernel
  rw [solved] at refused
  cases refused

/-- Three equations in finite numbers, the last of them zero. The quotient of the first column
is beyond the finite numbers. -/
def overflowingTriple : DenseMatrix Double 3 3 :=
  let small := Binary.ofDecimal (Decimal.of 1 (-300))
  let large := Binary.ofDecimal (Decimal.of 1 300)
  .ofFn ![![small, Binary.one, Binary.one], ![large, Binary.one, Binary.one],
    ![Binary.zero, Binary.zero, Binary.zero]]

theorem overflowingTriple_solved :
    (∀ i j, (overflowingTriple.entry i j).isFinite = true) ∧
    (∀ j, (overflowingTriple.entry 2 j).isZero = true) ∧
    ¬SingularBy 2 (solveGeneral Binary.arithmetic overflowingTriple (.replicate 3 Binary.one)) ∧
    ∃ solution, solveGeneral Binary.arithmetic overflowingTriple (.replicate 3 Binary.one) =
      .ok solution ∧ ∀ i, solution.x.get i = .nan := by
  obtain ⟨solution, solved⟩ := exists_of_isOk (r := solveGeneral Binary.arithmetic
    overflowingTriple (.replicate 3 Binary.one)) (by decide +kernel)
  have unknowns : (solveGeneral Binary.arithmetic overflowingTriple
      (.replicate 3 Binary.one)).toOption.map (·.x) = some (.replicate 3 .nan) := by
    decide +kernel
  refine ⟨by decide +kernel, by decide +kernel, ?_, solution, solved, ?_⟩
  · rintro ⟨k, -, singular⟩
    rw [solved] at singular
    cases singular
  · rw [solved] at unknowns
    have same : solution.x = .replicate 3 .nan := Option.some.inj unknowns
    intro i
    rw [same]
    exact Vector.getElem_replicate i.isLt

end LinearEnclosure
