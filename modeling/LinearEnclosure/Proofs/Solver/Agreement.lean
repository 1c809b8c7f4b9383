/-
# Solvers that agree

A simulation follows the runs that succeed. Two arithmetics agree if they accept the same
pivots as well, and then the second solver also fails where the first one fails, with the
same index. `SameOutcome` is what can be said of two such runs: both fail for the same
reason, or both succeed with related results.
-/

import LinearEnclosure.Proofs.Solver.Simulation

namespace LinearEnclosure

/-- Both runs fail for the same reason, or both succeed with related results. -/
inductive SameOutcome {ε β γ : Type} (R : β → γ → Prop) : Except ε β → Except ε γ → Prop
  | error (cause : ε) : SameOutcome R (.error cause) (.error cause)
  | ok {x : β} {y : γ} : R x y → SameOutcome R (.ok x) (.ok y)

namespace SameOutcome

variable {ε ε' β γ δ β' γ' : Type} {R : β → γ → Prop} {S : β' → γ' → Prop}
  {r : Except ε β} {r' : Except ε γ} {r'' : Except ε δ}

theorem map {f : β → β'} {g : γ → γ'} (first : SameOutcome R r r')
    (next : ∀ x y, R x y → S (f x) (g y)) : SameOutcome S (r.map f) (r'.map g) := by
  cases first with
  | error cause => exact .error cause
  | ok related => exact .ok (next _ _ related)

theorem mono {S : β → γ → Prop} (same : SameOutcome R r r') (implies : ∀ x y, R x y → S x y) :
    SameOutcome S r r' := by
  cases same with
  | error cause => exact .error cause
  | ok related => exact .ok (implies _ _ related)

theorem trans {Q : γ → δ → Prop} {T : β → δ → Prop} (first : SameOutcome R r r')
    (second : SameOutcome Q r' r'') (chain : ∀ x y z, R x y → Q y z → T x z) :
    SameOutcome T r r'' := by
  cases first with
  | error cause =>
    cases second
    exact .error cause
  | ok left =>
    cases second with
    | ok right => exact .ok (chain _ _ _ left right)

theorem mapError (f : ε → ε') (same : SameOutcome R r r') :
    SameOutcome R (r.mapError f) (r'.mapError f) := by
  cases same with
  | error cause => exact .error (f cause)
  | ok related => exact .ok related

theorem of_error {cause : ε} (same : SameOutcome R (.error cause) r') : r' = .error cause := by
  cases same
  rfl

theorem to_error {cause : ε} (same : SameOutcome R r (.error cause)) : r = .error cause := by
  cases same
  rfl

theorem of_ok {x : β} (same : SameOutcome R (.ok x) r') : ∃ y, r' = .ok y ∧ R x y := by
  cases same with
  | ok related => exact ⟨_, rfl, related⟩

/-- Runs that agree up to equality are the same run. -/
theorem eq {r r' : Except ε β} (same : SameOutcome Eq r r') : r = r' := by
  cases same with
  | error cause => rfl
  | ok equal => rw [equal]

end SameOutcome

variable {α β : Type} {n : ℕ} {K : Arithmetic α} {K' : Arithmetic β} {R : α → β → Prop}

theorem VectorRel.eq {xs ys : Vector α n} (same : VectorRel Eq xs ys) : xs = ys :=
  ext_get same

theorem MatrixRel.eq {m : ℕ} {A B : DenseMatrix α m n} (same : MatrixRel Eq A B) : A = B :=
  DenseMatrix.ext_entry same

/-! ## One step that fails -/

theorem LUFactors.eliminate_succ_eq_error_iff {A : DenseMatrix α (n + 1) (n + 1)} {k : ℕ} :
    eliminate K A = .error k ↔
      K.isPivot (A.entry 0 0) = false ∧ k = 0 ∨
        K.isPivot (A.entry 0 0) = true ∧
          ∃ j, eliminate K (reduce K A (multipliers K A)) = .error j ∧ k = j + 1 := by
  rw [eliminate, ← multipliers]
  by_cases pivot : K.isPivot (A.entry 0 0) = true
  · simp only [pivot, if_true, true_and]
    cases eliminate K (reduce K A (multipliers K A)) with
    | error index => simp [eq_comm]
    | ok rest => simp
  · simp [pivot, eq_comm]

theorem LDLFactors.eliminate_succ_eq_error_iff {A : DenseMatrix α (n + 1) (n + 1)} {k : ℕ} :
    eliminate K A = .error k ↔
      K.isPivot (A.entry 0 0) = false ∧ k = 0 ∨
        K.isPivot (A.entry 0 0) = true ∧
          ∃ j, eliminate K (reduce K A (multipliers K A)
            ((multipliers K A).map fun l => K.mul l (A.entry 0 0))) = .error j ∧ k = j + 1 := by
  rw [eliminate, ← multipliers]
  by_cases pivot : K.isPivot (A.entry 0 0) = true
  · simp only [pivot, if_true, true_and]
    cases eliminate K (reduce K A (multipliers K A)
        ((multipliers K A).map fun l => K.mul l (A.entry 0 0))) with
    | error index => simp [eq_comm]
    | ok rest => simp
  · simp [pivot, eq_comm]

/-! ## Agreement -/

/-- A simulation in which the second arithmetic accepts no further pivots. -/
structure Arithmetic.Agrees (K : Arithmetic α) (K' : Arithmetic β) (R : α → β → Prop) : Prop
    extends K.Simulates K' R where
  refuses {x : α} {x' : β} : R x x' → K.isPivot x = false → K'.isPivot x' = false

namespace Arithmetic.Agrees

variable (agrees : K.Agrees K' R)
include agrees

theorem eliminateGeneral_error {A : DenseMatrix α n n} {A' : DenseMatrix β n n} {k : ℕ}
    (entries : MatrixRel R A A') (failed : LUFactors.eliminate K A = .error k) :
    LUFactors.eliminate K' A' = .error k := by
  induction n generalizing k with
  | zero => cases failed
  | succ n ih =>
    rw [LUFactors.eliminate_succ_eq_error_iff] at failed ⊢
    obtain ⟨invalid, rfl⟩ | ⟨pivot, j, behind, rfl⟩ := failed
    · exact .inl ⟨agrees.refuses (entries 0 0) invalid, rfl⟩
    · have column := agrees.multipliers (fun i => entries i 0) pivot
      exact .inr ⟨agrees.isPivot (entries 0 0) pivot, j,
        ih (agrees.reduceGeneral entries column) behind, rfl⟩

theorem eliminateGeneral_sameOutcome {A : DenseMatrix α n n} {A' : DenseMatrix β n n}
    (entries : MatrixRel R A A') :
    SameOutcome (fun factors factors' => MatrixRel R factors.lower factors'.lower ∧
      MatrixRel R factors.upper factors'.upper)
      (LUFactors.eliminate K A) (LUFactors.eliminate K' A') := by
  cases factored : LUFactors.eliminate K A with
  | error k =>
    rw [agrees.eliminateGeneral_error entries factored]
    exact .error k
  | ok factors =>
    obtain ⟨factors', factored', related⟩ := agrees.eliminateGeneral entries factored
    rw [factored']
    exact .ok related

theorem eliminateSymmetric_error {A : DenseMatrix α n n} {A' : DenseMatrix β n n} {k : ℕ}
    (entries : LowerRel R A A') (failed : LDLFactors.eliminate K A = .error k) :
    LDLFactors.eliminate K' A' = .error k := by
  induction n generalizing k with
  | zero => cases failed
  | succ n ih =>
    have corner := entries 0 0 le_rfl
    rw [LDLFactors.eliminate_succ_eq_error_iff] at failed ⊢
    obtain ⟨invalid, rfl⟩ | ⟨pivot, j, behind, rfl⟩ := failed
    · exact .inl ⟨agrees.refuses corner invalid, rfl⟩
    · have column := agrees.multipliers (fun i => entries i 0 (Fin.zero_le i)) pivot
      have weights := column.map fun _ _ related => agrees.mul related corner
      exact .inr ⟨agrees.isPivot corner pivot, j,
        ih (agrees.reduceSymmetric entries column weights) behind, rfl⟩

theorem eliminateSymmetric_sameOutcome {A : DenseMatrix α n n} {A' : DenseMatrix β n n}
    (entries : LowerRel R A A') :
    SameOutcome (fun factors factors' => MatrixRel R factors.lower factors'.lower ∧
      VectorRel R factors.diagonal factors'.diagonal)
      (LDLFactors.eliminate K A) (LDLFactors.eliminate K' A') := by
  cases factored : LDLFactors.eliminate K A with
  | error k =>
    rw [agrees.eliminateSymmetric_error entries factored]
    exact .error k
  | ok factors =>
    obtain ⟨factors', factored', related⟩ := agrees.eliminateSymmetric entries factored
    rw [factored']
    exact .ok related

end Arithmetic.Agrees

/-! ## Exact arithmetics

An exact arithmetic agrees with its field up to equality. What a solver does with it is what
the solver does over the field. -/

namespace Arithmetic.IsExact

variable {F : Type} [Field F] {K : Arithmetic F} (isExact : K.IsExact)
include isExact

theorem agrees : K.Agrees (.ofField F) Eq where
  zero := isExact.zero
  one := isExact.one
  add := by
    rintro x y _ _ rfl rfl
    exact isExact.add x y
  sub := by
    rintro x y _ _ rfl rfl
    exact isExact.sub x y
  mul := by
    rintro x y _ _ rfl rfl
    exact isExact.mul x y
  isPivot := by
    rintro x _ rfl pivot
    rwa [ofField_isPivot, ← isExact.isPivot]
  quotient := by
    rintro x y _ _ rfl rfl pivot
    exact isExact.quotient x ((isExact.isPivot y).mp pivot)
  refuses := by
    rintro x _ rfl invalid
    rwa [← Bool.not_eq_true, ofField_isPivot, ← isExact.isPivot, Bool.not_eq_true]

theorem eliminateGeneral_eq (A : DenseMatrix F n n) :
    LUFactors.eliminate K A = LUFactors.eliminate (.ofField F) A := by
  have same := isExact.agrees.eliminateGeneral_sameOutcome (A := A) fun _ _ => rfl
  apply SameOutcome.eq
  apply same.mono
  rintro factors factors' ⟨left, right⟩
  exact congrArg₂ LUFactors.mk left.eq right.eq

theorem eliminateSymmetric_eq (A : DenseMatrix F n n) :
    LDLFactors.eliminate K A = LDLFactors.eliminate (.ofField F) A := by
  have same := isExact.agrees.eliminateSymmetric_sameOutcome (A := A) fun _ _ _ => rfl
  apply SameOutcome.eq
  apply same.mono
  rintro factors factors' ⟨left, right⟩
  exact congrArg₂ LDLFactors.mk left.eq right.eq

theorem forwardSubstitute_eq (L : DenseMatrix F n n) (b : Vector F n) :
    forwardSubstitute K L b = forwardSubstitute (.ofField F) L b :=
  (isExact.agrees.forwardSubstitute (fun _ _ => rfl) fun _ => rfl).eq

theorem backSubstitute_eq_ok {U : DenseMatrix F n n} {y x : Vector F n}
    (solved : backSubstitute K U y = .ok x) : backSubstitute (.ofField F) U y = .ok x := by
  obtain ⟨x', solved', same⟩ :=
    isExact.agrees.backSubstitute (fun _ _ => rfl) (fun _ => rfl) solved
  rw [solved', VectorRel.eq same]

theorem backSubstituteTransposed_eq (L : DenseMatrix F n n) (z : Vector F n) :
    backSubstituteTransposed K L z = backSubstituteTransposed (.ofField F) L z :=
  (isExact.agrees.backSubstituteTransposed (fun _ _ => rfl) fun _ => rfl).eq

theorem scaleByDiagonal_eq_ok {d y z : Vector F n} (scaled : scaleByDiagonal K d y = .ok z) :
    scaleByDiagonal (.ofField F) d y = .ok z := by
  obtain ⟨z', scaled', same⟩ :=
    isExact.agrees.scaleByDiagonal (fun _ => rfl) (fun _ => rfl) scaled
  rw [scaled', VectorRel.eq same]

end Arithmetic.IsExact

end LinearEnclosure
