/-
# Factors of leading blocks

Elimination without exchanges of rows works its way down the diagonal. What it has computed up to
some row and column depends on the entries up to there, rounding included, so a leading block of a
matrix goes through the same values as the whole: its factors are the leading blocks of the
factors, and it is refused at the same pivot, unless that pivot lies outside of the block.

No step looks ahead, whatever the arithmetic. The induction follows the elimination: the first row
and column of a block are those of the matrix, cut off, and what remains of the block is the
leading block of what remains.
-/

import LinearEnclosure.Proofs.Solver.Outcomes

namespace LinearEnclosure

variable {α : Type} {m n : ℕ} {K : Arithmetic α}

/-! ## Cutting off -/

/-- The first `m` entries of a vector. -/
def leadingEntries (fits : m ≤ n) (xs : Vector α n) : Vector α m :=
  .ofFn fun i => xs.get (i.castLE fits)

/-- The first `m` rows and columns of a square matrix. -/
def DenseMatrix.leading (fits : m ≤ n) (A : DenseMatrix α n n) : DenseMatrix α m m :=
  .ofFn fun i j => A.entry (i.castLE fits) (j.castLE fits)

def LUFactors.leading (fits : m ≤ n) (factors : LUFactors α n) : LUFactors α m :=
  ⟨factors.lower.leading fits, factors.upper.leading fits⟩

def LDLFactors.leading (fits : m ≤ n) (factors : LDLFactors α n) : LDLFactors α m :=
  ⟨factors.lower.leading fits, leadingEntries fits factors.diagonal⟩

/-- The factors of the first `m + 1` rows. -/
def TridiagonalFactors.leading (fits : m ≤ n) (factors : TridiagonalFactors α n) :
    TridiagonalFactors α m :=
  ⟨leadingEntries fits factors.multipliers,
    leadingEntries (Nat.succ_le_succ fits) factors.pivots, leadingEntries fits factors.sup⟩

/-- The bands of the first `m + 1` rows. -/
def Bands.leading (fits : m ≤ n) (bands : Bands α n) : Bands α m :=
  ⟨leadingEntries fits bands.sub, leadingEntries (Nat.succ_le_succ fits) bands.diag,
    leadingEntries fits bands.sup⟩

section Cutting

variable (fits : m ≤ n)

@[simp] theorem get_leadingEntries (xs : Vector α n) (i : Fin m) :
    (leadingEntries fits xs).get i = xs.get (i.castLE fits) :=
  Vector.get_ofFn ..

@[simp] theorem DenseMatrix.entry_leading (A : DenseMatrix α n n) (i j : Fin m) :
    (A.leading fits).entry i j = A.entry (i.castLE fits) (j.castLE fits) :=
  entry_ofFn ..

theorem leadingEntries_replicate (x : α) :
    leadingEntries fits (.replicate n x) = .replicate m x := by
  apply ext_get
  simp

theorem leadingEntries_map (f : α → α) (xs : Vector α n) :
    leadingEntries fits (xs.map f) = (leadingEntries fits xs).map f := by
  apply ext_get
  simp

theorem dropFirst_leadingEntries (xs : Vector α (n + 1)) :
    dropFirst (leadingEntries (Nat.succ_le_succ fits) xs) = leadingEntries fits (dropFirst xs) := by
  apply ext_get
  simp

theorem leadingEntries_addFirst (x : α) (xs : Vector α n) :
    leadingEntries (Nat.succ_le_succ fits) (addFirst x xs) =
      addFirst x (leadingEntries fits xs) := by
  apply ext_get
  intro i
  cases i using Fin.cases with
  | zero => simp
  | succ i => simp

theorem DenseMatrix.leading_bordered (corner : α) (row column : Vector α n)
    (rest : DenseMatrix α n n) :
    (bordered corner row column rest).leading (Nat.succ_le_succ fits) =
      bordered corner (leadingEntries fits row) (leadingEntries fits column)
        (rest.leading fits) := by
  apply ext_entry
  apply forall_bordered <;> simp

theorem DenseMatrix.firstRow_leading (A : DenseMatrix α (n + 1) (n + 1)) :
    (A.leading (Nat.succ_le_succ fits)).firstRow = leadingEntries fits A.firstRow := by
  apply ext_get
  simp

theorem multipliers_leading (A : DenseMatrix α (n + 1) (n + 1)) :
    multipliers K (A.leading (Nat.succ_le_succ fits)) = leadingEntries fits (multipliers K A) := by
  apply ext_get
  simp

/-- What remains of a block is the leading block of what remains. -/
theorem LUFactors.reduce_leading (A : DenseMatrix α (n + 1) (n + 1)) (multipliers : Vector α n) :
    reduce K (A.leading (Nat.succ_le_succ fits)) (leadingEntries fits multipliers) =
      (reduce K A multipliers).leading fits := by
  apply DenseMatrix.ext_entry
  simp [reduce]

theorem LDLFactors.reduce_leading (A : DenseMatrix α (n + 1) (n + 1))
    (multipliers weights : Vector α n) :
    reduce K (A.leading (Nat.succ_le_succ fits)) (leadingEntries fits multipliers)
        (leadingEntries fits weights) =
      (reduce K A multipliers weights).leading fits := by
  apply DenseMatrix.ext_entry
  simp [reduce]

end Cutting

/-! ## Runs on a leading block -/

/-- How a run on the first `m` rows ends, beside the run on all of them: with what that one finds,
cut off, or in the same failure, unless this lies behind the block. -/
inductive Precedes {ε σ τ : Type} (m : ℕ) (fault : ℕ → ε) (cut : σ → τ) :
    Except ε τ → Except ε σ → Prop
  | complete (found : σ) : Precedes m fault cut (.ok (cut found)) (.ok found)
  | inside {k : ℕ} : k < m → Precedes m fault cut (.error (fault k)) (.error (fault k))
  | beyond {k : ℕ} (found : τ) : m ≤ k → Precedes m fault cut (.ok found) (.error (fault k))

theorem Precedes.mapError {ε σ τ : Type} {cut : σ → τ} {part : Except ℕ τ} {whole : Except ℕ σ}
    (precedes : Precedes m id cut part whole) (fault : ℕ → ε) :
    Precedes m fault cut (part.mapError fault) (whole.mapError fault) := by
  cases precedes with
  | complete found => exact .complete found
  | inside within => exact .inside within
  | beyond found behind => exact .beyond found behind

theorem Precedes.map {ε σ τ σ' τ' : Type} {fault : ℕ → ε} {cut : σ → τ} {cut' : σ' → τ'}
    {part : Except ε τ} {whole : Except ε σ} (precedes : Precedes m fault cut part whole)
    {f : τ → τ'} {g : σ → σ'} (same : ∀ found, f (cut found) = cut' (g found)) :
    Precedes m fault cut' (part.map f) (whole.map g) := by
  cases precedes with
  | complete found =>
    show Precedes m fault cut' (.ok (f (cut found))) (.ok (g found))
    rw [same]
    exact .complete (g found)
  | inside within => exact .inside within
  | beyond found behind => exact .beyond (f found) behind

/-- One row more is put in front of both. -/
theorem Precedes.step {σ τ σ' τ' : Type} {cut : σ → τ} {cut' : σ' → τ'} {part : Except ℕ τ}
    {whole : Except ℕ σ} (precedes : Precedes m id cut part whole) {f : τ → τ'} {g : σ → σ'}
    (same : ∀ found, f (cut found) = cut' (g found)) :
    Precedes (m + 1) id cut' ((part.mapError (· + 1)).map f) ((whole.mapError (· + 1)).map g) := by
  have shifted : Precedes (m + 1) id cut (part.mapError (· + 1)) (whole.mapError (· + 1)) := by
    cases precedes with
    | complete found => exact .complete found
    | inside within => exact .inside (Nat.succ_lt_succ within)
    | beyond found behind => exact .beyond found (Nat.succ_le_succ behind)
  exact shifted.map same

/-- No rows are factored by any elimination. -/
theorem precedes_zero {σ τ : Type} {cut : σ → τ} {found : τ} (only : ∀ other, found = other)
    (whole : Except ℕ σ) : Precedes 0 id cut (.ok found) whole := by
  cases whole with
  | error k => exact .beyond found (Nat.zero_le k)
  | ok factors =>
    rw [only (cut factors)]
    exact .complete factors

theorem LUFactors.eliminate_leading (fits : m ≤ n) (A : DenseMatrix α n n) :
    Precedes m id (leading fits) (eliminate K (A.leading fits)) (eliminate K A) := by
  induction m generalizing n with
  | zero =>
    rw [eliminate]
    apply precedes_zero
    rintro ⟨lower, upper⟩
    exact congrArg₂ mk (DenseMatrix.ext_entry fun i => i.elim0)
      (DenseMatrix.ext_entry fun i => i.elim0)
  | succ m ih =>
    cases n with
    | zero => exact absurd fits (Nat.not_succ_le_zero m)
    | succ n =>
    have fits' : m ≤ n := Nat.le_of_succ_le_succ fits
    have corner : (A.leading fits).entry 0 0 = A.entry 0 0 := A.entry_leading fits 0 0
    cases pivot : K.isPivot (A.entry 0 0) with
    | false =>
      rw [eliminate_eq_error pivot, eliminate_eq_error (corner ▸ pivot)]
      exact .inside m.succ_pos
    | true =>
      rw [eliminate_of_isPivot pivot, eliminate_of_isPivot (corner ▸ pivot),
        multipliers_leading fits', reduce_leading fits']
      apply (ih fits' _).step
      intro found
      simp only [leading, DenseMatrix.leading_bordered fits', leadingEntries_replicate,
        DenseMatrix.firstRow_leading fits', corner]

theorem LDLFactors.eliminate_leading (fits : m ≤ n) (A : DenseMatrix α n n) :
    Precedes m id (leading fits) (eliminate K (A.leading fits)) (eliminate K A) := by
  induction m generalizing n with
  | zero =>
    rw [eliminate]
    apply precedes_zero
    rintro ⟨lower, diagonal⟩
    exact congrArg₂ mk (DenseMatrix.ext_entry fun i => i.elim0) (ext_get fun i => i.elim0)
  | succ m ih =>
    cases n with
    | zero => exact absurd fits (Nat.not_succ_le_zero m)
    | succ n =>
    have fits' : m ≤ n := Nat.le_of_succ_le_succ fits
    have corner : (A.leading fits).entry 0 0 = A.entry 0 0 := A.entry_leading fits 0 0
    cases pivot : K.isPivot (A.entry 0 0) with
    | false =>
      rw [eliminate_eq_error pivot, eliminate_eq_error (corner ▸ pivot)]
      exact .inside m.succ_pos
    | true =>
      rw [eliminate_of_isPivot pivot, eliminate_of_isPivot (corner ▸ pivot),
        multipliers_leading fits', corner, ← leadingEntries_map, reduce_leading fits']
      apply (ih fits' _).step
      intro found
      simp only [leading, DenseMatrix.leading_bordered fits', leadingEntries_replicate,
        leadingEntries_addFirst fits']

namespace TridiagonalFactors

/-- A sweep along no bands only tests its first pivot. -/
theorem precedes_sweep_zero (fits : 0 ≤ n) {p : α} (valid : K.isPivot p = true)
    (sub diag sup : Vector α n) :
    Precedes 1 id
      (fun swept => (leadingEntries fits swept.1, leadingEntries (Nat.succ_le_succ fits) swept.2))
      (.ok (noEntries, #v[p])) (sweep K p sub diag sup) := by
  have single (pivots : Vector α n) :
      leadingEntries (Nat.succ_le_succ fits) (addFirst p pivots) = #v[p] := by
    rw [leadingEntries_addFirst fits]
    exact ext_get (Fin.forall_fin_one.mpr (get_addFirst_zero ..))
  have none (xs ys : Vector α 0) : xs = ys := ext_get fun i => i.elim0
  cases n with
  | zero =>
    rw [sweep, if_pos valid]
    exact .complete (noEntries, #v[p])
  | succ n =>
    rw [sweep_of_isPivot valid]
    generalize sweep K _ (dropFirst sub) (dropFirst diag) (dropFirst sup) = swept
    have nothing : Precedes 0 id (fun _ => ()) (.ok ()) swept := precedes_zero (fun _ => rfl) swept
    exact nothing.step (f := fun _ => (noEntries, #v[p]))
      fun found => Prod.ext (none _ _) (single found.2).symm

theorem sweep_leading (fits : m ≤ n) (p : α) (sub diag sup : Vector α n) :
    Precedes (m + 1) id
      (fun swept => (leadingEntries fits swept.1, leadingEntries (Nat.succ_le_succ fits) swept.2))
      (sweep K p (leadingEntries fits sub) (leadingEntries fits diag) (leadingEntries fits sup))
      (sweep K p sub diag sup) := by
  induction m generalizing n p with
  | zero =>
    cases valid : K.isPivot p with
    | false =>
      rw [sweep_eq_error valid, sweep_eq_error valid]
      exact .inside one_pos
    | true =>
      rw [sweep, if_pos valid]
      exact precedes_sweep_zero fits valid sub diag sup
  | succ m ih =>
    cases n with
    | zero => exact absurd fits (Nat.not_succ_le_zero m)
    | succ n =>
    have fits' : m ≤ n := Nat.le_of_succ_le_succ fits
    cases valid : K.isPivot p with
    | false =>
      rw [sweep_eq_error valid, sweep_eq_error valid]
      exact .inside (m + 1).succ_pos
    | true =>
      rw [sweep_of_isPivot valid, sweep_of_isPivot valid, dropFirst_leadingEntries fits',
        dropFirst_leadingEntries fits', dropFirst_leadingEntries fits', get_leadingEntries,
        get_leadingEntries, get_leadingEntries]
      apply (ih fits' _ _ _ _).step
      intro found
      rw [leadingEntries_addFirst fits', leadingEntries_addFirst (Nat.succ_le_succ fits')]
      rfl

theorem eliminate_leading (fits : m ≤ n) (bands : Bands α n) :
    Precedes (m + 1) id (leading fits) (eliminate K (bands.leading fits)) (eliminate K bands) := by
  have swept := sweep_leading (K := K) fits (bands.diag.get 0) bands.sub (dropFirst bands.diag)
    bands.sup
  rw [eliminate, eliminate, Bands.leading, dropFirst_leadingEntries fits, get_leadingEntries]
  exact swept.map fun _ => rfl

end TridiagonalFactors

/-! ## Factorizations -/

/-- The factorization of a leading block of a matrix, in any arithmetic and in each of the three
forms. If the whole matrix is factored, the factors of the block are the leading blocks of its
factors. If it is refused at a pivot inside of the block, the block is refused at the same pivot,
and if that pivot lies behind the block, the block is factored. -/
theorem leading_factored (K : Arithmetic α) {m n : ℕ} (fits : m ≤ n) :
    (∀ A : DenseMatrix α (n + 1) (n + 1),
      Precedes (m + 1) (.singularPivot .decomposition) (LUFactors.leading (Nat.succ_le_succ fits))
        (LUFactors.ofMatrix K (A.leading (Nat.succ_le_succ fits))) (LUFactors.ofMatrix K A) ∧
      Precedes (m + 1) (.singularPivot .decomposition) (LDLFactors.leading (Nat.succ_le_succ fits))
        (LDLFactors.ofMatrix K (A.leading (Nat.succ_le_succ fits))) (LDLFactors.ofMatrix K A)) ∧
    ∀ (sub : Vector α n) (diag : Vector α (n + 1)) (sup : Vector α n),
      Precedes (m + 1) (.singularPivot .decomposition) (TridiagonalFactors.leading fits)
        (TridiagonalFactors.ofVectors K (leadingEntries fits sub)
          (leadingEntries (Nat.succ_le_succ fits) diag) (leadingEntries fits sup))
        (TridiagonalFactors.ofVectors K sub diag sup) := by
  refine ⟨fun A => ⟨?general, ?symmetric⟩, fun sub diag sup => ?tridiagonal⟩
  case general =>
    rw [LUFactors.ofMatrix_succ, LUFactors.ofMatrix_succ]
    exact (LUFactors.eliminate_leading _ A).mapError _
  case symmetric =>
    rw [LDLFactors.ofMatrix_succ, LDLFactors.ofMatrix_succ]
    exact (LDLFactors.eliminate_leading _ A).mapError _
  case tridiagonal =>
    rw [TridiagonalFactors.ofVectors_self, TridiagonalFactors.ofVectors_self]
    exact (TridiagonalFactors.eliminate_leading fits ⟨sub, diag, sup⟩).mapError _

/-- The last two of three equations are the same, so that the last pivot is zero. Without the last
row and column the matrix is factored, with a third that is rounded. -/
theorem leading_factored_repeatedRow :
    let three : Double := Binary.ofDecimal (.of 3 0)
    let A : DenseMatrix Double 3 3 := .ofFn ![![three, .one, .one], ![.one, .one, .one],
      ![.one, .one, .one]]
    LUFactors.ofMatrix Binary.arithmetic A = .error (.singularPivot .decomposition 2) ∧
      ∃ fits : 2 ≤ 3, ∃ factors,
        LUFactors.ofMatrix Binary.arithmetic (A.leading fits) = .ok factors := by
  intro three A
  have refused : LUFactors.ofMatrix Binary.arithmetic A =
      .error (.singularPivot .decomposition 2) := by
    decide +kernel
  have fits : 1 ≤ 2 := by decide
  have precedes := ((leading_factored Binary.arithmetic fits).1 A).1
  refine ⟨refused, Nat.succ_le_succ fits, ?_⟩
  rw [refused] at precedes
  generalize LUFactors.ofMatrix Binary.arithmetic (A.leading _) = part at precedes
  cases precedes with
  | inside within => exact absurd within (by decide)
  | beyond found _ => exact ⟨found, rfl⟩

end LinearEnclosure
