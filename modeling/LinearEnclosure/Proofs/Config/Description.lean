/-
# What a description describes

A description gives one text for each coefficient, and each text writes a closed set of
numbers. A real system is described if every coefficient lies in the set that its text
writes. Of a symmetric matrix only the lower triangle is written down, and of a
tridiagonal one only the bands; the other entries follow.

A system of intervals that is read from a description contains, entry by entry, every
real system that is described.
-/

import LinearEnclosure.Config.Basic
import LinearEnclosure.Proofs.Interval.Writing
import LinearEnclosure.Proofs.Solver.Bidiagonal

namespace LinearEnclosure

/-- A number in the set that a text writes, provided that there is a text. -/
def WrittenIn (text : Option String) (r : ℝ) : Prop :=
  ∃ source, text = some source ∧ r ∈ written source

namespace SystemConfig

/-- The text in a row and a column. -/
def textAt (rows : List (List String)) (i j : ℕ) : Option String :=
  rows[i]?.bind fun row => row[j]?

/-- The real systems that a description stands for. -/
def Describes (config : SystemConfig)
    (A : Matrix (Fin config.rhs.length) (Fin config.rhs.length) ℝ)
    (b : Fin config.rhs.length → ℝ) : Prop :=
  (∀ i, WrittenIn config.rhs[i.val]? (b i)) ∧
    match config.layout with
    | .general => ∀ i j : Fin _, WrittenIn (textAt config.matrix i j) (A i j)
    | .symmetric => A.IsSymm ∧ ∀ i j : Fin _, j ≤ i → WrittenIn (textAt config.matrix i j) (A i j)
    | .tridiagonal =>
      (∀ i, WrittenIn config.diag[i.val]? (A i i)) ∧
      (∀ i j : Fin _, i.val = j.val + 1 → WrittenIn config.sub[j.val]? (A i j)) ∧
      (∀ i j : Fin _, j.val = i.val + 1 → WrittenIn config.sup[i.val]? (A i j)) ∧
      IsTridiagonal A

/-! ## Reading vectors and matrices -/

variable {α : Type} {S : Scalar α}

theorem readVector_eq_ok {texts : List String} {xs : Vector α texts.length}
    (accepted : readVector S texts = .ok xs) (i : Fin texts.length) :
    ∃ text, texts[i.val]? = some text ∧ S.read text = .ok (xs.get i) := by
  induction texts with
  | nil => exact i.elim0
  | cons text texts ih =>
    simp only [readVector, bind_eq_ok_iff, pure, Except.pure, Except.ok.injEq] at accepted
    obtain ⟨first, readFirst, rest, readRest, rfl⟩ := accepted
    cases i using Fin.cases with
    | zero =>
      rw [get_addFirst_zero]
      exact ⟨text, rfl, readFirst⟩
    | succ i =>
      rw [get_addFirst_succ]
      exact ih readRest i

theorem readMatrix_eq_ok {cols : ℕ} {rows : List (List String)} {A : DenseMatrix α rows.length cols}
    (accepted : readMatrix S cols rows = .ok A) (i : Fin rows.length) (j : Fin cols) :
    ∃ text, textAt rows i j = some text ∧ S.read text = .ok (A.entry i j) := by
  induction rows with
  | nil => exact i.elim0
  | cons row rows ih =>
    rw [readMatrix] at accepted
    split at accepted
    · next size =>
      subst size
      simp only [bind_eq_ok_iff, pure, Except.pure, Except.ok.injEq] at accepted
      obtain ⟨first, readFirst, rest, readRest, rfl⟩ := accepted
      cases i using Fin.cases with
      | zero =>
        rw [DenseMatrix.entry, get_addFirst_zero]
        simpa [textAt] using readVector_eq_ok readFirst j
      | succ i =>
        rw [DenseMatrix.entry, get_addFirst_succ]
        exact ih readRest i
    · cases accepted

end SystemConfig

/-! ## Described systems lie inside -/

section Members

variable {context : Context} (dual : context.mode = .dual)
include dual

theorem WrittenIn.mem {text : Option String} {source : String} {r : ℝ} (member : WrittenIn text r)
    (here : text = some source) {x : Interval DecimalFloat}
    (accepted : (Scalar.interval context).read source = .ok x) : r ∈ x := by
  obtain ⟨other, same, inside⟩ := member
  obtain rfl : other = source := Option.some.inj (same.symm.trans here)
  exact Interval.mem_of_read dual (mapError_eq_ok_iff.mp accepted) inside

theorem SystemConfig.mem_vector {texts : List String}
    {xs : Vector (Interval DecimalFloat) texts.length}
    (accepted : readVector (Scalar.interval context) texts = .ok xs) {i : Fin texts.length} {r : ℝ}
    (member : WrittenIn texts[i.val]? r) : r ∈ xs.get i := by
  obtain ⟨text, here, read⟩ := readVector_eq_ok accepted i
  exact member.mem dual here read

theorem SystemConfig.mem_matrix {cols : ℕ} {rows : List (List String)}
    {A : DenseMatrix (Interval DecimalFloat) rows.length cols}
    (accepted : readMatrix (Scalar.interval context) cols rows = .ok A) {i : Fin rows.length}
    {j : Fin cols} {r : ℝ} (member : WrittenIn (textAt rows i j) r) : r ∈ A.entry i j := by
  obtain ⟨text, here, read⟩ := readMatrix_eq_ok accepted i j
  exact member.mem dual here read

end Members

end LinearEnclosure
