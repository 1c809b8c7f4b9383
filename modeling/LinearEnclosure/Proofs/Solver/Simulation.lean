/-
# Solvers under simulation

A solver touches the entries of a system only through the operations of its arithmetic.
So where one arithmetic simulates another, a whole solve does: if the first one succeeds
on related systems, then so does the second, and all factors, intermediate vectors and
solutions are related entry by entry.

The induction follows the eliminations and substitutions, which peel off one unknown at a
time. The symmetric solver needs related entries in the lower triangle only.
-/

import LinearEnclosure.Proofs.Arithmetic
import LinearEnclosure.Proofs.Solver.Stages

namespace LinearEnclosure

variable {α β : Type} {m n : ℕ}

/-- Entries of two vectors at the same place are related. -/
def VectorRel (R : α → β → Prop) (xs : Vector α n) (ys : Vector β n) : Prop :=
  ∀ i : Fin n, R (xs.get i) (ys.get i)

/-- Entries of two matrices at the same place are related. -/
def MatrixRel (R : α → β → Prop) (A : DenseMatrix α m n) (B : DenseMatrix β m n) : Prop :=
  ∀ i j, R (A.entry i j) (B.entry i j)

/-- Entries of the lower triangles of two matrices are related. -/
def LowerRel (R : α → β → Prop) (A : DenseMatrix α n n) (B : DenseMatrix β n n) : Prop :=
  ∀ i j, j ≤ i → R (A.entry i j) (B.entry i j)

variable {R : α → β → Prop}

/-- Terms given by their places are related if those at the same place are. -/
theorem forall₂_ofFn {f : Fin n → α} {g : Fin n → β} (related : ∀ i, R (f i) (g i)) :
    List.Forall₂ R (List.ofFn f) (List.ofFn g) := by
  rw [List.forall₂_iff_get]
  refine ⟨by simp, fun i here there => ?_⟩
  simp only [List.get_ofFn]
  exact related _

namespace VectorRel

theorem addFirst {x : α} {y : β} {xs : Vector α n} {ys : Vector β n} (first : R x y)
    (rest : VectorRel R xs ys) : VectorRel R (addFirst x xs) (addFirst y ys) := by
  intro i
  cases i using Fin.cases with
  | zero => rwa [get_addFirst_zero, get_addFirst_zero]
  | succ i =>
    rw [get_addFirst_succ, get_addFirst_succ]
    exact rest i

theorem head {xs : Vector α (n + 1)} {ys : Vector β (n + 1)} (related : VectorRel R xs ys) :
    R (xs.get 0) (ys.get 0) :=
  related 0

theorem dropFirst {xs : Vector α (n + 1)} {ys : Vector β (n + 1)} (related : VectorRel R xs ys) :
    VectorRel R (dropFirst xs) (dropFirst ys) := by
  intro i
  rw [get_dropFirst, get_dropFirst]
  exact related i.succ

theorem ofFn {f : Fin n → α} {g : Fin n → β} (related : ∀ i, R (f i) (g i)) :
    VectorRel R (Vector.ofFn f) (Vector.ofFn g) := by
  intro i
  simpa using related i

theorem map {xs : Vector α n} {ys : Vector β n} {f : α → α} {g : β → β}
    (related : VectorRel R xs ys) (kept : ∀ x y, R x y → R (f x) (g y)) :
    VectorRel R (xs.map f) (ys.map g) := by
  intro i
  simpa using kept _ _ (related i)

theorem replicate {x : α} {y : β} (related : R x y) :
    VectorRel R (Vector.replicate n x) (Vector.replicate n y) := by
  intro i
  simpa using related

theorem pairs {xs ys : Vector α n} {xs' ys' : Vector β n} (left : VectorRel R xs xs')
    (right : VectorRel R ys ys') :
    List.Forall₂ (fun t t' => R t.1 t'.1 ∧ R t.2 t'.2) (pairs xs ys) (pairs xs' ys') :=
  forall₂_ofFn fun i => ⟨left i, right i⟩

end VectorRel

namespace MatrixRel

theorem ofFn {f : Fin m → Fin n → α} {g : Fin m → Fin n → β} (related : ∀ i j, R (f i j) (g i j)) :
    MatrixRel R (.ofFn f) (.ofFn g) := by
  intro i j
  rw [DenseMatrix.entry_ofFn, DenseMatrix.entry_ofFn]
  exact related i j

theorem minor {A : DenseMatrix α (m + 1) (n + 1)} {B : DenseMatrix β (m + 1) (n + 1)}
    (related : MatrixRel R A B) : MatrixRel R A.minor B.minor := by
  intro i j
  rw [DenseMatrix.entry_minor, DenseMatrix.entry_minor]
  exact related i.succ j.succ

theorem firstRow {A : DenseMatrix α (m + 1) (n + 1)} {B : DenseMatrix β (m + 1) (n + 1)}
    (related : MatrixRel R A B) : VectorRel R A.firstRow B.firstRow := by
  intro j
  rw [DenseMatrix.get_firstRow, DenseMatrix.get_firstRow]
  exact related 0 j.succ

theorem firstColumn {A : DenseMatrix α (m + 1) (n + 1)} {B : DenseMatrix β (m + 1) (n + 1)}
    (related : ∀ i, R (A.entry i 0) (B.entry i 0)) : VectorRel R A.firstColumn B.firstColumn := by
  intro i
  rw [DenseMatrix.get_firstColumn, DenseMatrix.get_firstColumn]
  exact related i.succ

theorem bordered {corner : α} {corner' : β} {row : Vector α n} {row' : Vector β n}
    {column : Vector α m} {column' : Vector β m} {rest : DenseMatrix α m n}
    {rest' : DenseMatrix β m n} (atCorner : R corner corner') (inRow : VectorRel R row row')
    (inColumn : VectorRel R column column') (inRest : MatrixRel R rest rest') :
    MatrixRel R (.bordered corner row column rest) (.bordered corner' row' column' rest') := by
  apply DenseMatrix.forall_bordered
  case corner => simpa using atCorner
  case row =>
    intro j
    rw [DenseMatrix.entry_bordered_row, DenseMatrix.entry_bordered_row]
    exact inRow j
  case column =>
    intro i
    rw [DenseMatrix.entry_bordered_column, DenseMatrix.entry_bordered_column]
    exact inColumn i
  case rest =>
    intro i j
    rw [DenseMatrix.entry_bordered_rest, DenseMatrix.entry_bordered_rest]
    exact inRest i j

end MatrixRel

namespace Arithmetic.Simulates

variable {K : Arithmetic α} {K' : Arithmetic β} (simulates : K.Simulates K' R)
include simulates

/-! ## Substitution -/

theorem forwardSubstitute {L : DenseMatrix α n n} {L' : DenseMatrix β n n} {b : Vector α n}
    {b' : Vector β n} (factors : MatrixRel R L L') (sides : VectorRel R b b') :
    VectorRel R (forwardSubstitute K L b) (forwardSubstitute K' L' b') := by
  induction n with
  | zero => exact fun i => i.elim0
  | succ n ih =>
    apply VectorRel.addFirst sides.head
    apply ih factors.minor
    apply VectorRel.ofFn
    intro i
    exact simulates.sub (sides.dropFirst i)
      (simulates.mul (MatrixRel.firstColumn (fun i => factors i 0) i) sides.head)

theorem backSubstitute {U : DenseMatrix α n n} {U' : DenseMatrix β n n} {y x : Vector α n}
    {y' : Vector β n} (factors : MatrixRel R U U') (sides : VectorRel R y y')
    (solved : backSubstitute K U y = .ok x) :
    ∃ x', LinearEnclosure.backSubstitute K' U' y' = .ok x' ∧ VectorRel R x x' := by
  induction n with
  | zero =>
    exact ⟨noEntries, rfl, fun i => i.elim0⟩
  | succ n ih =>
    obtain ⟨rest, first, substituted, divided, rfl⟩ := backSubstitute_succ_eq_ok_iff.mp solved
    obtain ⟨rest', substituted', related⟩ := ih factors.minor sides.dropFirst substituted
    obtain ⟨first', divided', close⟩ := simulates.div?
      (simulates.subProducts sides.head (factors.firstRow.pairs related)) (factors 0 0) divided
    exact ⟨_, backSubstitute_succ_eq_ok_iff.mpr ⟨rest', first', substituted', divided', rfl⟩,
      .addFirst close related⟩

theorem backSubstituteTransposed {L : DenseMatrix α n n} {L' : DenseMatrix β n n}
    {z : Vector α n} {z' : Vector β n} (factors : MatrixRel R L L') (sides : VectorRel R z z') :
    VectorRel R (backSubstituteTransposed K L z) (backSubstituteTransposed K' L' z') := by
  induction n with
  | zero => exact fun i => i.elim0
  | succ n ih =>
    have rest := ih factors.minor sides.dropFirst
    have column := MatrixRel.firstColumn fun i => factors i 0
    exact .addFirst (simulates.subProducts sides.head (column.pairs rest)) rest

theorem scaleByDiagonal {d y z : Vector α n} {d' y' : Vector β n} (diagonal : VectorRel R d d')
    (sides : VectorRel R y y') (solved : scaleByDiagonal K d y = .ok z) :
    ∃ z', LinearEnclosure.scaleByDiagonal K' d' y' = .ok z' ∧ VectorRel R z z' := by
  induction n with
  | zero => exact ⟨noEntries, rfl, fun i => i.elim0⟩
  | succ n ih =>
    obtain ⟨first, rest, divided, scaled, rfl⟩ := scaleByDiagonal_succ_eq_ok_iff.mp solved
    obtain ⟨first', divided', close⟩ := simulates.div? sides.head diagonal.head divided
    obtain ⟨rest', scaled', related⟩ := ih diagonal.dropFirst sides.dropFirst scaled
    exact ⟨_, scaleByDiagonal_succ_eq_ok_iff.mpr ⟨first', rest', divided', scaled', rfl⟩,
      .addFirst close related⟩

/-! ## Elimination -/

theorem multipliers {A : DenseMatrix α (n + 1) (n + 1)} {A' : DenseMatrix β (n + 1) (n + 1)}
    (column : ∀ i, R (A.entry i 0) (A'.entry i 0)) (pivot : K.isPivot (A.entry 0 0) = true) :
    VectorRel R (multipliers K A) (multipliers K' A') :=
  (MatrixRel.firstColumn column).map fun _ _ related => simulates.quotient related (column 0) pivot

theorem reduceGeneral {A : DenseMatrix α (n + 1) (n + 1)} {A' : DenseMatrix β (n + 1) (n + 1)}
    {multipliers : Vector α n} {multipliers' : Vector β n} (entries : MatrixRel R A A')
    (column : VectorRel R multipliers multipliers') :
    MatrixRel R (LUFactors.reduce K A multipliers) (LUFactors.reduce K' A' multipliers') :=
  .ofFn fun i j =>
    simulates.sub (entries i.succ j.succ) (simulates.mul (column i) (entries 0 j.succ))

theorem eliminateGeneral {A : DenseMatrix α n n} {A' : DenseMatrix β n n}
    {factors : LUFactors α n} (entries : MatrixRel R A A')
    (factored : LUFactors.eliminate K A = .ok factors) :
    ∃ factors', LUFactors.eliminate K' A' = .ok factors' ∧
      MatrixRel R factors.lower factors'.lower ∧ MatrixRel R factors.upper factors'.upper := by
  induction n with
  | zero =>
    exact ⟨⟨A', A'⟩, rfl, fun i => i.elim0, fun i => i.elim0⟩
  | succ n ih =>
    obtain ⟨pivot, rest, eliminated, rfl⟩ := LUFactors.eliminate_succ_eq_ok_iff.mp factored
    have column := simulates.multipliers (fun i => entries i 0) pivot
    obtain ⟨rest', eliminated', lower, upper⟩ :=
      ih (simulates.reduceGeneral entries column) eliminated
    have valid := simulates.isPivot (entries 0 0) pivot
    exact ⟨_, LUFactors.eliminate_succ_eq_ok_iff.mpr ⟨valid, rest', eliminated', rfl⟩,
      .bordered simulates.one (.replicate simulates.zero) column lower,
      .bordered (entries 0 0) entries.firstRow (.replicate simulates.zero) upper⟩

theorem reduceSymmetric {A : DenseMatrix α (n + 1) (n + 1)} {A' : DenseMatrix β (n + 1) (n + 1)}
    {multipliers weights : Vector α n} {multipliers' weights' : Vector β n}
    (entries : LowerRel R A A') (column : VectorRel R multipliers multipliers')
    (weighted : VectorRel R weights weights') :
    LowerRel R (LDLFactors.reduce K A multipliers weights)
      (LDLFactors.reduce K' A' multipliers' weights') := by
  intro i j below
  have entry := entries i.succ j.succ (Fin.succ_le_succ_iff.mpr below)
  simp only [LDLFactors.reduce, DenseMatrix.entry_ofFn]
  split
  · exact simulates.sub entry (simulates.mul (column i) (weighted j))
  · split
    · exact simulates.sub entry (simulates.mul (weighted i) (column i))
    · exact entry

theorem eliminateSymmetric {A : DenseMatrix α n n} {A' : DenseMatrix β n n}
    {factors : LDLFactors α n} (entries : LowerRel R A A')
    (factored : LDLFactors.eliminate K A = .ok factors) :
    ∃ factors', LDLFactors.eliminate K' A' = .ok factors' ∧
      MatrixRel R factors.lower factors'.lower ∧
      VectorRel R factors.diagonal factors'.diagonal := by
  induction n with
  | zero =>
    exact ⟨⟨A', noEntries⟩, rfl, fun i => i.elim0, fun i => i.elim0⟩
  | succ n ih =>
    obtain ⟨pivot, rest, eliminated, rfl⟩ := LDLFactors.eliminate_succ_eq_ok_iff.mp factored
    have corner := entries 0 0 le_rfl
    have column := simulates.multipliers (fun i => entries i 0 (Fin.zero_le i)) pivot
    have weights := column.map fun _ _ related => simulates.mul related corner
    obtain ⟨rest', eliminated', lower, diagonal⟩ :=
      ih (simulates.reduceSymmetric entries column weights) eliminated
    have valid := simulates.isPivot corner pivot
    exact ⟨_, LDLFactors.eliminate_succ_eq_ok_iff.mpr ⟨valid, rest', eliminated', rfl⟩,
      .bordered simulates.one (.replicate simulates.zero) column lower,
      .addFirst corner diagonal⟩

theorem sweep {pivot : α} {pivot' : β} {sub diag sup : Vector α n} {sub' diag' sup' : Vector β n}
    {swept : Vector α n × Vector α (n + 1)} (first : R pivot pivot') (below : VectorRel R sub sub')
    (main : VectorRel R diag diag') (above : VectorRel R sup sup')
    (factored : TridiagonalFactors.sweep K pivot sub diag sup = .ok swept) :
    ∃ swept', TridiagonalFactors.sweep K' pivot' sub' diag' sup' = .ok swept' ∧
      VectorRel R swept.1 swept'.1 ∧ VectorRel R swept.2 swept'.2 := by
  induction n generalizing pivot pivot' with
  | zero =>
    obtain ⟨valid, rfl⟩ := TridiagonalFactors.sweep_zero_eq_ok_iff.mp factored
    exact ⟨_, TridiagonalFactors.sweep_zero_eq_ok_iff.mpr ⟨simulates.isPivot first valid, rfl⟩,
      fun i => i.elim0, Fin.forall_fin_one.mpr first⟩
  | succ n ih =>
    obtain ⟨valid, rest, swept, rfl⟩ := TridiagonalFactors.sweep_succ_eq_ok_iff.mp factored
    have multiplier := simulates.quotient below.head first valid
    have next := simulates.sub main.head (simulates.mul multiplier above.head)
    obtain ⟨rest', swept', left, right⟩ :=
      ih next below.dropFirst main.dropFirst above.dropFirst swept
    exact ⟨_, TridiagonalFactors.sweep_succ_eq_ok_iff.mpr
      ⟨simulates.isPivot first valid, rest', swept', rfl⟩, .addFirst multiplier left,
      .addFirst first right⟩

theorem eliminateTridiagonal {sub sup : Vector α n} {sub' sup' : Vector β n}
    {diag : Vector α (n + 1)} {diag' : Vector β (n + 1)} {factors : TridiagonalFactors α n}
    (below : VectorRel R sub sub') (main : VectorRel R diag diag') (above : VectorRel R sup sup')
    (factored : TridiagonalFactors.eliminate K ⟨sub, diag, sup⟩ = .ok factors) :
    ∃ factors', TridiagonalFactors.eliminate K' ⟨sub', diag', sup'⟩ = .ok factors' ∧
      VectorRel R factors.multipliers factors'.multipliers ∧
      VectorRel R factors.pivots factors'.pivots ∧ VectorRel R factors.sup factors'.sup := by
  obtain ⟨swept, behind, rfl⟩ := map_eq_ok_iff.mp factored
  obtain ⟨swept', behind', left, right⟩ :=
    simulates.sweep main.head below main.dropFirst above behind
  exact ⟨_, map_eq_ok_iff.mpr ⟨swept', behind', rfl⟩, left, right, above⟩

theorem forward {y : α} {y' : β} {multipliers b : Vector α n} {multipliers' b' : Vector β n}
    (first : R y y') (factors : VectorRel R multipliers multipliers') (sides : VectorRel R b b') :
    VectorRel R (TridiagonalFactors.forward K y multipliers b)
      (TridiagonalFactors.forward K' y' multipliers' b') := by
  induction n generalizing y y' with
  | zero => exact Fin.forall_fin_one.mpr first
  | succ n ih =>
    have next := simulates.sub sides.head (simulates.mul factors.head first)
    exact .addFirst first (ih next factors.dropFirst sides.dropFirst)

theorem backward {pivots y x : Vector α (n + 1)} {pivots' y' : Vector β (n + 1)}
    {sup : Vector α n} {sup' : Vector β n} (diagonal : VectorRel R pivots pivots')
    (above : VectorRel R sup sup') (sides : VectorRel R y y')
    (solved : TridiagonalFactors.backward K pivots sup y = .ok x) :
    ∃ x', TridiagonalFactors.backward K' pivots' sup' y' = .ok x' ∧ VectorRel R x x' := by
  induction n with
  | zero =>
    obtain ⟨first, divided, rfl⟩ := TridiagonalFactors.backward_zero_eq_ok_iff.mp solved
    obtain ⟨first', divided', close⟩ := simulates.div? sides.head diagonal.head divided
    exact ⟨_, TridiagonalFactors.backward_zero_eq_ok_iff.mpr ⟨first', divided', rfl⟩,
      Fin.forall_fin_one.mpr close⟩
  | succ n ih =>
    obtain ⟨rest, first, substituted, divided, rfl⟩ :=
      TridiagonalFactors.backward_succ_eq_ok_iff.mp solved
    obtain ⟨rest', substituted', related⟩ :=
      ih diagonal.dropFirst above.dropFirst sides.dropFirst substituted
    obtain ⟨first', divided', close⟩ := simulates.div?
      (simulates.sub sides.head (simulates.mul above.head related.head)) diagonal.head divided
    exact ⟨_, TridiagonalFactors.backward_succ_eq_ok_iff.mpr
      ⟨rest', first', substituted', divided', rfl⟩, .addFirst close related⟩

/-! ## Products and written-out factors -/

theorem mulVec {A : DenseMatrix α m n} {A' : DenseMatrix β m n} {x : Vector α n}
    {x' : Vector β n} (entries : MatrixRel R A A') (sides : VectorRel R x x') :
    VectorRel R (A.mulVec K x) (A'.mulVec K' x') :=
  .ofFn fun i => simulates.sumProducts (forall₂_ofFn fun j => ⟨entries i j, sides j⟩)

theorem matrixMul {k : ℕ} {A : DenseMatrix α m n} {A' : DenseMatrix β m n}
    {B : DenseMatrix α n k} {B' : DenseMatrix β n k} (left : MatrixRel R A A')
    (right : MatrixRel R B B') : MatrixRel R (A.mul K B) (A'.mul K' B') :=
  .ofFn fun i j => simulates.sumProducts (forall₂_ofFn fun l => ⟨left i l, right l j⟩)

theorem toDense {sub sup : Vector α n} {sub' sup' : Vector β n} {diag : Vector α (n + 1)}
    {diag' : Vector β (n + 1)} (below : VectorRel R sub sub') (main : VectorRel R diag diag')
    (above : VectorRel R sup sup') :
    MatrixRel R (Bands.toDense K ⟨sub, diag, sup⟩) (Bands.toDense K' ⟨sub', diag', sup'⟩) := by
  apply MatrixRel.ofFn
  intro i j
  split
  · exact main i
  split
  · exact below _
  split
  · exact above _
  · exact simulates.zero

theorem upper {factors : LDLFactors α n} {factors' : LDLFactors β n}
    (lower : MatrixRel R factors.lower factors'.lower)
    (diagonal : VectorRel R factors.diagonal factors'.diagonal) :
    MatrixRel R (factors.upper K) (factors'.upper K') := by
  apply MatrixRel.ofFn
  intro i j
  split
  · exact simulates.mul (diagonal i) (lower j i)
  · exact simulates.zero

theorem lowerDense {factors : TridiagonalFactors α n} {factors' : TridiagonalFactors β n}
    (multipliers : VectorRel R factors.multipliers factors'.multipliers) :
    MatrixRel R (factors.lowerDense K) (factors'.lowerDense K') :=
  simulates.toDense multipliers (.replicate simulates.one) (.replicate simulates.zero)

theorem upperDense {factors : TridiagonalFactors α n} {factors' : TridiagonalFactors β n}
    (pivots : VectorRel R factors.pivots factors'.pivots)
    (above : VectorRel R factors.sup factors'.sup) :
    MatrixRel R (factors.upperDense K) (factors'.upperDense K') :=
  simulates.toDense (.replicate simulates.zero) pivots above

/-! ## Whole solves -/

theorem solveGeneral {A : DenseMatrix α n n} {A' : DenseMatrix β n n} {b : Vector α n}
    {b' : Vector β n} {solution : GeneralSolution α n} (entries : MatrixRel R A A')
    (sides : VectorRel R b b') (solved : solveGeneral K A b = .ok solution) :
    ∃ solution', LinearEnclosure.solveGeneral K' A' b' = .ok solution' ∧
      MatrixRel R solution.factors.lower solution'.factors.lower ∧
      MatrixRel R solution.factors.upper solution'.factors.upper ∧
      VectorRel R solution.y solution'.y ∧ VectorRel R solution.x solution'.x := by
  obtain ⟨nonempty, factored, forward, substituted, -⟩ := solveGeneral_eq_ok_iff.mp solved
  obtain ⟨factors', factored', lower, upper⟩ := simulates.eliminateGeneral entries factored
  have middle : VectorRel R solution.y
      (LinearEnclosure.forwardSubstitute K' factors'.lower b') := by
    rw [forward]
    exact simulates.forwardSubstitute lower sides
  obtain ⟨x', substituted', last⟩ := simulates.backSubstitute upper middle substituted
  exact ⟨⟨factors', _, x', Status.of K' x'⟩,
    solveGeneral_eq_ok_iff.mpr ⟨nonempty, factored', rfl, substituted', rfl⟩,
    lower, upper, middle, last⟩

theorem solveSymmetric {A : DenseMatrix α n n} {A' : DenseMatrix β n n} {b : Vector α n}
    {b' : Vector β n} {solution : SymmetricSolution α n} (entries : LowerRel R A A')
    (sides : VectorRel R b b') (solved : solveSymmetric K A b = .ok solution) :
    ∃ solution', LinearEnclosure.solveSymmetric K' A' b' = .ok solution' ∧
      MatrixRel R solution.factors.lower solution'.factors.lower ∧
      VectorRel R solution.factors.diagonal solution'.factors.diagonal ∧
      VectorRel R solution.y solution'.y ∧ VectorRel R solution.z solution'.z ∧
      VectorRel R solution.x solution'.x := by
  obtain ⟨nonempty, factored, forward, scaled, back, -⟩ := solveSymmetric_eq_ok_iff.mp solved
  obtain ⟨factors', factored', lower, diagonal⟩ := simulates.eliminateSymmetric entries factored
  have first : VectorRel R solution.y
      (LinearEnclosure.forwardSubstitute K' factors'.lower b') := by
    rw [forward]
    exact simulates.forwardSubstitute lower sides
  obtain ⟨z', scaled', second⟩ := simulates.scaleByDiagonal diagonal first scaled
  have third : VectorRel R solution.x
      (LinearEnclosure.backSubstituteTransposed K' factors'.lower z') := by
    rw [back]
    exact simulates.backSubstituteTransposed lower second
  exact ⟨⟨factors', _, z', _, Status.of K' _⟩,
    solveSymmetric_eq_ok_iff.mpr ⟨nonempty, factored', rfl, scaled', rfl, rfl⟩,
    lower, diagonal, first, second, third⟩

theorem solveTridiagonal {sub sup : Vector α n} {sub' sup' : Vector β n}
    {diag b : Vector α (n + 1)} {diag' b' : Vector β (n + 1)} {solution : TridiagonalSolution α n}
    (below : VectorRel R sub sub') (main : VectorRel R diag diag') (above : VectorRel R sup sup')
    (sides : VectorRel R b b') (solved : solveTridiagonal K sub diag sup b = .ok solution) :
    ∃ solution' : TridiagonalSolution β n,
      LinearEnclosure.solveTridiagonal K' sub' diag' sup' b' = .ok solution' ∧
      VectorRel R solution.factors.multipliers solution'.factors.multipliers ∧
      VectorRel R solution.factors.pivots solution'.factors.pivots ∧
      VectorRel R solution.factors.sup solution'.factors.sup ∧
      VectorRel R solution.y solution'.y ∧ VectorRel R solution.x solution'.x := by
  obtain ⟨factored, forward, substituted, -⟩ := solveTridiagonal_eq_ok_iff.mp solved
  obtain ⟨factors', factored', left, right, kept⟩ :=
    simulates.eliminateTridiagonal below main above factored
  have middle : VectorRel R solution.y
      (TridiagonalFactors.forward K' (b'.get 0) factors'.multipliers (dropFirst b')) := by
    rw [forward]
    exact simulates.forward sides.head left sides.dropFirst
  obtain ⟨x', substituted', last⟩ := simulates.backward right kept middle substituted
  exact ⟨⟨factors', _, x', Status.of K' x'⟩,
    solveTridiagonal_eq_ok_iff.mpr ⟨factored', rfl, substituted', rfl⟩,
    left, right, kept, middle, last⟩

end Arithmetic.Simulates

end LinearEnclosure
