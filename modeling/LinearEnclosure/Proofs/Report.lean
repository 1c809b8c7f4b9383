/-
# What a report proves

In dual mode, with decimal endpoints, a report is a proof about every real system that its
description stands for: the system has exactly one solution, and each line of the solution
block prints two decimals with the entry of this solution between them. Reading, all steps
of the solve and printing round outward, so the statement is about the printed decimals
themselves.
-/

import LinearEnclosure.Proofs.Config.Description
import LinearEnclosure.Proofs.Solver.Enclosure
import LinearEnclosure.Report

namespace LinearEnclosure

open Matrix

variable {α : Type}

/-- The line of an entry of the solution, written as an interval. -/
theorem Report.entryLine_eq (index : ℕ) (lo hi : String) :
    Report.entryLine "x" index ("[" ++ lo ++ ";" ++ hi ++ "]") =
      "x[" ++ index.repr ++ "] = [" ++ lo ++ ";" ++ hi ++ "]" := by
  rw [Report.entryLine, ← String.toList_inj]
  simp

/-- The lines of a report end with the solution, one entry on each line, and the status. -/
theorem Report.exists_lines_eq (S : Scalar α) (solution : Solution α) :
    ∃ front, Report.lines S solution = front ++ "Solution x:" ::
      (solution.x.map S.render).mapIdx (Report.entryLine "x") ++
        ["", Report.statusLine solution.status] := by
  have last : ∃ before, Report.blocks S solution =
      before ++ [Report.vectorBlock "Solution x" "x" (solution.x.map S.render)] := by
    cases solution with
    | general solution => exact ⟨[_, _, _], rfl⟩
    | symmetric solution => exact ⟨[_, _, _, _, _], rfl⟩
    | tridiagonal solution => exact ⟨[_, _, _, _], rfl⟩
  obtain ⟨before, split⟩ := last
  refine ⟨before.flatMap Report.Block.toLines, ?_⟩
  rw [Report.lines, split]
  simp [Report.Block.toLines, Report.vectorBlock]

variable {context : Context} {k : ℕ}

/-- Below its title the solution has one line for each entry of `x`, and the two decimals
on this line have the entry between them. -/
def Report.Encloses (report : Report) (x : Fin k → ℝ) : Prop :=
  ∃ (lo hi : Fin k → String) (front back : List String),
    report.text = String.join ((front ++ "Solution x:" ::
      (List.ofFn fun i => "x[" ++ i.val.repr ++ "] = [" ++ lo i ++ ";" ++ hi i ++ "]") ++
        back).map (· ++ "\n")) ∧
    ∀ i, ∃ l h : ℚ, WritesNumber (lo i).toList l ∧ WritesNumber (hi i).toList h ∧
      (l : ℝ) ≤ x i ∧ x i ≤ h

/-- The intervals of a list contain, in order, the entries of the one solution of
`A x = b`. -/
def ListEnclosesSolution (xs : List (Interval DecimalFloat)) (A : Matrix (Fin k) (Fin k) ℝ)
    (b : Fin k → ℝ) : Prop :=
  ∃ exact : Fin k → ℝ, (∀ z, A *ᵥ z = b ↔ z = exact) ∧
    List.Forall₂ (fun x r => r ∈ x) xs (List.ofFn exact)

theorem EnclosesSolution.toList {x : Vector (Interval DecimalFloat) k}
    {A : Matrix (Fin k) (Fin k) ℝ} {b : Fin k → ℝ} (encloses : EnclosesSolution x A b) :
    ListEnclosesSolution x.toList A b := by
  obtain ⟨exact, solves, inside⟩ := encloses
  refine ⟨exact, solves, List.forall₂_iff_get.mpr ⟨by simp, ?_⟩⟩
  intro i here there
  have bound : i < k := by simpa using here
  have member : exact ⟨i, bound⟩ ∈ x[i] := inside ⟨i, bound⟩
  simpa using member

section Sizes

variable (dual : context.mode = .dual) {A' : Matrix (Fin k) (Fin k) ℝ}
  {b : Vector (Interval DecimalFloat) k} {b' : Fin k → ℝ} (sides : ∀ i, b' i ∈ b.get i)
include dual sides

theorem solveGeneral_listEncloses {m : ℕ} {A : DenseMatrix (Interval DecimalFloat) m m}
    {solution : GeneralSolution (Interval DecimalFloat) m}
    (solved : solveGeneral (Interval.arithmetic context) A b = .ok solution)
    (inside : ∀ (i j : Fin k) (row : i.val < m) (column : j.val < m),
      A' i j ∈ A.entry ⟨i, row⟩ ⟨j, column⟩) :
    ListEnclosesSolution solution.x.toList A' b' := by
  obtain rfl := size_of_solveGeneral solved
  obtain ⟨regular, _, _, _, _, -, -, -, whole, inX⟩ := exists_solution_general dual solved
    (fun i j => inside i j i.isLt j.isLt) sides
  exact (EnclosesSolution.of_mulVec_eq regular whole inX).toList

theorem solveSymmetric_listEncloses {m : ℕ} {A : DenseMatrix (Interval DecimalFloat) m m}
    {solution : SymmetricSolution (Interval DecimalFloat) m}
    (solved : solveSymmetric (Interval.arithmetic context) A b = .ok solution)
    (symmetric : A'.IsSymm)
    (inside : ∀ (i j : Fin k) (row : i.val < m) (column : j.val < m), j ≤ i →
      A' i j ∈ A.entry ⟨i, row⟩ ⟨j, column⟩) :
    ListEnclosesSolution solution.x.toList A' b' := by
  obtain rfl := size_of_solveSymmetric solved
  obtain ⟨_, _, _, _, _, split, -, -, -, -, -, whole, inX⟩ :=
    exists_solution_symmetric dual solved symmetric (fun i j => inside i j i.isLt j.isLt) sides
  exact (EnclosesSolution.of_mulVec_eq split.det_ne_zero whole inX).toList

theorem solveTridiagonal_listEncloses {s d p : ℕ} {sub : Vector (Interval DecimalFloat) s}
    {diag : Vector (Interval DecimalFloat) d} {sup : Vector (Interval DecimalFloat) p}
    {solution : TridiagonalSolution (Interval DecimalFloat) (d - 1)}
    (solved : solveTridiagonal (Interval.arithmetic context) sub diag sup b = .ok solution)
    (banded : IsTridiagonal A')
    (below : ∀ (i j : Fin k) (here : j.val < s), i.val = j.val + 1 →
      A' i j ∈ sub.get ⟨j.val, here⟩)
    (main : ∀ (i : Fin k) (here : i.val < d), A' i i ∈ diag.get ⟨i.val, here⟩)
    (above : ∀ (i j : Fin k) (here : i.val < p), j.val = i.val + 1 →
      A' i j ∈ sup.get ⟨i.val, here⟩) :
    ListEnclosesSolution solution.x.toList A' b' := by
  obtain ⟨rfl, rfl, rfl⟩ := size_of_solveTridiagonal solved
  obtain ⟨regular, _, _, _, _, -, -, -, whole, inX⟩ :=
    exists_solution_tridiagonal dual solved banded
      (fun i => below i.succ i.castSucc i.isLt rfl) (fun i => main i i.isLt)
      (fun i => above i.castSucc i.succ i.isLt rfl) sides
  exact (EnclosesSolution.of_mulVec_eq regular whole inX).toList

end Sizes

namespace SystemConfig

/-- A solve of what was read encloses the solution of every described system. -/
theorem listEncloses_of_solve (dual : context.mode = .dual) {config : SystemConfig}
    {system : LinearSystem (Interval DecimalFloat)} {solution : Solution (Interval DecimalFloat)}
    (read : config.system (Scalar.interval context) = .ok system)
    (solved : system.solve (Interval.arithmetic context) config.layout = .ok solution)
    {A : Matrix (Fin config.rhs.length) (Fin config.rhs.length) ℝ}
    {b : Fin config.rhs.length → ℝ} (described : config.Describes A b) :
    ListEnclosesSolution solution.x A b := by
  obtain ⟨sides, coefficients⟩ := described
  simp only [SystemConfig.system, bind_eq_ok_iff] at read
  obtain ⟨rhs, readRhs, read⟩ := read
  have inside : ∀ i, b i ∈ rhs.get i := fun i => mem_vector dual readRhs (sides i)
  cases layout : config.layout with
  | general =>
    simp only [layout, bind_eq_ok_iff, pure, Except.pure, Except.ok.injEq] at read coefficients
    obtain ⟨matrix, readMatrix, rfl⟩ := read
    rw [layout, LinearSystem.solve, map_eq_ok_iff] at solved
    obtain ⟨solution, solved, rfl⟩ := solved
    exact solveGeneral_listEncloses dual inside solved fun i j row column =>
      mem_matrix dual readMatrix (coefficients i j)
  | symmetric =>
    simp only [layout, bind_eq_ok_iff, pure, Except.pure, Except.ok.injEq] at read coefficients
    obtain ⟨matrix, readMatrix, rfl⟩ := read
    rw [layout, LinearSystem.solve, map_eq_ok_iff] at solved
    obtain ⟨solution, solved, rfl⟩ := solved
    exact solveSymmetric_listEncloses dual inside solved coefficients.1 fun i j row column below =>
      mem_matrix dual readMatrix (coefficients.2 i j below)
  | tridiagonal =>
    simp only [layout, bind_eq_ok_iff, pure, Except.pure, Except.ok.injEq] at read coefficients
    obtain ⟨sub, readSub, diag, readDiag, sup, readSup, rfl⟩ := read
    rw [layout, LinearSystem.solve, map_eq_ok_iff] at solved
    obtain ⟨solution, solved, rfl⟩ := solved
    obtain ⟨main, below, above, banded⟩ := coefficients
    exact solveTridiagonal_listEncloses dual inside solved banded
      (fun i j here order => mem_vector dual readSub (i := ⟨j, here⟩) (below i j order))
      (fun i here => mem_vector dual readDiag (i := ⟨i, here⟩) (main i))
      (fun i j here order => mem_vector dual readSup (i := ⟨i, here⟩) (above i j order))

theorem outDigits_ne_zero_of_validate {context checked : Context}
    (valid : context.validate = .ok checked) : context.outDigits ≠ 0 := by
  unfold Context.validate at valid
  split at valid
  · cases valid
  split at valid
  · cases valid
  · assumption

/-- A run with decimal intervals checks its context, and then reads, solves and renders. -/
theorem run_intervalDecimal {config : SystemConfig} {report : Report}
    (numbers : config.numbers = .intervalDecimal) (ran : config.run = .ok report) :
    (config.contextFor DecimalFloat).outDigits ≠ 0 ∧
      config.solveIn (Scalar.interval (config.contextFor DecimalFloat) :
        Scalar (Interval DecimalFloat)) = .ok report := by
  cases given : config.context with
  | none =>
    simp only [run, given, numbers] at ran
    refine ⟨?_, ran⟩
    simp [contextFor, given, Endpoint.initial]
  | some context =>
    simp only [run, given, numbers, bind_eq_ok_iff, mapError_eq_ok_iff] at ran
    obtain ⟨_, valid, ran⟩ := ran
    refine ⟨?_, ran⟩
    rw [contextFor, given]
    exact outDigits_ne_zero_of_validate valid

/-- Two equations with a symmetric matrix. The text above the diagonal says nothing about
the matrix. -/
def pairConfig : SystemConfig where
  layout := .symmetric
  numbers := .intervalDecimal
  context := some ⟨5, 3, .dual⟩
  matrix := [["[2; 3]", "7"], ["0;1", "5,6"]]
  sub := []
  diag := []
  sup := []
  rhs := ["1;2", "3"]

theorem describes_pairConfig :
    pairConfig.Describes !![5 / 2, 1 / 2; 1 / 2, 6] ![3 / 2, 3] := by
  have between {text : String} (lo hi : ℕ) {separator : Char} {r : ℝ}
      (split : separator = ';' ∨ separator = ',')
      (shape : Text.squeeze text.toList = Nat.toDigits 10 lo ++ separator :: Nat.toDigits 10 hi ∨
        Text.squeeze text.toList =
          '[' :: (Nat.toDigits 10 lo ++ separator :: Nat.toDigits 10 hi ++ [']']))
      (low : (lo : ℝ) ≤ r) (high : r ≤ hi) : r ∈ written text :=
    mem_written_pair split (writesNumber_toDigits lo) (writesNumber_toDigits hi) shape
      (by exact_mod_cast low) (by exact_mod_cast high)
  have corner : (5 / 2 : ℝ) ∈ written "[2; 3]" :=
    between 2 3 (.inl rfl) (.inr (by decide)) (by norm_num) (by norm_num)
  have below : (1 / 2 : ℝ) ∈ written "0;1" :=
    between 0 1 (.inl rfl) (.inl (by decide)) (by norm_num) (by norm_num)
  have last : (6 : ℝ) ∈ written "5,6" :=
    between 5 6 (.inr rfl) (.inl (by decide)) (by norm_num) (by norm_num)
  have first : (3 / 2 : ℝ) ∈ written "1;2" :=
    between 1 2 (.inl rfl) (.inl (by decide)) (by norm_num) (by norm_num)
  have second : (3 : ℝ) ∈ written "3" := by
    exact_mod_cast mem_written_single (writesNumber_toDigits 3) (by decide)
  have symmetric : (!![5 / 2, 1 / 2; 1 / 2, 6] : Matrix (Fin 2) (Fin 2) ℝ).IsSymm :=
    Matrix.IsSymm.ext (by simp [Fin.forall_fin_two])
  refine ⟨Fin.forall_fin_two.mpr ⟨⟨_, rfl, first⟩, ⟨_, rfl, second⟩⟩, symmetric, ?_⟩
  refine Fin.forall_fin_two.mpr ⟨Fin.forall_fin_two.mpr ⟨?_, ?_⟩, Fin.forall_fin_two.mpr ⟨?_, ?_⟩⟩
  · exact fun _ => ⟨_, rfl, corner⟩
  · exact fun order => absurd order (by decide)
  · exact fun _ => ⟨_, rfl, below⟩
  · exact fun _ => ⟨_, rfl, last⟩

end SystemConfig

end LinearEnclosure
