/-
# Solves of points

In single mode both ends of an interval are rounded to nearest. An interval that is a single
number then stays one, and it goes through the very values that the number alone goes
through. So the solvers make no difference between a system of numbers and the system of
their points: they fail alike, and whatever they leave behind is alike.

The first part is about any map under which the operations of two arithmetics are the same.
The second part shows that `Interval.point` is such a map.
-/

import LinearEnclosure.Proofs.Decimal.Order
import LinearEnclosure.Proofs.Solver.Outcomes

namespace LinearEnclosure

variable {α β : Type} {n : ℕ}

/-! ## What a map does to the data of a solve -/

/-- The matrix of the images. -/
def DenseMatrix.map {m : ℕ} (f : α → β) (A : DenseMatrix α m n) : DenseMatrix β m n :=
  .ofFn fun i j => f (A.entry i j)

def Bands.map (f : α → β) (bands : Bands α n) : Bands β n :=
  ⟨bands.sub.map f, bands.diag.map f, bands.sup.map f⟩

def LUFactors.map (f : α → β) (factors : LUFactors α n) : LUFactors β n :=
  ⟨factors.lower.map f, factors.upper.map f⟩

def LDLFactors.map (f : α → β) (factors : LDLFactors α n) : LDLFactors β n :=
  ⟨factors.lower.map f, factors.diagonal.map f⟩

def TridiagonalFactors.map (f : α → β) (factors : TridiagonalFactors α n) :
    TridiagonalFactors β n :=
  ⟨factors.multipliers.map f, factors.pivots.map f, factors.sup.map f⟩

/-- The images of all that a general solve leaves behind, with the same status. -/
def GeneralSolution.map (f : α → β) (solution : GeneralSolution α n) : GeneralSolution β n :=
  ⟨solution.factors.map f, solution.y.map f, solution.x.map f, solution.status⟩

/-- The images of all that a symmetric solve leaves behind, with the same status. -/
def SymmetricSolution.map (f : α → β) (solution : SymmetricSolution α n) : SymmetricSolution β n :=
  ⟨solution.factors.map f, solution.y.map f, solution.z.map f, solution.x.map f, solution.status⟩

/-- The images of all that a tridiagonal solve leaves behind, with the same status. -/
def TridiagonalSolution.map (f : α → β) (solution : TridiagonalSolution α n) :
    TridiagonalSolution β n :=
  ⟨solution.factors.map f, solution.y.map f, solution.x.map f, solution.status⟩

section Images

variable {f : α → β}

@[simp] theorem DenseMatrix.entry_map {m : ℕ} (A : DenseMatrix α m n) (i : Fin m) (j : Fin n) :
    (A.map f).entry i j = f (A.entry i j) :=
  entry_ofFn ..

/-- A vector is related to another one by a map if it is its image. -/
theorem VectorRel.eq_map {xs : Vector α n} {ys : Vector β n}
    (images : VectorRel (fun x y => y = f x) xs ys) : ys = xs.map f :=
  ext_get fun i => (images i).trans (Vector.get_map xs f i).symm

theorem MatrixRel.eq_map {m : ℕ} {A : DenseMatrix α m n} {B : DenseMatrix β m n}
    (images : MatrixRel (fun x y => y = f x) A B) : B = A.map f :=
  DenseMatrix.ext_entry fun i j => (images i j).trans (DenseMatrix.entry_map A i j).symm

theorem VectorRel.image (xs : Vector α n) : VectorRel (fun x y => y = f x) xs (xs.map f) :=
  fun i => Vector.get_map xs f i

theorem MatrixRel.image {m : ℕ} (A : DenseMatrix α m n) :
    MatrixRel (fun x y => y = f x) A (A.map f) :=
  fun i j => DenseMatrix.entry_map A i j

end Images

/-! ## Arithmetics that a map carries over -/

/-- A test that a map keeps fails first at the same place. -/
theorem isFirstFailure_map {test : α → Bool} {test' : β → Bool}
    {f : α → β} (same : ∀ x, test' (f x) = test x) {values : Fin n → α} {k : ℕ} :
    IsFirstFailure test' (fun i => f (values i)) k ↔ IsFirstFailure test values k := by
  simp [IsFirstFailure, same]

/-- A map under which the operations, the pivots and the finite values of two arithmetics
are the same. -/
structure Arithmetic.IsHom (K : Arithmetic α) (K' : Arithmetic β) (f : α → β) : Prop where
  zero : K'.zero = f K.zero
  one : K'.one = f K.one
  add (x y : α) : K'.add (f x) (f y) = f (K.add x y)
  sub (x y : α) : K'.sub (f x) (f y) = f (K.sub x y)
  mul (x y : α) : K'.mul (f x) (f y) = f (K.mul x y)
  quotient (x y : α) : K'.quotient (f x) (f y) = f (K.quotient x y)
  isPivot (x : α) : K'.isPivot (f x) = K.isPivot x
  isFinite (x : α) : K'.isFinite (f x) = K.isFinite x

namespace Arithmetic.IsHom

variable {K : Arithmetic α} {K' : Arithmetic β} {f : α → β} (hom : K.IsHom K' f)
include hom

theorem agrees : K.Agrees K' fun x y => y = f x where
  zero := hom.zero
  one := hom.one
  add := by
    rintro x y _ _ rfl rfl
    exact hom.add x y
  sub := by
    rintro x y _ _ rfl rfl
    exact hom.sub x y
  mul := by
    rintro x y _ _ rfl rfl
    exact hom.mul x y
  isPivot := by
    rintro x _ rfl pivot
    rw [hom.isPivot, pivot]
  quotient := by
    rintro x y _ _ rfl rfl _
    exact hom.quotient x y
  refuses := by
    rintro x _ rfl invalid
    rw [hom.isPivot, invalid]

theorem status_of_map (x : Vector α n) : Status.of K' (x.map f) = Status.of K x := by
  have described := Status.of_describes K' (x.map f)
  apply Status.Describes.unique (x := x) _ (Status.of_describes K x)
  cases ended : Status.of K' (x.map f) with
  | solved =>
    rw [ended] at described
    intro i
    simpa [hom.isFinite] using described i
  | nonFinite k =>
    rw [ended, Status.Describes, funext (Vector.get_map x f)] at described
    exact (isFirstFailure_map hom.isFinite).mp described

theorem pivot_tridiagonal (bands : Bands α n) (i : Fin (n + 1)) :
    TridiagonalFactors.pivot K' (bands.map f) i = f (TridiagonalFactors.pivot K bands i) := by
  induction i using Fin.induction with
  | zero => simp [TridiagonalFactors.pivot_zero, Bands.map]
  | succ i ih =>
    rw [TridiagonalFactors.pivot_succ, TridiagonalFactors.pivot_succ, ih]
    simp only [Bands.map, Vector.get_map, hom.quotient, hom.mul, hom.sub]

theorem eliminateTridiagonal_error {bands : Bands α n} {k : ℕ}
    (failed : TridiagonalFactors.eliminate K bands = .error k) :
    TridiagonalFactors.eliminate K' (bands.map f) = .error k := by
  rw [TridiagonalFactors.eliminate_eq_error_iff] at *
  rw [funext (hom.pivot_tridiagonal bands)]
  exact (isFirstFailure_map hom.isPivot).mpr failed

/-! Solves of matching sizes fail in the elimination alone, and there they fail alike. -/

theorem solveGeneral_square (A : DenseMatrix α (n + 1) (n + 1)) (b : Vector α (n + 1)) :
    solveGeneral K' (A.map f) (b.map f) = (solveGeneral K A b).map (GeneralSolution.map f) := by
  cases eliminated : LUFactors.eliminate K A with
  | error k =>
    have failed := hom.agrees.eliminateGeneral_error (.image A) eliminated
    rw [solveGeneral_eq_error_iff.mpr ⟨k, eliminated, rfl⟩,
      solveGeneral_eq_error_iff.mpr ⟨k, failed, rfl⟩, Except.map]
  | ok factors =>
    obtain ⟨solution, solved, -⟩ := exists_solveGeneral eliminated b
    obtain ⟨solution', solved', lower, upper, y, x⟩ :=
      hom.agrees.solveGeneral (.image A) (.image b) solved
    obtain ⟨-, -, -, -, status⟩ := solveGeneral_eq_ok_iff.mp solved
    obtain ⟨-, -, -, -, status'⟩ := solveGeneral_eq_ok_iff.mp solved'
    rw [x.eq_map, hom.status_of_map, ← status] at status'
    rw [solved, solved', Except.map, Except.ok.injEq]
    obtain ⟨⟨_, _⟩, _, _, _⟩ := solution'
    rw [GeneralSolution.map, LUFactors.map, GeneralSolution.mk.injEq, LUFactors.mk.injEq]
    exact ⟨⟨lower.eq_map, upper.eq_map⟩, y.eq_map, x.eq_map, status'⟩

theorem solveSymmetric_square (A : DenseMatrix α (n + 1) (n + 1)) (b : Vector α (n + 1)) :
    solveSymmetric K' (A.map f) (b.map f) =
      (solveSymmetric K A b).map (SymmetricSolution.map f) := by
  have entries : LowerRel (fun x y => y = f x) A (A.map f) := fun i j _ => MatrixRel.image A i j
  cases eliminated : LDLFactors.eliminate K A with
  | error k =>
    have failed := hom.agrees.eliminateSymmetric_error entries eliminated
    rw [solveSymmetric_eq_error eliminated, solveSymmetric_eq_error failed, Except.map]
  | ok factors =>
    obtain ⟨solution, solved⟩ := exists_solveSymmetric eliminated b
    obtain ⟨solution', solved', lower, diagonal, y, z, x⟩ :=
      hom.agrees.solveSymmetric entries (.image b) solved
    obtain ⟨-, -, -, -, -, status⟩ := solveSymmetric_eq_ok_iff.mp solved
    obtain ⟨-, -, -, -, -, status'⟩ := solveSymmetric_eq_ok_iff.mp solved'
    rw [x.eq_map, hom.status_of_map, ← status] at status'
    rw [solved, solved', Except.map, Except.ok.injEq]
    obtain ⟨⟨_, _⟩, _, _, _, _⟩ := solution'
    rw [SymmetricSolution.map, LDLFactors.map, SymmetricSolution.mk.injEq, LDLFactors.mk.injEq]
    exact ⟨⟨lower.eq_map, diagonal.eq_map⟩, y.eq_map, z.eq_map, x.eq_map, status'⟩

theorem solveTridiagonal_bands (sub sup : Vector α n) (diag b : Vector α (n + 1)) :
    solveTridiagonal K' (sub.map f) (diag.map f) (sup.map f) (b.map f) =
      (solveTridiagonal K sub diag sup b).map (TridiagonalSolution.map f) := by
  cases eliminated : TridiagonalFactors.eliminate K ⟨sub, diag, sup⟩ with
  | error k =>
    have failed := hom.eliminateTridiagonal_error eliminated
    rw [solveTridiagonal_eq_error eliminated, solveTridiagonal_eq_error failed, Except.map]
  | ok factors =>
    obtain ⟨solution, solved⟩ := exists_solveTridiagonal eliminated b
    obtain ⟨solution', solved', multipliers, pivots, kept, y, x⟩ :=
      hom.agrees.solveTridiagonal (.image sub) (.image diag) (.image sup) (.image b) solved
    obtain ⟨-, -, -, status⟩ := solveTridiagonal_eq_ok_iff.mp solved
    obtain ⟨-, -, -, status'⟩ := solveTridiagonal_eq_ok_iff.mp solved'
    rw [x.eq_map, hom.status_of_map, ← status] at status'
    rw [solved, solved', Except.map, Except.ok.injEq]
    obtain ⟨⟨_, _, _⟩, _, _, _⟩ := solution'
    rw [TridiagonalSolution.map, TridiagonalFactors.map, TridiagonalSolution.mk.injEq,
      TridiagonalFactors.mk.injEq]
    exact ⟨⟨multipliers.eq_map, pivots.eq_map, kept.eq_map⟩, y.eq_map, x.eq_map, status'⟩

/-! Inputs of the wrong shape are refused before any arithmetic. -/

theorem solveGeneral_map {m k : ℕ} (A : DenseMatrix α m n) (b : Vector α k) :
    solveGeneral K' (A.map f) (b.map f) = (solveGeneral K A b).map (GeneralSolution.map f) := by
  by_cases shape : m ≠ 0 ∧ n = m ∧ k = m
  · obtain ⟨nonempty, rfl, rfl⟩ := shape
    obtain ⟨size, rfl⟩ := Nat.exists_eq_succ_of_ne_zero nonempty
    exact hom.solveGeneral_square A b
  · obtain ⟨what, expected, got, refused⟩ := solveGeneral_eq_mismatch shape
    rw [refused, refused, Except.map]

theorem solveSymmetric_map {m k : ℕ} (A : DenseMatrix α m n) (b : Vector α k) :
    solveSymmetric K' (A.map f) (b.map f) =
      (solveSymmetric K A b).map (SymmetricSolution.map f) := by
  by_cases shape : m ≠ 0 ∧ n = m ∧ k = m
  · obtain ⟨nonempty, rfl, rfl⟩ := shape
    obtain ⟨size, rfl⟩ := Nat.exists_eq_succ_of_ne_zero nonempty
    exact hom.solveSymmetric_square A b
  · obtain ⟨what, expected, got, refused⟩ := solveSymmetric_eq_mismatch shape
    rw [refused, refused, Except.map]

theorem solveTridiagonal_map {s d p k : ℕ} (sub : Vector α s) (diag : Vector α d)
    (sup : Vector α p) (b : Vector α k) :
    solveTridiagonal K' (sub.map f) (diag.map f) (sup.map f) (b.map f) =
      (solveTridiagonal K sub diag sup b).map (TridiagonalSolution.map f) := by
  by_cases shape : d = s + 1 ∧ p = s ∧ k = d
  · obtain ⟨rfl, rfl, rfl⟩ := shape
    exact hom.solveTridiagonal_bands sub sup diag b
  · obtain ⟨what, expected, got, refused⟩ := solveTridiagonal_eq_mismatch shape
    rw [refused, refused, Except.map]

end Arithmetic.IsHom

/-! ## Points -/

namespace Interval

variable [Endpoint β]

/-- Four corners that are one value have it as their hull. -/
theorem corners_point (context : Context) {operation : Direction → ℕ → β → β → β} {x y z : β}
    (lower : operation context.lower context.precision x y = z)
    (upper : operation context.upper context.precision x y = z) :
    corners context operation (point x) (point y) = point z := by
  have same (better : β → β → Bool) : extreme better z [z, z, z] = z := by
    simpa using extreme_mem better z [z, z, z]
  simp only [corners, point, lower, upper, least, greatest, same]

end Interval

namespace DecimalFloat

/-- A point contains zero if its number is zero. -/
theorem containsZero_point_iff (x : DecimalFloat) :
    (Interval.point x).containsZero = true ↔ x.value.isZero = true := by
  have zero : (Endpoint.zero : DecimalFloat).value.toRat = 0 := Decimal.toRat_zero
  simp only [Interval.containsZero, Interval.point, isUnordered_eq_false, Bool.false_or,
    Bool.and_eq_true, le_iff, zero]
  rw [Decimal.isZero_iff]
  exact le_antisymm_iff.symm

/-- In single mode the points are computed with like the numbers. -/
theorem arithmetic_isHom (precision outDigits : ℕ) :
    (DecimalFloat.arithmetic ⟨precision, outDigits, .single⟩).IsHom
      (Interval.arithmetic ⟨precision, outDigits, .single⟩) Interval.point where
  zero := rfl
  one := rfl
  add _ _ := rfl
  sub _ _ := rfl
  mul _ _ := Interval.corners_point _ rfl rfl
  quotient _ _ := Interval.corners_point _ rfl rfl
  isPivot x := congrArg not (Bool.eq_iff_iff.mpr (containsZero_point_iff x))
  isFinite _ := rfl

/-- A system of numbers and the system of their points, in single mode. Each of the solvers
refuses both with the same error, or all that it leaves behind of the second are the points
of what it leaves behind of the first. -/
theorem solve_points (precision outDigits : ℕ) :
    (∀ {m n k : ℕ} (A : DenseMatrix DecimalFloat m n) (b : Vector DecimalFloat k),
      solveGeneral (Interval.arithmetic ⟨precision, outDigits, .single⟩)
            (A.map Interval.point) (b.map Interval.point) =
          (solveGeneral (DecimalFloat.arithmetic ⟨precision, outDigits, .single⟩) A b).map
            (GeneralSolution.map Interval.point) ∧
        solveSymmetric (Interval.arithmetic ⟨precision, outDigits, .single⟩)
            (A.map Interval.point) (b.map Interval.point) =
          (solveSymmetric (DecimalFloat.arithmetic ⟨precision, outDigits, .single⟩) A b).map
            (SymmetricSolution.map Interval.point)) ∧
    ∀ {s d p k : ℕ} (sub : Vector DecimalFloat s) (diag : Vector DecimalFloat d)
      (sup : Vector DecimalFloat p) (b : Vector DecimalFloat k),
      solveTridiagonal (Interval.arithmetic ⟨precision, outDigits, .single⟩)
          (sub.map Interval.point) (diag.map Interval.point) (sup.map Interval.point)
          (b.map Interval.point) =
        (solveTridiagonal (DecimalFloat.arithmetic ⟨precision, outDigits, .single⟩)
          sub diag sup b).map (TridiagonalSolution.map Interval.point) := by
  have hom := arithmetic_isHom precision outDigits
  exact ⟨fun A b => ⟨hom.solveGeneral_map A b, hom.solveSymmetric_map A b⟩,
    fun sub diag sup b => hom.solveTridiagonal_map sub diag sup b⟩

end DecimalFloat

end LinearEnclosure
