/-
# Bands of decimal numbers

A context works at its own precision as long as no operand was made at a larger one. Then the
result of an operation depends on the values of its operands alone, it is made at the working
precision again, and zeros are absorbed. So the tridiagonal solver agrees with the general one
to the last digit, on decimal numbers and on intervals with decimal ends, in either mode.
-/

import LinearEnclosure.Proofs.Decimal.Order
import LinearEnclosure.Proofs.Decimal.Zero
import LinearEnclosure.Proofs.Solver.Banded

namespace LinearEnclosure

variable {context : Context}

/-- The precision that operations of a context work at, unless an operand was made at a larger
one. -/
def Context.working (context : Context) : ℕ :=
  max context.precision 1

namespace DecimalFloat

/-- Numbers with the same value, neither of them made at more than the working precision. -/
structure Alike (context : Context) (x y : DecimalFloat) : Prop where
  value : x.value = y.value
  left : x.precision ≤ context.working
  right : y.precision ≤ context.working

theorem Alike.symm {x y : DecimalFloat} (alike : Alike context x y) : Alike context y x :=
  ⟨alike.value.symm, alike.right, alike.left⟩

theorem Alike.trans {x y z : DecimalFloat} (first : Alike context x y)
    (second : Alike context y z) : Alike context x z :=
  ⟨first.value.trans second.value, first.left, second.right⟩

theorem Alike.refl {x : DecimalFloat} (fits : x.precision ≤ context.precision) :
    Alike context x x :=
  ⟨rfl, le_max_of_le_left fits, le_max_of_le_left fits⟩

theorem Alike.zero : Alike context DecimalFloat.zero DecimalFloat.zero :=
  ⟨rfl, Nat.zero_le _, Nat.zero_le _⟩

theorem Alike.one : Alike context DecimalFloat.one DecimalFloat.one :=
  ⟨rfl, Nat.zero_le _, Nat.zero_le _⟩

theorem Alike.neg {x y : DecimalFloat} (alike : Alike context x y) :
    Alike context x.neg y.neg :=
  ⟨congrArg Decimal.neg alike.value, alike.left, alike.right⟩

theorem Alike.eq {x y : DecimalFloat} (alike : Alike context x y) :
    Endpoint.eq x y = true := by
  rw [eq_iff, alike.value]

section Apply

variable {operation : Direction → ℕ → Decimal → Decimal → Decimal} {direction : Direction}
  {x x' y y' : DecimalFloat}

/-- At the working precision nothing is rounded twice. -/
theorem Alike.apply_eq (first : Alike context x x') (second : Alike context y y') :
    apply operation direction context.precision x y =
      ⟨operation direction context.working x'.value y'.value, context.working⟩ := by
  have working : max (max context.precision 1) (max x.precision y.precision) =
      context.working := max_eq_left (max_le first.left second.left)
  rw [apply, working, withPrecision, Context.working, if_neg (lt_irrefl _), first.value,
    second.value]

theorem Alike.apply (first : Alike context x x') (second : Alike context y y') :
    Alike context (apply operation direction context.precision x y)
      (apply operation direction context.precision x' y') := by
  rw [first.apply_eq second, first.symm.apply_eq second.symm, first.value, second.value]
  exact ⟨rfl, le_rfl, le_rfl⟩

/-- A result is alike whatever has its value. -/
theorem Alike.apply_of_value (first : Alike context x x) (second : Alike context y y)
    {z : DecimalFloat} (fits : z.precision ≤ context.working)
    (same : operation direction context.working x.value y.value = z.value) :
    Alike context (DecimalFloat.apply operation direction context.precision x y) z := by
  rw [first.apply_eq second]
  exact ⟨same, le_rfl, fits⟩

end Apply

theorem Alike.sub_zero {x : DecimalFloat} (valid : Alike context x x) (direction : Direction) :
    Alike context (DecimalFloat.sub direction context.precision x DecimalFloat.zero) x :=
  valid.apply_of_value Alike.zero.neg valid.left (sum_zero_right ..)

theorem absorbsZero (context : Context) :
    (DecimalFloat.arithmetic context).AbsorbsZero (Alike context) where
  zero := .zero
  one := .one
  add first second := first.apply second
  sub first second := first.apply second.neg
  mul first second := first.apply second
  quotient first second _ := first.apply second
  isPivot alike pivot := by
    simpa only [arithmetic, alike.value] using pivot
  refuses alike invalid := by
    simpa only [arithmetic, alike.value] using invalid
  symm := .symm
  trans := .trans
  mul_zero valid := valid.apply_of_value .zero (Nat.zero_le _) (product_zero_right ..)
  zero_mul valid := Alike.zero.apply_of_value valid (Nat.zero_le _) (product_zero_left ..)
  sub_zero valid := valid.sub_zero _
  zero_quotient valid _ :=
    Alike.zero.apply_of_value valid (Nat.zero_le _) (quotient_zero_left ..)

end DecimalFloat

namespace Interval

open DecimalFloat

/-- Intervals whose lower ends are alike, and whose upper ends are. -/
structure Alike (context : Context) (x y : Interval DecimalFloat) : Prop where
  lo : DecimalFloat.Alike context x.lo y.lo
  hi : DecimalFloat.Alike context x.hi y.hi

theorem Alike.symm {x y : Interval DecimalFloat} (alike : Alike context x y) :
    Alike context y x :=
  ⟨alike.lo.symm, alike.hi.symm⟩

theorem Alike.trans {x y z : Interval DecimalFloat} (first : Alike context x y)
    (second : Alike context y z) : Alike context x z :=
  ⟨first.lo.trans second.lo, first.hi.trans second.hi⟩

theorem Alike.refl {x : Interval DecimalFloat} (lo : x.lo.precision ≤ context.precision)
    (hi : x.hi.precision ≤ context.precision) : Alike context x x :=
  ⟨.refl lo, .refl hi⟩

theorem Alike.zero : Alike context Interval.zero Interval.zero := ⟨.zero, .zero⟩

theorem Alike.eq {x y : Interval DecimalFloat} (alike : Alike context x y) :
    x.eq y = true := by
  rw [Interval.eq, alike.lo.eq, alike.hi.eq]
  rfl

theorem Alike.isEnd {x : Interval DecimalFloat} (alike : Alike context x x) {u : DecimalFloat}
    (isEnd : x.IsEnd u) : DecimalFloat.Alike context u u := by
  obtain rfl | rfl := isEnd
  · exact alike.lo
  · exact alike.hi

/-- The test for zero looks at the values of the ends. -/
theorem Alike.containsZero_eq {x y : Interval DecimalFloat} (alike : Alike context x y) :
    x.containsZero = y.containsZero := by
  simp only [containsZero, isUnordered_eq_false, Endpoint.le, Endpoint.compare?, alike.lo.value,
    alike.hi.value]

section Corners

variable {operation : Direction → ℕ → Decimal → Decimal → Decimal}
  {x x' y y' : Interval DecimalFloat}

/-- The results at the corners are the same, and so is what is chosen among them. -/
theorem Alike.corners_eq (first : Alike context x x') (second : Alike context y y') :
    corners context (DecimalFloat.apply operation) x y =
      corners context (DecimalFloat.apply operation) x' y' := by
  have same {u u' v v' : DecimalFloat} (direction : Direction)
      (left : DecimalFloat.Alike context u u') (right : DecimalFloat.Alike context v v') :
      DecimalFloat.apply operation direction context.precision u v =
        DecimalFloat.apply operation direction context.precision u' v' := by
    rw [left.apply_eq right, left.symm.apply_eq right.symm, left.value, right.value]
  simp only [corners, same _ first.lo second.lo, same _ first.lo second.hi,
    same _ first.hi second.lo, same _ first.hi second.hi]

theorem Alike.corners (first : Alike context x x') (second : Alike context y y') :
    Alike context (corners context (DecimalFloat.apply operation) x y)
      (corners context (DecimalFloat.apply operation) x' y') := by
  rw [first.corners_eq second]
  have left := first.symm.trans first
  have right := second.symm.trans second
  obtain ⟨u, v, inX, inY, lo⟩ :=
    exists_corners_lo context (DecimalFloat.apply operation) x' y'
  obtain ⟨u', v', inX', inY', hi⟩ :=
    exists_corners_hi context (DecimalFloat.apply operation) x' y'
  constructor
  · rw [lo]
    exact (left.isEnd inX).apply (right.isEnd inY)
  · rw [hi]
    exact (left.isEnd inX').apply (right.isEnd inY')

/-- A hull is zero if the results at all corners are. -/
theorem Alike.corners_zero (first : Alike context x x) (second : Alike context y y)
    (zero : ∀ direction u v, x.IsEnd u → y.IsEnd v →
      operation direction context.working u.value v.value = Decimal.zero) :
    Alike context (Interval.corners context (DecimalFloat.apply operation) x y)
      Interval.zero := by
  obtain ⟨u, v, inX, inY, lo⟩ := exists_corners_lo context (DecimalFloat.apply operation) x y
  obtain ⟨u', v', inX', inY', hi⟩ := exists_corners_hi context (DecimalFloat.apply operation) x y
  constructor
  · rw [lo]
    exact (first.isEnd inX).apply_of_value (second.isEnd inY) (Nat.zero_le _)
      (zero _ u v inX inY)
  · rw [hi]
    exact (first.isEnd inX').apply_of_value (second.isEnd inY') (Nat.zero_le _)
      (zero _ u' v' inX' inY')

end Corners

theorem eq_zero_of_isEnd {u : DecimalFloat} (isEnd : Interval.zero.IsEnd u) :
    u.value = Decimal.zero := by
  obtain rfl | rfl := isEnd <;> rfl

theorem absorbsZero (context : Context) :
    (Interval.arithmetic context).AbsorbsZero (Alike context) where
  zero := .zero
  one := ⟨.one, .one⟩
  add first second := ⟨first.lo.apply second.lo, first.hi.apply second.hi⟩
  sub first second := ⟨first.lo.apply second.hi.neg, first.hi.apply second.lo.neg⟩
  mul first second := first.corners second
  quotient first second _ := first.corners second
  isPivot alike pivot := by
    simpa only [arithmetic, alike.containsZero_eq] using pivot
  refuses alike invalid := by
    simpa only [arithmetic, alike.containsZero_eq] using invalid
  symm := .symm
  trans := .trans
  mul_zero valid := valid.corners_zero .zero fun direction u v _ inZero => by
    rw [eq_zero_of_isEnd inZero, product_zero_right]
  zero_mul valid := Alike.zero.corners_zero valid fun direction u v inZero _ => by
    rw [eq_zero_of_isEnd inZero, product_zero_left]
  sub_zero valid := ⟨valid.lo.sub_zero _, valid.hi.sub_zero _⟩
  zero_quotient valid _ := Alike.zero.corners_zero valid fun direction u v inZero _ => by
    rw [eq_zero_of_isEnd inZero, quotient_zero_left]

end Interval

/-! ## Solves with decimal numbers -/

/-- The number was made at no more digits than the context has. -/
def DecimalFloat.Fits (context : Context) (x : DecimalFloat) : Prop :=
  x.precision ≤ context.precision

/-- Both ends were made at no more digits than the context has. -/
def Interval.Fits (context : Context) (x : Interval DecimalFloat) : Prop :=
  x.lo.Fits context ∧ x.hi.Fits context

instance (context : Context) (x : DecimalFloat) : Decidable (x.Fits context) :=
  inferInstanceAs (Decidable (_ ≤ _))

instance (context : Context) (x : Interval DecimalFloat) : Decidable (x.Fits context) :=
  inferInstanceAs (Decidable (_ ∧ _))

/-- On numbers that fit a context the tridiagonal solver and the general one, given the same
matrix with its zeros, end in the same way. Either both meet the same singular pivot, or all
factors, intermediate vectors and solutions have equal values, and the dense factors are zero
beside their bands. -/
theorem banded_sameOutcome (context : Context) :
    (∀ {n : ℕ} (sub sup : Vector DecimalFloat n) (diag b : Vector DecimalFloat (n + 1)),
      (∀ k, (sub.get k).Fits context) → (∀ i, (diag.get i).Fits context) →
      (∀ k, (sup.get k).Fits context) → (∀ i, (b.get i).Fits context) →
      SameOutcome
        (TridiagonalSolution.Matches (DecimalFloat.arithmetic context) fun x y =>
          Endpoint.eq x y = true)
        (solveGeneral (DecimalFloat.arithmetic context)
          (Bands.toDense (DecimalFloat.arithmetic context) ⟨sub, diag, sup⟩) b)
        (solveTridiagonal (DecimalFloat.arithmetic context) sub diag sup b) ∧
      ∀ error, solveTridiagonal (DecimalFloat.arithmetic context) sub diag sup b = .error error →
        ∃ k, error = .singularPivot .decomposition k) ∧
    ∀ {n : ℕ} (sub sup : Vector (Interval DecimalFloat) n)
      (diag b : Vector (Interval DecimalFloat) (n + 1)),
      (∀ k, (sub.get k).Fits context) → (∀ i, (diag.get i).Fits context) →
      (∀ k, (sup.get k).Fits context) → (∀ i, (b.get i).Fits context) →
      SameOutcome
        (TridiagonalSolution.Matches (Interval.arithmetic context) fun x y => x.eq y = true)
        (solveGeneral (Interval.arithmetic context)
          (Bands.toDense (Interval.arithmetic context) ⟨sub, diag, sup⟩) b)
        (solveTridiagonal (Interval.arithmetic context) sub diag sup b) ∧
      ∀ error, solveTridiagonal (Interval.arithmetic context) sub diag sup b = .error error →
        ∃ k, error = .singularPivot .decomposition k := by
  constructor
  · intro n sub sup diag b below main above sides
    have same := (DecimalFloat.absorbsZero context).solve_sameOutcome
      (fun k => .refl (below k)) (fun i => .refl (main i)) (fun k => .refl (above k))
      fun i => .refl (sides i)
    exact ⟨same.mono fun _ _ matching => matching.mono fun _ _ => DecimalFloat.Alike.eq,
      fun error failed => singular_of_sameOutcome same failed⟩
  · intro n sub sup diag b below main above sides
    have alike {m : ℕ} {xs : Vector (Interval DecimalFloat) m}
        (fits : ∀ i, (xs.get i).Fits context) : VectorRel (Interval.Alike context) xs xs :=
      fun i => .refl (fits i).1 (fits i).2
    have same := (Interval.absorbsZero context).solve_sameOutcome
      (alike below) (alike main) (alike above) (alike sides)
    exact ⟨same.mono fun _ _ matching => matching.mono fun _ _ => Interval.Alike.eq,
      fun error failed => singular_of_sameOutcome same failed⟩

/-- Whole numbers with all their digits. -/
def wholeNumbers {n : ℕ} (xs : Vector ℤ n) : Vector DecimalFloat n :=
  xs.map fun x => .ofDecimal (.of x 0)

/-- The intervals from whole numbers to the next ones. -/
def wholeSteps {n : ℕ} (xs : Vector ℤ n) : Vector (Interval DecimalFloat) n :=
  xs.map fun x => ⟨.ofDecimal (.of x 0), .ofDecimal (.of (x + 1) 0)⟩

/-- Three equations at three digits, where every quotient is rounded: with numbers, and with
intervals in dual mode. -/
theorem banded_sameOutcome_triple :
    (∃ dense, ∃ banded : TridiagonalSolution DecimalFloat 2,
      solveGeneral (DecimalFloat.arithmetic ⟨3, 3, .dual⟩)
        (Bands.toDense (DecimalFloat.arithmetic ⟨3, 3, .dual⟩)
          ⟨wholeNumbers #v[1, 2], wholeNumbers #v[3, 7, 9], wholeNumbers #v[2, 1]⟩)
        (wholeNumbers #v[1, 2, 3]) = .ok dense ∧
      solveTridiagonal (DecimalFloat.arithmetic ⟨3, 3, .dual⟩) (wholeNumbers #v[1, 2])
        (wholeNumbers #v[3, 7, 9]) (wholeNumbers #v[2, 1]) (wholeNumbers #v[1, 2, 3]) =
          .ok banded ∧
      VectorRel (fun x y => Endpoint.eq x y = true) dense.x banded.x) ∧
    ∃ dense, ∃ banded : TridiagonalSolution (Interval DecimalFloat) 2,
      solveGeneral (Interval.arithmetic ⟨3, 3, .dual⟩)
        (Bands.toDense (Interval.arithmetic ⟨3, 3, .dual⟩)
          ⟨wholeSteps #v[1, 2], wholeSteps #v[3, 7, 9], wholeSteps #v[2, 1]⟩)
        (wholeSteps #v[1, 2, 3]) = .ok dense ∧
      solveTridiagonal (Interval.arithmetic ⟨3, 3, .dual⟩) (wholeSteps #v[1, 2])
        (wholeSteps #v[3, 7, 9]) (wholeSteps #v[2, 1]) (wholeSteps #v[1, 2, 3]) =
          .ok banded ∧
      VectorRel (fun x y => x.eq y = true) dense.x banded.x := by
  obtain ⟨numbers, intervals⟩ := banded_sameOutcome ⟨3, 3, .dual⟩
  constructor
  · obtain ⟨dense, solved⟩ := exists_of_isOk
      (r := solveGeneral (DecimalFloat.arithmetic ⟨3, 3, .dual⟩)
        (Bands.toDense (DecimalFloat.arithmetic ⟨3, 3, .dual⟩)
          ⟨wholeNumbers #v[1, 2], wholeNumbers #v[3, 7, 9], wholeNumbers #v[2, 1]⟩)
        (wholeNumbers #v[1, 2, 3])) (by decide +kernel)
    obtain ⟨same, -⟩ := numbers (wholeNumbers #v[1, 2]) (wholeNumbers #v[2, 1])
      (wholeNumbers #v[3, 7, 9]) (wholeNumbers #v[1, 2, 3]) (by decide +kernel)
      (by decide +kernel) (by decide +kernel) (by decide +kernel)
    rw [solved] at same
    obtain ⟨banded, solved', matching⟩ := same.of_ok
    exact ⟨dense, banded, solved, solved', matching.x⟩
  · obtain ⟨dense, solved⟩ := exists_of_isOk
      (r := solveGeneral (Interval.arithmetic ⟨3, 3, .dual⟩)
        (Bands.toDense (Interval.arithmetic ⟨3, 3, .dual⟩)
          ⟨wholeSteps #v[1, 2], wholeSteps #v[3, 7, 9], wholeSteps #v[2, 1]⟩)
        (wholeSteps #v[1, 2, 3])) (by decide +kernel)
    obtain ⟨same, -⟩ := intervals (wholeSteps #v[1, 2]) (wholeSteps #v[2, 1])
      (wholeSteps #v[3, 7, 9]) (wholeSteps #v[1, 2, 3]) (by decide +kernel)
      (by decide +kernel) (by decide +kernel) (by decide +kernel)
    rw [solved] at same
    obtain ⟨banded, solved', matching⟩ := same.of_ok
    exact ⟨dense, banded, solved, solved', matching.x⟩

end LinearEnclosure
