/-
# Directed sums

Two-sum finds the error of a rounded sum exactly, and then a directed sum is tight. The one
exception is an overflow on the way: the sum is finite, but taking the first summand back out
of it is not. The error is then not a number, no step is taken in either direction, and the
sum, which is inexact, is a bound on one side only.
-/

import LinearEnclosure.Proofs.Binary.Directed
import LinearEnclosure.Proofs.Binary.TwoSum

namespace LinearEnclosure.Binary

variable {F : Format} {x y : Binary F} {a b s r : ℤ}

/-- The sum is finite, but the first summand cannot be taken back out of it. -/
def BackOverflows (x y : Binary F) : Prop :=
  (x.add y).isFinite ∧ ¬((x.add y).sub x).isFinite

instance : Decidable (BackOverflows x y) :=
  inferInstanceAs (Decidable (_ ∧ _))

/-- Half of the spacing at most separates a finite result from the exact one. -/
theorem RoundsTo.two_mul_abs_sub_le {exact : ℚ} {c : ℤ} {rank : ℕ} (rounds : RoundsTo exact x)
    (finite : x.units? = some c) (last : F.infinityRank = rank + 1) :
    2 * |c - exact| ≤ F.unitsAt (rank + 1) - F.unitsAt rank := by
  obtain ⟨place, nearest, inside, -, rfl⟩ := rounds.exists_nearest finite
  rw [abs_lt] at inside
  have below : (F.unitsAt place - F.unitsAt (place - 1) : ℚ) ≤
      F.unitsAt (rank + 1) - F.unitsAt rank := by
    have spacing := F.unitsAt_succ_sub_le (place - 1) rank (by omega) (by omega)
    rw [sub_add_cancel] at spacing
    exact_mod_cast spacing
  have above : (F.unitsAt (place + 1) - F.unitsAt place : ℚ) ≤
      F.unitsAt (rank + 1) - F.unitsAt rank := by
    exact_mod_cast F.unitsAt_succ_sub_le place rank (by omega) (by omega)
  have lower := nearest.lower
  have upper := nearest.upper
  rcases abs_cases (F.unitsAt place - exact) with ⟨size, -⟩ | ⟨size, -⟩ <;>
    rw [size] <;> linarith

/-- What overflows lies beyond the midpoint of the largest magnitude and the one after it. -/
theorem RoundsTo.le_two_mul_abs {exact : ℚ} {rank : ℕ} (rounds : RoundsTo exact x)
    (overflows : ¬x.isFinite) (last : F.infinityRank = rank + 1) :
    (F.unitsAt rank + F.unitsAt (rank + 1) : ℚ) ≤ 2 * |exact| := by
  obtain ⟨place, nearest, stands⟩ := rounds
  apply nearest.le_two_mul_abs
  by_contra! short
  have inside : |place| < F.infinityRank := by omega
  rw [Format.clamp_eq_self inside] at stands
  exact overflows (isFinite_iff.mpr ⟨_, units?_of_place stands inside⟩)

/-- A representable result that does not overflow is found. -/
theorem RoundsTo.units?_eq (rounds : RoundsTo a x) (known : F.Representable a)
    (inside : |a| < F.units F.infinityRank) : x.units? = some a := by
  obtain ⟨place, nearest, stands⟩ := rounds
  obtain ⟨other, rfl⟩ := known
  obtain rfl : place = other :=
    le_antisymm (nearest.ge_of_ge other le_rfl) (nearest.le_of_le other le_rfl)
  rw [Format.abs_unitsAt, Int.ofNat_lt, F.units_strictMono.lt_iff_lt] at inside
  have inside : |place| < F.infinityRank := by
    rw [Int.abs_eq_natAbs]
    exact_mod_cast inside
  rw [Format.clamp_eq_self inside] at stands
  exact units?_of_place stands inside

variable [NeZero F.fractionBits]

/-! ## The error of a sum -/

theorem sumError_units? (left : x.units? = some a) (right : y.units? = some b)
    (whole : (x.add y).units? = some s) (taken : ((x.add y).sub x).units? = some r) :
    (sumError x y (x.add y)).units? = some (a + b - s) := by
  have twoSum : F.TwoSum a b s r :=
    ⟨representable_of_units left, representable_of_units right,
      (add_roundsTo left right).rounds whole, (sub_roundsTo whole left).rounds taken⟩
  have boundA := abs_lt_of_units left
  have boundS := abs_lt_of_units whole
  have boundR := abs_lt_of_units taken
  have recovered := (sub_roundsTo whole taken).units?_eq twoSum.recovered_representable
    (twoSum.abs_recovered_lt boundA boundS boundR)
  have leftError := (sub_roundsTo left recovered).units?_eq twoSum.left_error_representable
    (twoSum.abs_left_error_lt boundS)
  have rightError := (sub_roundsTo right taken).units?_eq twoSum.right_error_representable
    (twoSum.abs_right_error_lt boundA (abs_lt_of_units right) boundR)
  have total := add_roundsTo leftError rightError
  rw [show a - (s - r) + (b - r) = a + b - s by ring] at total
  exact total.units?_eq twoSum.error_representable (twoSum.abs_error_le.trans_lt boundA)

/-- An overflow is carried into both halves of the error with opposite signs. -/
theorem sumError_eq_nan (left : x.units? = some a) (right : y.units? = some b)
    (overflows : BackOverflows x y) : sumError x y (x.add y) = nan := by
  obtain ⟨whole, lost⟩ := overflows
  obtain ⟨s, whole⟩ := isFinite_iff.mp whole
  have rounds := sub_roundsTo whole left
  obtain ⟨_, _, _, rfl, -⟩ := exists_finite left
  obtain ⟨_, _, _, rfl, -⟩ := exists_finite right
  obtain ⟨_, _, _, sum, -⟩ := exists_finite whole
  cases back : ((finite _ _ _ : Binary F).add (finite _ _ _)).sub (finite _ _ _) with
  | finite negative rank rank_lt =>
    rw [back] at lost
    exact absurd rfl lost
  | infinite negative =>
    rw [sumError, back, sum]
    simp [Binary.sub, Binary.neg, Binary.add]
  | nan =>
    rw [back] at rounds
    obtain ⟨_, -, stands⟩ := rounds
    cases stands

/-- Only a second summand of the largest magnitude leads to an overflow: the sum is off by at
most half of the widest spacing, and so is what comes back from the second summand. -/
theorem abs_eq_of_backOverflows (left : x.units? = some a) (right : y.units? = some b)
    (overflows : BackOverflows x y) : |b| = F.units (F.infinityRank - 1) := by
  obtain ⟨whole, lost⟩ := overflows
  obtain ⟨s, whole⟩ := isFinite_iff.mp whole
  obtain ⟨other, -, inside, rfl⟩ := exists_place right
  obtain ⟨rank, last⟩ : ∃ rank, F.infinityRank = rank + 1 :=
    Nat.exists_eq_succ_of_ne_zero (neZero_infinityRank right).out
  rw [abs_lt] at inside
  rw [last, Nat.add_sub_cancel, Format.abs_unitsAt, Nat.cast_inj]
  apply le_antisymm (F.units_strictMono.monotone (by omega))
  zify
  rw [← Format.abs_unitsAt]
  have near := (add_roundsTo left right).two_mul_abs_sub_le whole last
  have far := (sub_roundsTo whole left).le_two_mul_abs lost last
  have parts := abs_add_le (F.unitsAt other) (s - (a + F.unitsAt other))
  rw [show F.unitsAt other + (s - (a + F.unitsAt other)) = s - a by ring] at parts
  norm_cast at near far
  simp only [Format.unitsAt_natCast] at near far
  omega

/-- When the first summand cannot be taken back, the rounded sum is the result in every
direction. -/
theorem addDirected_of_backOverflows (left : x.units? = some a) (right : y.units? = some b)
    (overflows : BackOverflows x y) (direction : Direction) :
    addDirected direction x y = x.add y := by
  obtain ⟨s, whole⟩ := isFinite_iff.mp overflows.1
  obtain ⟨_, _, _, sum, -⟩ := exists_finite whole
  rw [addDirected, sumError_eq_nan left right overflows, sum]
  cases direction <;> simp [adjust, isNegative, isPositive, place?]

/-- A sum that is a bound on both sides is exact, and taking the first summand out of it gives
back the second one. -/
theorem not_backOverflows_of_bounds (left : x.units? = some a) (right : y.units? = some b)
    (low : (x.add y).IsNearFloor (F.ofUnits (a + b : ℤ)))
    (high : (x.add y).IsNearCeil (F.ofUnits (a + b : ℤ))) : ¬BackOverflows x y := by
  rintro ⟨-, lost⟩
  have exact := units?_of_value? (value?_of_bounds low high)
  have taken := sub_roundsTo exact left
  rw [add_sub_cancel_left] at taken
  exact lost (isFinite_iff.mpr ⟨b, taken.units?_eq (representable_of_units right)
    (abs_lt_of_units right)⟩)

/-! ## Directed sums -/

theorem addDirected_tight [NeZero F.infinityRank] (left : x.units? = some a)
    (right : y.units? = some b) (taken : ¬BackOverflows x y) :
    (addDirected .down x y).IsFloor (F.ofUnits (a + b : ℤ)) ∧
      (addDirected .up x y).IsCeil (F.ofUnits (a + b : ℤ)) := by
  apply adjust_tight (add_roundsTo left right)
  intro s whole
  have finite : ((x.add y).sub x).isFinite := by
    by_contra lost
    exact taken ⟨isFinite_iff.mpr ⟨s, whole⟩, lost⟩
  obtain ⟨r, back⟩ := isFinite_iff.mp finite
  have error := sumError_units? left right whole back
  rw [isNegative_iff error, isPositive_iff error, sub_neg, sub_pos]
  norm_cast

/-- Directed sums are tight, unless the first summand cannot be taken back out of the sum. -/
theorem addDirected_tight_iff {v w : ℝ} (left : x.value? = some (v : EReal))
    (right : y.value? = some (w : EReal)) :
    (addDirected .down x y).IsFloor (v + w) ∧ (addDirected .up x y).IsCeil (v + w) ↔
      ¬BackOverflows x y := by
  obtain ⟨m, first, rfl⟩ := exists_units left
  obtain ⟨n, second, rfl⟩ := exists_units right
  have : NeZero F.infinityRank := neZero_infinityRank first
  rw [← F.ofUnits_add, ← Int.cast_add]
  refine ⟨fun ⟨floor, ceil⟩ overflows => ?_, addDirected_tight first second⟩
  rw [addDirected_of_backOverflows first second overflows] at floor ceil
  exact not_backOverflows_of_bounds first second floor.near ceil.near overflows

/-- Directed sums and differences of finite values, in either order, are the tightest bounds of
the exact results, exactly when the first operand can be taken back out of the rounded result. -/
theorem directed_sums_tight_iff {a b : ℝ} (left : x.value? = some (a : EReal))
    (right : y.value? = some (b : EReal)) :
    ((addDirected .down x y).IsFloor (a + b) ∧ (addDirected .up x y).IsCeil (a + b) ↔
      ¬BackOverflows x y) ∧
    ((subDirected .down x y).IsFloor (a - b) ∧ (subDirected .up x y).IsCeil (a - b) ↔
      ¬BackOverflows x y.neg) := by
  refine ⟨addDirected_tight_iff left right, ?_⟩
  have mirrored : y.neg.value? = some ((-b : ℝ) : EReal) := by
    rw [value?_neg, right, Option.map_some, EReal.coe_neg]
  rw [sub_eq_add_neg]
  exact addDirected_tight_iff left mirrored

/-- One and the least positive number, whose sum and difference are not representable. -/
theorem directed_sums_tight_one :
    ((addDirected .down (Binary.one : Double) (finite false 1 (by decide))).IsFloor
        (1 + 1 / 2 ^ 1074) ∧
      (addDirected .up (Binary.one : Double) (finite false 1 (by decide))).IsCeil
        (1 + 1 / 2 ^ 1074)) ∧
    (subDirected .down (Binary.one : Double) (finite false 1 (by decide))).IsFloor
        (1 - 1 / 2 ^ 1074) ∧
      (subDirected .up (Binary.one : Double) (finite false 1 (by decide))).IsCeil
        (1 - 1 / 2 ^ 1074) := by
  have one : (Binary.one : Double).value? = some ((1 : ℝ) : EReal) := by
    simpa using value?_of_dyadic (x := (Binary.one : Double)) 1 0 (by decide) (by decide +kernel)
  have least : (finite false 1 (by decide) : Double).value? =
      some ((1 / 2 ^ 1074 : ℝ) : EReal) := by
    simpa using value?_of_dyadic (x := (finite false 1 (by decide) : Double)) 1 1074 (by decide)
      (by decide +kernel)
  obtain ⟨sums, differences⟩ := directed_sums_tight_iff one least
  exact ⟨sums.mpr (by decide +kernel), differences.mpr (by decide +kernel)⟩

/-- A tie next to the largest magnitude is rounded away from the first summand. Taking that out
again overflows, and the sum that was rounded up is taken for a lower bound. -/
theorem addDirected_down_above_sum :
    (finite true (1994 * 2 ^ 52 + 2 ^ 51) (by decide) : Double).value? =
        some ((-(3 * 2 ^ 970) : ℝ) : EReal) ∧
      (largest false : Double).value? = some ((2 ^ 1024 - 2 ^ 971 : ℝ) : EReal) ∧
      ¬(addDirected .down (finite true (1994 * 2 ^ 52 + 2 ^ 51) (by decide) : Double)
        (largest false)).IsFloor (-(3 * 2 ^ 970) + (2 ^ 1024 - 2 ^ 971)) := by
  refine ⟨?_, ?_, ?_⟩
  · rw [value?_of_dyadic (-(3 * 2 ^ 970)) 0 (by decide) (by decide +kernel)]
    simp only [Int.cast_neg, Int.cast_mul, Int.cast_pow, Int.cast_ofNat, pow_zero, div_one]
  · rw [value?_of_dyadic (2 ^ 1024 - 2 ^ 971) 0 (by decide) (by decide +kernel)]
    simp only [Int.cast_sub, Int.cast_pow, Int.cast_ofNat, pow_zero, div_one]
  · rintro ⟨v, stands, ⟨-, below⟩, -⟩
    rw [value?_of_dyadic (2 ^ 1024 - 2 * 2 ^ 971) 0 (by decide) (by decide +kernel)] at stands
    obtain rfl := Option.some.inj stands
    have step : (2 : ℝ) ^ 971 = 2 ^ 970 * 2 := pow_succ ..
    have positive : (0 : ℝ) < 2 ^ 970 := by positivity
    simp only [EReal.coe_le_coe_iff, Int.cast_sub, Int.cast_mul, Int.cast_pow, Int.cast_ofNat,
      pow_zero, div_one, step] at below
    generalize (2 : ℝ) ^ 970 = unit at positive below
    generalize (2 : ℝ) ^ 1024 = top at below
    linarith only [positive, below]

end LinearEnclosure.Binary
