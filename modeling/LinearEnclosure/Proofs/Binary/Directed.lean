/-
# Directed results

The next value in a direction stands one place further. From the nearest value that step
never leaves the exact result on the wrong side, and it skips at most one value. A correction
by the side on which the exact result lies skips none, and neither does an overflow that comes
back to the largest magnitude.
-/

import LinearEnclosure.Binary.Directed
import LinearEnclosure.Proofs.Binary.Value

namespace LinearEnclosure.Binary

variable {F : Format} {x : Binary F} {exact : ℚ} {c : ℤ}

/-! ## Rounded results -/

theorem place?_neg {place : ℤ} (stands : x.place? = some place) :
    x.neg.place? = some (-place) := by
  cases x with
  | finite negative rank rank_lt =>
    obtain rfl := Option.some.inj stands
    cases negative <;> simp [Binary.neg, place?]
  | infinite negative =>
    obtain rfl := Option.some.inj stands
    cases negative <;> simp [Binary.neg, place?]
  | nan => cases stands

theorem RoundsTo.neg (rounds : RoundsTo exact x) : RoundsTo (-exact) x.neg := by
  obtain ⟨place, nearest, stands⟩ := rounds
  refine ⟨-place, nearest.neg, ?_⟩
  rw [place?_neg stands, Format.clamp, Format.clamp]
  congr 1
  omega

/-- A finite result stands at the nearest place itself. -/
theorem RoundsTo.exists_nearest (rounds : RoundsTo exact x) (finite : x.units? = some c) :
    ∃ place, F.Nearest exact place ∧ |place| < F.infinityRank ∧ x.place? = some place ∧
      F.unitsAt place = c := by
  obtain ⟨place, nearest, stands⟩ := rounds
  obtain ⟨place', stands', inside, units⟩ := exists_place finite
  have same : place = place' := by
    have clamped := Option.some.inj (stands.symm.trans stands')
    rw [Format.clamp] at clamped
    rw [abs_lt] at inside
    omega
  exact ⟨place, nearest, same ▸ inside, same ▸ stands', same ▸ units⟩

/-- What is nearest to a finite value lies between the infinities. -/
theorem RoundsTo.between (rounds : RoundsTo exact x) (finite : x.units? = some c) :
    F.unitsAt (-F.infinityRank) < exact ∧ exact < F.unitsAt F.infinityRank := by
  obtain ⟨place, nearest, inside, -, -⟩ := rounds.exists_nearest finite
  rw [abs_lt] at inside
  have low : F.unitsAt (-F.infinityRank) ≤ F.unitsAt (place - 1) :=
    F.unitsAt_strictMono.monotone (by omega)
  have high : F.unitsAt (place + 1) ≤ F.unitsAt F.infinityRank :=
    F.unitsAt_strictMono.monotone (by omega)
  exact ⟨(Int.cast_le.mpr low).trans_lt nearest.pred_lt,
    nearest.lt_succ.trans_le (Int.cast_le.mpr high)⟩

theorem RoundsTo.rounds (rounds : RoundsTo exact x) (finite : x.units? = some c) :
    F.Rounds exact c := by
  obtain ⟨place, nearest, -, -, units⟩ := rounds.exists_nearest finite
  exact ⟨place, nearest, units⟩

theorem RoundsTo.eq_zero (rounds : RoundsTo 0 x) (finite : x.units? = some c) : c = 0 := by
  have rounded := rounds.rounds finite
  rw [← Int.cast_zero] at rounded
  exact rounded.eq Format.representable_zero

/-! ## Signs -/

theorem isPositive_iff (finite : x.units? = some c) : x.isPositive ↔ 0 < c := by
  obtain ⟨place, stands, -, rfl⟩ := exists_place finite
  rw [isPositive, stands, decide_eq_true_iff, ← F.unitsAt_strictMono.lt_iff_lt,
    Format.unitsAt_zero]

theorem isNegative_iff (finite : x.units? = some c) : x.isNegative ↔ c < 0 := by
  obtain ⟨place, stands, -, rfl⟩ := exists_place finite
  rw [isNegative, stands, decide_eq_true_iff, ← F.unitsAt_strictMono.lt_iff_lt,
    Format.unitsAt_zero]

/-! ## Mirrored corrections -/

variable {below above : Bool}

theorem adjust_false (finite : x.units? = some c) (direction : Direction) :
    x.adjust direction false false = x := by
  obtain ⟨_, _, _, rfl, -⟩ := exists_finite finite
  cases direction <;> rfl

theorem neg_largest (negative : Bool) :
    (largest negative : Binary F).neg = largest (!negative) := by
  unfold largest ofRank
  split <;> rfl

theorem neg_adjust_up : (x.adjust .up below above).neg = x.neg.adjust .down above below := by
  cases x with
  | finite negative rank rank_lt =>
    cases above <;> simp [adjust, Binary.neg, nextDown]
  | infinite negative =>
    cases negative with
    | false => rfl
    | true => exact neg_largest true
  | nan => cases above <;> rfl

variable [NeZero F.infinityRank]

/-! ## Neighbours -/

theorem place?_largest (negative : Bool) :
    (largest negative : Binary F).place? =
      some (if negative then -(F.infinityRank - 1 : ℤ) else F.infinityRank - 1) := by
  have positive := Nat.pos_of_neZero F.infinityRank
  rw [largest, place?_ofRank, Format.clamp]
  cases negative <;> simp <;> omega

theorem place?_nextUp {place : ℤ} (stands : x.place? = some place) :
    x.nextUp.place? = some (min (place + 1) F.infinityRank) := by
  have positive := Nat.pos_of_neZero F.infinityRank
  cases x with
  | finite negative rank rank_lt =>
    obtain rfl := Option.some.inj stands
    by_cases below : negative && rank != 0
    · -- Below zero the magnitude shrinks, and from either zero it grows.
      obtain ⟨rfl, nonzero⟩ : negative = true ∧ rank ≠ 0 := by simpa using below
      rw [nextUp, if_pos below, place?_ofRank, Format.clamp]
      simp only [if_true, Option.some.injEq]
      omega
    · have same : (if negative then -(rank : ℤ) else rank) = rank := by
        cases negative with
        | false => rfl
        | true =>
          obtain rfl : rank = 0 := by simpa using below
          rfl
      rw [nextUp, if_neg below, place?_ofRank, Format.clamp, same]
      simp only [Bool.false_eq_true, if_false, Option.some.injEq]
      omega
  | infinite negative =>
    obtain rfl := Option.some.inj stands
    cases negative with
    | false => simp [nextUp, place?]
    | true =>
      rw [nextUp, if_pos rfl, place?_largest]
      simp only [if_true, Option.some.injEq]
      omega
  | nan => cases stands

theorem place?_nextDown {place : ℤ} (stands : x.place? = some place) :
    x.nextDown.place? = some (max (place - 1) (-F.infinityRank)) := by
  rw [nextDown, place?_neg (place?_nextUp (place?_neg stands))]
  congr 1
  omega

/-! ## Steps from the nearest value -/

theorem nextDown_isNearFloor (rounds : RoundsTo exact x) (finite : x.units? = some c) :
    x.nextDown.IsNearFloor (F.ofUnits exact) := by
  obtain ⟨place, nearest, inside, stands, -⟩ := rounds.exists_nearest finite
  rw [abs_lt] at inside
  have stands : x.nextDown.place? = some (place - 1) := by
    rw [place?_nextDown stands, max_eq_left (by omega)]
  apply isNearFloor_of_place stands (by omega)
  · exact Format.valueAt_le_ofUnits (by omega) nearest.pred_lt.le
  · rw [show place - 1 + 2 = place + 1 by ring]
    exact Format.ofUnits_lt_valueAt (by omega) nearest.lt_succ

theorem nextUp_isNearCeil (rounds : RoundsTo exact x) (finite : x.units? = some c) :
    x.nextUp.IsNearCeil (F.ofUnits exact) := by
  apply isNearCeil_of_neg
  have mirrored := nextDown_isNearFloor rounds.neg (units?_neg finite)
  rwa [nextDown, neg_neg, Format.ofUnits_neg] at mirrored

/-! ## Corrections by the side of the exact result -/

/-- The largest magnitude is tight below an exact result that rounds to infinity. -/
private theorem largest_isFloor {place : ℤ} (nearest : F.Nearest exact place)
    (beyond : F.infinityRank ≤ place) : (largest false : Binary F).IsFloor (F.ofUnits exact) := by
  have positive := Nat.pos_of_neZero F.infinityRank
  have stands : (largest false : Binary F).place? = some ((F.infinityRank : ℤ) - 1) :=
    place?_largest false
  apply isFloor_of_place stands (by omega)
  · apply Format.valueAt_le_ofUnits (by omega)
    have below : F.unitsAt (F.infinityRank - 1) ≤ F.unitsAt (place - 1) :=
      F.unitsAt_strictMono.monotone (by omega)
    exact le_trans (by exact_mod_cast below) nearest.pred_lt.le
  · rw [Format.valueAt, if_neg (by omega), if_pos (by omega)]
    exact EReal.coe_lt_top _

/-- Below an exact result that rounds to the lower infinity there is nothing else. -/
private theorem infinite_isFloor {place : ℤ} (nearest : F.Nearest exact place)
    (beyond : place ≤ -F.infinityRank) : (infinite true : Binary F).IsFloor (F.ofUnits exact) := by
  have positive := Nat.pos_of_neZero F.infinityRank
  have stands : (infinite true : Binary F).place? = some (-(F.infinityRank : ℤ)) := rfl
  apply isFloor_of_place stands (by omega)
  · rw [Format.valueAt, if_pos le_rfl]
    exact bot_le
  · apply Format.ofUnits_lt_valueAt (by omega)
    refine nearest.lt_succ.trans_le ?_
    exact_mod_cast F.unitsAt_strictMono.monotone (by omega)

/-- The lower result is tight if the step down is taken exactly where the exact result lies
below a finite one. -/
theorem adjust_down_isFloor (rounds : RoundsTo exact x)
    (side : ∀ c : ℤ, x.units? = some c → (below ↔ exact < c)) :
    (x.adjust .down below above).IsFloor (F.ofUnits exact) := by
  cases x with
  | finite negative rank rank_lt =>
    obtain ⟨place, nearest, inside, stands, units⟩ := rounds.exists_nearest rfl
    have side := side _ rfl
    rw [← units] at side
    rw [abs_lt] at inside
    cases below with
    | true =>
      have stands : (finite negative rank rank_lt).nextDown.place? = some (place - 1) := by
        rw [place?_nextDown stands, max_eq_left (by omega)]
      apply isFloor_of_place stands (by omega)
      · exact Format.valueAt_le_ofUnits (by omega) nearest.pred_lt.le
      · rw [sub_add_cancel]
        exact Format.ofUnits_lt_valueAt inside.1 (side.mp rfl)
    | false =>
      apply isFloor_of_place stands inside.2
      · exact Format.valueAt_le_ofUnits inside.2 (not_lt.mp fun less => nomatch side.mpr less)
      · exact Format.ofUnits_lt_valueAt (by omega) nearest.lt_succ
  | infinite negative =>
    obtain ⟨place, nearest, stands⟩ := rounds
    have positive := Nat.pos_of_neZero F.infinityRank
    have clamped := Option.some.inj stands
    rw [Format.clamp] at clamped
    cases negative with
    | false =>
      simp only [Bool.false_eq_true, if_false] at clamped
      exact largest_isFloor nearest (by omega)
    | true =>
      simp only [if_true] at clamped
      exact infinite_isFloor nearest (by omega)
  | nan =>
    obtain ⟨place, -, stands⟩ := rounds
    cases stands

/-- With the side of the exact result known, both directed results are tight. -/
theorem adjust_tight (rounds : RoundsTo exact x)
    (side : ∀ c : ℤ, x.units? = some c → (below ↔ exact < c) ∧ (above ↔ c < exact)) :
    (x.adjust .down below above).IsFloor (F.ofUnits exact) ∧
      (x.adjust .up below above).IsCeil (F.ofUnits exact) := by
  refine ⟨adjust_down_isFloor rounds fun c finite => (side c finite).1, ?_⟩
  apply isCeil_of_neg
  rw [neg_adjust_up, ← Format.ofUnits_neg]
  apply adjust_down_isFloor rounds.neg
  intro c finite
  have finite := units?_neg finite
  rw [neg_neg] at finite
  rw [(side _ finite).2]
  push_cast
  constructor <;> intro <;> linarith

end LinearEnclosure.Binary
