/-
# The nearest short number

Rounding to nearest looks at one grid, that of the last digit to be kept. Short numbers that are
not on the grid are smaller in magnitude than every number with the same leading position, so
they lie farther away than the power of ten at that position, which is on the grid. So no number
with so few digits is nearer, and among two that are equally near the one of greater magnitude is
taken.
-/

import LinearEnclosure.Proofs.Decimal.Tightness
import LinearEnclosure.Proofs.Decimal.Zero

namespace LinearEnclosure

namespace Direction

/-- To nearest means at most half a step away. -/
theorem abs_integer_nearest_sub_le (q : ℚ) : |(nearest.integer q : ℚ) - q| ≤ 1 / 2 := by
  have half (r : ℚ) : |(⌊r + 1 / 2⌋ : ℚ) - r| ≤ 1 / 2 := by
    have below := Int.floor_le (r + 1 / 2)
    have above := Int.lt_floor_add_one (r + 1 / 2)
    rw [abs_le]
    constructor <;> linarith
  rw [integer]
  split
  · exact half q
  · have mirrored := half (-q)
    rwa [sub_neg_eq_add, ← abs_neg, neg_add', ← Int.cast_neg] at mirrored

/-- No number with so few digits is nearer to the exact one than the rounded one, which may have
more digits itself. -/
def IsClosest (digits : ℕ) (exact rounded : ℚ) : Prop :=
  ∀ s ∈ Decimal.short digits, |rounded - exact| ≤ |s - exact|

/-- What is meant by rounding to nearest with halves going away from zero: no number with so few
digits is nearer, and none that is equally near is greater in magnitude. -/
structure IsNearest (digits : ℕ) (exact rounded : ℚ) : Prop where
  mem_short : rounded ∈ Decimal.short digits
  nearest : ∀ s ∈ Decimal.short digits, |rounded - exact| ≤ |s - exact|
  away : ∀ s ∈ Decimal.short digits, |s - exact| = |rounded - exact| → |s| ≤ |rounded|

/-- No integer is nearer than the one that is rounded to. -/
theorem abs_integer_nearest_sub_le_abs (q : ℚ) (n : ℤ) :
    |(nearest.integer q : ℚ) - q| ≤ |n - q| := by
  have near := abs_integer_nearest_sub_le q
  rcases eq_or_ne n (nearest.integer q) with rfl | other
  · rfl
  have apart : (1 : ℚ) ≤ |(nearest.integer q : ℚ) - n| := by
    exact_mod_cast Int.one_le_abs (sub_ne_zero.mpr other.symm)
  have between := abs_sub_le (nearest.integer q : ℚ) q n
  rw [abs_sub_comm q n] at between
  linarith

/-- If one is equally near, it is not greater in magnitude. -/
theorem abs_le_of_abs_sub_eq {q : ℚ} {n : ℤ} (tie : |n - q| = |(nearest.integer q : ℚ) - q|) :
    |n| ≤ |nearest.integer q| := by
  have half {r : ℚ} {m : ℤ} (nonneg : 0 ≤ r) (tie : |m - r| = |(⌊r + 1 / 2⌋ : ℚ) - r|) :
      |m| ≤ |⌊r + 1 / 2⌋| := by
    have low := Int.floor_le (r + 1 / 2)
    have high := Int.lt_floor_add_one (r + 1 / 2)
    have floor_nonneg : 0 ≤ ⌊r + 1 / 2⌋ := Int.floor_nonneg.mpr (by linarith)
    generalize ⌊r + 1 / 2⌋ = i at *
    rcases abs_eq_abs.mp tie with same | mirrored
    · rw [Int.cast_injective (sub_left_injective same)]
    · -- The mirror image of an integer above the number lies on the other side of it.
      have image : (m : ℚ) = 2 * r - i := by linarith
      have above : r ≤ i := by
        by_contra below
        have step : i + 1 ≤ m := by
          have greater : (i : ℚ) < m := by linarith
          exact_mod_cast greater
        have step : (i + 1 : ℚ) ≤ m := by exact_mod_cast step
        linarith
      rw [abs_of_nonneg floor_nonneg, abs_le]
      constructor
      · have lower : (-i : ℚ) ≤ m := by linarith
        exact_mod_cast lower
      · have upper : (m : ℚ) ≤ i := by linarith
        exact_mod_cast upper
  simp only [integer] at tie ⊢
  split at tie
  · next nonneg =>
    rw [if_pos nonneg]
    exact half nonneg tie
  · next negative =>
    rw [if_neg negative, abs_neg, ← abs_neg n]
    apply half (by linarith)
    rw [Int.cast_neg] at tie ⊢
    rw [← abs_neg, ← abs_neg ((⌊-q + 1 / 2⌋ : ℚ) - -q)]
    convert tie using 2 <;> ring

variable {digits : ℕ} {position : ℤ} {q s : ℚ}

/-- A point of the grid is as far from a number as an integer is, in units of the grid. -/
theorem abs_intCast_mul_sub (n position : ℤ) (q : ℚ) :
    |n * 10 ^ position - q| = |n - q / 10 ^ position| * 10 ^ position := by
  have power : (0 : ℚ) < 10 ^ position := by positivity
  rw [← abs_of_pos power, ← abs_mul, abs_of_pos power, sub_mul, div_mul_cancel₀ _ power.ne']

theorem abs_onGrid_nearest_sub_le (position : ℤ) (q : ℚ) :
    |nearest.onGrid position q - q| ≤ 10 ^ position / 2 := by
  have near := abs_integer_nearest_sub_le (q / 10 ^ position)
  have power : (0 : ℚ) < 10 ^ position := by positivity
  rw [onGrid, abs_intCast_mul_sub, ← one_div_mul_eq_div 2 (10 ^ position : ℚ)]
  exact mul_le_mul_of_nonneg_right near power.le

/-- No point of the grid is nearer than the one that is rounded to. -/
theorem abs_onGrid_sub_le (n : ℤ) :
    |nearest.onGrid position q - q| ≤ |n * 10 ^ position - q| := by
  rw [onGrid, abs_intCast_mul_sub, abs_intCast_mul_sub]
  exact mul_le_mul_of_nonneg_right (abs_integer_nearest_sub_le_abs _ n) (by positivity)

/-- If one is equally near, it is not greater in magnitude. -/
theorem abs_le_abs_onGrid {n : ℤ} (tie : |n * 10 ^ position - q| =
    |nearest.onGrid position q - q|) :
    |(n : ℚ) * 10 ^ position| ≤ |nearest.onGrid position q| := by
  have power : (0 : ℚ) < 10 ^ position := by positivity
  rw [onGrid, abs_intCast_mul_sub, abs_intCast_mul_sub] at tie
  have away := abs_le_of_abs_sub_eq (mul_right_cancel₀ power.ne' tie)
  rw [onGrid, abs_mul, abs_mul]
  exact mul_le_mul_of_nonneg_right (by exact_mod_cast away) (abs_nonneg _)

/-- What is smaller than the leading power of ten is farther away than that. -/
theorem abs_onGrid_sub_lt (positive : 1 ≤ digits) (low : 10 ^ (position + digits - 1) ≤ |q|)
    (small : |s| < 10 ^ (position + digits - 1)) :
    |nearest.onGrid position q - q| < |s - q| := by
  have power : (10 : ℚ) ^ (position + digits - 1) = (10 ^ (digits - 1) : ℤ) * 10 ^ position := by
    push_cast
    rw [← zpow_natCast, ← zpow_add₀ (by norm_num)]
    congr 1
    omega
  have far : |q| - |s| ≤ |s - q| := by
    rw [abs_sub_comm]
    exact abs_sub_abs_le_abs_sub q s
  have reached : |nearest.onGrid position q - q| ≤ |q| - 10 ^ (position + digits - 1) := by
    rcases le_or_gt 0 q with nonneg | negative
    · have near : _ ≤ |(10 ^ (digits - 1) : ℤ) * 10 ^ position - q| := abs_onGrid_sub_le _
      rw [abs_of_nonneg nonneg] at low ⊢
      rwa [← power, abs_of_nonpos (sub_nonpos.mpr low), neg_sub] at near
    · have near : _ ≤ |(-10 ^ (digits - 1) : ℤ) * 10 ^ position - q| := abs_onGrid_sub_le _
      rw [abs_of_neg negative] at low ⊢
      have beyond : 0 ≤ -10 ^ (position + digits - 1) - q := by linarith
      rw [Int.cast_neg, neg_mul, ← power, abs_of_nonneg beyond] at near
      linarith
  linarith

/-- No short number is nearer than the point of a grid on which as many digits of the exact one
stand. -/
theorem isClosest_onGrid (positive : 1 ≤ digits) (low : 10 ^ (position + digits - 1) ≤ |q|) :
    IsClosest digits q (nearest.onGrid position q) := by
  intro s few
  rcases Decimal.exists_multiple_or_small few position with ⟨n, rfl⟩ | small
  · exact abs_onGrid_sub_le n
  · exact (abs_onGrid_sub_lt positive low small).le

theorem RoundedOnce.isClosest (positive : 1 ≤ digits) {rounded : ℚ}
    (once : nearest.RoundedOnce digits q rounded) : IsClosest digits q rounded := by
  cases once with
  | unchanged =>
    intro s _
    rw [sub_self, abs_zero]
    exact abs_nonneg _
  | onGrid low => exact isClosest_onGrid positive low

/-- Rounding to nearest on a grid finds the nearest short number if as many digits of the exact
one stand on the grid. -/
theorem isNearest_onGrid (positive : 1 ≤ digits)
    (low : 10 ^ (position + digits - 1) ≤ |q|) (high : |q| ≤ 10 ^ (position + digits)) :
    IsNearest digits q (nearest.onGrid position q) where
  mem_short := onGrid_mem_short nearest positive high
  nearest := isClosest_onGrid positive low
  away s few tie := by
    rcases Decimal.exists_multiple_or_small few position with ⟨n, rfl⟩ | small
    · exact abs_le_abs_onGrid tie
    · exact absurd tie (abs_onGrid_sub_lt positive low small).ne'

theorem isNearest_zero (digits : ℕ) : IsNearest digits 0 0 where
  mem_short := Decimal.zero_mem_short digits
  nearest s _ := by simp
  away s _ tie := by simpa using tie

theorem exists_isNearest (positive : 1 ≤ digits) (q : ℚ) : ∃ r, IsNearest digits q r := by
  by_cases zero : q = 0
  · exact ⟨0, zero ▸ isNearest_zero digits⟩
  obtain ⟨top, reach, below⟩ := Decimal.exists_leading_position zero
  refine ⟨nearest.onGrid (top - digits) q, isNearest_onGrid positive ?_ ?_⟩
  · rwa [sub_add_cancel]
  · rw [sub_add_cancel]
    exact below.le

/-- There is no more than one nearest short number. -/
theorem IsNearest.unique {t : ℚ} (first : IsNearest digits q s) (second : IsNearest digits q t) :
    s = t := by
  have near : |s - q| = |t - q| :=
    le_antisymm (first.nearest t second.mem_short) (second.nearest s first.mem_short)
  have size : |s| = |t| :=
    le_antisymm (second.away s first.mem_short near) (first.away t second.mem_short near.symm)
  rcases abs_eq_abs.mp size with same | opposite
  · exact same
  rcases abs_eq_abs.mp near with same | mirrored
  · exact sub_left_injective same
  · -- Opposite numbers are equally near to zero only, and zero is nearest to itself.
    obtain rfl : q = 0 := by linarith
    have none := first.nearest 0 (isNearest_zero digits).mem_short
    rw [sub_zero, sub_zero, abs_zero, abs_nonpos_iff] at none
    linarith

/-- Nearest short numbers follow the order of the exact ones. -/
theorem IsNearest.mono {r t : ℚ} (first : IsNearest digits q s) (second : IsNearest digits r t)
    (less : q < r) : s ≤ t := by
  by_contra! above
  have left := sq_le_sq.mpr (first.nearest t second.mem_short)
  have right := sq_le_sq.mpr (second.nearest s first.mem_short)
  have crossed : 0 < (s - t) * (r - q) := mul_pos (sub_pos.mpr above) (sub_pos.mpr less)
  linarith

end Direction

namespace Decimal

variable {digits : ℕ}

theorem roundTo_isNearest (positive : 1 ≤ digits) (x : Decimal) :
    Direction.IsNearest digits x.toRat (x.roundTo .nearest digits).toRat := by
  by_cases zero : x.significand = 0
  · rw [isZero_iff_eq.mp (beq_iff_eq.mpr zero), roundTo_zero, toRat_zero]
    exact Direction.isNearest_zero digits
  · rw [toRat_roundTo]
    apply Direction.isNearest_onGrid positive
    · rw [sub_add_cancel]
      exact zpow_top_le_abs_toRat zero
    · rw [sub_add_cancel]
      exact (abs_toRat_lt x).le

end Decimal

end LinearEnclosure
