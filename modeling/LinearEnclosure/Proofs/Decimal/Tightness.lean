/-
# Tight decimal rounding

A directed result lies on its side of the exact one, but it could still lie far away. It is
tight for a number of digits if no number with so few digits stands between the two.
Rounding on a grid is tight where the grid is fine enough for that many digits of the exact
result, and every rational number has a greatest short number below it and a least one
above it.

Tightness composes, so neither a working precision above the requested one nor a second
rounding needs an argument of its own.
-/

import LinearEnclosure.Proofs.Decimal.Directed

namespace LinearEnclosure

namespace Decimal

/-- The numbers that are written with at most `digits` significant digits. -/
def short (digits : ℕ) : Set ℚ :=
  {q | ∃ x : Decimal, x.size ≤ digits ∧ x.toRat = q}

theorem short_mono {digits more : ℕ} (le : digits ≤ more) : short digits ⊆ short more := by
  rintro _ ⟨x, size, rfl⟩
  exact ⟨x, size.trans le, rfl⟩

/-- No other way of writing a number has fewer digits. -/
theorem mem_short_iff {digits : ℕ} {x : Decimal} : x.toRat ∈ short digits ↔ x.size ≤ digits := by
  constructor
  · rintro ⟨y, size, same⟩
    rwa [← toRat_injective same]
  · intro size
    exact ⟨x, size, rfl⟩

@[simp] theorem zero_mem_short (digits : ℕ) : 0 ∈ short digits :=
  ⟨Decimal.zero, Nat.zero_le _, toRat_zero⟩

theorem neg_mem_short {digits : ℕ} {q : ℚ} (few : q ∈ short digits) : -q ∈ short digits := by
  obtain ⟨x, size, rfl⟩ := few
  refine ⟨x.neg, ?_, x.toRat_neg⟩
  rwa [Decimal.size, Decimal.neg, Int.natAbs_neg]

/-- A number of so few digits is either a multiple of a power of ten, or it is small. -/
theorem exists_multiple_or_small {digits : ℕ} {q : ℚ} (few : q ∈ short digits) (position : ℤ) :
    (∃ n : ℤ, q = n * 10 ^ position) ∨ |q| < 10 ^ (position + digits - 1) := by
  obtain ⟨x, size, rfl⟩ := few
  rcases le_or_gt position x.exponent with multiple | finer
  · exact .inl ⟨x.scaled position, (scaled_mul_zpow multiple).symm⟩
  · right
    calc |x.toRat| < 10 ^ x.top := abs_toRat_lt x
      _ ≤ 10 ^ (position + digits - 1) :=
        zpow_le_zpow_right₀ (by norm_num) (by rw [top]; omega)

theorem digitCount_le_of_lt {n digits : ℕ} (lt : n < 10 ^ digits) : digitCount n ≤ digits := by
  rcases Nat.eq_zero_or_pos n with rfl | positive
  · exact Nat.zero_le _
  · have large := ten_pow_le_of_digitCount positive
    have := (Nat.pow_lt_pow_iff_right (by norm_num : 1 < 10)).mp (large.trans_lt lt)
    omega

theorem digitCount_pos {n : ℕ} (positive : 0 < n) : 0 < digitCount n := by
  have bound := lt_ten_pow_digitCount n
  rw [Nat.pos_iff_ne_zero]
  intro none
  rw [none, pow_zero] at bound
  omega

/-- Normal form only takes digits away. -/
theorem size_of_le {significand : ℤ} {digits : ℕ} (lt : significand.natAbs < 10 ^ digits)
    (exponent : ℤ) : (of significand exponent).size ≤ digits := by
  unfold of
  split
  · simp [Decimal.zero, size]
  · apply digitCount_le_of_lt
    exact (Int.natAbs_ediv_le_natAbs significand _).trans_lt lt

/-- A power of ten has one digit, so a significand may reach it. -/
theorem mul_zpow_mem_short {digits : ℕ} (positive : 1 ≤ digits) {n : ℤ}
    (le : n.natAbs ≤ 10 ^ digits) (position : ℤ) : (n : ℚ) * 10 ^ position ∈ short digits := by
  rcases le.lt_or_eq with lt | eq
  · exact ⟨of n position, size_of_le lt position, toRat_of n position⟩
  · refine ⟨of n.sign (position + digits), size_of_le ?_ _, ?_⟩
    · have sign : n.sign.natAbs ≤ 1 := by
        rw [Int.natAbs_sign]
        split <;> omega
      exact sign.trans_lt (Nat.one_lt_pow (by omega) (by norm_num))
    · have split : (n : ℚ) = n.sign * 10 ^ digits := by
        conv_lhs => rw [← Int.sign_mul_natAbs n, eq]
        push_cast
        rfl
      rw [toRat_of, zpow_add₀ (by norm_num), split, zpow_natCast]
      ring

/-- A number that is not zero has a leading digit. -/
theorem exists_leading_position {q : ℚ} (nonzero : q ≠ 0) :
    ∃ top : ℤ, 10 ^ (top - 1) ≤ |q| ∧ |q| < 10 ^ top := by
  refine ⟨Int.log 10 |q| + 1, ?_, ?_⟩
  · rw [add_sub_cancel_right]
    exact_mod_cast Int.zpow_log_le_self (by norm_num) (abs_pos.mpr nonzero)
  · exact_mod_cast Int.lt_zpow_succ_log_self (by norm_num) |q|

end Decimal

/-! ## Rounding on a fine enough grid -/

namespace Direction

/-- No number with so few digits stands between the exact result and the rounded one. -/
def Tight (direction : Direction) (digits : ℕ) (exact rounded : ℚ) : Prop :=
  ∀ s ∈ Decimal.short digits, direction.Bounds exact s → direction.Bounds rounded s

variable {direction : Direction} {digits : ℕ}

@[simp] theorem Tight.refl (q : ℚ) : direction.Tight digits q q :=
  fun _ _ beyond => beyond

theorem Tight.trans {exact middle rounded : ℚ} (first : direction.Tight digits exact middle)
    (second : direction.Tight digits middle rounded) : direction.Tight digits exact rounded :=
  fun s few beyond => second s few (first s few beyond)

theorem Tight.mono {fewer : ℕ} {exact rounded : ℚ} (le : fewer ≤ digits)
    (tight : direction.Tight digits exact rounded) : direction.Tight fewer exact rounded :=
  fun s few beyond => tight s (Decimal.short_mono le few) beyond

/-- An integer on the promised side of a number is on that side of the integer it goes to. -/
theorem Bounds.integer {q : ℚ} {n : ℤ} (beyond : direction.Bounds q n) :
    direction.Bounds (direction.integer q) n := by
  cases direction with
  | down => exact Int.cast_le.mpr (Int.le_floor.mpr beyond)
  | up => exact Int.cast_le.mpr (Int.ceil_le.mpr beyond)
  | nearest => trivial

/-- The same on a grid. -/
theorem Bounds.onGrid {position : ℤ} {q : ℚ} {n : ℤ}
    (beyond : direction.Bounds q (n * 10 ^ position)) :
    direction.Bounds (direction.onGrid position q) (n * 10 ^ position) := by
  have power : (0 : ℚ) < 10 ^ position := by positivity
  have scaled := beyond.mul_of_pos (inv_pos.mpr power)
  rw [mul_inv_cancel_right₀ power.ne', ← div_eq_mul_inv] at scaled
  exact scaled.integer.mul_of_pos power

/-- Rounding is tight where as many digits of the exact result stand on the grid. -/
theorem tight_onGrid {position : ℤ} {q : ℚ} (positive : 1 ≤ digits)
    (reach : 10 ^ (position + digits - 1) ≤ |q|) :
    direction.Tight digits q (direction.onGrid position q) := by
  intro s few beyond
  rcases Decimal.exists_multiple_or_small few position with ⟨n, rfl⟩ | small
  · exact beyond.onGrid
  -- A number off the grid is smaller than a power of ten that is on it.
  have power : (10 : ℚ) ^ (position + digits - 1) = (10 ^ (digits - 1) : ℤ) * 10 ^ position := by
    push_cast
    rw [← zpow_natCast, ← zpow_add₀ (by norm_num)]
    congr 1
    omega
  obtain ⟨low, high⟩ := abs_lt.mp small
  rw [power] at reach low high
  cases direction with
  | down =>
    have below : s ≤ q := beyond
    rcases le_abs'.mp reach with negative | positive
    · linarith
    · have beyond : down.Bounds q ((10 ^ (digits - 1) : ℤ) * 10 ^ position) := positive
      exact high.le.trans beyond.onGrid
  | up =>
    have above : q ≤ s := beyond
    rcases le_abs'.mp reach with negative | positive
    · rw [← neg_mul, ← Int.cast_neg] at negative
      have beyond : up.Bounds q ((-10 ^ (digits - 1) : ℤ) * 10 ^ position) := negative
      have onGrid := beyond.onGrid
      rw [Int.cast_neg, neg_mul] at onGrid
      exact le_trans onGrid low.le
    · linarith
  | nearest => trivial

/-- Nothing happens to a number that is already on the grid. -/
theorem onGrid_intCast_mul (direction : Direction) (n position : ℤ) :
    direction.onGrid position (n * 10 ^ position) = n * 10 ^ position := by
  have power : (10 : ℚ) ^ position ≠ 0 := by positivity
  rw [Direction.onGrid, mul_div_cancel_right₀ _ power, integer_intCast]

@[simp] theorem onGrid_zero (direction : Direction) (position : ℤ) :
    direction.onGrid position 0 = 0 := by
  simpa using direction.onGrid_intCast_mul 0 position

/-- Rounding to an integer does not leave a range that ends in integers. -/
theorem natAbs_integer_le (direction : Direction) {q : ℚ} {n : ℕ} (le : |q| ≤ n) :
    (direction.integer q).natAbs ≤ n := by
  obtain ⟨low, high⟩ := abs_le.mp le
  have inside : -(n : ℤ) ≤ direction.integer q ∧ direction.integer q ≤ n := by
    cases direction with
    | down =>
      have below : (⌊q⌋ : ℚ) ≤ (n : ℤ) := (Int.floor_le q).trans high
      exact ⟨Int.le_floor.mpr (by push_cast; exact low), Int.cast_le.mp below⟩
    | up =>
      have above : ((-n : ℤ) : ℚ) ≤ ⌈q⌉ := le_trans (by push_cast; exact low) (Int.le_ceil q)
      exact ⟨Int.cast_le.mp above, Int.ceil_le.mpr high⟩
    | nearest =>
      have half {r : ℚ} (nonneg : 0 ≤ r) (le : r ≤ n) : 0 ≤ ⌊r + 1 / 2⌋ ∧ ⌊r + 1 / 2⌋ ≤ n := by
        have next : ⌊r + 1 / 2⌋ < (n : ℤ) + 1 := Int.floor_lt.mpr (by push_cast; linarith)
        exact ⟨Int.floor_nonneg.mpr (by linarith), by omega⟩
      simp only [integer]
      split
      · next sign =>
        have := half sign high
        omega
      · next sign =>
        have := half (r := -q) (by linarith) (by linarith)
        omega
  omega

/-- A number below a power of ten takes no more than that many steps of a grid. -/
theorem natAbs_steps_le (direction : Direction) {position : ℤ} {q : ℚ}
    (le : |q| ≤ 10 ^ (position + digits)) :
    (direction.integer (q / 10 ^ position)).natAbs ≤ 10 ^ digits := by
  apply natAbs_integer_le
  have power : (0 : ℚ) < 10 ^ position := by positivity
  rw [abs_div, abs_of_pos power, div_le_iff₀ power]
  push_cast
  rwa [← zpow_natCast, ← zpow_add₀ (by norm_num), add_comm]

/-- Rounding on a grid that is coarse enough leaves few digits. -/
theorem onGrid_mem_short (direction : Direction) (positive : 1 ≤ digits) {position : ℤ} {q : ℚ}
    (le : |q| ≤ 10 ^ (position + digits)) : direction.onGrid position q ∈ Decimal.short digits :=
  Decimal.mul_zpow_mem_short positive (direction.natAbs_steps_le le) position

/-- Every number has a tightest short number on the promised side. -/
theorem exists_mem_short_tight (direction : Direction) (positive : 1 ≤ digits) (q : ℚ) :
    ∃ r ∈ Decimal.short digits, direction.Bounds q r ∧ direction.Tight digits q r := by
  by_cases zero : q = 0
  · refine ⟨0, Decimal.zero_mem_short digits, ?_, ?_⟩
    · rw [zero]
      apply Bounds.refl
    · rw [zero]
      apply Tight.refl
  obtain ⟨top, reach, below⟩ := Decimal.exists_leading_position zero
  refine ⟨direction.onGrid (top - digits) q, direction.onGrid_mem_short positive ?_,
    bounds_onGrid direction _ q, tight_onGrid positive ?_⟩
  · rw [sub_add_cancel]
    exact below.le
  · rwa [sub_add_cancel]

/-! ## One rounding -/

/-- A result that is exact, or that was rounded once, at a position that leaves at least so many
digits of the exact one. -/
inductive RoundedOnce (direction : Direction) (digits : ℕ) (exact : ℚ) : ℚ → Prop
  | unchanged : RoundedOnce direction digits exact exact
  | onGrid {position : ℤ} (reach : 10 ^ (position + digits - 1) ≤ |exact|) :
      RoundedOnce direction digits exact (direction.onGrid position exact)

namespace RoundedOnce

variable {q : ℚ}

theorem tight (positive : 1 ≤ digits) {rounded : ℚ}
    (once : direction.RoundedOnce digits q rounded) : direction.Tight digits q rounded := by
  cases once with
  | unchanged => exact Tight.refl q
  | onGrid reach => exact tight_onGrid positive reach

/-- A number that stands on the grid is exact there, however coarse the grid is. -/
theorem of_multiple {n position : ℤ} (multiple : q = n * 10 ^ position) :
    direction.RoundedOnce digits q (direction.onGrid position q) := by
  rw [multiple, onGrid_intCast_mul]
  exact .unchanged

end RoundedOnce

end Direction

namespace Decimal

variable {direction : Direction} {digits : ℕ}

theorem roundTo_roundedOnce (direction : Direction) (digits : ℕ) (x : Decimal) :
    direction.RoundedOnce digits x.toRat (x.roundTo direction digits).toRat := by
  rw [toRat_roundTo]
  by_cases zero : x.significand = 0
  · rw [toRat_eq_zero_iff.mpr zero, Direction.onGrid_zero]
    exact .unchanged
  · apply Direction.RoundedOnce.onGrid
    rw [sub_add_cancel]
    exact zpow_top_le_abs_toRat zero

theorem roundTo_tight (positive : 1 ≤ digits) (x : Decimal) :
    direction.Tight digits x.toRat (x.roundTo direction digits).toRat :=
  (roundTo_roundedOnce direction digits x).tight positive

end Decimal

end LinearEnclosure
