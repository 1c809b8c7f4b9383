/-
# Rounding to nearest twice

An operation whose operands were made at a higher precision than its own rounds to nearest twice,
first to the digits of the operands and then to its own. The second rounding looks at the result
of the first one only. Where that lies halfway between two neighbours, the second rounding has no
means of knowing on which side of the half the exact result was, and goes away from zero.

This is the only thing that can go wrong. Halfway numbers have one digit more than their
neighbours, so they are among those that the first rounding could choose, and it never goes past
any of them. So a result that is not nearest comes from a number that was rounded onto a halfway
number, away from zero, and then away from zero again.
-/

import LinearEnclosure.Proofs.Decimal.Capacity
import LinearEnclosure.Proofs.Decimal.Nearest

namespace LinearEnclosure

namespace Decimal

variable {digits : ℕ}

/-- The number halfway between two neighbours, the smaller of which is positive. -/
private theorem midpoint_mem_short_of_pos {s t : ℚ} (left : s ∈ short digits)
    (right : t ∈ short digits) (less : s < t) (positive : 0 < s)
    (adjacent : ∀ u ∈ short digits, ¬ (s < u ∧ u < t)) : (s + t) / 2 ∈ short (digits + 1) := by
  obtain ⟨x, size, rfl⟩ := left
  have nonzero : x.significand ≠ 0 := mt toRat_eq_zero_iff.mpr positive.ne'
  have some_digit : 1 ≤ digits := (digitCount_pos (by omega)).trans_le size
  -- Both neighbours stand on the grid of the last digit, one step apart.
  obtain ⟨n, value⟩ : ∃ n : ℤ, x.toRat = n * 10 ^ (x.top - digits) :=
    ⟨x.scaled _, (scaled_mul_zpow (by rw [top]; omega)).symm⟩
  have power : (0 : ℚ) < 10 ^ (x.top - digits) := by positivity
  have sign : 0 < n := by
    rw [value] at positive
    exact_mod_cast (mul_pos_iff_of_pos_right power).mp positive
  have bound : n < (10 ^ digits : ℕ) := by
    have below := abs_toRat_lt x
    rw [abs_of_pos positive, value, ← sub_add_cancel x.top digits, zpow_add₀ (by norm_num),
      mul_comm] at below
    rw [sub_add_cancel, zpow_natCast] at below
    exact_mod_cast lt_of_mul_lt_mul_left below power.le
  have next : t ≤ (n + 1 : ℤ) * 10 ^ (x.top - digits) := by
    have few := mul_zpow_mem_short some_digit (n := n + 1) (by omega) (x.top - digits)
    have greater : x.toRat < (n + 1 : ℤ) * 10 ^ (x.top - digits) := by
      rw [value]
      push_cast
      linarith
    exact not_lt.mp fun between => adjacent _ few ⟨greater, between⟩
  have step : t = (n + 1 : ℤ) * 10 ^ (x.top - digits) := by
    rcases exists_multiple_or_small right (x.top - digits) with ⟨m, rfl⟩ | small
    · rw [value] at less
      have above : n < m := by exact_mod_cast lt_of_mul_lt_mul_right less power.le
      have below : m ≤ n + 1 := by exact_mod_cast le_of_mul_le_mul_right next power
      rw [le_antisymm below above]
    · rw [sub_add_cancel, abs_of_pos (positive.trans less)] at small
      have reach := zpow_top_le_abs_toRat nonzero
      rw [abs_of_pos positive] at reach
      linarith
  have half : (x.toRat + t) / 2 = (10 * n + 5 : ℤ) * 10 ^ (x.top - digits - 1) := by
    rw [step, value, zpow_sub_one₀ (by norm_num)]
    push_cast
    ring
  rw [half]
  exact mul_zpow_mem_short (by omega) (by rw [pow_succ]; omega) _

/-- Zero has no neighbours. -/
private theorem tenth_mem_short {q : ℚ} (few : q ∈ short digits) : q / 10 ∈ short digits := by
  obtain ⟨x, size, rfl⟩ := few
  have below : x.significand.natAbs < 10 ^ digits :=
    (lt_ten_pow_digitCount _).trans_le (Nat.pow_le_pow_right (by norm_num) size)
  refine ⟨of x.significand (x.exponent - 1), size_of_le below _, ?_⟩
  rw [toRat_of, toRat, zpow_sub_one₀ (by norm_num)]
  ring

/-- Halfway between two neighbours lies a number with one digit more. -/
theorem midpoint_mem_short {s t : ℚ} (left : s ∈ short digits) (right : t ∈ short digits)
    (less : s < t) (adjacent : ∀ u ∈ short digits, ¬ (s < u ∧ u < t)) :
    (s + t) / 2 ∈ short (digits + 1) := by
  rcases lt_trichotomy s 0 with negative | rfl | positive
  · rcases lt_trichotomy t 0 with below | rfl | above
    · have mirrored := midpoint_mem_short_of_pos (neg_mem_short right) (neg_mem_short left)
        (by linarith) (by linarith) fun u few between =>
          adjacent (-u) (neg_mem_short few) ⟨by linarith, by linarith⟩
      convert neg_mem_short mirrored using 1
      ring
    · exact absurd ⟨by linarith, by linarith⟩ (adjacent _ (tenth_mem_short left))
    · exact absurd ⟨negative, above⟩ (adjacent 0 (zero_mem_short digits))
  · exact absurd ⟨by linarith, by linarith⟩ (adjacent _ (tenth_mem_short right))
  · exact midpoint_mem_short_of_pos left right less positive adjacent

end Decimal

namespace Direction

open Decimal

variable {digits fewer : ℕ} {exact wide rounded s u : ℚ}

/-- Which of two numbers is the nearer one is decided by the point halfway between them. -/
theorem abs_sub_le_iff_le_midpoint (less : s < u) : |s - exact| ≤ |u - exact| ↔
    exact ≤ (s + u) / 2 := by
  rw [← sq_le_sq, ← sub_nonneg]
  have factored : (u - exact) ^ 2 - (s - exact) ^ 2 = 2 * (u - s) * ((s + u) / 2 - exact) := by
    ring
  rw [factored, mul_nonneg_iff_of_pos_left (by linarith), sub_nonneg]

theorem abs_sub_le_iff_midpoint_le (less : s < u) : |u - exact| ≤ |s - exact| ↔
    (s + u) / 2 ≤ exact := by
  rw [← sq_le_sq, ← sub_nonneg]
  have factored : (s - exact) ^ 2 - (u - exact) ^ 2 = 2 * (u - s) * (exact - (s + u) / 2) := by
    ring
  rw [factored, mul_nonneg_iff_of_pos_left (by linarith), sub_nonneg]

private theorem abs_sub_neg (s q : ℚ) : |s - -q| = |-s - q| := by
  rw [← abs_neg, neg_sub', neg_neg]

theorem IsClosest.neg (closest : IsClosest digits exact rounded) :
    IsClosest digits (-exact) (-rounded) := by
  intro s few
  rw [abs_sub_neg, abs_sub_neg, neg_neg]
  exact closest (-s) (neg_mem_short few)

theorem IsNearest.neg (nearest : IsNearest digits exact rounded) :
    IsNearest digits (-exact) (-rounded) where
  mem_short := neg_mem_short nearest.mem_short
  nearest := IsClosest.neg nearest.nearest
  away s few tie := by
    rw [abs_sub_neg, abs_sub_neg, neg_neg] at tie
    rw [← abs_neg s, abs_neg rounded]
    exact nearest.away (-s) (neg_mem_short few) tie

/-- To nearest never goes past a number that it could have chosen. -/
theorem IsClosest.eq_of_mem_uIcc (closest : IsClosest digits exact wide) (few : s ∈ short digits)
    (inside : s ∈ Set.uIcc exact wide) : s = wide := by
  have near := closest s few
  rcases Set.mem_uIcc.mp inside with ⟨low, high⟩ | ⟨low, high⟩
  · rw [abs_of_nonneg (by linarith), abs_of_nonneg (by linarith)] at near
    linarith
  · rw [abs_of_nonpos (by linarith), abs_of_nonpos (by linarith)] at near
    linarith

/-- A number is rounded to nearest without losing its sign, so the product tells whether it was
rounded away from zero. -/
theorem IsClosest.abs_lt_abs_iff (closest : IsClosest digits exact wide) :
    |exact| < |wide| ↔ 0 < wide * (wide - exact) := by
  rw [← sq_lt_sq]
  have sign := sq_le_sq.mpr (closest 0 (zero_mem_short digits))
  constructor
  · intro inward
    linarith [sq_nonneg (wide - exact)]
  · intro away
    have same : 0 < wide * (wide + exact) := by linarith
    have product := mul_pos away same
    have square : 0 < wide ^ 2 := by
      rw [sq_pos_iff]
      rintro rfl
      rw [zero_mul] at away
      exact away.false
    have factored : wide * (wide - exact) * (wide * (wide + exact)) =
      wide ^ 2 * (wide ^ 2 - exact ^ 2) := by ring
    rw [factored] at product
    linarith [pos_of_mul_pos_right product square.le]

/-! ## The second rounding -/

/-- Two numbers with so few digits are equally near, and none is nearer. -/
def IsTie (digits : ℕ) (q : ℚ) : Prop :=
  ∃ s ∈ short digits, ∃ t ∈ short digits, s ≠ t ∧ IsClosest digits q s ∧ IsClosest digits q t

/-- Away from zero twice is too far: the other one of the two neighbours is nearer. -/
theorem not_isClosest_of_isTie (first : IsClosest digits exact wide)
    (second : IsNearest fewer wide rounded) (tie : IsTie fewer wide)
    (outward : |exact| < |wide|) : ¬ IsClosest fewer exact rounded := by
  intro closest
  obtain ⟨u, few, other, near⟩ : ∃ u ∈ short fewer, u ≠ rounded ∧ IsClosest fewer wide u := by
    obtain ⟨s, left, t, right, different, nearLeft, nearRight⟩ := tie
    by_cases same : s = rounded
    · exact ⟨t, right, same ▸ different.symm, nearRight⟩
    · exact ⟨s, left, same, nearLeft⟩
  have distance : |u - wide| = |rounded - wide| :=
    le_antisymm (near _ second.mem_short) (second.nearest u few)
  have mirrored : u - wide = -(rounded - wide) :=
    (abs_eq_abs.mp distance).resolve_left fun same => other (sub_left_injective same)
  obtain rfl : u = 2 * wide - rounded := by linarith
  rw [first.abs_lt_abs_iff] at outward
  have size := sq_le_sq.mpr (second.away _ few distance)
  have reach := sq_le_sq.mpr (closest _ few)
  -- The second rounding went outward from where the first one had gone outward before.
  have step : wide * (rounded - wide) ≠ 0 := by
    rw [mul_ne_zero_iff, sub_ne_zero]
    constructor
    · rintro rfl
      rw [zero_mul] at outward
      exact outward.false
    · rintro rfl
      exact other (by ring)
  have again : 0 < wide * (rounded - wide) := lt_of_le_of_ne (by linarith) step.symm
  have product := mul_pos outward again
  have crossed : (wide - exact) * (rounded - wide) ≤ 0 := by linarith
  have square := mul_nonpos_of_nonneg_of_nonpos (sq_nonneg wide) crossed
  linarith

/-- If the second rounding is led astray, it is by the point halfway between the number that it
takes and the nearest one. -/
private theorem midpoint_eq_of_lt (more : fewer < digits) (first : IsClosest digits exact wide)
    (second : IsNearest fewer wide rounded) (best : IsNearest fewer exact u)
    (beats : |u - exact| < |rounded - exact|) (less : u < rounded) : (u + rounded) / 2 = wide := by
  have below : exact < (u + rounded) / 2 :=
    not_le.mp fun above => beats.not_ge ((abs_sub_le_iff_midpoint_le less).mpr above)
  have above : (u + rounded) / 2 ≤ wide :=
    (abs_sub_le_iff_midpoint_le less).mp (second.nearest u best.mem_short)
  -- A number between the two would be one that the first rounding went past.
  have adjacent : ∀ s ∈ short fewer, ¬ (u < s ∧ s < rounded) := by
    rintro s few ⟨left, right⟩
    have low := (abs_sub_le_iff_le_midpoint left).mp (best.nearest s few)
    have high := (abs_sub_le_iff_midpoint_le right).mp (second.nearest s few)
    have settled := first.eq_of_mem_uIcc (short_mono more.le few)
      (Set.mem_uIcc.mpr (.inl ⟨by linarith, by linarith⟩))
    linarith
  have few := midpoint_mem_short best.mem_short second.mem_short less adjacent
  exact first.eq_of_mem_uIcc (short_mono more few) (Set.mem_uIcc.mpr (.inl ⟨below.le, above⟩))

/-- Otherwise there was a tie, and the first rounding had gone away from zero. -/
theorem isTie_of_not_isClosest (positive : 1 ≤ fewer) (more : fewer < digits)
    (first : IsClosest digits exact wide) (second : IsNearest fewer wide rounded)
    (far : ¬ IsClosest fewer exact rounded) : IsTie fewer wide ∧ |exact| < |wide| := by
  obtain ⟨u, best⟩ := exists_isNearest positive exact
  have beats : |u - exact| < |rounded - exact| :=
    lt_of_not_ge fun reached => far fun s few => reached.trans (best.nearest s few)
  have other : u ≠ rounded := by
    rintro rfl
    exact beats.false
  have midpoint : (u + rounded) / 2 = wide := by
    rcases other.lt_or_gt with less | greater
    · exact midpoint_eq_of_lt more first second best beats less
    · have beats' : |-u - -exact| < |-rounded - -exact| := by
        rwa [abs_sub_neg, abs_sub_neg, neg_neg, neg_neg]
      have mirrored := midpoint_eq_of_lt more first.neg second.neg best.neg beats'
        (neg_lt_neg greater)
      linarith
  subst midpoint
  have distance : |u - (u + rounded) / 2| = |rounded - (u + rounded) / 2| := by
    rw [abs_sub_comm rounded]
    congr 1
    ring
  refine ⟨⟨u, best.mem_short, rounded, second.mem_short, other,
    fun s few => distance.trans_le (second.nearest s few), second.nearest⟩, ?_⟩
  rw [first.abs_lt_abs_iff]
  have size := sq_le_sq.mpr (second.away u best.mem_short distance)
  have beats := sq_lt_sq.mpr beats
  have nonzero : (u + rounded) / 2 ≠ 0 := by
    intro origin
    have none := second.nearest 0 (zero_mem_short fewer)
    rw [origin, sub_zero, sub_zero, abs_zero, abs_nonpos_iff] at none
    exact other (by linarith)
  have apart : rounded - u ≠ 0 := sub_ne_zero.mpr other.symm
  have outward : 0 < (rounded - u) * ((u + rounded) / 2) :=
    lt_of_le_of_ne (by linarith) (mul_ne_zero apart nonzero).symm
  have inward : 0 < (rounded - u) * ((u + rounded) / 2 - exact) := by linarith
  have product : 0 < (rounded - u) ^ 2 * ((u + rounded) / 2 * ((u + rounded) / 2 - exact)) := by
    linarith [mul_pos outward inward]
  exact (mul_pos_iff_of_pos_left (sq_pos_iff.mpr apart)).mp product

/-- When two roundings to nearest are not one. -/
theorem isClosest_iff_not_tie (positive : 1 ≤ fewer) (more : fewer < digits)
    (first : IsClosest digits exact wide) (second : IsNearest fewer wide rounded) :
    IsClosest fewer exact rounded ↔ ¬ (IsTie fewer wide ∧ |exact| < |wide|) := by
  constructor
  · rintro closest ⟨tie, outward⟩
    exact not_isClosest_of_isTie first second tie outward closest
  · intro sound
    by_contra far
    exact sound (isTie_of_not_isClosest positive more first second far)

end Direction

namespace DecimalFloat

open Decimal Direction

/-! ## Operations -/

/-- An operation on operands that were made at its own precision or at smaller ones rounds once. -/
theorem Operation.run_eq_of_le (operation : Operation) (direction : Direction) {precision : ℕ}
    (positive : 1 ≤ precision) {x y : DecimalFloat}
    (le : max x.precision y.precision ≤ precision) :
    (operation.run direction precision x y).value =
      operation.compute direction precision x.value y.value := by
  rw [operation.run_eq_withPrecision direction positive, max_eq_left le]
  exact if_neg (lt_irrefl precision)

/-- Otherwise it rounds what the larger precision gives. -/
theorem Operation.run_eq_of_lt (operation : Operation) (direction : Direction) {precision : ℕ}
    (positive : 1 ≤ precision) {x y : DecimalFloat}
    (lt : precision < max x.precision y.precision) :
    (operation.run direction precision x y).value =
      (operation.compute direction (max x.precision y.precision) x.value y.value).roundTo
        direction precision := by
  rw [operation.run_eq_withPrecision direction positive, max_eq_right lt.le]
  exact if_pos lt

/-- The nearest result of an operation is as near to the exact one as any number that the precision
can hold, unless the operation rounds twice and the first rounding has gone away from zero onto a
number halfway between two that the precision can hold. Then it never is. -/
theorem Operation.run_isClosest_iff (operation : Operation) {precision : ℕ}
    (positive : 1 ≤ precision) (x y : DecimalFloat) (defined : operation.Defined y) :
    let exact := operation.exact x.value.toRat y.value.toRat
    let widest := max x.precision y.precision
    let wide := (operation.run .nearest (max precision widest) x y).value.toRat
    let result := (operation.run .nearest precision x y).value.toRat
    (∀ s ∈ short precision, |result - exact| ≤ |s - exact|) ↔
      ¬ (precision < widest ∧ IsTie precision wide ∧ |exact| < |wide|) := by
  intro exact widest wide result
  have once := operation.compute_roundedOnce .nearest
    (positive.trans (le_max_left precision widest)) x defined
  have computed : wide =
      (operation.compute .nearest (max precision widest) x.value y.value).toRat := by
    rw [← operation.run_eq_of_le .nearest (positive.trans (le_max_left _ _)) (le_max_right _ _)]
  have first : IsClosest (max precision widest) exact wide :=
    computed ▸ once.isClosest (positive.trans (le_max_left _ _))
  rcases le_or_gt widest precision with le | lt
  · have single : result = wide := by
      rw [computed, max_eq_left le, ← operation.run_eq_of_le .nearest positive le]
    have closest : IsClosest precision exact result := by
      rwa [max_eq_left le, ← single] at first
    exact iff_of_true closest fun unsound => le.not_gt unsound.1
  · have second : IsNearest precision wide result := by
      have rounded := roundTo_isNearest positive
        (operation.compute .nearest widest x.value y.value)
      rwa [← operation.run_eq_of_lt .nearest positive lt, ← max_eq_right lt.le, ← computed]
        at rounded
    rw [max_eq_right lt.le] at first
    rw [and_iff_right lt]
    exact isClosest_iff_not_tie positive lt first second

/-- At two digits `0.72 * 2` is `1.4`, on the near side of the exact product, and one digit of it
is right. -/
theorem Operation.run_isClosest_iff_product :
    let x := ofDecimal (.of 72 (-2))
    let y := ofDecimal (.of 2 0)
    (product.run .nearest 1 x y).value = .of 1 0 ∧
      ∀ s ∈ short 1, |1 - 144 / 100| ≤ |s - 144 / 100| := by
  intro x y
  have wide : (product.run .nearest (max 1 (max x.precision y.precision)) x y).value =
      .of 14 (-1) := by
    decide +kernel
  have result : (product.run .nearest 1 x y).value = .of 1 0 := by decide +kernel
  have exact : product.exact x.value.toRat y.value.toRat = 144 / 100 := by
    norm_num [x, y, Operation.exact, ofDecimal, toRat_of]
  have verdict := product.run_isClosest_iff (by norm_num : 1 ≤ 1) x y trivial
  simp only [wide, result, exact, toRat_of] at verdict
  have inward : ¬ |(144 / 100 : ℚ)| < |14 * 10 ^ (-1 : ℤ)| := by norm_num [abs_of_pos]
  refine ⟨result, ?_⟩
  simpa using verdict.mpr fun unsound => inward (by simpa using unsound.2.2)

/-- At two digits `0.73 * 2` is `1.5`, and one digit of that is `2`, although `1` is nearer to the
exact product. -/
theorem mul_not_closest :
    let x := ofDecimal (.of 73 (-2))
    let y := ofDecimal (.of 2 0)
    x.Made ∧ y.Made ∧ 1 ∈ short 1 ∧
      |1 - x.value.toRat * y.value.toRat| <
        |(DecimalFloat.mul .nearest 1 x y).value.toRat - x.value.toRat * y.value.toRat| := by
  intro x y
  have left : x.Made := .read (by decide +kernel : readDirected .nearest 2 "0.73".toList = .ok _)
  have right : y.Made := .read (by decide +kernel : readDirected .nearest 1 "2".toList = .ok _)
  have result : (DecimalFloat.mul .nearest 1 x y).value = .of 2 0 := by decide +kernel
  have exact : x.value.toRat * y.value.toRat = 146 / 100 := by
    norm_num [x, y, ofDecimal, toRat_of]
  refine ⟨left, right, ⟨.one, by decide, toRat_one⟩, ?_⟩
  rw [result, exact, toRat_of]
  norm_num [abs_of_pos, abs_of_neg]

end DecimalFloat

end LinearEnclosure
