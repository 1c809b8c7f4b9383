/-
# Tight decimal operations

The positions at which a sum, a product or a quotient is rounded are compared with the
leading digit of the exact result. A product and a quotient keep at least as many digits as
they should. Cancellation may cost a sum one leading digit, and the guard digit of unlike
signs pays for it; summands that could cancel further are aligned completely.

Together with the side that a direction promises this pins a directed result down: it lies
between the exact one and the tightest short number on that side.
-/

import LinearEnclosure.Proofs.Decimal.Tightness

namespace LinearEnclosure

namespace DecimalFloat

open Decimal

variable {direction : Direction} {digits : ℕ}

theorem product_roundedOnce (x y : Decimal) :
    direction.RoundedOnce digits (x.toRat * y.toRat) (product direction digits x y).toRat := by
  rw [product, ← toRat_mul]
  exact roundTo_roundedOnce direction digits _

/-! ## Quotients -/

/-- The numerator of an uneven division is carried on far enough for all digits. -/
private theorem numerator_reaches (positive : 1 ≤ digits) {x y : Decimal}
    (uneven : x.significand.natAbs % y.significand.natAbs ≠ 0) :
    10 ^ (digits - 1) * y.significand.natAbs ≤
      x.significand.natAbs * 10 ^ quotientPlaces digits x y := by
  simp only [quotientPlaces, if_neg uneven]
  split
  · next below =>
    have dividend : 0 < x.significand.natAbs := by
      rw [Nat.pos_iff_ne_zero]
      intro zero
      rw [zero, Nat.zero_mod] at uneven
      exact uneven rfl
    have lead : 10 ^ (x.size - 1) ≤ x.significand.natAbs := ten_pow_le_of_digitCount dividend
    have some_digit : 0 < x.size := digitCount_pos dividend
    have bound : y.significand.natAbs < 10 ^ y.size := lt_ten_pow_digitCount _
    calc 10 ^ (digits - 1) * y.significand.natAbs
        ≤ 10 ^ (digits - 1) * 10 ^ y.size := by gcongr
      _ = 10 ^ (digits - 1 + y.size) := (pow_add ..).symm
      _ ≤ 10 ^ (x.size - 1 + (y.size + digits - x.size)) :=
        Nat.pow_le_pow_right (by norm_num) (by omega)
      _ = 10 ^ (x.size - 1) * 10 ^ (y.size + digits - x.size) := pow_add ..
      _ ≤ x.significand.natAbs * 10 ^ (y.size + digits - x.size) := by gcongr
  · next above =>
    generalize whole : x.significand.natAbs / y.significand.natAbs = w at above ⊢
    have lead : 10 ^ (digitCount w - 1) ≤ w := ten_pow_le_of_digitCount (by omega)
    have product : w * y.significand.natAbs ≤ x.significand.natAbs := by
      rw [← whole]
      exact Nat.div_mul_le_self _ _
    calc 10 ^ (digits - 1) * y.significand.natAbs
        ≤ 10 ^ (digitCount w - 1 + (digits - digitCount w)) * y.significand.natAbs := by
          gcongr
          · norm_num
          · omega
      _ = 10 ^ (digitCount w - 1) * y.significand.natAbs * 10 ^ (digits - digitCount w) := by
        rw [pow_add]
        ring
      _ ≤ w * y.significand.natAbs * 10 ^ (digits - digitCount w) := by gcongr
      _ ≤ x.significand.natAbs * 10 ^ (digits - digitCount w) := by gcongr

/-- A quotient is carried on until it has as many digits as it should, unless it comes out
even before. -/
theorem quotient_roundedOnce (positive : 1 ≤ digits) (x : Decimal) {y : Decimal}
    (nonzero : y.toRat ≠ 0) :
    direction.RoundedOnce digits (x.toRat / y.toRat) (quotient direction digits x y).toRat := by
  rw [quotient, toRat_quotientAt _ _ _ nonzero]
  have divisor : y.significand ≠ 0 := mt toRat_eq_zero_iff.mpr nonzero
  have exact : x.toRat / y.toRat =
      x.significand / y.significand * 10 ^ (x.exponent - y.exponent) := by
    rw [toRat, toRat, mul_div_mul_comm, zpow_sub₀ (by norm_num)]
  by_cases even : x.significand.natAbs % y.significand.natAbs = 0
  · obtain ⟨n, split⟩ := Int.natAbs_dvd_natAbs.mp (Nat.dvd_of_mod_eq_zero even)
    have places : quotientPlaces digits x y = 0 := if_pos even
    have divisor : (y.significand : ℚ) ≠ 0 := Int.cast_ne_zero.mpr divisor
    apply Direction.RoundedOnce.of_multiple (n := n)
    rw [exact, split, Int.cast_mul, mul_div_cancel_left₀ _ divisor, places, Nat.cast_zero, sub_zero]
  · apply Direction.RoundedOnce.onGrid
    have reaches := numerator_reaches positive even
    generalize quotientPlaces digits x y = places at reaches ⊢
    have scale : (0 : ℚ) < y.significand.natAbs := by
      exact_mod_cast Int.natAbs_pos.mpr divisor
    have shift : x.exponent - y.exponent - places + digits - 1 =
        ((digits - 1 : ℕ) : ℤ) + (x.exponent - y.exponent) - places := by omega
    rw [exact, abs_mul, abs_div, abs_of_pos (by positivity : (0 : ℚ) < 10 ^ (_ : ℤ)),
      ← Int.cast_abs, ← Int.cast_abs, Int.abs_eq_natAbs, Int.abs_eq_natAbs, Int.cast_natCast,
      Int.cast_natCast, shift, zpow_sub₀ (by norm_num), zpow_add₀ (by norm_num), zpow_natCast,
      zpow_natCast, div_mul_eq_mul_div, div_le_div_iff₀ (by positivity) scale]
    have reaches : (10 : ℚ) ^ (digits - 1) * y.significand.natAbs ≤
        x.significand.natAbs * 10 ^ places := by exact_mod_cast reaches
    calc (10 : ℚ) ^ (digits - 1) * 10 ^ (x.exponent - y.exponent) * y.significand.natAbs
        = 10 ^ (digits - 1) * y.significand.natAbs * 10 ^ (x.exponent - y.exponent) := by ring
      _ ≤ x.significand.natAbs * 10 ^ places * 10 ^ (x.exponent - y.exponent) := by gcongr
      _ = x.significand.natAbs * 10 ^ (x.exponent - y.exponent) * 10 ^ places := by ring

/-! ## Sums -/

/-- A number in units of a position, before anything is cut off. -/
private theorem scaled_div_zpow (position : ℤ) (x : Decimal) :
    (x.scaled position : ℚ) / (10 ^ (position - x.exponent).toNat : ℕ) * 10 ^ position =
      x.toRat := by
  have shift : ((x.exponent - position).toNat : ℤ) - (position - x.exponent).toNat + position =
      x.exponent := by omega
  rw [scaled, toRat]
  push_cast
  rw [← zpow_natCast, ← zpow_natCast, mul_div_assoc, ← zpow_sub₀ (by norm_num), mul_assoc,
    ← zpow_add₀ (by norm_num), shift]

/-- Cutting toward zero stays between zero and the number. -/
private theorem tdiv_mem (n : ℤ) {d : ℕ} (positive : 0 < d) :
    ((n.tdiv d : ℤ) : ℚ) ∈ Set.uIcc 0 ((n : ℚ) / d) := by
  have scale : (0 : ℚ) < d := by exact_mod_cast positive
  have nonneg {m : ℤ} (sign : 0 ≤ m) : 0 ≤ m.tdiv d ∧ m.tdiv d * d ≤ m := by
    rw [Int.tdiv_eq_ediv_of_nonneg sign]
    exact ⟨Int.ediv_nonneg sign (by omega), Int.ediv_mul_le m (by omega)⟩
  rw [Set.mem_uIcc, le_div_iff₀ scale, div_le_iff₀ scale]
  norm_cast
  rcases le_total 0 n with sign | sign
  · exact .inl (nonneg sign)
  · have mirrored := nonneg (neg_nonneg.mpr sign)
    rw [Int.neg_tdiv] at mirrored
    right
    constructor <;> linarith

/-- The head of a number lies between zero and the number. -/
theorem headAt_mem (position : ℤ) (x : Decimal) :
    (headAt position x : ℚ) * 10 ^ position ∈ Set.uIcc 0 x.toRat := by
  have power : (0 : ℚ) < 10 ^ position := by positivity
  simp only [headAt]
  split
  · simp
  · have inside := tdiv_mem (x.scaled position)
      (d := 10 ^ (position - x.exponent).toNat) (by positivity)
    have whole := scaled_div_zpow position x
    rw [Set.mem_uIcc] at inside ⊢
    rw [← whole]
    rcases inside with ⟨low, high⟩ | ⟨low, high⟩
    · left
      constructor
      · positivity
      · gcongr
    · right
      constructor
      · gcongr
      · exact mul_nonpos_of_nonpos_of_nonneg high power.le

/-- Nothing is cut off a number whose digits all stand above the position. -/
theorem headAt_of_le {position : ℤ} {x : Decimal} (le : position ≤ x.exponent) :
    (headAt position x : ℚ) * 10 ^ position = x.toRat := by
  have places : (position - x.exponent).toNat = 0 := by omega
  simp only [headAt, places]
  split
  · next empty =>
    have zero : x.significand = 0 := by
      by_contra nonzero
      have := digitCount_pos (n := x.significand.natAbs) (by omega)
      rw [size] at empty
      omega
    rw [Int.cast_zero, zero_mul, toRat_eq_zero_iff.mpr zero]
  · rw [pow_zero, Nat.cast_one, Int.tdiv_one, scaled_mul_zpow le]

/-- What is cut off a number is less than one step at the position. -/
theorem abs_sub_headAt_lt (position : ℤ) (x : Decimal) :
    |x.toRat - headAt position x * 10 ^ position| < 10 ^ position := by
  have power : (0 : ℚ) < 10 ^ position := by positivity
  rcases le_or_gt position x.exponent with whole | finer
  · rwa [headAt_of_le whole, sub_self, abs_zero]
  have places : ((position - x.exponent).toNat : ℤ) = position - x.exponent := by omega
  simp only [headAt]
  split
  · next short =>
    rw [Int.cast_zero, zero_mul, sub_zero]
    refine (abs_toRat_lt x).trans_le (zpow_le_zpow_right₀ (by norm_num) ?_)
    rw [top]
    omega
  · have scale : (0 : ℚ) < (10 ^ (position - x.exponent).toNat : ℕ) := by positivity
    have rest : (((x.scaled position).tmod (10 ^ (position - x.exponent).toNat : ℕ) : ℤ) : ℚ) =
        x.scaled position - (10 ^ (position - x.exponent).toNat : ℕ) *
          ((x.scaled position).tdiv (10 ^ (position - x.exponent).toNat : ℕ) : ℤ) := by
      exact_mod_cast Int.tmod_def _ _
    have bound : |(((x.scaled position).tmod (10 ^ (position - x.exponent).toNat : ℕ) : ℤ) : ℚ)| <
        (10 ^ (position - x.exponent).toNat : ℕ) := by
      rw [← Int.cast_abs, Int.abs_eq_natAbs, Int.natAbs_tmod]
      exact_mod_cast Nat.mod_lt _ (by positivity)
    rw [rest] at bound
    rw [← scaled_div_zpow position x, ← sub_mul, abs_mul, abs_of_pos power, div_sub' scale.ne',
      abs_div, abs_of_pos scale]
    exact mul_lt_of_lt_one_left power ((div_lt_one scale).mpr bound)

/-- A number reaches the leading position of any integer part of it. -/
theorem zpow_le_of_head {position : ℤ} {head : ℤ} (nonzero : head ≠ 0) {q : ℚ}
    (le : |(head : ℚ) * 10 ^ position| ≤ |q|) :
    10 ^ (position + digitCount head.natAbs - 1) ≤ |q| := by
  have lead := ten_pow_le_of_digitCount (n := head.natAbs) (by omega)
  have some_digit := digitCount_pos (n := head.natAbs) (by omega)
  have power : (0 : ℚ) < 10 ^ position := by positivity
  have split : position + digitCount head.natAbs - 1 =
      ((digitCount head.natAbs - 1 : ℕ) : ℤ) + position := by omega
  have lead : (10 : ℚ) ^ (digitCount head.natAbs - 1) ≤ |(head : ℚ)| := by
    rw [← Int.cast_abs, Int.abs_eq_natAbs]
    exact_mod_cast lead
  calc (10 : ℚ) ^ (position + digitCount head.natAbs - 1)
      = 10 ^ (digitCount head.natAbs - 1) * 10 ^ position := by
        rw [split, zpow_add₀ (by norm_num), zpow_natCast]
    _ ≤ |(head : ℚ)| * 10 ^ position := by gcongr
    _ = |(head : ℚ) * 10 ^ position| := by rw [abs_mul, abs_of_pos power]
    _ ≤ |q| := le

/-- An integer part below a power of ten ends below its position. -/
theorem digitCount_le_of_head {position top : ℤ} {head : ℤ} (le : position ≤ top)
    (lt : |(head : ℚ) * 10 ^ position| < 10 ^ top) :
    position + digitCount head.natAbs ≤ top := by
  by_cases zero : head = 0
  · simp [zero, le]
  · have reach := zpow_le_of_head zero (le_refl |(head : ℚ) * 10 ^ position|)
    have := (zpow_lt_zpow_iff_right₀ (by norm_num : (1 : ℚ) < 10)).mp (reach.trans_lt lt)
    omega

section Sum

variable {x y : Decimal}

/-- Rounding far enough below the leading digit of an integer part of `q`. -/
private theorem max_reaches {cut exponent head : ℤ} {keep : ℕ} {q : ℚ} (le : digits ≤ keep)
    (nonzero : head ≠ 0) (inside : |(head : ℚ) * 10 ^ cut| ≤ |q|) :
    max (cut + digitCount head.natAbs - keep) exponent = exponent ∨
      10 ^ (max (cut + digitCount head.natAbs - keep) exponent + digits - 1) ≤ |q| := by
  rcases le_total (cut + digitCount head.natAbs - keep) exponent with below | above
  · exact .inl (max_eq_right below)
  · right
    rw [max_eq_left above]
    exact (zpow_le_zpow_right₀ (by norm_num) (by omega)).trans (zpow_le_of_head nonzero inside)

/-- Summands of one sign: what is cut off only makes the head smaller. -/
private theorem abs_head_le {x y h : ℚ} (signs : 0 < x ∧ 0 < y ∨ x < 0 ∧ y < 0)
    (inside : h ∈ Set.uIcc 0 y) : 0 < |x + h| ∧ |x + h| ≤ |x + y| := by
  rcases signs with ⟨left, right⟩ | ⟨left, right⟩
  · obtain ⟨low, high⟩ := Set.uIcc_of_le right.le ▸ inside
    rw [abs_of_pos (by linarith), abs_of_pos (by linarith)]
    constructor <;> linarith
  · obtain ⟨low, high⟩ := Set.uIcc_of_ge right.le ▸ inside
    rw [abs_of_neg (by linarith), abs_of_neg (by linarith)]
    constructor <;> linarith

/-- Summands of unlike signs, the second one far smaller: the head has at most as many digits
as the first summand, and the sum at most one digit less. -/
private theorem cancellation {x y h : ℚ} {top : ℤ} (signs : 0 < x ∧ y < 0 ∨ x < 0 ∧ 0 < y)
    (lead : 10 ^ (top - 1) ≤ |x|) (small : |y| < 10 ^ (top - 2)) (inside : h ∈ Set.uIcc 0 y) :
    0 < |x + h| ∧ |x + h| ≤ |x| ∧ 10 ^ (top - 2) ≤ |x + y| := by
  have power : (10 : ℚ) ^ (top - 1) = 10 * 10 ^ (top - 2) := by
    rw [← zpow_one_add₀ (by norm_num)]
    congr 1
    omega
  have positive : (0 : ℚ) < 10 ^ (top - 2) := by positivity
  rcases signs with ⟨left, right⟩ | ⟨left, right⟩
  · rw [abs_of_pos left] at lead ⊢
    rw [abs_of_neg right] at small
    obtain ⟨low, high⟩ := Set.uIcc_of_ge right.le ▸ inside
    rw [abs_of_pos (by linarith), abs_of_pos (by linarith)]
    refine ⟨?_, ?_, ?_⟩ <;> linarith
  · rw [abs_of_neg left] at lead ⊢
    rw [abs_of_pos right] at small
    obtain ⟨low, high⟩ := Set.uIcc_of_le right.le ▸ inside
    rw [abs_of_neg (by linarith), abs_of_neg (by linarith)]
    refine ⟨?_, ?_, ?_⟩ <;> linarith

/-- Numbers that are not zero have the same sign or unlike ones. -/
private theorem signs_of_ne_zero (left : x.significand ≠ 0) (right : y.significand ≠ 0) :
    if x.significand.sign = y.significand.sign then
      0 < x.toRat ∧ 0 < y.toRat ∨ x.toRat < 0 ∧ y.toRat < 0
    else 0 < x.toRat ∧ y.toRat < 0 ∨ x.toRat < 0 ∧ 0 < y.toRat := by
  simp only [toRat_pos_iff, toRat_neg_iff]
  rcases lt_or_gt_of_ne left with l | l <;> rcases lt_or_gt_of_ne right with r | r <;>
    simp [Int.sign_eq_one_of_pos, Int.sign_eq_neg_one_of_neg, l, r]

/-- The position keeps all digits of the sum, or it lies at the last digit of both summands. -/
theorem sumPosition_reaches (positive : 1 ≤ digits) (left : x.significand ≠ 0)
    (right : y.significand ≠ 0) (order : y.exponent ≤ x.exponent) :
    x.toRat + y.toRat = 0 ∨ sumPosition digits x y = y.exponent ∨
      10 ^ (sumPosition digits x y + digits - 1) ≤ |x.toRat + y.toRat| := by
  simp only [sumPosition]
  generalize opposed : (decide (y.exponent < x.exponent) &&
    (x.significand.sign != y.significand.sign)) = opposite
  generalize position : cutPosition digits opposite x y = cut
  have below : cut ≤ x.exponent := by
    rw [← position, cutPosition]
    split <;> omega
  have whole : (headAt cut x : ℚ) * 10 ^ cut = x.toRat := headAt_of_le below
  have part := headAt_mem cut y
  have keeps : digits ≤ if opposite = true then digits + 1 else digits := by split <;> omega
  by_cases aligned : cut ≤ y.exponent
  · -- Both summands are whole, so the head is the sum.
    have exact : ((headAt cut x + headAt cut y : ℤ) : ℚ) * 10 ^ cut = x.toRat + y.toRat := by
      rw [Int.cast_add, add_mul, whole, headAt_of_le aligned]
    by_cases zero : headAt cut x + headAt cut y = 0
    · left
      rw [← exact, zero, Int.cast_zero, zero_mul]
    · right
      exact max_reaches keeps zero (by rw [exact])
  right
  have head : ((headAt cut x + headAt cut y : ℤ) : ℚ) * 10 ^ cut =
      x.toRat + headAt cut y * 10 ^ cut := by
    rw [Int.cast_add, add_mul, whole]
  have gap : y.exponent < x.exponent := by omega
  have signs := signs_of_ne_zero left right
  cases opposite with
  | false =>
    have same : x.significand.sign = y.significand.sign := by simpa [gap] using opposed
    rw [if_pos same] at signs
    obtain ⟨nonzero, inside⟩ := abs_head_le signs part
    rw [← head] at nonzero inside
    exact max_reaches keeps (by rintro zero; simp [zero] at nonzero) inside
  | true =>
    have unlike : x.significand.sign ≠ y.significand.sign := by simpa [gap] using opposed
    rw [if_neg unlike] at signs
    -- The second summand was not aligned, so it lies below the last digit that is kept.
    have far : y.top + digits + 1 ≤ x.top := by
      have bound : y.size ≤ digitBound y.significand.natAbs := digitCount_le_digitBound _
      rw [cutPosition] at position
      split at position
      · omega
      · next far =>
        simp only [Bool.true_and, decide_eq_true_eq] at far
        rw [top, top]
        omega
    have small : |y.toRat| < 10 ^ (x.top - 2) :=
      (abs_toRat_lt y).trans_le (zpow_le_zpow_right₀ (by norm_num) (by omega))
    obtain ⟨nonzero, inside, reach⟩ :=
      cancellation signs (zpow_top_le_abs_toRat left) small part
    rw [← head] at nonzero inside
    have count := digitCount_le_of_head (by rw [top]; omega : cut ≤ x.top)
      (inside.trans_lt (abs_toRat_lt x))
    rcases max_choice (cut + digitCount (headAt cut x + headAt cut y).natAbs -
      (if true = true then digits + 1 else digits : ℕ)) y.exponent with eq | eq
    · right
      rw [eq, if_pos rfl]
      refine le_trans (zpow_le_zpow_right₀ (by norm_num) ?_) reach
      push_cast
      omega
    · exact .inl eq

/-- Two numbers are added at a position that leaves all digits of the sum above it. -/
private theorem sumAt_roundedOnce (positive : 1 ≤ digits) (left : x.significand ≠ 0)
    (right : y.significand ≠ 0) (order : y.exponent ≤ x.exponent) :
    direction.RoundedOnce digits (x.toRat + y.toRat)
      (x.sumAt direction (sumPosition digits x y) y).toRat := by
  rw [toRat_sumAt]
  rcases sumPosition_reaches positive left right order with zero | last | reach
  · rw [zero, Direction.onGrid_zero]
    exact .unchanged
  · rw [last]
    apply Direction.RoundedOnce.of_multiple (n := x.scaled y.exponent + y.scaled y.exponent)
    rw [Int.cast_add, add_mul, scaled_mul_zpow order, scaled_mul_zpow le_rfl]
  · exact .onGrid reach

end Sum

theorem sum_roundedOnce (positive : 1 ≤ digits) (x y : Decimal) :
    direction.RoundedOnce digits (x.toRat + y.toRat) (sum direction digits x y).toRat := by
  unfold sum
  by_cases left : x.isZero = true
  · rw [if_pos left, isZero_iff.mp left, zero_add]
    exact .unchanged
  by_cases right : y.isZero = true
  · rw [if_neg left, if_pos right, isZero_iff.mp right, add_zero]
    exact .unchanged
  rw [if_neg left, if_neg right]
  rw [isZero_iff, toRat_eq_zero_iff] at left right
  by_cases order : x.exponent < y.exponent
  · rw [if_pos order, add_comm]
    exact sumAt_roundedOnce positive right left order.le
  · rw [if_neg order]
    exact sumAt_roundedOnce positive left right (not_lt.mp order)

/-! ## Operations at a precision -/

theorem withPrecision_tight {precision : ℕ} (positive : 1 ≤ precision) (x : DecimalFloat) :
    direction.Tight precision x.value.toRat (x.withPrecision direction precision).value.toRat := by
  unfold withPrecision
  split
  · exact roundTo_tight positive x.value
  · apply Direction.Tight.refl

/-- The operations of decimal arithmetic. -/
inductive Operation
  | sum
  | difference
  | product
  | quotient

namespace Operation

/-- The exact result. -/
def exact : Operation → ℚ → ℚ → ℚ
  | sum, x, y => x + y
  | difference, x, y => x - y
  | product, x, y => x * y
  | quotient, x, y => x / y

/-- The rounded result. -/
def run : Operation → Direction → ℕ → DecimalFloat → DecimalFloat → DecimalFloat
  | sum => DecimalFloat.add
  | difference => DecimalFloat.sub
  | product => DecimalFloat.mul
  | quotient => DecimalFloat.div

/-- A quotient has a result only where the divisor is not zero. -/
def Defined : Operation → DecimalFloat → Prop
  | quotient, y => y.value.toRat ≠ 0
  | _, _ => True

theorem run_bounds (operation : Operation) (direction : Direction) (precision : ℕ)
    (x : DecimalFloat) {y : DecimalFloat} (defined : operation.Defined y) :
    direction.Bounds (operation.exact x.value.toRat y.value.toRat)
      (operation.run direction precision x y).value.toRat := by
  cases operation with
  | sum => exact add_bounds direction precision x y
  | difference => exact sub_bounds direction precision x y
  | product => exact mul_bounds direction precision x y
  | quotient => exact div_bounds direction precision x defined

/-- The rounded result before the precision is settled for. -/
def compute : Operation → Direction → ℕ → Decimal → Decimal → Decimal
  | sum, direction, digits, x, y => DecimalFloat.sum direction digits x y
  | difference, direction, digits, x, y => DecimalFloat.sum direction digits x y.neg
  | product, direction, digits, x, y => DecimalFloat.product direction digits x y
  | quotient, direction, digits, x, y => DecimalFloat.quotient direction digits x y

theorem compute_roundedOnce (operation : Operation) (direction : Direction)
    (positive : 1 ≤ digits) (x : DecimalFloat) {y : DecimalFloat} (defined : operation.Defined y) :
    direction.RoundedOnce digits (operation.exact x.value.toRat y.value.toRat)
      (operation.compute direction digits x.value y.value).toRat := by
  cases operation with
  | sum => exact sum_roundedOnce positive _ _
  | difference =>
    rw [exact, sub_eq_add_neg, ← toRat_neg]
    exact sum_roundedOnce positive _ _
  | product => exact product_roundedOnce _ _
  | quotient => exact quotient_roundedOnce positive _ defined

/-- An operation is computed at the largest of the precisions and then rounded to its own. -/
theorem run_eq_withPrecision (operation : Operation) (direction : Direction) {precision : ℕ}
    (positive : 1 ≤ precision) (x y : DecimalFloat) :
    operation.run direction precision x y =
      withPrecision direction precision
        ⟨operation.compute direction (max precision (max x.precision y.precision)) x.value y.value,
          max precision (max x.precision y.precision)⟩ := by
  have settled : max precision 1 = precision := max_eq_left positive
  cases operation <;>
    simp only [run, compute, DecimalFloat.add, DecimalFloat.sub, DecimalFloat.mul, DecimalFloat.div,
      DecimalFloat.neg, apply, settled]

theorem run_tight (operation : Operation) (direction : Direction) {precision : ℕ}
    (positive : 1 ≤ precision) (x : DecimalFloat) {y : DecimalFloat}
    (defined : operation.Defined y) :
    direction.Tight precision (operation.exact x.value.toRat y.value.toRat)
      (operation.run direction precision x y).value.toRat := by
  have wide := le_max_left precision (max x.precision y.precision)
  have once := operation.compute_roundedOnce direction (positive.trans wide) x defined
  rw [operation.run_eq_withPrecision direction positive]
  generalize operation.compute direction _ x.value y.value = value at once ⊢
  exact ((once.tight (positive.trans wide)).mono wide).trans
    (withPrecision_tight positive ⟨value, _⟩)

/-- Directed results enclose the exact one, and lie no further out than the nearest numbers on
either side that the precision can hold. A result that the precision can hold is exact. -/
theorem run_between (operation : Operation) {precision : ℕ} (positive : 1 ≤ precision)
    (x y : DecimalFloat) (defined : operation.Defined y) :
    let exact := operation.exact x.value.toRat y.value.toRat
    let lower := (operation.run .down precision x y).value.toRat
    let upper := (operation.run .up precision x y).value.toRat
    ∃ floor ceil, IsGreatest {s ∈ short precision | s ≤ exact} floor ∧
      IsLeast {s ∈ short precision | exact ≤ s} ceil ∧
      floor ≤ lower ∧ lower ≤ exact ∧ exact ≤ upper ∧ upper ≤ ceil ∧
      (exact ∈ short precision → lower = exact ∧ upper = exact) := by
  intro exact lower upper
  have low : lower ≤ exact := operation.run_bounds .down precision x defined
  have high : exact ≤ upper := operation.run_bounds .up precision x defined
  have tightLow := operation.run_tight .down positive x defined
  have tightHigh := operation.run_tight .up positive x defined
  obtain ⟨floor, floorShort, floorLow, greatest⟩ :=
    Direction.exists_mem_short_tight .down positive exact
  obtain ⟨ceil, ceilShort, ceilHigh, least⟩ := Direction.exists_mem_short_tight .up positive exact
  refine ⟨floor, ceil, ⟨⟨floorShort, floorLow⟩, ?_⟩, ⟨⟨ceilShort, ceilHigh⟩, ?_⟩,
    tightLow floor floorShort floorLow, low, high, tightHigh ceil ceilShort ceilHigh, ?_⟩
  · rintro s ⟨few, below⟩
    exact greatest s few below
  · rintro s ⟨few, above⟩
    exact least s few above
  · intro few
    have fromBelow : exact ≤ lower := tightLow exact few le_rfl
    have fromAbove : upper ≤ exact := tightHigh exact few le_rfl
    exact ⟨le_antisymm low fromBelow, le_antisymm fromAbove high⟩

/-- One third is not a short number, so the two results differ in their last digit. -/
theorem run_between_third :
    let third : ℚ := 1 / 3
    ∃ floor ceil, IsGreatest {s ∈ short 20 | s ≤ third} floor ∧
      IsLeast {s ∈ short 20 | third ≤ s} ceil ∧
      floor ≤ 33333333333333333333 / 10 ^ 20 ∧ 33333333333333333334 / 10 ^ 20 ≤ ceil := by
  intro third
  have three : (ofDecimal (.of 3 0)).value.toRat = 3 := by simp [ofDecimal]
  have nonzero : quotient.Defined (ofDecimal (.of 3 0)) := by simp [Defined, three]
  have lower : (quotient.run .down 20 .one (ofDecimal (.of 3 0))).value =
      .of 33333333333333333333 (-20) := by decide +kernel
  have upper : (quotient.run .up 20 .one (ofDecimal (.of 3 0))).value =
      .of 33333333333333333334 (-20) := by decide +kernel
  have exact : quotient.exact (DecimalFloat.one).value.toRat (ofDecimal (.of 3 0)).value.toRat =
      third := by
    rw [three]
    simp [Operation.exact, DecimalFloat.one, third]
  obtain ⟨floor, ceil, greatest, least, low, -, -, high, -⟩ :=
    quotient.run_between (by norm_num : 1 ≤ 20) .one (ofDecimal (.of 3 0)) nonzero
  rw [exact] at greatest least
  rw [lower, toRat_of] at low
  rw [upper, toRat_of] at high
  refine ⟨floor, ceil, greatest, least, low.trans_eq ?_, Eq.trans_le ?_ high⟩ <;> norm_num

end Operation

end DecimalFloat

end LinearEnclosure
