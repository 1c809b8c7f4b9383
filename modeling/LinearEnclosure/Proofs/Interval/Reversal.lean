/-
# Intervals that come out reversed

Whether every interval is in order is decided by the sums. Binary sums keep the order in either
mode, because rounding to nearest never makes a greater number smaller, and in dual mode all
sums do. In single mode decimal sums do not: unlike signs leave room for a guard digit and like
signs do not, so the sum of the upper ends may be rounded more coarsely than the sum of the
lower ends, and end up below it.

This needs a summand that has used its guard digit already. There is one for every precision:
`(10 ^ digits + 1) * 10`, with one digit more than the precision, is the difference of two
numbers that the precision can hold. One unit is taken away at the lower end and added at the
upper one, and only the upper end goes back to `10 ^ (digits + 1)`.
-/

import LinearEnclosure.Proofs.Binary.Order
import LinearEnclosure.Proofs.Decimal.Capacity
import LinearEnclosure.Proofs.Decimal.Nearest
import LinearEnclosure.Proofs.Interval.Containment

namespace LinearEnclosure

namespace DecimalFloat

open Decimal

variable {direction : Direction} {digits : ℕ}

/-! ## Where a sum is rounded -/

section Sum

variable {x y : Decimal}

/-- The digits of an integer part reach up to the leading position of the number. -/
theorem add_digitCount_eq {position top head : ℤ}
    (inside : (head : ℚ) * 10 ^ position ∈ Set.Ico (10 ^ (top - 1)) (10 ^ top)) :
    position + digitCount head.natAbs = top := by
  obtain ⟨low, high⟩ := inside
  have positive : 0 < (head : ℚ) * 10 ^ position := lt_of_lt_of_le (by positivity) low
  have nonzero : head ≠ 0 := by
    rintro rfl
    simp at positive
  have reaches : 10 ^ (position + digitCount head.natAbs - 1) < (10 : ℚ) ^ top := by
    refine (zpow_le_of_head nonzero le_rfl).trans_lt ?_
    rwa [abs_of_pos positive]
  have bounded : (10 : ℚ) ^ (top - 1) < 10 ^ (position + digitCount head.natAbs) := by
    have count : head < (10 ^ digitCount head.natAbs : ℕ) := by
      have := lt_ten_pow_digitCount head.natAbs
      omega
    have count : (head : ℚ) < 10 ^ digitCount head.natAbs := by exact_mod_cast count
    calc (10 : ℚ) ^ (top - 1) ≤ head * 10 ^ position := low
      _ < 10 ^ digitCount head.natAbs * 10 ^ position := by gcongr
      _ = 10 ^ (position + digitCount head.natAbs) := by
        rw [zpow_add₀ (by norm_num), zpow_natCast, mul_comm]
  have ten : (1 : ℚ) < 10 := by norm_num
  have upper := (zpow_lt_zpow_iff_right₀ ten).mp reaches
  have lower := (zpow_lt_zpow_iff_right₀ ten).mp bounded
  omega

/-- The digits that are kept of a sum. -/
def keptDigits (digits : ℕ) (x y : Decimal) : ℕ :=
  if y.exponent < x.exponent && x.significand.sign != y.significand.sign then digits + 1
  else digits

/-- A sum that leads at the same position as its greater summand is rounded by counting from
there, however much of the other summand is cut off. -/
theorem sumPosition_eq {top : ℤ} (order : y.exponent ≤ x.exponent)
    (first : x.toRat ∈ Set.Ico (10 ^ (top - 1)) (10 ^ top))
    (whole : x.toRat + y.toRat ∈ Set.Ico (10 ^ (top - 1)) (10 ^ top)) :
    sumPosition digits x y = max (top - keptDigits digits x y) y.exponent := by
  simp only [sumPosition, keptDigits]
  generalize (decide (y.exponent < x.exponent) &&
    (x.significand.sign != y.significand.sign)) = opposite
  generalize position : cutPosition digits opposite x y = cut
  have below : cut ≤ x.exponent := by
    rw [← position, cutPosition]
    split <;> omega
  have head : ((headAt cut x + headAt cut y : ℤ) : ℚ) * 10 ^ cut =
      x.toRat + headAt cut y * 10 ^ cut := by
    rw [Int.cast_add, add_mul, headAt_of_le below]
  have inside : x.toRat + headAt cut y * 10 ^ cut ∈ Set.Ico (10 ^ (top - 1)) (10 ^ top) := by
    have part := Set.mem_uIcc.mp (headAt_mem cut y)
    constructor
    · rcases part with part | part <;> linarith [first.1, whole.1]
    · rcases part with part | part <;> linarith [first.2, whole.2]
  rw [← head] at inside
  rw [add_digitCount_eq inside]

theorem keptDigits_of_unlike (lower : y.exponent < x.exponent)
    (unlike : x.significand.sign ≠ y.significand.sign) : keptDigits digits x y = digits + 1 :=
  if_pos (by simpa using ⟨lower, unlike⟩)

theorem keptDigits_of_like (like : x.significand.sign = y.significand.sign) :
    keptDigits digits x y = digits :=
  if_neg (by simp [like])

end Sum

/-- Operands of no greater precision are added at the precision asked for. -/
theorem toRat_add_of_lead (direction : Direction) {precision : ℕ}
    (settled : max precision 1 = digits) {x y : DecimalFloat} (left : x.precision ≤ digits)
    (right : y.precision ≤ digits) (order : y.value.exponent ≤ x.value.exponent)
    (nonzero : y.value.toRat ≠ 0) (top : ℤ)
    (first : x.value.toRat ∈ Set.Ico (10 ^ (top - 1)) (10 ^ top))
    (whole : x.value.toRat + y.value.toRat ∈ Set.Ico (10 ^ (top - 1)) (10 ^ top)) :
    (DecimalFloat.add direction precision x y).value.toRat =
      direction.onGrid (max (top - keptDigits digits x.value y.value) y.value.exponent)
        (x.value.toRat + y.value.toRat) := by
  have working : max digits (max x.precision y.precision) = digits := by omega
  have start : x.value.toRat ≠ 0 := (lt_of_lt_of_le (by positivity) first.1).ne'
  simp only [DecimalFloat.add, apply, withPrecision, settled, working, lt_irrefl, if_false]
  rw [sum, if_neg (mt isZero_iff.mp start), if_neg (mt isZero_iff.mp nonzero),
    if_neg (not_lt.mpr order), toRat_sumAt, sumPosition_eq order first whole]

/-! ## A summand with its guard digit -/

theorem parts_of_toRat_eq {x : Decimal} {significand exponent : ℤ} (normal : significand % 10 ≠ 0)
    (value : x.toRat = significand * 10 ^ exponent) :
    x.significand = significand ∧ x.exponent = exponent := by
  obtain rfl : x = ⟨significand, exponent, .inl normal⟩ := toRat_injective value
  exact ⟨rfl, rfl⟩

/-- A number with one digit more than some precision, the last one being a one in the place
of the tens. -/
structure IsOverlong (digits : ℕ) (v : DecimalFloat) : Prop where
  made : v.Made
  precision : v.precision = digits
  value : v.value.toRat = ((10 ^ digits : ℕ) + 1 : ℤ) * 10 ^ (1 : ℤ)

/-- The numbers with two places more than some digits. -/
private theorem mem_leading {digits : ℕ} {q : ℚ} (low : 10 * (10 ^ digits : ℕ) ≤ q)
    (high : q < 100 * (10 ^ digits : ℕ)) :
    q ∈ Set.Ico (10 ^ ((digits + 2 : ℤ) - 1)) (10 ^ (digits + 2 : ℤ)) := by
  have first : (10 : ℚ) ^ ((digits + 2 : ℤ) - 1) = 10 * (10 ^ digits : ℕ) := by
    rw [show (digits + 2 : ℤ) - 1 = digits + 1 by ring, zpow_add_one₀ (by norm_num), zpow_natCast]
    push_cast
    ring
  have second : (10 : ℚ) ^ (digits + 2 : ℤ) = 100 * (10 ^ digits : ℕ) := by
    rw [zpow_add₀ (by norm_num), zpow_natCast]
    push_cast
    ring
  rw [first, second]
  exact ⟨low, high⟩

/-- The guard digit lets an endpoint hold one digit more than its precision. -/
theorem exists_isOverlong (precision : ℕ) : ∃ v, IsOverlong (max precision 1) v := by
  generalize settled : max precision 1 = digits
  have positive : 1 ≤ digits := by omega
  have some_digits : 10 ≤ 10 ^ digits := Nat.le_self_pow (by omega) 10
  have last : 10 ∣ 10 ^ digits := dvd_pow_self 10 (by omega)
  -- The leading digits of `2 * 10 ^ (digits + 1)` and `(10 ^ digits - 1) * 10` cancel.
  obtain ⟨a, aMade, aPrecision, aValue⟩ := IsHeld.of_mem_short positive
    (mul_zpow_mem_short positive (n := 2) (by simp; omega) (digits + 1))
  obtain ⟨b, bMade, bPrecision, bValue⟩ := IsHeld.of_mem_short positive
    (mul_zpow_mem_short positive (n := 1 - (10 ^ digits : ℕ)) (by omega) 1)
  obtain ⟨aSign, aExponent⟩ := parts_of_toRat_eq (by decide) aValue
  obtain ⟨bSign, bExponent⟩ := parts_of_toRat_eq (by omega) bValue
  have negative : (1 - (10 ^ digits : ℕ) : ℤ) < 0 := by omega
  have kept : keptDigits digits a.value b.value = digits + 1 := by
    apply keptDigits_of_unlike
    · omega
    · rw [aSign, bSign, Int.sign_eq_neg_one_of_neg negative]
      decide
  have large : a.value.toRat = 20 * (10 ^ digits : ℕ) := by
    rw [aValue, zpow_add_one₀ (by norm_num), zpow_natCast]
    push_cast
    ring
  have small : b.value.toRat = 10 - 10 * (10 ^ digits : ℕ) := by
    rw [bValue]
    push_cast
    ring
  have many : (10 : ℚ) ≤ (10 ^ digits : ℕ) := by exact_mod_cast some_digits
  have rounded := toRat_add_of_lead .nearest settled aPrecision.le bPrecision.le (by omega)
    (by linarith) (digits + 2) (mem_leading (by linarith) (by linarith))
    (mem_leading (by linarith) (by linarith))
  have exact : a.value.toRat + b.value.toRat = ((10 ^ digits : ℕ) + 1 : ℤ) * 10 ^ (1 : ℤ) := by
    rw [large, small]
    push_cast
    ring
  have position : max ((digits + 2 : ℤ) - (digits + 1 : ℕ)) 1 = 1 := by omega
  rw [kept, bExponent, position, exact, Direction.onGrid_intCast_mul] at rounded
  exact ⟨Operation.sum.run .nearest precision a b, .run _ _ _ aMade bMade trivial,
    (Operation.precision_run _ _ _ _).trans settled, rounded⟩

namespace IsOverlong

variable {v : DecimalFloat}

theorem toRat (long : IsOverlong digits v) : v.value.toRat = 10 * (10 ^ digits : ℕ) + 10 := by
  rw [long.value]
  push_cast
  ring

theorem sign_eq_one (long : IsOverlong digits v) : v.value.significand.sign = 1 := by
  rw [Int.sign_eq_one_iff_pos, ← toRat_pos_iff, long.toRat]
  positivity

theorem exponent_eq (long : IsOverlong digits v) (positive : 1 ≤ digits) :
    v.value.exponent = 1 := by
  have last : 10 ∣ 10 ^ digits := dvd_pow_self 10 (by omega)
  exact (parts_of_toRat_eq (by omega) long.value).2

/-- Where a unit is added below the last place of an overlong number, the sum is rounded at the
place that its kept digits end at. -/
theorem toRat_add_unit {precision : ℕ} (long : IsOverlong (max precision 1) v)
    {unit : DecimalFloat} (exact : unit.precision = 0) (place : unit.value.exponent = 0)
    (size : |unit.value.toRat| = 1) :
    (DecimalFloat.add .nearest precision v unit).value.toRat =
      Direction.nearest.onGrid
        (max ((max precision 1 : ℕ) + 2 - keptDigits (max precision 1) v.value unit.value : ℤ) 0)
        (v.value.toRat + unit.value.toRat) := by
  generalize settled : max precision 1 = digits at long ⊢
  have many : (10 : ℚ) ≤ (10 ^ digits : ℕ) := by
    exact_mod_cast Nat.le_self_pow (by omega) 10
  have exponent := long.exponent_eq (by omega)
  have large := long.toRat
  obtain ⟨low, high⟩ := abs_le.mp size.le
  have nonzero : unit.value.toRat ≠ 0 := by
    intro zero
    simp [zero] at size
  rw [toRat_add_of_lead .nearest settled long.precision.le (by omega)
    (by rw [exponent, place]; decide) nonzero (digits + 2)
    (mem_leading (by linarith) (by linarith)) (mem_leading (by linarith) (by linarith)), place]

variable {precision : ℕ} (long : IsOverlong (max precision 1) v)
include long

/-- With one taken away there still is a guard digit, and the sum stays above a power of ten. -/
theorem lt_add_neg_one : 10 * ((10 ^ max precision 1 : ℕ) : ℚ) <
    (DecimalFloat.add .nearest precision v (DecimalFloat.neg .one)).value.toRat := by
  have minus : (DecimalFloat.neg .one).value.toRat = -1 := by
    simp [DecimalFloat.neg, DecimalFloat.one]
  have kept : keptDigits (max precision 1) v.value (DecimalFloat.neg .one).value =
      max precision 1 + 1 := by
    apply keptDigits_of_unlike
    · rw [long.exponent_eq (le_max_right _ _)]
      decide
    · rw [long.sign_eq_one]
      decide
  have position : max ((max precision 1 : ℕ) + 2 - (max precision 1 + 1 : ℕ) : ℤ) 0 = 1 := by
    omega
  rw [long.toRat_add_unit rfl rfl (by simp [minus]), kept, position]
  have near := Direction.abs_onGrid_nearest_sub_le 1
    (v.value.toRat + (DecimalFloat.neg .one).value.toRat)
  rw [long.toRat, minus] at near ⊢
  obtain ⟨below, -⟩ := abs_le.mp near
  linarith

/-- With one added there is none, and the sum goes back to the power of ten. -/
theorem add_one_le : (DecimalFloat.add .nearest precision v .one).value.toRat ≤
    10 * ((10 ^ max precision 1 : ℕ) : ℚ) := by
  have kept : keptDigits (max precision 1) v.value (DecimalFloat.one).value = max precision 1 := by
    apply keptDigits_of_like
    rw [long.sign_eq_one]
    decide
  have position : max ((max precision 1 : ℕ) + 2 - (max precision 1 : ℕ) : ℤ) 0 = 2 := by omega
  have plus : (DecimalFloat.one).value.toRat = 1 := by simp [DecimalFloat.one]
  have near := Direction.abs_onGrid_nearest_sub_le 2
    (v.value.toRat + (DecimalFloat.one).value.toRat)
  rw [long.toRat_add_unit rfl rfl (by simp [plus]), kept, position]
  rw [long.toRat, plus] at near ⊢
  obtain ⟨-, above⟩ := abs_le.mp near
  -- The power of ten is on the grid of hundreds, and the next point of the grid is too far.
  obtain ⟨m, hundreds⟩ : (10 : ℕ) ∣ 10 ^ max precision 1 := dvd_pow_self 10 (by omega)
  rw [hundreds, Direction.onGrid] at above ⊢
  push_cast at above ⊢
  generalize Direction.nearest.integer _ = k at above ⊢
  have below : (k : ℚ) < m + 1 := by
    norm_num at above
    linarith
  have below : (k : ℚ) ≤ m := by
    exact_mod_cast Int.lt_add_one_iff.mp (by exact_mod_cast below : k < (m : ℤ) + 1)
  linarith

end IsOverlong

end DecimalFloat

namespace Interval

open DecimalFloat

theorem make?_neg_one_one : make? (DecimalFloat.neg .one) .one =
    .ok (⟨DecimalFloat.neg .one, .one⟩ : Interval DecimalFloat) :=
  make?_eq_ok_iff.mpr
    ⟨(notAbove_iff _ _).mpr (by simp [DecimalFloat.neg, DecimalFloat.one]), rfl⟩

/-- In single mode a sum of two intervals in order comes out reversed at every precision. -/
theorem exists_built_reversed {sums : Set Context} {context : Context} (known : context ∈ sums)
    (single : context.mode = .single) :
    ∃ x : Interval DecimalFloat, Built {u | u.Made} sums x ∧ ¬ x.Ordered := by
  obtain ⟨v, long⟩ := exists_isOverlong context.precision
  refine ⟨(point v).add context ⟨DecimalFloat.neg .one, .one⟩,
    .add known (.point long.made) (.make (.neg .one) .one make?_neg_one_one), ?_⟩
  rw [ordered_iff, not_le]
  simp only [Interval.add, point, Context.lower, Context.upper, single, RoundingMode.lower,
    RoundingMode.upper]
  exact long.add_one_le.trans_lt long.lt_add_neg_one

/-- Intervals of binary numbers are in order however they are built, unless an end is not a
number. Intervals of decimal numbers are in order however they are built just where all sums
are formed in dual mode. -/
theorem built_ordered (sums : Set Context) :
    (∀ (ends : Set Double) (x : Interval Double), Built ends sums x → x.Ordered) ∧
    ((∀ x : Interval DecimalFloat, Built {u | u.Made} sums x → x.Ordered) ↔
      ∀ context ∈ sums, context.mode = .dual) := by
  refine ⟨?_, ?_, ?_⟩
  · intro ends x built
    exact built.ordered fun context _ => Double.keepsSums context
  · intro ordered context known
    by_contra other
    have single : context.mode = .single := by
      cases mode : context.mode with
      | single => rfl
      | dual => exact absurd mode other
    obtain ⟨x, built, reversed⟩ := exists_built_reversed known single
    exact reversed (ordered x built)
  · intro dual x built
    exact built.ordered fun context known => DecimalFloat.keepsSums (dual context known)

/-- A sum of binary intervals in single mode, and one of decimal intervals in dual mode. -/
theorem built_ordered_sums :
    ((point Binary.one : Interval Double).add ⟨1, 1, .single⟩ Interval.one).Ordered ∧
    ((ofIntegers 1 2).add ⟨1, 1, .dual⟩ (ofIntegers (-1) 1)).Ordered := by
  constructor
  · exact (built_ordered {⟨1, 1, .single⟩}).1 Set.univ _
      (.add rfl (.point trivial) (.point trivial))
  · apply (built_ordered {⟨1, 1, .dual⟩}).2.mpr (by simp)
    exact .add rfl
      (.make (.digit (by decide)) (.digit (by decide))
        (make?_eq_ok_iff.mpr ⟨ofIntegers_ordered.mpr (by decide), rfl⟩))
      (.make (.digit (by decide)) (.digit (by decide))
        (make?_eq_ok_iff.mpr ⟨ofIntegers_ordered.mpr (by decide), rfl⟩))

/-- At one digit `200 - 60` is `140` and holds a guard digit. Then `139` goes to `140`, but `141`
goes to `100`. -/
theorem add_reversed_at_one_digit :
    let context : Context := ⟨1, 1, .single⟩
    let x := (point (ofDecimal (.of 200 0))).sub context (point (ofDecimal (.of 60 0)))
    let sum := x.add context (ofIntegers (-1) 1)
    Built {u | u.Made} {context} sum ∧ sum.lo.value = .of 140 0 ∧ sum.hi.value = .of 100 0 ∧
      ¬ sum.Ordered := by
  intro context x sum
  have larger : (ofDecimal (.of 200 0)).Made :=
    .read (by decide +kernel : readDirected .nearest 1 "200".toList = .ok _)
  have smaller : (ofDecimal (.of 60 0)).Made :=
    .read (by decide +kernel : readDirected .nearest 1 "60".toList = .ok _)
  have unit : make? (ofDecimal (.of (-1) 0)) (ofDecimal (.of 1 0)) = .ok (ofIntegers (-1) 1) :=
    make?_eq_ok_iff.mpr ⟨ofIntegers_ordered.mpr (by decide), rfl⟩
  have built : Built {u | u.Made} {context} sum :=
    .add rfl (.sub rfl (.point larger) (.point smaller))
      (.make (.digit (by decide)) (.digit (by decide)) unit)
  have low : sum.lo.value = .of 140 0 := by decide +kernel
  have high : sum.hi.value = .of 100 0 := by decide +kernel
  refine ⟨built, low, high, ?_⟩
  rw [ordered_iff, low, high]
  norm_num

end Interval

end LinearEnclosure
