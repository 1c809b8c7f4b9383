/-
# Printed decimals are read back

A number in scientific notation is read back as what was printed, if its exponents fit into
the words of the reader. An endpoint is then rounded to the precision of the context. Two
roundings in the same direction, one by the printer and one by the reader, are one rounding
to the smaller number of digits: short numbers with few digits are also short with more, so
neither of the two steps goes past the tightest number that both can hold.
-/

import LinearEnclosure.Proofs.Decimal.Capacity
import LinearEnclosure.Proofs.Decimal.Parts

namespace LinearEnclosure

namespace Direction

/-- The tightest number with so few digits on the promised side of the exact one. -/
structure IsRounded (direction : Direction) (digits : ℕ) (exact rounded : ℚ) : Prop where
  mem_short : rounded ∈ Decimal.short digits
  bounds : direction.Bounds exact rounded
  tight : direction.Tight digits exact rounded

variable {direction : Direction} {digits : ℕ} {exact rounded : ℚ}

/-- A second rounding to fewer digits makes the first one forgotten. -/
theorem IsRounded.trans {fewer : ℕ} {middle : ℚ} (first : direction.IsRounded digits exact middle)
    (second : direction.IsRounded fewer middle rounded) (le : fewer ≤ digits) :
    direction.IsRounded fewer exact rounded where
  mem_short := second.mem_short
  bounds := first.bounds.trans second.bounds
  tight := (first.tight.mono le).trans second.tight

theorem IsRounded.isGreatest (down : Direction.down.IsRounded digits exact rounded) :
    IsGreatest {s ∈ Decimal.short digits | s ≤ exact} rounded :=
  ⟨⟨down.mem_short, down.bounds⟩, fun s below => down.tight s below.1 below.2⟩

theorem IsRounded.isLeast (up : Direction.up.IsRounded digits exact rounded) :
    IsLeast {s ∈ Decimal.short digits | exact ≤ s} rounded :=
  ⟨⟨up.mem_short, up.bounds⟩, fun s above => up.tight s above.1 above.2⟩

/-- A directed rounding does not leave a range that ends in short numbers. -/
theorem IsRounded.within {limit : ℚ} (result : direction.IsRounded digits exact rounded)
    (directed : direction ≠ .nearest) (few : limit ∈ Decimal.short digits)
    (inside : |exact| ≤ limit) : |rounded| ≤ limit := by
  obtain ⟨low, high⟩ := abs_le.mp inside
  have opposite := Decimal.neg_mem_short few
  rw [abs_le]
  cases direction with
  | down => exact ⟨result.tight _ opposite low, le_trans result.bounds high⟩
  | nearest => exact absurd rfl directed
  | up => exact ⟨le_trans low result.bounds, result.tight _ few high⟩

end Direction

namespace Decimal

variable {x : Decimal} {direction : Direction} {digits places : ℕ}

/-- Nothing is rounded away from a number that is short enough. -/
theorem roundTo_of_size_le (fits : x.size ≤ digits) : x.roundTo direction digits = x := by
  apply if_pos
  rw [top]
  omega

theorem roundTo_isRounded (direction : Direction) (positive : 1 ≤ digits) (x : Decimal) :
    direction.IsRounded digits x.toRat (x.roundTo direction digits).toRat where
  mem_short := DecimalFloat.roundTo_mem_short positive x
  bounds := by
    rw [toRat_roundTo]
    exact direction.bounds_onGrid _ _
  tight := roundTo_tight positive x

/-- The exponents that a reader of endpoints meets fit into a signed word of 64 bits. -/
def InRange (x : Decimal) : Prop :=
  x.significand ≠ 0 → -2 ^ 63 < x.exponent ∧ x.top < 2 ^ 63

instance (x : Decimal) : Decidable x.InRange :=
  inferInstanceAs (Decidable (_ → _))

/-- A number of some digits lies above its last and below its leading position. -/
theorem exponent_lt_top (nonzero : x.significand ≠ 0) : x.exponent < x.top := by
  have some_digit : 0 < x.size := digitCount_pos (Int.natAbs_pos.mpr nonzero)
  rw [top]
  omega

theorem eq_zero_of_significand (zero : x.significand = 0) : x = Decimal.zero :=
  isZero_iff_eq.mp (beq_iff_eq.mpr zero)

/-- The position behind the last digit fits as well. -/
theorem InRange.fits (inRange : x.InRange) : Literal.fits (x.exponent - 1) = true := by
  rw [fits_iff]
  by_cases zero : x.significand = 0
  · rw [eq_zero_of_significand zero]
    decide
  · obtain ⟨low, high⟩ := inRange zero
    have order := exponent_lt_top zero
    omega

/-- Normal form does not lower the last position, except that zero has none. -/
theorem min_le_exponent_of (significand exponent : ℤ) :
    min exponent 0 ≤ (of significand exponent).exponent := by
  unfold of
  split
  · exact min_le_right ..
  · exact (min_le_left ..).trans (by simp)

/-- Rounding does not lower the last position either. -/
theorem min_le_exponent_roundTo (direction : Direction) (digits : ℕ) (x : Decimal) :
    min x.exponent 0 ≤ (x.roundTo direction digits).exponent := by
  unfold roundTo roundAt
  split
  · exact min_le_left ..
  · next finer =>
    exact (min_le_min (not_le.mp finer).le le_rfl).trans (min_le_exponent_of _ _)

/-- And it raises the leading position by one at most, to a power of ten. -/
theorem top_roundTo_le (nonzero : (x.roundTo direction digits).significand ≠ 0) :
    (x.roundTo direction digits).top ≤ x.top + 1 := by
  have power : (0 : ℚ) < 10 ^ (x.top - digits) := by positivity
  have digit : (10 : ℚ) ^ x.top = (10 ^ digits : ℕ) * 10 ^ (x.top - digits) := by
    push_cast
    rw [← zpow_natCast, ← zpow_add₀ (by norm_num), add_sub_cancel]
  have few : |x.toRat / 10 ^ (x.top - digits)| ≤ (10 ^ digits : ℕ) := by
    rw [abs_div, abs_of_pos power, div_le_iff₀ power, ← digit]
    exact (abs_toRat_lt x).le
  have rounded : |(x.roundTo direction digits).toRat| ≤ 10 ^ x.top := by
    rw [toRat_roundTo, Direction.onGrid, abs_mul, abs_of_pos power, digit, ← Int.cast_abs,
      Int.abs_eq_natAbs]
    have := direction.natAbs_integer_le few
    gcongr
    exact_mod_cast this
  have powers := (zpow_top_le_abs_toRat nonzero).trans rounded
  rw [zpow_le_zpow_iff_right₀ (by norm_num)] at powers
  omega

/-- A number with a margin in its positions is in range when it is rounded. -/
theorem inRange_roundTo (low : -2 ^ 63 < x.exponent) (high : x.top + 1 < 2 ^ 63) :
    (x.roundTo direction digits).InRange := by
  intro nonzero
  have last := min_le_exponent_roundTo direction digits x
  have leading := top_roundTo_le nonzero
  omega

theorem inRange_mantissa (zeros : ℕ) (inRange : x.InRange) : (x.mantissa zeros).inRange = true := by
  have exponent : (x.mantissa zeros).exponent = x.top - 1 := rfl
  by_cases zero : x.significand = 0
  · obtain rfl := eq_zero_of_significand zero
    have nothing : (Decimal.zero.mantissa zeros).coefficient = 0 := by simp [coefficient_mantissa]
    rw [Literal.inRange, nothing, exponent]
    rfl
  · obtain ⟨low, high⟩ := inRange zero
    have order := exponent_lt_top zero
    rw [Literal.inRange, exponent, length_whole_mantissa, value_mantissa]
    simp only [Bool.and_eq_true, Bool.or_eq_true, fits_iff]
    omega

/-- What is printed is in range if the rounded number is. -/
theorem inRange_printed (inRange : (x.roundTo direction (places + 1)).InRange) :
    (x.printed direction places).inRange = true := by
  by_cases zero : x.isZero = true
  · have nothing : Literal.coefficient ⟨false, ['0'], List.replicate places '0', 0⟩ = 0 := by
      rw [Literal.coefficient, Nat.ofDigitChars_append, Nat.ofDigitChars_replicate_zero]
      rfl
    rw [printed, if_pos zero, Literal.inRange, nothing]
    rfl
  · rw [printed, if_neg zero]
    exact inRange_mantissa _ inRange

/-- A number that is spelled out and in range is read. -/
theorem read_of_spells {text : List Char} {literal : Literal} (spelled : literal.Spells text)
    (inRange : literal.inRange = true) : Decimal.read text = some literal.value :=
  (read_eq_some_iff spelled).mpr ⟨inRange, rfl⟩

/-- Printed numbers are read as what was printed. -/
theorem read_scientific (positive : places ≠ 0)
    (inRange : (x.roundTo direction (places + 1)).InRange) :
    Decimal.read (x.scientific direction places) = some (x.roundTo direction (places + 1)) := by
  rw [read_of_spells (x.printed_spells direction positive) (inRange_printed inRange), value_printed]

end Decimal

namespace DecimalFloat

open Decimal

variable {direction : Direction} {precision places : ℕ}

/-- A number that the precision can hold is kept. -/
theorem round_of_size_le {x : Decimal} (positive : 1 ≤ precision) (fits : x.size ≤ precision) :
    round direction precision x = ⟨x, precision⟩ := by
  have whole : ¬max precision 1 < max x.size 1 := by omega
  rw [round, withPrecision, ofDecimal, if_neg whole, max_eq_left positive]

theorem round_value_eq_self {x : DecimalFloat} (positive : 1 ≤ precision)
    (made : x.precision = precision) (fits : x.value.size ≤ precision) :
    round direction precision x.value = x := by
  rw [round_of_size_le positive fits, ← made]

/-- A longer one is rounded to it. -/
theorem round_of_lt_size {x : Decimal} (positive : 1 ≤ precision) (long : precision < x.size) :
    round direction precision x = ⟨x.roundTo direction precision, precision⟩ := by
  have cut : precision < max x.size 1 := lt_max_of_lt_left long
  rw [round, withPrecision, ofDecimal, max_eq_left positive, if_pos cut]

/-- The printer and the reader round once between them. -/
theorem round_roundTo_isRounded (positive : 1 ≤ precision) (x : Decimal) :
    direction.IsRounded (min precision (places + 1)) x.toRat
      (round direction precision (x.roundTo direction (places + 1))).value.toRat := by
  have printed := x.roundTo_isRounded direction (Nat.le_add_left 1 places)
  generalize x.roundTo direction (places + 1) = shown at *
  have few : shown.size ≤ places + 1 := mem_short_iff.mp printed.mem_short
  rcases le_or_gt shown.size precision with fits | long
  · rw [round_of_size_le positive fits]
    exact ⟨mem_short_iff.mpr (le_min fits few), printed.bounds,
      printed.tight.mono (min_le_right ..)⟩
  · have shorter : precision ≤ places + 1 := long.le.trans few
    rw [round_of_lt_size positive long, min_eq_left shorter]
    exact printed.trans (shown.roundTo_isRounded direction positive) shorter

theorem readDirected_scientific {x : Decimal} (positive : places ≠ 0)
    (inRange : (x.roundTo direction (places + 1)).InRange) :
    readDirected direction precision (x.scientific direction places) =
      .ok (round direction precision (x.roundTo direction (places + 1))) :=
  readDirected_eq_ok_iff.mpr ⟨_, read_scientific positive inRange, inRange.fits, rfl⟩

end DecimalFloat

end LinearEnclosure
