/-
# Decimals and doubles in normal form

A number that is not zero has one normal form: a sign, digits that neither begin nor end with a
zero, and the exponent of the first of them. Whatever text is accepted, its parts are the normal
form of the number that it writes. So two texts write the same number if and only if their parts
are the same, and a text writes a 64-bit number exactly if and only if it has the parts of that
number. Zero is the exception, since it keeps the sign that is written.

The exact decimal of a 64-bit number is found among the digits that scientific notation shows: it
has no more than 781, one before the point and 780 behind it.
-/

import LinearEnclosure.Proofs.Binary.Order
import LinearEnclosure.Proofs.Binary.Reading

namespace LinearEnclosure

/-! ## Normal forms of numbers -/

namespace Decimal.Parts

variable {parts others : Parts} {q r : ℚ}

/-- The normal form of a number. A zero may have either sign. -/
def IsNormal (q : ℚ) (parts : Parts) : Prop :=
  q = 0 ∧ parts = ⟨parts.negative, ['0'], 0⟩ ∨
    Significant parts.digits ∧ (parts.negative = true ↔ q < 0) ∧ q = parts.number

theorem number_ne_zero (significant : Significant parts.digits) : parts.number ≠ 0 := by
  have digits := significant.ofDigitChars_pos
  rw [number]
  refine mul_ne_zero (mul_ne_zero ?_ (by positivity)) (by positivity)
  split <;> norm_num

theorem IsNormal.of_ne_zero (normal : parts.IsNormal q) (nonzero : q ≠ 0) :
    Significant parts.digits ∧ parts.value.toRat = q := by
  rcases normal with ⟨zero, -⟩ | ⟨significant, -, number⟩
  · exact absurd zero nonzero
  · exact ⟨significant, by rw [toRat_value, number]⟩

/-- Different normal forms stand for different numbers. -/
theorem IsNormal.eq_iff (first : parts.IsNormal q) (second : others.IsNormal r) (nonzero : q ≠ 0)
    (nonzero' : r ≠ 0) : q = r ↔ parts = others := by
  obtain ⟨significant, value⟩ := first.of_ne_zero nonzero
  obtain ⟨significant', value'⟩ := second.of_ne_zero nonzero'
  rw [← value, ← value', toRat_injective.eq_iff]
  constructor
  · intro same
    rw [← parts_value significant, same, parts_value significant']
  · exact congrArg Parts.value

/-- Zero has one normal form for each sign, and every other number has a single one. -/
theorem IsNormal.unique (first : parts.IsNormal q) (second : others.IsNormal q)
    (signs : parts.negative = others.negative) : parts = others := by
  by_cases zero : q = 0
  · have form {some : Parts} (normal : some.IsNormal q) : some = ⟨some.negative, ['0'], 0⟩ := by
      rcases normal with ⟨-, form⟩ | ⟨significant, -, number⟩
      · exact form
      · exact absurd (number.symm.trans zero) (number_ne_zero significant)
    calc parts = ⟨parts.negative, ['0'], 0⟩ := form first
      _ = ⟨others.negative, ['0'], 0⟩ := by rw [signs]
      _ = others := (form second).symm
  · exact (first.eq_iff second zero zero).mp rfl

end Decimal.Parts

/-- The parts of a literal are the normal form of its number. -/
theorem Literal.parts_isNormal {literal : Literal}
    (all : AllDigits (literal.whole ++ literal.fraction)) :
    literal.parts.IsNormal literal.number := by
  have value : literal.parts.number = literal.number := by
    rw [← Decimal.Parts.toRat_value, value_parts, toRat_value]
  by_cases zero : literal.coefficient = 0
  · have number : literal.number = 0 := by simp [Literal.number, zero]
    exact .inl ⟨number, by rw [parts, if_pos zero]; rfl⟩
  · have same : literal.parts = literal.significant := by
      rw [parts, if_neg zero, parts_of_ne_zero all zero]
    have nonzero : literal.number ≠ 0 := by
      rw [← toRat_value, Ne, Decimal.toRat_eq_zero_iff]
      exact significand_ne_zero zero
    refine .inr ⟨?_, ?_, value.symm⟩
    · rw [same]
      exact significant_significantDigits all ((coefficient_eq_zero_iff all).not.mp zero)
    · rw [negative_parts all, negative_iff nonzero]

theorem Decimal.Parts.isNormal_of_read {text : List Char} {parts : Parts} {q : ℚ}
    (accepted : read text = some parts) (writes : WritesNumber (Text.trim text) q) :
    parts.IsNormal q := by
  obtain ⟨literal, spelled, -, rfl⟩ := read_eq_some_iff_exists.mp accepted
  rw [writes.unique ⟨literal, spelled, rfl⟩]
  exact literal.parts_isNormal spelled.allDigits

/-! ## Texts that write a 64-bit number -/

theorem Text.length_trim_le (text : List Char) : (Text.trim text).length ≤ text.length := by
  have shorter (chars : List Char) : (chars.dropWhile Text.isBlank).length ≤ chars.length :=
    (List.dropWhile_sublist _).length_le
  rw [Text.trim, Text.trimEnd, List.length_reverse]
  refine (shorter _).trans ?_
  rw [List.length_reverse]
  exact shorter text

namespace Double

open Binary

variable {x : Double} {c : ℤ} {text : List Char}

/-- The significand of a 64-bit number has 53 bits. In its decimal it is multiplied by two to a
power up to 971 or by five to a power up to 1074. -/
theorem size_decimal_le (finite : x.units? = some c) : x.decimal.size ≤ 781 := by
  obtain ⟨negative, rank, inside, rfl, -⟩ := exists_finite finite
  have few {n : ℕ} (bound : n ≤ 2 ^ 53 * 5 ^ 1074) (exponent : ℤ) :
      (Decimal.of n exponent).size ≤ 781 := by
    apply Decimal.size_of_le
    rw [Int.natAbs_natCast]
    exact bound.trans_lt (by decide +kernel)
  have significand : Format.double.significand rank ≤ 2 ^ 53 :=
    (Format.double.significand_lt rank).le
  have shift : Format.double.shift rank ≤ 2045 := by
    have blocks : rank / 2 ^ 52 < 2047 := Nat.div_lt_of_lt_mul inside
    exact Nat.sub_le_sub_right (Nat.le_of_lt_succ blocks) 1
  have magnitude : (Format.double.decimal rank).size ≤ 781 := by
    have unit : Format.double.unitBits = 1074 := rfl
    have five {power most : ℕ} (bound : power ≤ most) : 5 ^ power ≤ 5 ^ most :=
      Nat.pow_le_pow_right (by decide) bound
    rw [Format.decimal, Format.halfUnits]
    split
    · refine few (Nat.mul_le_mul significand ?_) _
      exact (Nat.pow_le_pow_left (by decide) _).trans (five (by omega))
    · exact few (Nat.mul_le_mul significand (five (by omega))) _
  cases negative with
  | false => exact magnitude
  | true => exact (DecimalFloat.size_neg _).trans_le magnitude

/-- The leading position of a 64-bit number is small. -/
theorem abs_top_decimal_le (finite : x.units? = some c) (nonzero : x.isZero = false) :
    |x.decimal.top| ≤ 2 ^ 62 := by
  have filled := Decimal.isZero_eq_false_iff.mp ((isZero_decimal finite).trans nonzero)
  have last : -1075 ≤ x.decimal.exponent := unitBits_le_exponent finite
  have leading : x.decimal.top ≤ 2099 := top_decimal_le finite
  have order := Decimal.exponent_lt_top filled
  rw [abs_le]
  omega

/-- A text agrees with the parts of a 64-bit number if it writes the number and is accepted. -/
theorem isWrittenIn_iff (finite : x.units? = some c) (nonzero : x.isZero = false)
    (readable : (Decimal.Parts.read text).isSome ∨ text.length < 2 ^ 62) :
    x.decimal.parts.isWrittenIn text = true ↔ WritesNumber (Text.trim text) x.decimal.toRat := by
  have filled := (isZero_decimal finite).trans nonzero
  rw [Decimal.isWrittenIn_parts_iff filled, Decimal.read, Option.map_eq_some_iff]
  constructor
  · rintro ⟨parts, read, value⟩
    obtain ⟨literal, spelled, -, rfl⟩ := Decimal.Parts.read_eq_some_iff_exists.mp read
    exact ⟨literal, spelled, by rw [← literal.toRat_value, ← literal.value_parts, value]⟩
  · rintro ⟨literal, spelled, number⟩
    have value : literal.value = x.decimal := by
      rw [← Decimal.toRat_injective.eq_iff, literal.toRat_value, number]
    have inRange : literal.inRange = true := by
      rcases readable with accepted | short
      · obtain ⟨parts, read⟩ := Option.isSome_iff_exists.mp accepted
        obtain ⟨other, again, inRange, -⟩ := Decimal.Parts.read_eq_some_iff_exists.mp read
        rwa [spelled.unique again]
      · refine Literal.inRange_of_top spelled ?_ ((Text.length_trim_le text).trans_lt short) ?_
        · rw [Ne, ← literal.isZero_value, value, filled]
          decide
        · rw [value]
          exact abs_top_decimal_le finite nonzero
    have read := Decimal.Parts.read_eq_some_iff_exists.mpr ⟨literal, spelled, inRange, rfl⟩
    exact ⟨literal.parts, read, literal.value_parts.trans value⟩

end Double

/-- The texts that have parts are those that spell a literal in range, and their parts are the
normal form of its number. Two of them write the same nonzero number if and only if their parts
are the same. The parts of a 64-bit number agree with those of a text if and only if the text
writes exactly that number; the text is one that has parts, or any other of a length that a
machine can hold. -/
theorem Decimal.Parts.read_normalForm :
    (∀ text parts, read text = some parts ↔
      ∃ literal : Literal, literal.Spells (Text.trim text) ∧ literal.inRange = true ∧
        parts.negative = literal.negative ∧ parts.IsNormal literal.number) ∧
    (∀ text other parts others q r, read text = some parts → read other = some others →
      WritesNumber (Text.trim text) q → WritesNumber (Text.trim other) r → q ≠ 0 → r ≠ 0 →
        (q = r ↔ parts = others)) ∧
    ∀ x : Double, x.isFinite = true → x.isZero = false →
      ∃ exact, x.parts? = some exact ∧ exact.digits.length ≤ 781 ∧
        ∀ text, (read text).isSome ∨ text.length < 2 ^ 62 →
          (exact.isWrittenIn text = true ↔
            ∃ q, WritesNumber (Text.trim text) q ∧ x.value? = some ((q : ℝ) : EReal)) := by
  refine ⟨?_, ?_, ?_⟩
  · intro text parts
    rw [read_eq_some_iff_exists]
    refine exists_congr fun literal => and_congr_right fun spelled => and_congr_right fun _ => ?_
    have sign := literal.negative_parts spelled.allDigits
    have own := literal.parts_isNormal spelled.allDigits
    constructor
    · rintro rfl
      exact ⟨sign, own⟩
    · rintro ⟨negative, normal⟩
      exact own.unique normal (sign.trans negative.symm)
  · intro text other parts others q r accepted accepted' writes writes' nonzero nonzero'
    have first := isNormal_of_read accepted writes
    have second := isNormal_of_read accepted' writes'
    exact first.eq_iff second nonzero nonzero'
  · intro x finite nonzero
    obtain ⟨c, units⟩ := Binary.isFinite_iff.mp finite
    refine ⟨x.decimal.parts, Binary.parts?_eq_some units nonzero, ?_, ?_⟩
    · have filled := isZero_eq_false_iff.mp ((Binary.isZero_decimal units).trans nonzero)
      exact (length_digits_parts filled).trans_le (Double.size_decimal_le units)
    · intro text readable
      rw [Double.isWrittenIn_iff units nonzero readable, Binary.value?_eq_decimal units]
      constructor
      · intro writes
        exact ⟨_, writes, rfl⟩
      · rintro ⟨q, writes, same⟩
        rw [Option.some.injEq, EReal.coe_eq_coe_iff, Rat.cast_inj] at same
        rwa [same]

/-- A number written in two ways, with zeros in front of its digits, behind them and in the
exponent. Both texts have the parts of the 64-bit number that they write. -/
theorem Decimal.Parts.read_normalForm_shifted :
    let plain := "-12.50e3".toList
    let shifted := " -00.00125000E+07 ".toList
    let parts : Parts := ⟨true, ['1', '2', '5'], 4⟩
    let x : Double := (Binary.ofNat 12500).neg
    read plain = some parts ∧ read shifted = some parts ∧
      x.isFinite = true ∧ x.isZero = false ∧ x.parts? = some parts ∧
      ∃ q : ℚ, q < 0 ∧ WritesNumber (Text.trim plain) q ∧ WritesNumber (Text.trim shifted) q ∧
        x.value? = some ((q : ℝ) : EReal) := by
  intro plain shifted parts x
  have first : read plain = some parts := by decide +kernel
  have second : read shifted = some parts := by decide +kernel
  have finite : x.isFinite = true := by decide +kernel
  have nonzero : x.isZero = false := by decide +kernel
  have own : x.parts? = some parts := by decide +kernel
  obtain ⟨normal, unique, double⟩ := read_normalForm
  -- These parts are not those of a zero, and they have a minus.
  have below {q : ℚ} (form : parts.IsNormal q) : q < 0 := by
    rcases form with ⟨-, zero⟩ | ⟨-, sign, -⟩
    · exact absurd zero (by decide)
    · exact sign.mp rfl
  obtain ⟨literal, spelled, -, -, form⟩ := (normal plain parts).mp first
  have writes : WritesNumber (Text.trim plain) literal.number := ⟨literal, spelled, rfl⟩
  obtain ⟨exact, same, -, agrees⟩ := double x finite nonzero
  obtain rfl : parts = exact := Option.some.inj (own.symm.trans same)
  have accepted : (read shifted).isSome := by rw [second]; rfl
  obtain ⟨q, writes', value⟩ := (agrees shifted (.inl accepted)).mp (by decide +kernel)
  have form' := isNormal_of_read second writes'
  obtain rfl : literal.number = q :=
    (unique plain shifted parts parts _ _ first second writes writes' (below form).ne
      (below form').ne).mpr rfl
  exact ⟨first, second, finite, nonzero, own, literal.number, below form, writes, writes', value⟩

end LinearEnclosure
