/-
# The parts of a decimal are a normal form

Digits that neither begin nor end with a zero are the digits of one number, and that number does
not end in zero. So the parts of a nonzero decimal determine its normal form and are determined
by it. The reader cuts the zeros off whatever digits a text has. It corrects the exponent by the
zeros at the front, and those at the end it need not count, as the exponent is that of the first
digit. What remains are the parts of the written number, and the reader refuses a literal only if
a position on the way to them does not fit into a signed word of 64 bits.
-/

import LinearEnclosure.Decimal.Parts
import LinearEnclosure.Proofs.Decimal.Scientific

namespace LinearEnclosure

/-! ## Zeros around digits -/

theorem leadingZeros_eq_replicate (digits : List Char) :
    leadingZeros digits = List.replicate (leadingZeros digits).length '0' :=
  List.eq_replicate_iff.mpr ⟨rfl, fun _ member =>
    beq_iff_eq.mp (List.mem_takeWhile_imp (p := (· == '0')) member :)⟩

/-- What is left when zeros are cut off the end. -/
private theorem exists_zeros_behind (digits : List Char) :
    ∃ behind, digits =
      (digits.reverse.dropWhile (· == '0')).reverse ++ List.replicate behind '0' := by
  refine ⟨(leadingZeros digits.reverse).length, ?_⟩
  rw [← List.reverse_replicate, ← leadingZeros_eq_replicate, ← List.reverse_append, leadingZeros,
    List.takeWhile_append_dropWhile, List.reverse_reverse]

/-- Some digits are zeros, then significant digits, then zeros again. -/
theorem exists_zeros_around (digits : List Char) :
    ∃ behind, digits = List.replicate (leadingZeros digits).length '0' ++
      (significantDigits digits ++ List.replicate behind '0') := by
  obtain ⟨behind, split⟩ := exists_zeros_behind (digits.dropWhile (· == '0'))
  refine ⟨behind, ?_⟩
  rw [← leadingZeros_eq_replicate, significantDigits, ← split, leadingZeros,
    List.takeWhile_append_dropWhile]

private theorem head?_dropWhile_zero (digits : List Char) :
    (digits.dropWhile (· == '0')).head? ≠ some '0' := by
  intro zero
  have stops := List.head?_dropWhile_not (· == '0') digits
  simp [zero] at stops

/-- Digits of which neither the first nor the last one is zero. -/
structure Significant (digits : List Char) : Prop where
  ne_nil : digits ≠ []
  allDigits : AllDigits digits
  head_ne : digits.head? ≠ some '0'
  last_ne : digits.getLast? ≠ some '0'

theorem significant_significantDigits {digits : List Char} (all : AllDigits digits)
    (some_left : significantDigits digits ≠ []) : Significant (significantDigits digits) where
  ne_nil := some_left
  allDigits := by
    obtain ⟨behind, split⟩ := exists_zeros_around digits
    intro c member
    exact all c (split ▸ List.mem_append_right _ (List.mem_append_left _ member))
  head_ne := by
    obtain ⟨behind, split⟩ := exists_zeros_behind (digits.dropWhile (· == '0'))
    change _ = significantDigits digits ++ _ at split
    have front := head?_dropWhile_zero digits
    rwa [split, List.head?_append_of_ne_nil _ some_left] at front
  last_ne := by
    rw [significantDigits, List.getLast?_reverse]
    exact head?_dropWhile_zero _

/-! ## Digits of a number -/

theorem digitChar_of_isDigit {c : Char} (digit : c.isDigit = true) :
    (c.toNat - '0'.toNat).digitChar = c := by
  obtain ⟨low, high⟩ := Bool.and_eq_true_iff.mp digit
  have low : 48 ≤ c.toNat := decide_eq_true_eq.mp low
  have high : c.toNat ≤ 57 := decide_eq_true_eq.mp high
  have zero : '0'.toNat = 48 := rfl
  apply Char.toNat_inj.mp
  rw [zero, Nat.toNat_digitChar_of_lt_ten (by omega)]
  omega

theorem digit_lt_ten {c : Char} (digit : c.isDigit = true) : c.toNat - '0'.toNat < 10 := by
  rw [← digitChar_of_isDigit digit, Nat.isDigit_digitChar] at digit
  exact of_decide_eq_true digit

/-- Further digits are written behind those of a number. -/
theorem toDigits_append {digits : List Char} (all : AllDigits digits) {n : ℕ} (positive : 0 < n) :
    Nat.toDigits 10 n ++ digits = Nat.toDigits 10 (Nat.ofDigitChars 10 digits n) := by
  induction digits generalizing n with
  | nil => rw [List.append_nil, Nat.ofDigitChars_nil]
  | cons c rest ih =>
    obtain ⟨digit, others⟩ := List.forall_mem_cons.mp all
    have here := Nat.toDigits_append_toDigits (by decide) positive (digit_lt_ten digit)
    rw [Nat.toDigits_of_lt_base (digit_lt_ten digit), digitChar_of_isDigit digit] at here
    rw [Nat.ofDigitChars_cons, ← ih others (by omega), ← here, List.append_assoc,
      List.singleton_append]

namespace Significant

variable {digits : List Char}

/-- Digits that do not begin with a zero are those of the number that they write. -/
theorem toDigits_ofDigitChars (significant : Significant digits) :
    Nat.toDigits 10 (Nat.ofDigitChars 10 digits 0) = digits := by
  obtain ⟨nonempty, all, head, -⟩ := significant
  cases digits with
  | nil => exact absurd rfl nonempty
  | cons c rest =>
    obtain ⟨digit, others⟩ := List.forall_mem_cons.mp all
    have written := digitChar_of_isDigit digit
    have positive : 0 < c.toNat - '0'.toNat := by
      refine Nat.pos_of_ne_zero fun zero => head ?_
      rw [zero] at written
      rw [List.head?_cons, ← written]
      rfl
    rw [Nat.ofDigitChars_cons, mul_zero, zero_add, ← toDigits_append others positive,
      Nat.toDigits_of_lt_base (digit_lt_ten digit), written, List.singleton_append]

theorem ofDigitChars_pos (significant : Significant digits) :
    0 < Nat.ofDigitChars 10 digits 0 := by
  refine Nat.pos_of_ne_zero fun zero => significant.head_ne ?_
  rw [← significant.toDigits_ofDigitChars, zero]
  rfl

/-- And the number does not end in zero if they do not. -/
theorem ofDigitChars_mod_ne (significant : Significant digits) :
    Nat.ofDigitChars 10 digits 0 % 10 ≠ 0 := by
  have own := significant.toDigits_ofDigitChars
  intro round
  apply significant.last_ne
  rw [← own, Nat.toDigits_eq_if (by decide)]
  split
  · next small => rw [Nat.mod_eq_of_lt small] at round; rw [round]; rfl
  · rw [List.getLast?_concat, round]; rfl

end Significant

/-! ## Parts and decimals -/

namespace Decimal

variable {x : Decimal}

theorem of_eq_mk {significand : ℤ} (normal : significand % 10 ≠ 0) (exponent : ℤ) :
    of significand exponent = ⟨significand, exponent, .inl normal⟩ :=
  toRat_injective (toRat_of ..)

theorem size_eq_length (nonzero : x.significand ≠ 0) :
    x.size = (Nat.toDigits 10 x.significand.natAbs).length :=
  if_neg (Int.natAbs_ne_zero.mpr nonzero)

theorem parts_eq (nonzero : x.significand ≠ 0) :
    x.parts =
      ⟨x.significand < 0, Nat.toDigits 10 x.significand.natAbs, x.top - 1⟩ :=
  if_neg (Bool.eq_false_iff.mp (isZero_eq_false_iff.mpr nonzero))

namespace Parts

/-- The number with some parts: the digits behind a point, with a sign and a power of ten. -/
def number (parts : Parts) : ℚ :=
  (if parts.negative then -1 else 1) *
    (Nat.ofDigitChars 10 parts.digits 0 / 10 ^ parts.digits.length) * 10 ^ (parts.exponent + 1)

theorem toRat_value (parts : Parts) : parts.value.toRat = parts.number := by
  rw [value, toRat_of, number, zpow_sub₀ (by norm_num), zpow_natCast]
  cases parts.negative with
  | false => simp only [Bool.false_eq_true, if_false, Int.cast_natCast]; ring
  | true => simp only [if_true, Int.cast_neg, Int.cast_natCast]; ring

@[simp] theorem value_zero (negative : Bool) : (Parts.zero negative).value = Decimal.zero := by
  cases negative <;> rfl

end Parts

theorem parts_of {significand : ℤ} (normal : significand % 10 ≠ 0) (exponent : ℤ) :
    (of significand exponent).parts =
      ⟨significand < 0, Nat.toDigits 10 significand.natAbs,
        exponent + (Nat.toDigits 10 significand.natAbs).length - 1⟩ := by
  have nonzero : significand ≠ 0 := by rintro rfl; exact normal rfl
  rw [of_eq_mk normal, parts_eq nonzero, top, size_eq_length nonzero]

/-- Significant digits are in normal form already, so they are found in the number again. -/
theorem parts_value {parts : Parts} (significant : Significant parts.digits) :
    parts.value.parts = parts := by
  have own := significant.toDigits_ofDigitChars
  have positive := significant.ofDigitChars_pos
  have normal := significant.ofDigitChars_mod_ne
  obtain ⟨negative, digits, exponent⟩ := parts
  simp only [Parts.value] at own positive normal ⊢
  generalize Nat.ofDigitChars 10 digits 0 = n at *
  have signed : (if negative then -(n : ℤ) else n) % 10 ≠ 0 := by split <;> omega
  rw [parts_of signed]
  cases negative with
  | false => simp [own]
  | true => simp [own, positive]

/-- The other way round, every decimal is the number with its parts. -/
@[simp] theorem value_parts (x : Decimal) : x.parts.value = x := by
  cases zero : x.isZero with
  | true => rw [parts, if_pos zero, Parts.value_zero, isZero_iff_eq.mp zero]
  | false =>
    have nonzero := isZero_eq_false_iff.mp zero
    have signed : (if decide (x.significand < 0) then -(x.significand.natAbs : ℤ)
        else x.significand.natAbs) = x.significand := by
      simp only [decide_eq_true_eq]
      omega
    have place : x.top - 1 + 1 - (Nat.toDigits 10 x.significand.natAbs).length = x.exponent := by
      rw [top, size_eq_length nonzero]
      omega
    apply toRat_injective
    rw [parts_eq nonzero, Parts.value, toRat_of, Nat.ofDigitChars_ten_toDigits, signed, place,
      toRat]

@[simp] theorem isZero_parts (x : Decimal) : x.parts.isZero = x.isZero := by
  cases zero : x.isZero with
  | true => rw [parts, if_pos zero]; rfl
  | false =>
    have nonzero := isZero_eq_false_iff.mp zero
    have head := head?_toDigits (Int.natAbs_pos.mpr nonzero)
    have longer : Nat.toDigits 10 x.significand.natAbs ≠ ['0'] := by
      intro single
      exact head (by rw [single]; rfl)
    rw [parts_eq nonzero]
    exact beq_eq_false_iff_ne.mpr longer

theorem length_digits_parts (nonzero : x.significand ≠ 0) : x.parts.digits.length = x.size := by
  rw [parts_eq nonzero, size_eq_length nonzero]

end Decimal

/-! ## Parts of a literal -/

theorem Decimal.fits_iff {exponent : ℤ} :
    Literal.fits exponent = true ↔ -2 ^ 63 ≤ exponent ∧ exponent < 2 ^ 63 := by
  simp [Literal.fits]

namespace Literal

variable {literal : Literal} {result : Decimal.Parts}

/-- The parts of a literal whose positions are not limited. -/
def parts (literal : Literal) : Decimal.Parts :=
  if literal.coefficient = 0 then .zero literal.negative else literal.value.parts

theorem isZero_value (literal : Literal) :
    literal.value.isZero = true ↔ literal.coefficient = 0 := by
  rw [Decimal.isZero_iff, toRat_value, number, mul_eq_zero_iff_right (by positivity)]
  cases literal.negative <;> simp

theorem significand_ne_zero (nonzero : literal.coefficient ≠ 0) :
    literal.value.significand ≠ 0 := by
  rwa [Ne, ← Decimal.toRat_eq_zero_iff, ← Decimal.isZero_iff, isZero_value]

theorem value_parts (literal : Literal) : literal.parts.value = literal.value := by
  unfold parts
  split
  · next zero =>
    rw [Decimal.Parts.value_zero, Decimal.isZero_iff_eq.mp (literal.isZero_value.mpr zero)]
  · rw [Decimal.value_parts]

theorem isZero_parts (literal : Literal) : literal.parts.isZero = literal.value.isZero := by
  unfold parts
  split
  · next zero => rw [literal.isZero_value.mpr zero]; rfl
  · rw [Decimal.isZero_parts]

/-- The significant digits with the exponent of the first one. The zeros in front of it count from
the point on, and those behind the last one do not. -/
def significant (literal : Literal) : Decimal.Parts :=
  ⟨literal.negative, significantDigits (literal.whole ++ literal.fraction),
    literal.exponent + literal.whole.length - 1 -
      (leadingZeros (literal.whole ++ literal.fraction)).length⟩

theorem exists_zeros_around (literal : Literal) :
    ∃ behind : ℕ,
      literal.coefficient = 10 ^ behind * Nat.ofDigitChars 10 literal.significant.digits 0 ∧
      literal.significant.exponent + 1 - literal.significant.digits.length =
        behind + literal.position := by
  obtain ⟨behind, split⟩ := LinearEnclosure.exists_zeros_around (literal.whole ++ literal.fraction)
  refine ⟨behind, ?_, ?_⟩
  · rw [coefficient, significant]
    conv_lhs => rw [split]
    rw [Nat.ofDigitChars_append, Nat.ofDigitChars_replicate_zero, mul_zero,
      Nat.ofDigitChars_append, Nat.ofDigitChars_replicate_zero]
  · have lengths := congrArg List.length split
    simp only [List.length_append, List.length_replicate] at lengths
    simp only [significant, position]
    omega

theorem value_significant (literal : Literal) : literal.significant.value = literal.value := by
  obtain ⟨behind, digits, place⟩ := literal.exists_zeros_around
  have sign : literal.significant.negative = literal.negative := rfl
  apply Decimal.toRat_injective
  rw [value, Decimal.Parts.value, Decimal.toRat_of, Decimal.toRat_of, place, sign, digits,
    zpow_add₀ (by norm_num), zpow_natCast]
  split
  · push_cast; ring
  · push_cast; ring

theorem coefficient_eq_zero_iff (all : AllDigits (literal.whole ++ literal.fraction)) :
    literal.coefficient = 0 ↔ literal.significant.digits = [] := by
  obtain ⟨behind, digits, -⟩ := literal.exists_zeros_around
  rw [digits]
  constructor
  · intro zero
    by_contra some_left
    have positive := (significant_significantDigits all some_left).ofDigitChars_pos
    exact absurd zero (by positivity)
  · intro none_left
    rw [none_left, Nat.ofDigitChars_nil, mul_zero]

theorem parts_of_ne_zero (all : AllDigits (literal.whole ++ literal.fraction))
    (nonzero : literal.coefficient ≠ 0) : literal.value.parts = literal.significant := by
  rw [← value_significant, Decimal.parts_value]
  exact significant_significantDigits all ((coefficient_eq_zero_iff all).not.mp nonzero)

theorem top_value (all : AllDigits (literal.whole ++ literal.fraction))
    (nonzero : literal.coefficient ≠ 0) :
    literal.value.top - 1 = literal.significant.exponent := by
  rw [← parts_of_ne_zero all nonzero, Decimal.parts_eq (significand_ne_zero nonzero)]

theorem length_leadingZeros_le (literal : Literal) :
    (leadingZeros (literal.whole ++ literal.fraction)).length ≤
      literal.whole.length + literal.fraction.length := by
  rw [← List.length_append]
  exact (List.takeWhile_sublist _).length_le

theorem checked_eq_some_iff {exponent word : ℤ} :
    checked exponent = some word ↔ fits exponent = true ∧ exponent = word := by
  rw [checked, Option.ite_none_right_eq_some, Option.some.injEq]

/-- A literal in range has its parts, and no other literal has any. -/
theorem parts?_eq_some_iff (all : AllDigits (literal.whole ++ literal.fraction)) :
    literal.parts? = some result ↔ literal.inRange = true ∧ literal.parts = result := by
  have empty := coefficient_eq_zero_iff all
  simp only [significant] at empty
  by_cases zero : literal.coefficient = 0
  · simp [parts?, inRange, parts, zero, empty.mp zero, checked_eq_some_iff,
      Option.bind_eq_some_iff]
  · have own := parts_of_ne_zero all zero
    have place := top_value all zero
    -- The word between two that fit is not looked at again.
    have between (point : fits (literal.exponent + literal.whole.length) = true)
        (first : fits literal.significant.exponent = true) :
        fits (literal.exponent + literal.whole.length - 1) = true := by
      simp only [significant, Decimal.fits_iff] at point first ⊢
      omega
    simp only [parts?, List.isEmpty_iff, empty.not.mp zero, if_false, Option.pure_def,
      Option.bind_eq_bind, Option.bind_eq_some_iff, checked_eq_some_iff, Option.some.injEq,
      ↓existsAndEq, and_true, inRange, place, Bool.and_eq_true, Bool.or_eq_true, beq_iff_eq, zero,
      false_or, parts, own]
    constructor
    · rintro ⟨written, point, -, first, same⟩
      exact ⟨⟨written, point, first⟩, same⟩
    · rintro ⟨⟨written, point, first⟩, same⟩
      exact ⟨written, point, between point first, first, same⟩

/-- Parts keep the sign that is written, that of a zero as well. -/
theorem negative_parts (all : AllDigits (literal.whole ++ literal.fraction)) :
    literal.parts.negative = literal.negative := by
  unfold parts
  split
  · rfl
  · next nonzero => rw [parts_of_ne_zero all nonzero, significant]

theorem parts_value (nonzero : literal.value.isZero = false) :
    literal.value.parts = literal.parts := by
  have filled := literal.isZero_value.not.mp (Bool.eq_false_iff.mp nonzero)
  rw [parts, if_neg filled]

/-- Where the number leaves a margin and the text is not of astronomical length, no position on
the way to the first significant digit is out of range. -/
theorem inRange_of_top {text : List Char} (spelled : literal.Spells text)
    (nonzero : literal.coefficient ≠ 0) (short : text.length < 2 ^ 62)
    (margin : |literal.value.top| ≤ 2 ^ 62) : literal.inRange = true := by
  have place := top_value spelled.allDigits nonzero
  have digits := spelled.length_le
  have zeros := literal.length_leadingZeros_le
  rw [abs_le] at margin
  simp only [significant] at place
  simp only [inRange, Bool.and_eq_true, Bool.or_eq_true, Decimal.fits_iff]
  omega

end Literal

/-! ## Reading -/

namespace Decimal

variable {text : List Char} {literal : Literal} {x : Decimal} {parts : Parts}

/-- A text has the parts of a literal in range, with blanks around it or without. -/
theorem Parts.read_eq_some_iff_exists : Parts.read text = some parts ↔
    ∃ literal : Literal, literal.Spells (Text.trim text) ∧ literal.inRange = true ∧
      literal.parts = parts := by
  rw [Parts.read, Option.bind_eq_some_iff]
  refine exists_congr fun literal => ?_
  rw [Literal.read_eq_some_iff]
  exact and_congr_right fun spelled => Literal.parts?_eq_some_iff spelled.allDigits

theorem Parts.read_eq_some_iff (spelled : literal.Spells text) :
    Parts.read text = some parts ↔ literal.inRange = true ∧ literal.parts = parts := by
  have clear : Text.trim text = text := WritesNumber.trim_eq ⟨_, spelled, rfl⟩
  rw [Parts.read, clear, Literal.read_eq_some_iff.mpr spelled, Option.bind_some,
    Literal.parts?_eq_some_iff spelled.allDigits]

/-- A number that is spelled out is read if it is in range, as what it stands for. -/
theorem read_eq_some_iff (spelled : literal.Spells text) :
    Decimal.read text = some x ↔ literal.inRange = true ∧ literal.value = x := by
  simp only [Decimal.read, Option.map_eq_some_iff, Parts.read_eq_some_iff spelled, and_assoc,
    exists_and_left, exists_eq_left', Literal.value_parts]

/-- A text without blanks that is read spells a literal in range. -/
theorem exists_spells_of_read (clear : ∀ c ∈ text, Text.isBlank c = false)
    (accepted : Decimal.read text = some x) :
    ∃ literal : Literal, literal.Spells text ∧ literal.inRange = true := by
  obtain ⟨parts, read, -⟩ := Option.map_eq_some_iff.mp accepted
  obtain ⟨literal, spelled, inRange, -⟩ := Parts.read_eq_some_iff_exists.mp read
  rw [trim_eq_self clear] at spelled
  exact ⟨literal, spelled, inRange⟩

/-! ## Comparing a text with a number -/

/-- Where the number is not zero, each of its parts is compared. -/
theorem Parts.isWrittenIn_iff (nonzero : parts.isZero = false) :
    parts.isWrittenIn text = true ↔ Parts.read text = some parts := by
  unfold Parts.isWrittenIn
  cases Parts.read text with
  | none => simp
  | some written =>
    simp only [Bool.and_eq_true, Bool.or_eq_true, beq_iff_eq, Option.some.injEq]
    constructor
    · rintro ⟨digits, zero | ⟨negative, exponent⟩⟩
      · rw [Parts.isZero, digits] at zero
        exact absurd zero (Bool.eq_false_iff.mp nonzero)
      · cases written
        cases parts
        simp_all
    · rintro rfl
      exact ⟨rfl, .inr ⟨rfl, rfl⟩⟩

/-- So a text that agrees with the parts of a number writes it. -/
theorem isWrittenIn_parts_iff (nonzero : x.isZero = false) :
    x.parts.isWrittenIn text = true ↔ Decimal.read text = some x := by
  rw [Parts.isWrittenIn_iff (x.isZero_parts.trans nonzero), Decimal.read, Option.map_eq_some_iff]
  constructor
  · intro read
    exact ⟨x.parts, read, x.value_parts⟩
  · rintro ⟨parts, read, rfl⟩
    obtain ⟨literal, -, -, rfl⟩ := Parts.read_eq_some_iff_exists.mp read
    rw [Literal.value_parts] at nonzero ⊢
    rw [Literal.parts_value nonzero, read]

end Decimal

end LinearEnclosure
