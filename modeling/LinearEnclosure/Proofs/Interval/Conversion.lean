/-
# Conversions between the two kinds of endpoints

A decimal number goes to the nearest 64-bit number, a tie to the one whose stored word is even.
From the midpoint behind the largest number on it goes to an infinity, and below half of the
least number to zero; both keep its sign. A 64-bit number goes to the shortest decimal that
reads back, which has seventeen digits at most, so at this precision nothing is lost.

Both ways lead through a text that is put together from digits and an exponent. The texts spell
the numbers that the conversions work on, and reading them gives the same results.
-/

import LinearEnclosure.Proofs.Binary.Shortest
import LinearEnclosure.Proofs.Interval.DoubleRoundTrip

namespace LinearEnclosure

/-! ## The nearest 64-bit number -/

namespace Double

open Binary

/-- How a number is rounded to 64 bits: to the nearest finite number, a tie to the even word; to
an infinity from the midpoint behind the largest number on; and in each case with its sign. -/
structure IsNearest (exact : ℚ) (x : Double) : Prop where
  finite : Fits exact → ∃ v : ℚ, x.value? = some ((v : ℝ) : EReal) ∧
    ∀ (y : Double) (w : ℚ), y.value? = some ((w : ℝ) : EReal) → |v - exact| ≤ |w - exact| ∧
      (|v - exact| = |w - exact| → w = v ∨ ∃ word, x.word? = some word ∧ Even word)
  infinite : ¬Fits exact → x = infinite (decide (exact < 0))
  sign : ∃ word, x.word? = some word ∧ (2 ^ 63 ≤ word ↔ exact < 0)

variable {x : Double} {exact : ℚ}

/-- The sign bit is even, so a word is even as its place is. -/
theorem exists_even_word {place : ℤ} (stands : x.place? = some place) (even : Even place) :
    ∃ word, x.word? = some word ∧ Even word := by
  have sign (negative : Bool) : Even (word?.signBit (F := Format.double) negative) := by
    cases negative <;> decide +kernel
  cases x with
  | finite negative rank _ =>
    obtain rfl := Option.some.inj stands
    refine ⟨_, rfl, (sign negative).add ?_⟩
    cases negative <;> simpa using even
  | infinite negative =>
    refine ⟨_, rfl, (sign negative).add ?_⟩
    decide +kernel
  | nan => cases stands

theorem exists_word_ofRank (negative : Bool) (rank : ℕ) :
    ∃ word, (ofRank negative rank : Double).word? = some word ∧
      (2 ^ 63 ≤ word ↔ negative = true) := by
  have last : Format.double.infinityRank = 2047 * 2 ^ 52 := rfl
  have bit : word?.signBit (F := Format.double) negative = if negative then 2 ^ 63 else 0 := rfl
  unfold ofRank
  split
  · next inside =>
    refine ⟨_, rfl, ?_⟩
    rw [bit]
    cases negative
    · simp
      omega
    · simp
  · refine ⟨_, rfl, ?_⟩
    rw [bit]
    cases negative
    · simp
      omega
    · simp

theorem exists_nearest_eq_ofRank (negative : Bool) (y : Decimal) :
    ∃ rank, (nearest negative y : Double) = ofRank negative rank := by
  unfold nearest
  split
  · exact ⟨0, rfl⟩
  split
  · exact ⟨Format.double.infinityRank, by rw [ofRank, dif_neg (lt_irrefl _)]⟩
  · exact ⟨_, rfl⟩

/-- Distances are compared in units. -/
theorem abs_inUnits_sub_le_iff {v w : ℚ} :
    |Format.double.inUnits v - Format.double.inUnits exact| ≤
        |Format.double.inUnits w - Format.double.inUnits exact| ↔ |v - exact| ≤ |w - exact| := by
  have scaled (u : ℚ) : |Format.double.inUnits u - Format.double.inUnits exact| =
      Format.double.inUnits |u - exact| := by
    rw [← Format.abs_inUnits, Format.inUnits, Format.inUnits, Format.inUnits, ← sub_mul]
  rw [scaled, scaled, Format.double.inUnits_strictMono.le_iff_le]

/-- Every 64-bit number stands at a place. -/
theorem exists_unitsAt_of_value? {y : Double} {w : ℚ} (value : y.value? = some ((w : ℝ) : EReal)) :
    ∃ place, (Format.double.unitsAt place : ℚ) = Format.double.inUnits w := by
  obtain ⟨n, units, number⟩ := exists_units value
  obtain ⟨place, -, -, here⟩ := exists_place units
  refine ⟨place, ?_⟩
  rw [← Format.ofUnits_inUnits Format.double w] at number
  rw [here, Format.double.ofUnits_strictMono.injective number]

theorem nearest_isNearest {negative : Bool} {y : Decimal}
    (signed : negative = true ↔ y.toRat < 0) : IsNearest y.toRat (nearest negative y) := by
  have rounds : RoundsTo (Format.double.inUnits y.toRat) (nearest negative y : Double) :=
    nearest_roundsTo (by decide) fun _ => signed
  obtain ⟨rank, made⟩ := exists_nearest_eq_ofRank negative y
  refine ⟨fun fits => ?_, fun overflows => ?_, ?_⟩
  · obtain ⟨c, units⟩ := Binary.isFinite_iff.mp ((isFinite_iff_fits rounds).mpr fits)
    obtain ⟨place, near, -, stands, here⟩ := rounds.exists_nearest units
    refine ⟨_, value?_eq_decimal units, fun z w value => ?_⟩
    obtain ⟨other, there⟩ := exists_unitsAt_of_value? value
    have exact : (Format.double.unitsAt place : ℚ) = _ := here ▸ (inUnits_decimal units).symm
    have closer := near.abs_sub_le other
    rw [exact, there, abs_inUnits_sub_le_iff] at closer
    refine ⟨closer, fun tie => ?_⟩
    rcases eq_or_ne other place with rfl | differs
    · exact .inl (Format.double.inUnits_strictMono.injective (there.symm.trans exact))
    · have back := abs_inUnits_sub_le_iff.mpr tie.ge
      rw [← exact, ← there] at back
      exact .inr (exists_even_word stands
        (near.even_of_tie differs (le_antisymm (near.abs_sub_le other) back)))
  · have unbounded := mt (isFinite_iff_fits rounds).mp overflows
    rw [made, ofRank] at unbounded ⊢
    split at unbounded
    · exact absurd rfl unbounded
    · next beyond =>
      rw [dif_neg beyond, Bool.eq_iff_iff.mpr (signed.trans decide_eq_true_iff.symm)]
  · rw [made, ← signed]
    exact exists_word_ofRank negative rank

end Double

/-! ## The texts on the way -/

/-- An integer as it is written. -/
def integerText (n : ℤ) : List Char :=
  (if n < 0 then ['-'] else []) ++ Nat.toDigits 10 n.natAbs

theorem integerText_spells (n : ℤ) : SpellsPower ('e' :: integerText n) n := by
  unfold integerText
  by_cases negative : n < 0
  · have power := Decimal.spellsPower_padded (.inl rfl) .minus 0 n.natAbs
    rw [if_pos rfl, Int.ofNat_natAbs_of_nonpos negative.le, neg_neg] at power
    simpa [negative] using power
  · have power := Decimal.spellsPower_padded (.inl rfl) .absent 0 n.natAbs
    rw [if_neg (by simp), Int.natAbs_of_nonneg (not_lt.mp negative)] at power
    simpa [negative] using power

namespace Decimal

/-- The power of ten at the leading digit, which zero has in front of the point. -/
def leading (x : Decimal) : ℤ :=
  if x.isZero then 0 else x.top - 1

/-- The text through which a decimal becomes a binary number. -/
def handover (x : Decimal) : List Char :=
  let digits := Nat.toDigits 10 x.significand.natAbs
  (if x.significand < 0 then ['-'] else []) ++
    (digits.take 1 ++ ('.' :: (digits.drop 1 ++ ['0']) ++ 'e' :: integerText x.leading))

/-- What such a text spells: the digits of a number and any number of zeros. -/
def led (x : Decimal) (zeros : ℕ) : Literal :=
  ⟨x.significand < 0, (Nat.toDigits 10 x.significand.natAbs).take 1,
    (Nat.toDigits 10 x.significand.natAbs).drop 1 ++ List.replicate zeros '0', x.leading⟩

theorem handover_spells (x : Decimal) : (x.led 1).Spells x.handover :=
  digits_spell (sign_spells _) (.point (allDigits_drop_shifted _ 1)) (integerText_spells _)

theorem led_eq_mantissa {x : Decimal} (nonzero : x.significand ≠ 0) (zeros : ℕ) :
    x.led zeros = x.mantissa zeros := by
  rw [led, leading, if_neg (Bool.eq_false_iff.mp (isZero_eq_false_iff.mpr nonzero)), mantissa]

theorem coefficient_led_zero (zeros : ℕ) : (Decimal.zero.led zeros).coefficient = 0 := by
  show Nat.ofDigitChars 10 (['0'] ++ ([] ++ List.replicate zeros '0')) 0 = 0
  rw [List.nil_append, Nat.ofDigitChars_append, Nat.ofDigitChars_replicate_zero]
  rfl

theorem value_led (x : Decimal) (zeros : ℕ) : (x.led zeros).value = x := by
  by_cases zero : x.significand = 0
  · obtain rfl := eq_zero_of_significand zero
    rw [Literal.value, coefficient_led_zero]
    simp
  · rw [led_eq_mantissa zero, value_mantissa]

theorem inRange_led {x : Decimal} (zeros : ℕ) (inRange : x.InRange) :
    (x.led zeros).inRange = true := by
  by_cases zero : x.significand = 0
  · obtain rfl := eq_zero_of_significand zero
    rw [Literal.inRange, coefficient_led_zero]
    rfl
  · rw [led_eq_mantissa zero]
    exact inRange_mantissa zeros inRange

theorem InRange.neg {x : Decimal} (inRange : x.InRange) : x.neg.InRange := by
  intro nonzero
  have kept := inRange (neg_ne_zero.mp nonzero)
  simpa [Decimal.neg, top, size] using kept

/-- A sign in front of a positive number. -/
theorem led_signed {x : Decimal} (positive : 0 < x.significand) (negative : Bool) (zeros : ℕ) :
    (if negative then x.neg else x).led zeros =
      ⟨negative, (Nat.toDigits 10 x.significand.natAbs).take 1,
        (Nat.toDigits 10 x.significand.natAbs).drop 1 ++ List.replicate zeros '0', x.leading⟩ := by
  cases negative with
  | false => simp [led, positive.le]
  | true =>
    have leading : x.neg.leading = x.leading := by
      simp [Decimal.leading, isZero, Decimal.neg, top, size]
    rw [if_pos rfl, led, leading]
    simp [Decimal.neg, positive]

end Decimal

namespace Double

/-- The text through which a 64-bit number becomes a decimal: its shortest digits, a point behind
the first of them if there are more, and an exponent. -/
def exponential : Double → List Char
  | .finite negative rank _ =>
    let shortest := if rank = 0 then Decimal.zero else Format.double.shortest rank
    let digits := Nat.toDigits 10 shortest.significand.natAbs
    (if negative then ['-'] else []) ++
      (digits.take 1 ++ ((if digits.drop 1 = [] then [] else '.' :: digits.drop 1) ++
        'e' :: integerText shortest.leading))
  | x => x.plain

open Binary

/-- The shortest digits of a number are those of a rounded magnitude, so their positions fit. -/
theorem inRange_shortest {rank : ℕ} (bound : rank < Format.double.infinityRank) :
    (Format.double.shortest rank).InRange := by
  have finite : (Binary.finite false rank bound : Double).units? = some _ := rfl
  have low : -1075 ≤ (Format.double.decimal rank).exponent := unitBits_le_exponent finite
  have high : (Format.double.decimal rank).top ≤ 2099 := top_decimal_le finite
  rcases Format.double.exists_shortest_eq rank with ⟨digits, found, -⟩ | ⟨exact, -⟩
  · obtain ⟨direction, rounded⟩ := Format.exists_roundTo_of_shortAt found
    rw [rounded]
    exact Decimal.inRange_roundTo (by omega) (by omega)
  · rw [exact]
    intro _
    omega

/-- The text has the digits of the shortest decimal. A zero has a sign there as well. -/
theorem exists_literal_exponential {x : Double} (finite : x.isFinite = true) :
    ∃ (literal : Literal) (shortest : Decimal), literal.Spells x.exponential ∧
      literal.inRange = true ∧ literal.value = shortest ∧ x.shortest? = some shortest ∧
      shortest.InRange ∧ shortest.size ≤ 17 := by
  cases x with
  | finite negative rank bound =>
    have signed : SpellsSign (if negative then ['-'] else []) negative := by
      cases negative <;> constructor
    have pointed {digits : List Char} (all : AllDigits digits) :
        SpellsFraction (if digits = [] then [] else '.' :: digits) digits := by
      split
      · next none => exact none ▸ .absent
      · exact .point all
    have behind (magnitude : Decimal) :=
      pointed (Decimal.allDigits_drop_shifted magnitude.significand.natAbs 0)
    have spelled (magnitude : Decimal) :=
      Decimal.digits_spell signed (behind magnitude) (integerText_spells magnitude.leading)
    rcases Nat.eq_zero_or_pos rank with rfl | positive
    · refine ⟨_, Decimal.zero, spelled Decimal.zero, ?_, ?_, rfl, by decide, by decide⟩
      · cases negative <;> rfl
      · cases negative <;> rfl
    · have back := Format.double.readsBack_shortest positive
      have few : (Format.double.shortest rank).size ≤ 17 :=
        Format.size_shortest_le_of_enough (by decide) positive
      have text := spelled (Format.double.shortest rank)
      rw [← Decimal.led_signed (Format.significand_pos_of_readsBack positive back)] at text
      have inRange : (if negative then (Format.double.shortest rank).neg
          else Format.double.shortest rank).InRange := by
        cases negative with
        | false => exact inRange_shortest bound
        | true => exact (inRange_shortest bound).neg
      refine ⟨_, _, ?_, Decimal.inRange_led 0 inRange, Decimal.value_led _ 0,
        by rw [shortest?, if_neg positive.ne'], inRange, ?_⟩
      · simpa [exponential, positive.ne'] using text
      · cases negative with
        | false => exact few
        | true => simpa [Decimal.size, Decimal.neg] using few
  | infinite => cases finite
  | nan => cases finite

end Double

namespace DecimalFloat

open Binary

theorem read_handover (x : Decimal) :
    (Binary.read x.handover : Except ReadError Double) = .ok (Binary.ofDecimal x) := by
  rw [read_of_spells x.handover_spells, Decimal.value_led]
  rfl

/-- The text of a 64-bit number is read as the decimal that it is converted to, and with seventeen
digits that is the shortest one. -/
theorem exists_ofDouble {v : Double} (finite : v.isFinite = true) {precision : ℕ}
    (enough : 17 ≤ precision) : ∃ shortest, v.shortest? = some shortest ∧
      Endpoint.ofDouble precision v = .ok (⟨shortest, precision⟩ : DecimalFloat) ∧
      Endpoint.read .nearest precision v.exponential =
        .ok (⟨shortest, precision⟩ : DecimalFloat) := by
  obtain ⟨literal, shortest, spelled, readable, value, found, inRange, few⟩ :=
    Double.exists_literal_exponential finite
  have kept : round .nearest precision shortest = ⟨shortest, precision⟩ :=
    round_of_size_le (by omega) (few.trans enough)
  refine ⟨shortest, found, mapError_eq_ok_iff.mpr ?_, mapError_eq_ok_iff.mpr ?_⟩
  · show ofDouble precision v = _
    simp only [ofDouble, found, kept]
  · exact readDirected_eq_ok_iff.mpr
      ⟨shortest, value ▸ Decimal.read_of_spells spelled readable, inRange.fits, kept⟩

end DecimalFloat

end LinearEnclosure
