/-
# What scientific notation writes

The text of a number in scientific notation is a spelling, and the number it spells is
the given one after a single rounding in the requested direction. The digits that pad the
mantissa and the exponent are zeros and change nothing, and a mantissa that is longer than
asked for would be written in full.
-/

import LinearEnclosure.Decimal.Scientific
import LinearEnclosure.Proofs.Decimal.Grid
import LinearEnclosure.Proofs.Decimal.Spelling
import LinearEnclosure.Proofs.Decimal.Zero

namespace LinearEnclosure

theorem allDigits_toDigits (n : ℕ) : AllDigits (Nat.toDigits 10 n) :=
  fun _ member => Nat.isDigit_of_mem_toDigits (by decide) (by decide) member

/-- The digits of a positive number do not begin with a zero. -/
theorem head?_toDigits {n : ℕ} (positive : 0 < n) : (Nat.toDigits 10 n).head? ≠ some '0' := by
  induction n using Nat.strong_induction_on with
  | _ n ih =>
    rcases lt_or_ge n 10 with digit | longer
    · rw [Nat.toDigits_of_lt_base digit]
      interval_cases n <;> decide
    · rw [Nat.toDigits_of_base_le (by decide) longer,
        List.head?_append_of_ne_nil _ Nat.toDigits_ne_nil]
      exact ih (n / 10) (Nat.div_lt_self positive (by decide)) (Nat.div_pos longer (by decide))

theorem allDigits_replicate_zero (n : ℕ) : AllDigits (List.replicate n '0') := by
  intro c member
  obtain rfl := List.eq_of_mem_replicate member
  rfl

/-- Zeros in front of a number change nothing. -/
theorem ofDigitChars_padded (zeros n : ℕ) :
    Nat.ofDigitChars 10 (List.replicate zeros '0' ++ Nat.toDigits 10 n) 0 = n := by
  rw [Nat.ofDigitChars_append, Nat.ofDigitChars_replicate_zero, Nat.mul_zero,
    Nat.ofDigitChars_ten_toDigits]

/-- Zeros behind a number multiply it by powers of ten. -/
theorem ofDigitChars_shifted (n zeros : ℕ) :
    Nat.ofDigitChars 10 (Nat.toDigits 10 n ++ List.replicate zeros '0') 0 = 10 ^ zeros * n := by
  rw [Nat.ofDigitChars_append, Nat.ofDigitChars_ten_toDigits, Nat.ofDigitChars_replicate_zero]

/-- A natural number is written by its digits. -/
theorem writesNumber_toDigits (n : ℕ) : WritesNumber (Nat.toDigits 10 n) n := by
  refine ⟨⟨false, Nat.toDigits 10 n, [], 0⟩, ?_, ?_⟩
  · have spelled := Literal.Spells.parts .absent (allDigits_toDigits n) .absent .absent
      (by simp [Nat.toDigits_ne_nil])
    simpa using spelled
  · simp [Literal.number, Literal.coefficient, Literal.position]

namespace Decimal

/-- An exponent is written with a sign or without, and zeros may stand in front of it. -/
theorem spellsPower_padded {mark : Char} {sign : List Char} {negative : Bool}
    (marked : mark = 'e' ∨ mark = 'E') (signed : SpellsSign sign negative) (zeros n : ℕ) :
    SpellsPower (mark :: (sign ++ (List.replicate zeros '0' ++ Nat.toDigits 10 n)))
      (if negative then -(n : ℤ) else n) := by
  have power := SpellsPower.present marked signed (by simp [Nat.toDigits_ne_nil])
    ((allDigits_replicate_zero zeros).append (allDigits_toDigits n))
  rwa [ofDigitChars_padded] at power

theorem exponentMark_spells (exponent : ℤ) : SpellsPower (exponentMark exponent) exponent := by
  unfold exponentMark
  by_cases negative : exponent < 0
  · have power := spellsPower_padded (.inr rfl) .minus
      (3 - (Nat.toDigits 10 exponent.natAbs).length) exponent.natAbs
    rw [if_pos rfl, Int.ofNat_natAbs_of_nonpos negative.le, neg_neg] at power
    simpa [negative] using power
  · have power := spellsPower_padded (.inr rfl) .plus
      (3 - (Nat.toDigits 10 exponent.natAbs).length) exponent.natAbs
    rw [if_neg (by simp), Int.natAbs_of_nonneg (not_lt.mp negative)] at power
    simpa [negative] using power

theorem sign_spells (n : ℤ) : SpellsSign (if n < 0 then ['-'] else []) (decide (n < 0)) := by
  by_cases negative : n < 0
  · simpa [negative] using SpellsSign.minus
  · simpa [negative] using SpellsSign.absent

theorem length_take_toDigits (n : ℕ) : ((Nat.toDigits 10 n).take 1).length = 1 := by
  have long : 0 < (Nat.toDigits 10 n).length := Nat.length_toDigits_pos
  rw [List.length_take]
  omega

/-- The digits of a number may be parted behind the first one, and zeros may follow them. -/
theorem digits_spell {sign point power : List Char} {negative : Bool} {exponent : ℤ} {n zeros : ℕ}
    (signed : SpellsSign sign negative)
    (pointed : SpellsFraction point ((Nat.toDigits 10 n).drop 1 ++ List.replicate zeros '0'))
    (powered : SpellsPower power exponent) :
    Literal.Spells (sign ++ ((Nat.toDigits 10 n).take 1 ++ (point ++ power)))
      ⟨negative, (Nat.toDigits 10 n).take 1,
        (Nat.toDigits 10 n).drop 1 ++ List.replicate zeros '0', exponent⟩ := by
  refine .parts signed (fun c member => ?_) pointed powered ?_
  · exact allDigits_toDigits n c (List.mem_of_mem_take member)
  · rintro ⟨empty, -⟩
    have one := length_take_toDigits n
    rw [empty] at one
    cases one

theorem allDigits_drop_shifted (n zeros : ℕ) :
    AllDigits ((Nat.toDigits 10 n).drop 1 ++ List.replicate zeros '0') :=
  AllDigits.append (fun c member => allDigits_toDigits n c (List.mem_of_mem_drop member))
    (allDigits_replicate_zero zeros)

/-- A sign and shifted digits give back the shifted number. -/
theorem signed_magnitude (zeros : ℕ) (n : ℤ) :
    (if decide (n < 0) = true then -((10 ^ zeros * n.natAbs : ℕ) : ℚ)
      else ((10 ^ zeros * n.natAbs : ℕ) : ℚ)) = 10 ^ zeros * n := by
  have magnitude : (n.natAbs : ℚ) = |(n : ℚ)| := by
    rw [← Int.cast_abs, Int.abs_eq_natAbs, Int.cast_natCast]
  push_cast
  rw [magnitude]
  by_cases negative : n < 0
  · rw [if_pos (by simpa), abs_of_neg (by exact_mod_cast negative)]
    ring
  · rw [if_neg (by simpa using negative), abs_of_nonneg (by exact_mod_cast not_lt.mp negative)]

/-- What scientific notation writes for a number that has been rounded: one digit before the
point, the others and some zeros behind it. -/
def mantissa (x : Decimal) (zeros : ℕ) : Literal :=
  ⟨x.significand < 0, (Nat.toDigits 10 x.significand.natAbs).take 1,
    (Nat.toDigits 10 x.significand.natAbs).drop 1 ++ List.replicate zeros '0', x.top - 1⟩

variable (x : Decimal) (zeros : ℕ)

theorem length_whole_mantissa : (x.mantissa zeros).whole.length = 1 :=
  length_take_toDigits _

theorem mantissa_spells :
    (x.mantissa zeros).Spells ((if x.significand < 0 then ['-'] else []) ++
      ((Nat.toDigits 10 x.significand.natAbs).take 1 ++
        ('.' :: ((Nat.toDigits 10 x.significand.natAbs).drop 1 ++ List.replicate zeros '0') ++
          exponentMark (x.top - 1)))) :=
  digits_spell (sign_spells _) (.point (allDigits_drop_shifted _ _)) (exponentMark_spells _)

theorem coefficient_mantissa :
    (x.mantissa zeros).coefficient = 10 ^ zeros * x.significand.natAbs := by
  rw [mantissa, Literal.coefficient, ← List.append_assoc, List.take_append_drop,
    ofDigitChars_shifted]

theorem number_mantissa : (x.mantissa zeros).number = x.toRat := by
  rw [Literal.number, coefficient_mantissa]
  by_cases zero : x.significand = 0
  · simp [toRat, zero]
  -- The digits of the significand make up for the distance from the leading position.
  have place : (x.mantissa zeros).position = x.exponent - zeros := by
    have long : 0 < (Nat.toDigits 10 x.significand.natAbs).length := Nat.length_toDigits_pos
    have count : x.size = (Nat.toDigits 10 x.significand.natAbs).length := by
      rw [size, digitCount, if_neg (by omega)]
    simp only [mantissa, Literal.position, top, count, List.length_append, List.length_drop,
      List.length_replicate]
    omega
  have sign : (x.mantissa zeros).negative = decide (x.significand < 0) := rfl
  rw [place, sign, signed_magnitude, toRat, zpow_sub₀ (by norm_num), zpow_natCast]
  field_simp

theorem value_mantissa : (x.mantissa zeros).value = x :=
  toRat_injective (by rw [Literal.toRat_value, number_mantissa])

/-- The literal that is printed for a number. -/
def printed (direction : Direction) (places : ℕ) (x : Decimal) : Literal :=
  let shown := x.roundTo direction (places + 1)
  if x.isZero then ⟨false, ['0'], List.replicate places '0', 0⟩
  else shown.mantissa (places + 1 - (Nat.toDigits 10 shown.significand.natAbs).length)

variable (direction : Direction) {places : ℕ}

/-- At least one digit must stand behind the point, since without a point a long mantissa
would be read as a larger number. -/
theorem printed_spells (positive : places ≠ 0) :
    (x.printed direction places).Spells (x.scientific direction places) := by
  unfold printed scientific
  by_cases zero : x.isZero = true
  · rw [if_pos zero, if_pos zero]
    exact .parts .absent (allDigits_replicate_zero 1) (.point (allDigits_replicate_zero places))
      (exponentMark_spells 0) (by simp)
  · rw [if_neg zero, if_neg zero]
    simpa [positive] using (x.roundTo direction (places + 1)).mantissa_spells _

/-- What is printed is the number, rounded once. -/
theorem value_printed : (x.printed direction places).value = x.roundTo direction (places + 1) := by
  by_cases zero : x.isZero = true
  · have nothing : Literal.coefficient ⟨false, ['0'], List.replicate places '0', 0⟩ = 0 := by
      rw [Literal.coefficient, Nat.ofDigitChars_append, Nat.ofDigitChars_replicate_zero]
      rfl
    rw [printed, if_pos zero, isZero_iff_eq.mp zero, roundTo_zero, Literal.value, nothing]
    simp
  · rw [printed, if_neg zero, value_mantissa]

/-- What is printed lies on the side of the direction. -/
theorem exists_scientific (positive : places ≠ 0) :
    ∃ q, WritesNumber (x.scientific direction places) q ∧ direction.Bounds x.toRat q := by
  refine ⟨_, ⟨_, x.printed_spells direction positive, rfl⟩, ?_⟩
  rw [← Literal.toRat_value, value_printed, toRat_roundTo]
  exact direction.bounds_onGrid _ _

end Decimal

end LinearEnclosure
