/-
# Decimals as binary numbers

Every finite binary number is an exact decimal. The other way a decimal is rounded to the
nearest place, once: the two shortcuts for magnitudes that vanish or overflow are recognized
by leading positions, but they give what the rounding itself would give. A decimal overflows
exactly if it reaches the midpoint between the largest magnitude and the place after it.
-/

import LinearEnclosure.Binary.Text
import LinearEnclosure.Proofs.Binary.Sum
import LinearEnclosure.Proofs.Decimal.Zero

namespace LinearEnclosure

namespace Format

variable (F : Format)

/-- A number as a fraction of units. -/
def inUnits (q : ℚ) : ℚ :=
  q * 2 ^ F.unitBits

theorem inUnits_strictMono : StrictMono F.inUnits :=
  strictMono_mul_right_of_pos (by positivity)

@[simp] theorem inUnits_zero : F.inUnits 0 = 0 :=
  zero_mul _

@[simp] theorem inUnits_neg (q : ℚ) : F.inUnits (-q) = -F.inUnits q :=
  neg_mul ..

theorem abs_inUnits (q : ℚ) : |F.inUnits q| = F.inUnits |q| := by
  rw [inUnits, inUnits, abs_mul, abs_of_pos (by positivity : (0 : ℚ) < 2 ^ F.unitBits)]

@[simp] theorem ofUnits_inUnits (q : ℚ) : F.ofUnits (F.inUnits q) = q := by
  have power : (2 : ℝ) ^ F.unitBits ≠ 0 := by positivity
  rw [ofUnits, inUnits]
  push_cast
  rw [mul_div_cancel_right₀ _ power]

/-! ## The exact decimal -/

theorem inUnits_halfUnits (significand power : ℕ) :
    F.inUnits (F.halfUnits significand power).toRat = significand * 2 ^ power / 2 := by
  simp only [inUnits, halfUnits]
  split
  · next above =>
    have split : (2 : ℚ) ^ power = 2 ^ (power - (F.unitBits + 1)) * (2 ^ F.unitBits * 2) := by
      rw [← pow_succ, ← pow_add, Nat.sub_add_cancel above]
    rw [Decimal.toRat_of, split, zpow_zero]
    push_cast
    ring
  · next below =>
    -- Five to some power is ten to that power, less the powers of two.
    have gap : (power : ℤ) - ((F.unitBits + 1 : ℕ) : ℤ) = -((F.unitBits + 1 - power : ℕ) : ℤ) := by
      omega
    have split : (2 : ℚ) ^ F.unitBits * 2 = 2 ^ (F.unitBits + 1 - power) * 2 ^ power := by
      rw [← pow_succ, ← pow_add, Nat.sub_add_cancel (by omega)]
    have ten : (10 : ℚ) ^ (F.unitBits + 1 - power) =
        5 ^ (F.unitBits + 1 - power) * 2 ^ (F.unitBits + 1 - power) := by
      rw [← mul_pow]
      norm_num
    rw [Decimal.toRat_of, gap, zpow_neg, zpow_natCast, ten, eq_div_iff two_ne_zero, mul_assoc _ _ 2,
      split]
    push_cast
    field_simp

theorem inUnits_decimal (rank : ℕ) : F.inUnits (F.decimal rank).toRat = F.units rank := by
  rw [decimal, inUnits_halfUnits, units, pow_succ]
  push_cast
  ring

/-! ## The nearest place -/

variable {F} {exact : ℚ} {place : ℤ}

/-- What is below half a unit rounds to zero. -/
theorem Nearest.eq_zero (nearest : F.Nearest exact place) (small : 2 * |exact| < 1) :
    place = 0 := by
  have above := nearest.pos_iff.not.mpr (by linarith [le_abs_self exact])
  have below := nearest.neg.pos_iff.not.mpr (by linarith [neg_le_abs exact])
  omega

/-- A place before an even one is reached only from below their midpoint, which goes to the
even one. -/
theorem Nearest.two_mul_abs_lt (nearest : F.Nearest exact place) {rank : ℕ} (odd : Odd rank)
    (inside : |place| ≤ rank) : 2 * |exact| < F.unitsAt rank + F.unitsAt (rank + 1) := by
  wlog nonneg : 0 ≤ exact generalizing exact place
  · rw [← abs_neg exact]
    exact this nearest.neg (by rwa [abs_neg]) (by linarith)
  rw [abs_of_nonneg nonneg]
  obtain ⟨-, le⟩ := abs_le.mp inside
  rcases le.lt_or_eq with before | rfl
  · have here : (F.unitsAt place : ℚ) < F.unitsAt rank := by
      exact_mod_cast F.unitsAt_strictMono before
    have next : (F.unitsAt (place + 1) : ℚ) < F.unitsAt (rank + 1) := by
      exact_mod_cast F.unitsAt_strictMono (by omega : place + 1 < rank + 1)
    linarith [nearest.upper]
  · refine nearest.upper.lt_of_ne fun half => ?_
    have even := nearest.upper_even half
    rw [Int.even_coe_nat] at even
    exact Nat.not_even_iff_odd.mpr odd even

theorem blocks_pos [NeZero F.infinityRank] : 0 < F.blocks := by
  refine Nat.pos_of_ne_zero fun none => NeZero.ne F.infinityRank ?_
  rw [infinityRank, none, Nat.zero_mul]

theorem units_infinityRank [NeZero F.infinityRank] :
    F.units F.infinityRank = 2 ^ (F.fractionBits + F.blocks - 1) := by
  obtain ⟨blocks, same⟩ := Nat.exists_eq_succ_of_ne_zero F.blocks_pos.ne'
  have start := F.units_block blocks F.normalRank (.inr le_rfl) (by omega)
  rw [infinityRank, same, Nat.succ_mul]
  exact start.trans (by rw [normalRank, ← pow_add]; rfl)

theorem even_infinityRank [NeZero F.fractionBits] : Even F.infinityRank :=
  even_normalRank.mul_left _

end Format

namespace Binary

variable {F : Format} {x : Binary F} {exact : ℚ} {a : ℤ}

/-! ## Finite numbers as decimals -/

/-- The decimal of a finite number. -/
def decimal (x : Binary F) : Decimal :=
  x.toDecimal?.getD .zero

theorem toDecimal?_eq_some (finite : x.units? = some a) : x.toDecimal? = some x.decimal := by
  obtain ⟨_, _, _, rfl, -⟩ := exists_finite finite
  rfl

theorem inUnits_decimal (finite : x.units? = some a) : F.inUnits x.decimal.toRat = a := by
  obtain ⟨negative, rank, _, rfl, rfl⟩ := exists_finite finite
  have magnitude := F.inUnits_decimal rank
  cases negative with
  | false => exact magnitude
  | true =>
    show F.inUnits (F.decimal rank).neg.toRat = _
    rw [Decimal.toRat_neg, F.inUnits_neg, magnitude, Format.signedUnits, if_pos rfl, Int.cast_neg,
      Int.cast_natCast]

theorem value?_eq_decimal (finite : x.units? = some a) :
    x.value? = some ((x.decimal.toRat : ℝ) : EReal) := by
  rw [value?_of_units finite, ← inUnits_decimal finite, Format.ofUnits_inUnits]

theorem scientific_eq_decimal (finite : x.units? = some a) (direction : Direction) (places : ℕ) :
    x.scientific direction places = x.decimal.scientific direction places := by
  obtain ⟨_, _, _, rfl, -⟩ := exists_finite finite
  rfl

/-! ## Overflow -/

/-- A rounded result is finite exactly if it stays below the midpoint of the largest magnitude
and the place after it. -/
theorem RoundsTo.isFinite_iff [NeZero F.fractionBits] {rank : ℕ} (rounds : RoundsTo exact x)
    (last : F.infinityRank = rank + 1) :
    x.isFinite ↔ 2 * |exact| < F.unitsAt rank + F.unitsAt (rank + 1) := by
  constructor
  · intro finite
    obtain ⟨c, units⟩ := Binary.isFinite_iff.mp finite
    obtain ⟨place, nearest, inside, -, -⟩ := rounds.exists_nearest units
    have odd : Odd rank := by
      have even := F.even_infinityRank
      rwa [last, Nat.even_add_one, Nat.not_even_iff_odd] at even
    exact nearest.two_mul_abs_lt odd (by omega)
  · intro small
    by_contra overflows
    exact absurd (rounds.le_two_mul_abs overflows last) (not_le.mpr small)

end Binary

/-! ## The nearest binary number -/

namespace Decimal

variable {F : Format} {x : Decimal}

/-- The magnitude of a decimal, in units, as the fraction that is rounded. -/
theorem fraction_eq (F : Format) (x : Decimal) :
    ((x.significand.natAbs * 10 ^ x.exponent.toNat * 2 ^ F.unitBits : ℕ) : ℚ) /
      ((10 ^ (-x.exponent).toNat : ℕ) : ℚ) = F.inUnits |x.toRat| := by
  have power : (10 : ℚ) ^ x.exponent.toNat / 10 ^ (-x.exponent).toNat = 10 ^ x.exponent := by
    rw [← zpow_natCast, ← zpow_natCast, ← zpow_sub₀ (by norm_num)]
    congr 1
    omega
  have positive : (0 : ℚ) < 10 ^ x.exponent := by positivity
  have magnitude : (x.significand.natAbs : ℚ) = |(x.significand : ℚ)| := by
    rw [← Int.cast_abs, Int.abs_eq_natAbs, Int.cast_natCast]
  rw [Format.inUnits, toRat, abs_mul, abs_of_pos positive, ← power, ← magnitude]
  push_cast
  ring

/-- Eight is below ten, so a magnitude whose leading position is low enough is less than half a
unit. -/
theorem two_mul_inUnits_lt_one (small : 3 * x.top + F.unitBits + 1 < 0) :
    2 * F.inUnits |x.toRat| < 1 := by
  obtain ⟨k, top⟩ : ∃ k : ℕ, x.top = -(k : ℤ) := ⟨(-x.top).toNat, by omega⟩
  have eight : (10 : ℚ) ^ x.top ≤ 2 ^ (3 * x.top) := by
    rw [zpow_mul, top, zpow_neg, zpow_neg, zpow_natCast, zpow_natCast]
    exact inv_anti₀ (by positivity) (pow_le_pow_left₀ (by norm_num) (by norm_num) k)
  calc 2 * F.inUnits |x.toRat| ≤ 2 * F.inUnits (2 ^ (3 * x.top)) := by
        have below := F.inUnits_strictMono.monotone ((abs_toRat_lt x).le.trans eight)
        linarith
    _ = 2 ^ (3 * x.top + F.unitBits + 1) := by
        rw [Format.inUnits, zpow_add₀ (by norm_num), zpow_add₀ (by norm_num), zpow_natCast]
        ring
    _ < 1 := zpow_lt_one_of_neg₀ (by norm_num) small

/-- And one whose leading position is high enough is beyond all finite magnitudes. -/
theorem units_infinityRank_le [NeZero F.infinityRank] (nonzero : x.significand ≠ 0)
    (reach : F.unitBits ≤ F.blocks + F.fractionBits)
    (large : (F.blocks + F.fractionBits : ℤ) ≤ 3 * (x.top - 1) + F.unitBits + 1) :
    F.units F.infinityRank ≤ F.inUnits |x.toRat| := by
  obtain ⟨k, top⟩ : ∃ k : ℕ, x.top - 1 = k := ⟨(x.top - 1).toNat, by omega⟩
  have eight : (2 : ℚ) ^ (3 * k) ≤ 10 ^ (x.top - 1) := by
    rw [pow_mul, top, zpow_natCast]
    exact pow_le_pow_left₀ (by norm_num) (by norm_num) k
  rw [F.units_infinityRank]
  calc ((2 ^ (F.fractionBits + F.blocks - 1) : ℕ) : ℚ) ≤ 2 ^ (3 * k + F.unitBits) := by
        push_cast
        exact pow_le_pow_right₀ (by norm_num) (by omega)
    _ = F.inUnits (2 ^ (3 * k)) := pow_add ..
    _ ≤ F.inUnits |x.toRat| :=
        F.inUnits_strictMono.monotone (eight.trans (zpow_top_le_abs_toRat nonzero))

end Decimal

namespace Binary

variable {F : Format} [NeZero F.fractionBits] [NeZero F.infinityRank]

/-- The shortcuts change nothing: every decimal is rounded as a fraction of units. -/
theorem nearest_eq_round (reach : F.unitBits ≤ F.blocks + F.fractionBits) (negative : Bool)
    (x : Decimal) :
    (nearest negative x : Binary F) =
      round negative (x.significand.natAbs * 10 ^ x.exponent.toNat * 2 ^ F.unitBits)
        (10 ^ (-x.exponent).toNat) := by
  have nearest := F.nearest_nearestRank
    (x.significand.natAbs * 10 ^ x.exponent.toNat * 2 ^ F.unitBits)
    (Nat.pow_pos (by norm_num) : 0 < 10 ^ (-x.exponent).toNat)
  rw [Decimal.fraction_eq] at nearest
  unfold Binary.nearest round
  split
  · next vanishes =>
    have small : 2 * abs (F.inUnits |x.toRat|) < 1 := by
      rw [F.abs_inUnits, abs_abs]
      rcases Bool.or_eq_true_iff.mp vanishes with zero | low
      · rw [Decimal.isZero_iff.mp zero]
        norm_num
      · exact Decimal.two_mul_inUnits_lt_one (of_decide_eq_true low)
    rw [Int.natCast_eq_zero.mp (nearest.eq_zero small)]
  split
  · next present large =>
    have nonzero : x.significand ≠ 0 := by
      rintro zero
      exact present (by simp [Decimal.isZero, zero])
    have beyond := nearest.le_of_le F.infinityRank <| by
      rw [Format.unitsAt_natCast, Int.cast_natCast]
      exact Decimal.units_infinityRank_le nonzero reach large
    rw [ofRank, dif_neg (by omega)]
  · rfl

/-- A decimal is rounded once. The sign of a zero is free. -/
theorem nearest_roundsTo (reach : F.unitBits ≤ F.blocks + F.fractionBits) {negative : Bool}
    {x : Decimal} (signed : x.toRat ≠ 0 → (negative = true ↔ x.toRat < 0)) :
    RoundsTo (F.inUnits x.toRat) (nearest negative x : Binary F) := by
  have rounds : RoundsTo _ (round negative _ _ : Binary F) :=
    round_roundsTo negative (x.significand.natAbs * 10 ^ x.exponent.toNat * 2 ^ F.unitBits)
      (Nat.pow_pos (by norm_num) : 0 < 10 ^ (-x.exponent).toNat)
  rw [Decimal.fraction_eq, ← nearest_eq_round reach] at rounds
  convert rounds using 1
  by_cases zero : x.toRat = 0
  · simp [zero]
  cases negative with
  | false => rw [if_neg (by decide), abs_of_nonneg (by simpa using signed zero)]
  | true =>
    rw [if_pos rfl, abs_of_neg ((signed zero).mp rfl), F.inUnits_neg, InvolutiveNeg.neg_neg]

end Binary

end LinearEnclosure
