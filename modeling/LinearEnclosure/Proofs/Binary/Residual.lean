/-
# Directed products and quotients

The side of an exact product or quotient is read off a fused residual, which is rounded once.
Its sign survives that rounding unless the residual is at most half a unit: then it vanishes,
no step is taken, and the inexact result is a bound on one side only. Tiny results are stepped
without a residual and are always safe. But a residual can also vanish for results that are
not tiny: the error of a product is far smaller than the product, and a remainder is smaller
than its dividend, however large the quotient.
-/

import LinearEnclosure.Proofs.Binary.Directed

namespace LinearEnclosure

namespace Format

variable {F : Format}

variable (F) in
/-- A number that is not zero, but is rounded to zero: it is at most half a unit. -/
def Vanishes (residual : ℝ) : Prop :=
  residual ≠ 0 ∧ |residual| ≤ F.ofUnits (1 / 2)

theorem not_vanishes_one_div {k : ℕ} (fits : k ≤ F.unitBits) : ¬F.Vanishes (1 / 2 ^ k) := by
  rintro ⟨-, small⟩
  have power : (1 / 2 ^ F.unitBits : ℝ) ≤ 1 / 2 ^ k :=
    one_div_le_one_div_of_le (by positivity) (pow_le_pow_right₀ one_le_two fits)
  have positive : (0 : ℝ) < 1 / 2 ^ k := by positivity
  have half : F.ofUnits (1 / 2) = 1 / 2 ^ F.unitBits / 2 := by
    rw [ofUnits, div_right_comm]
    norm_num
  rw [abs_of_pos positive, half] at small
  linarith

theorem vanishes_ofUnits {w : ℚ} : F.Vanishes (F.ofUnits w) ↔ w ≠ 0 ∧ 2 * |w| ≤ 1 := by
  have size : |F.ofUnits w| = F.ofUnits |w| := by
    rw [ofUnits, ofUnits, abs_div, abs_of_pos (show (0 : ℝ) < 2 ^ F.unitBits by positivity),
      Rat.cast_abs]
  rw [Vanishes, size, F.ofUnits_strictMono.le_iff_le, ← F.ofUnits_zero,
    F.ofUnits_strictMono.injective.ne_iff, le_div_iff₀' two_pos]

end Format

namespace Binary

variable {F : Format} {x y z : Binary F} {a b c : ℤ}

/-- The value is finite and not tiny, but the residual that it leaves vanishes. -/
def LosesResidual (z : Binary F) (residual : ℝ → ℝ) : Prop :=
  ∃ value : ℝ, z.value? = some (value : EReal) ∧ ¬z.isTiny ∧ F.Vanishes (residual value)

theorem losesResidual_iff {residual : ℝ → ℝ} (finite : z.units? = some c) :
    z.LosesResidual residual ↔ ¬z.isTiny ∧ F.Vanishes (residual (F.ofUnits c)) := by
  simp only [LosesResidual, value?_of_units finite, Option.some.injEq, EReal.coe_eq_coe_iff,
    exists_eq_left']

/-- A residual is kept if it is zero for tiny values and not lost for the others. -/
theorem not_vanishes_of_kept {residual : ℝ → ℝ} (finite : z.units? = some c)
    (kept : ¬z.LosesResidual residual) (zero : z.isTiny → residual (F.ofUnits c) = 0) :
    ¬F.Vanishes (residual (F.ofUnits c)) := by
  intro vanishes
  by_cases tiny : z.isTiny
  · exact vanishes.1 (zero tiny)
  · exact kept ((losesResidual_iff finite).mpr ⟨tiny, vanishes⟩)

theorem LosesResidual.exists_units {residual : ℝ → ℝ} (lost : z.LosesResidual residual) :
    ∃ c, z.units? = some c := by
  obtain ⟨_, finite, -, -⟩ := lost
  obtain ⟨c, units, -⟩ := Binary.exists_units finite
  exact ⟨c, units⟩

/-! ## The sign of a rounded residual -/

namespace RoundsTo

variable [NeZero F.infinityRank] {residual : ℚ}

theorem isPositive_iff (rounds : RoundsTo residual z) : z.isPositive ↔ 1 < 2 * residual := by
  obtain ⟨place, nearest, stands⟩ := rounds
  have positive := Nat.pos_of_neZero F.infinityRank
  rw [isPositive, stands, decide_eq_true_iff, ← nearest.pos_iff, Format.clamp]
  omega

theorem isNegative_iff (rounds : RoundsTo residual z) : z.isNegative ↔ 1 < 2 * -residual := by
  obtain ⟨place, nearest, stands⟩ := rounds
  have positive := Nat.pos_of_neZero F.infinityRank
  rw [isNegative, stands, decide_eq_true_iff, ← nearest.neg.pos_iff, Format.clamp]
  omega

theorem isZero_iff_not (rounds : RoundsTo residual z) :
    z.isZero ↔ ¬z.isPositive ∧ ¬z.isNegative := by
  have positive := Nat.pos_of_neZero F.infinityRank
  obtain ⟨place, -, stands⟩ := rounds
  cases z with
  | finite negative rank _ => cases negative <;> simp [isZero, isPositive, isNegative, place?]
  | infinite negative => cases negative <;> simp [isZero, isPositive, isNegative, place?, positive]
  | nan => cases stands

theorem isZero_iff (rounds : RoundsTo residual z) : z.isZero ↔ 2 * |residual| ≤ 1 := by
  rw [rounds.isZero_iff_not, rounds.isPositive_iff, rounds.isNegative_iff, not_lt, not_lt,
    abs_eq_max_neg, mul_max_of_nonneg _ _ zero_le_two, max_le_iff]

/-- The sign of a residual that does not vanish is kept. -/
theorem signs (rounds : RoundsTo residual z) (kept : ¬F.Vanishes (F.ofUnits residual)) :
    (z.isNegative ↔ residual < 0) ∧ (z.isPositive ↔ 0 < residual) ∧
      (z.isZero ↔ residual = 0) := by
  rw [Format.vanishes_ofUnits, not_and, not_le] at kept
  rw [rounds.isNegative_iff, rounds.isPositive_iff, rounds.isZero_iff]
  refine ⟨⟨fun large => by linarith, fun negative => ?_⟩,
    ⟨fun large => by linarith, fun positive => ?_⟩,
    fun small => ?_, fun zero => by simp [zero]⟩
  · rw [← abs_of_neg negative]
    exact kept negative.ne
  · rw [← abs_of_pos positive]
    exact kept positive.ne'
  · by_contra nonzero
    exact (kept nonzero).not_ge small

/-- A residual that vanishes has no sign. -/
theorem signs_of_vanishes (rounds : RoundsTo residual z)
    (vanishes : F.Vanishes (F.ofUnits residual)) :
    z.isNegative = false ∧ z.isPositive = false ∧ z.isZero = true := by
  have zero := rounds.isZero_iff.mpr (Format.vanishes_ofUnits.mp vanishes).2
  obtain ⟨above, below⟩ := rounds.isZero_iff_not.mp zero
  exact ⟨Bool.eq_false_of_not_eq_true below, Bool.eq_false_of_not_eq_true above, zero⟩

end RoundsTo

/-- A tiny result is stepped to near bounds. -/
theorem step_near [NeZero F.infinityRank] {exact : ℚ} (rounds : RoundsTo exact z)
    (tiny : z.isTiny) :
    (z.step .down).IsNearFloor (F.ofUnits exact) ∧ (z.step .up).IsNearCeil (F.ofUnits exact) := by
  obtain ⟨c, finite⟩ := exists_units_of_isTiny tiny
  exact ⟨nextDown_isNearFloor rounds finite, nextUp_isNearCeil rounds finite⟩

/-! ## Products -/

section Product

theorem productError_eq (a b c : ℤ) :
    F.ofUnits a * F.ofUnits b - F.ofUnits c = F.ofUnits (a * b / 2 ^ F.unitBits - c) := by
  rw [F.ofUnits_mul, ← F.ofUnits_sub]

variable [NeZero F.fractionBits]

/-- What a rounded product leaves out, in units. -/
theorem productError_roundsTo (left : x.units? = some a) (right : y.units? = some b)
    (product : (x.mul y).units? = some c) :
    RoundsTo (a * b / 2 ^ F.unitBits - c) (mulAdd x y (x.mul y).neg) := by
  have rounds := mulAdd_roundsTo left right (units?_neg product)
  rwa [Int.cast_neg, ← sub_eq_add_neg] at rounds

theorem mulDirected_near [NeZero F.infinityRank] (left : x.units? = some a)
    (right : y.units? = some b)
    (kept : ¬(x.mul y).LosesResidual fun product => F.ofUnits a * F.ofUnits b - product) :
    (mulDirected .down x y).IsNearFloor (F.ofUnits (a * b / 2 ^ F.unitBits)) ∧
      (mulDirected .up x y).IsNearCeil (F.ofUnits (a * b / 2 ^ F.unitBits)) := by
  have rounds := mul_roundsTo left right
  by_cases stepped : (x.mul y).isTiny && !x.isZero && !y.isZero
  · simp only [mulDirected, stepped, reduceCtorEq, if_false, if_true]
    exact step_near rounds (by grind)
  · simp only [mulDirected, stepped, reduceCtorEq, if_false]
    refine And.imp IsFloor.near IsCeil.near (adjust_tight rounds fun c product => ?_)
    have zero (tiny : (x.mul y).isTiny) : F.ofUnits a * F.ofUnits b - F.ofUnits c = 0 := by
      -- A product that is tiny and not stepped is an exact zero.
      have operand : a = 0 ∨ b = 0 := by
        rw [← isZero_iff_units left, ← isZero_iff_units right]
        grind
      have exact : (a * b / 2 ^ F.unitBits : ℚ) = 0 := by
        rcases operand with rfl | rfl <;> simp
      rw [exact] at rounds
      rw [productError_eq, exact, rounds.eq_zero product]
      simp
    have known := not_vanishes_of_kept product kept zero
    rw [productError_eq] at known
    have signs := (productError_roundsTo left right product).signs known
    rw [signs.1, signs.2.1, sub_neg, sub_pos]
    exact ⟨Iff.rfl, Iff.rfl⟩

theorem mulDirected_of_losesResidual [NeZero F.infinityRank] (left : x.units? = some a)
    (right : y.units? = some b) (product : (x.mul y).units? = some c)
    (lost : (x.mul y).LosesResidual fun product => F.ofUnits a * F.ofUnits b - product)
    (direction : Direction) : mulDirected direction x y = x.mul y := by
  rw [losesResidual_iff product, productError_eq] at lost
  obtain ⟨large, vanishes⟩ := lost
  obtain ⟨below, above, -⟩ := (productError_roundsTo left right product).signs_of_vanishes vanishes
  simp [mulDirected, large, below, above, adjust_false product]

/-- Directed products of finite values are bounds of the exact product, each at most one value
away from the tightest one, exactly when the error of the rounded product does not vanish. -/
theorem mulDirected_near_iff {v w : ℝ} (left : x.value? = some (v : EReal))
    (right : y.value? = some (w : EReal)) :
    (mulDirected .down x y).IsNearFloor (v * w) ∧ (mulDirected .up x y).IsNearCeil (v * w) ↔
      ¬(x.mul y).LosesResidual fun product => v * w - product := by
  obtain ⟨m, first, rfl⟩ := exists_units left
  obtain ⟨n, second, rfl⟩ := exists_units right
  have : NeZero F.infinityRank := neZero_infinityRank first
  refine ⟨fun bounds lost => ?_, fun kept => ?_⟩
  · obtain ⟨c, product⟩ := lost.exists_units
    rw [mulDirected_of_losesResidual first second product lost,
      mulDirected_of_losesResidual first second product lost, F.ofUnits_mul] at bounds
    rw [losesResidual_iff product, productError_eq, Format.vanishes_ofUnits] at lost
    exact not_bounds product (sub_ne_zero.mp lost.2.1).symm bounds
  · rw [F.ofUnits_mul]
    exact mulDirected_near first second kept

/-- The square of the least number above one is not representable. -/
theorem mulDirected_near_square :
    (mulDirected .down (finite false (1023 * 2 ^ 52 + 1) (by decide) : Double)
        (finite false (1023 * 2 ^ 52 + 1) (by decide))).IsNearFloor
        ((2 ^ 52 + 1) / 2 ^ 52 * ((2 ^ 52 + 1) / 2 ^ 52)) ∧
      (mulDirected .up (finite false (1023 * 2 ^ 52 + 1) (by decide) : Double)
        (finite false (1023 * 2 ^ 52 + 1) (by decide))).IsNearCeil
        ((2 ^ 52 + 1) / 2 ^ 52 * ((2 ^ 52 + 1) / 2 ^ 52)) := by
  have operand : (finite false (1023 * 2 ^ 52 + 1) (by decide) : Double).value? =
      some (((2 ^ 52 + 1) / 2 ^ 52 : ℝ) : EReal) := by
    rw [value?_of_dyadic (2 ^ 52 + 1) 52 (by decide) (by decide +kernel)]
    norm_num
  apply (mulDirected_near_iff operand operand).mpr
  rintro ⟨product, stands, -, vanishes⟩
  rw [value?_of_dyadic (2 ^ 52 + 2) 52 (by decide) (by decide +kernel)] at stands
  obtain rfl := EReal.coe_eq_coe_iff.mp (Option.some.inj stands)
  have kept : ¬Format.double.Vanishes (1 / 2 ^ 104) := Format.not_vanishes_one_div (by decide)
  apply kept
  convert vanishes using 1
  norm_num

/-- The product of that number and the least normal number but one is an inexact normal number,
and its error is far below a unit. The product is too small for an upper bound. -/
theorem mulDirected_up_below_product :
    (finite false (1023 * 2 ^ 52 + 1) (by decide) : Double).value? =
        some (((2 ^ 52 + 1) / 2 ^ 52 : ℝ) : EReal) ∧
      (finite false (2 ^ 52 + 1) (by decide) : Double).value? =
        some (((2 ^ 52 + 1) / 2 ^ 1074 : ℝ) : EReal) ∧
      ¬(mulDirected .up (finite false (1023 * 2 ^ 52 + 1) (by decide) : Double)
        (finite false (2 ^ 52 + 1) (by decide))).IsNearCeil
        ((2 ^ 52 + 1) / 2 ^ 52 * ((2 ^ 52 + 1) / 2 ^ 1074)) := by
  refine ⟨?_, ?_, ?_⟩
  · rw [value?_of_dyadic (2 ^ 52 + 1) 52 (by decide) (by decide +kernel)]
    norm_num
  · rw [value?_of_dyadic (2 ^ 52 + 1) 1074 (by decide) (by decide +kernel)]
    norm_num
  · rintro ⟨v, stands, above, -⟩
    rw [value?_of_dyadic (2 ^ 52 + 2) 1074 (by decide) (by decide +kernel)] at stands
    obtain rfl := Option.some.inj stands
    have positive : (0 : ℝ) < 2 ^ 1074 := by positivity
    rw [EReal.coe_le_coe_iff, mul_div_assoc', div_le_div_iff_of_pos_right positive] at above
    norm_num at above

end Product

/-! ## Quotients -/

section Quotient

theorem remainder_eq (a b c : ℤ) :
    F.ofUnits a - F.ofUnits c * F.ofUnits b = F.ofUnits (a - c * b / 2 ^ F.unitBits) := by
  rw [F.ofUnits_mul, ← F.ofUnits_sub]

/-- The remainder is the distance of the exact quotient from the rounded one, times the
divisor. -/
theorem remainder_eq_mul (a c : ℤ) (nonzero : b ≠ 0) :
    (a - c * b / 2 ^ F.unitBits : ℚ) =
      (a * 2 ^ F.unitBits / b - c) * (b / 2 ^ F.unitBits) := by
  have : (b : ℚ) ≠ 0 := Int.cast_ne_zero.mpr nonzero
  field_simp

variable [NeZero F.fractionBits]

/-- The remainder, in units. -/
theorem remainder_roundsTo (left : x.units? = some a) (right : y.units? = some b)
    (quotient : (x.div y).units? = some c) :
    RoundsTo (a - c * b / 2 ^ F.unitBits) (mulAdd (x.div y).neg y x) := by
  have rounds := mulAdd_roundsTo (units?_neg quotient) right left
  rwa [Int.cast_neg, neg_mul, neg_div, neg_add_eq_sub] at rounds

/-- The exact quotient lies above the rounded one if remainder and divisor have one sign. -/
private theorem remainder_side {zero above positive : Bool} {distance divisor : ℚ}
    (nonzero : divisor ≠ 0) (rest_zero : zero ↔ distance * divisor = 0)
    (rest_sign : above ↔ 0 < distance * divisor) (divisor_sign : positive ↔ 0 < divisor) :
    ((!zero && !(above == positive)) ↔ distance < 0) ∧
      ((!zero && (above == positive)) ↔ 0 < distance) := by
  have vanishing : distance * divisor = 0 ↔ distance = 0 := by simp [nonzero]
  have sides := lt_trichotomy distance 0
  rcases nonzero.lt_or_gt with negative | large
  · have sign : 0 < distance * divisor ↔ distance < 0 := by
      rw [← neg_mul_neg, mul_pos_iff_of_pos_right (neg_pos.mpr negative), neg_pos]
    grind
  · have sign : 0 < distance * divisor ↔ 0 < distance := mul_pos_iff_of_pos_right large
    grind

theorem divDirected_near [NeZero F.infinityRank] (left : x.units? = some a)
    (right : y.units? = some b) (nonzero : b ≠ 0)
    (kept : ¬(x.div y).LosesResidual fun quotient => F.ofUnits a - quotient * F.ofUnits b) :
    (divDirected .down x y).IsNearFloor (F.ofUnits (a * 2 ^ F.unitBits / b)) ∧
      (divDirected .up x y).IsNearCeil (F.ofUnits (a * 2 ^ F.unitBits / b)) := by
  have rounds := div_roundsTo left right nonzero
  have divisor : y.isZero = false := by
    rw [← Bool.not_eq_true, isZero_iff_units right]
    exact nonzero
  by_cases stepped : (x.div y).isTiny && !x.isZero
  · simp only [divDirected, stepped, divisor, reduceCtorEq, decide_false, Bool.and_false,
      Bool.or_false, Bool.false_eq_true, if_false, if_true]
    exact step_near rounds (by grind)
  · simp only [divDirected, stepped, divisor, reduceCtorEq, decide_false, Bool.and_false,
      Bool.or_false, Bool.false_eq_true, if_false]
    refine And.imp IsFloor.near IsCeil.near (adjust_tight rounds fun c quotient => ?_)
    have zero (tiny : (x.div y).isTiny) : F.ofUnits a - F.ofUnits c * F.ofUnits b = 0 := by
      -- A quotient that is tiny and not stepped is an exact zero.
      obtain rfl : a = 0 := by
        rw [← isZero_iff_units left]
        grind
      rw [Int.cast_zero, zero_mul, zero_div] at rounds
      simp [rounds.eq_zero quotient]
    have known := not_vanishes_of_kept quotient kept zero
    rw [remainder_eq] at known
    obtain ⟨-, rest_sign, rest_zero⟩ := (remainder_roundsTo left right quotient).signs known
    rw [remainder_eq_mul a c nonzero] at rest_sign rest_zero
    have divisor_sign : y.isPositive ↔ (0 : ℚ) < b / 2 ^ F.unitBits := by
      rw [isPositive_iff right, div_pos_iff_of_pos_right (by positivity), Int.cast_pos]
    have divisor_ne : (b / 2 ^ F.unitBits : ℚ) ≠ 0 :=
      div_ne_zero (Int.cast_ne_zero.mpr nonzero) (by positivity)
    have sides := remainder_side divisor_ne rest_zero rest_sign divisor_sign
    rwa [sub_neg, sub_pos] at sides

theorem divDirected_of_losesResidual [NeZero F.infinityRank] (left : x.units? = some a)
    (right : y.units? = some b) (quotient : (x.div y).units? = some c)
    (lost : (x.div y).LosesResidual fun quotient => F.ofUnits a - quotient * F.ofUnits b)
    (direction : Direction) : divDirected direction x y = x.div y := by
  rw [losesResidual_iff quotient, remainder_eq] at lost
  obtain ⟨large, vanishes⟩ := lost
  obtain ⟨-, -, zero⟩ := (remainder_roundsTo left right quotient).signs_of_vanishes vanishes
  simp [divDirected, large, zero, adjust_false quotient]

/-- Directed quotients of finite values are bounds of the exact quotient, each at most one value
away from the tightest one, exactly when the remainder of the rounded quotient does not
vanish. -/
theorem divDirected_near_iff {v w : ℝ} (left : x.value? = some (v : EReal))
    (right : y.value? = some (w : EReal)) (nonzero : w ≠ 0) :
    (divDirected .down x y).IsNearFloor (v / w) ∧ (divDirected .up x y).IsNearCeil (v / w) ↔
      ¬(x.div y).LosesResidual fun quotient => v - quotient * w := by
  obtain ⟨m, first, rfl⟩ := exists_units left
  obtain ⟨n, second, rfl⟩ := exists_units right
  have : NeZero F.infinityRank := neZero_infinityRank first
  have nonzero : n ≠ 0 := by
    rintro rfl
    exact nonzero (by simp)
  refine ⟨fun bounds lost => ?_, fun kept => ?_⟩
  · obtain ⟨c, quotient⟩ := lost.exists_units
    rw [divDirected_of_losesResidual first second quotient lost,
      divDirected_of_losesResidual first second quotient lost, F.ofUnits_div] at bounds
    rw [losesResidual_iff quotient, remainder_eq, Format.vanishes_ofUnits,
      remainder_eq_mul m c nonzero] at lost
    exact not_bounds quotient (sub_ne_zero.mp (left_ne_zero_of_mul lost.2.1)).symm bounds
  · rw [F.ofUnits_div]
    exact divDirected_near first second nonzero kept

/-- One third is not representable. -/
theorem divDirected_near_third :
    (divDirected .down (Binary.one : Double) (Binary.ofNat 3)).IsNearFloor (1 / 3) ∧
      (divDirected .up (Binary.one : Double) (Binary.ofNat 3)).IsNearCeil (1 / 3) := by
  have one : (Binary.one : Double).value? = some ((1 : ℝ) : EReal) := by
    simpa using value?_of_dyadic (x := (Binary.one : Double)) 1 0 (by decide) (by decide +kernel)
  have three : (Binary.ofNat 3 : Double).value? = some ((3 : ℝ) : EReal) := by
    simpa using value?_of_dyadic (x := (Binary.ofNat 3 : Double)) 3 0 (by decide)
      (by decide +kernel)
  apply (divDirected_near_iff one three (by norm_num)).mpr
  rintro ⟨quotient, stands, -, vanishes⟩
  rw [value?_of_dyadic 6004799503160661 54 (by decide) (by decide +kernel)] at stands
  obtain rfl := EReal.coe_eq_coe_iff.mp (Option.some.inj stands)
  have kept : ¬Format.double.Vanishes (1 / 2 ^ 54) := Format.not_vanishes_one_div (by decide)
  apply kept
  convert vanishes using 1
  norm_num

/-- The quotient of one and three units is one third as well, but the remainder is far below a
unit. The quotient is too small for an upper bound. -/
theorem divDirected_up_below_third :
    (finite false 1 (by decide) : Double).value? = some ((1 / 2 ^ 1074 : ℝ) : EReal) ∧
      (finite false 3 (by decide) : Double).value? = some ((3 / 2 ^ 1074 : ℝ) : EReal) ∧
      ¬(divDirected .up (finite false 1 (by decide) : Double)
        (finite false 3 (by decide))).IsNearCeil (1 / 2 ^ 1074 / (3 / 2 ^ 1074)) := by
  refine ⟨?_, ?_, ?_⟩
  · rw [value?_of_dyadic 1 1074 (by decide) (by decide +kernel), Int.cast_one]
  · rw [value?_of_dyadic 3 1074 (by decide) (by decide +kernel), Int.cast_ofNat]
  · rintro ⟨v, stands, above, -⟩
    rw [value?_of_dyadic 6004799503160661 54 (by decide) (by decide +kernel)] at stands
    obtain rfl := Option.some.inj stands
    have nonzero : (2 : ℝ) ^ 1074 ≠ 0 := by positivity
    rw [EReal.coe_le_coe_iff, div_div_div_cancel_right₀ nonzero] at above
    norm_num at above

end Quotient

end Binary

end LinearEnclosure
