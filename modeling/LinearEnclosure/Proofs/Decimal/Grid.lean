/-
# Rounding decimals on a grid

The multiples of a power of ten form a grid. Rounding at a position, dividing, and adding
with a speck in place of a far smaller summand are three programs for one function: take
the exact rational result to the grid in the given direction. Each of them is proved equal
to that function here, so nothing later looks at digits again.
-/

import LinearEnclosure.Decimal.Rounding
import LinearEnclosure.Proofs.Decimal.Value

namespace LinearEnclosure

namespace Direction

/-- The integer that a rational number goes to: its floor, its ceiling, or the nearest
integer with halves going away from zero. -/
def integer (direction : Direction) (q : ℚ) : ℤ :=
  match direction with
  | down => ⌊q⌋
  | up => ⌈q⌉
  | nearest => if 0 ≤ q then ⌊q + 1 / 2⌋ else -⌊-q + 1 / 2⌋

/-- The point of the grid of multiples of `10 ^ position` that a number goes to. -/
def onGrid (direction : Direction) (position : ℤ) (q : ℚ) : ℚ :=
  direction.integer (q / 10 ^ position) * 10 ^ position

/-- The side of the exact result on which a directed one must lie. To nearest promises
no side. -/
def Bounds (direction : Direction) (exact rounded : ℚ) : Prop :=
  match direction with
  | down => rounded ≤ exact
  | up => exact ≤ rounded
  | nearest => True

variable (direction : Direction)

@[simp] theorem integer_intCast (n : ℤ) : direction.integer n = n := by
  cases direction with
  | down => exact Int.floor_intCast n
  | up => exact Int.ceil_intCast n
  | nearest =>
    have half : ⌊(1 / 2 : ℚ)⌋ = 0 := by norm_num
    simp only [integer]
    split
    · rw [Int.floor_intCast_add, half, add_zero]
    · rw [← Int.cast_neg, Int.floor_intCast_add, half, add_zero, neg_neg]

/-- Integer division rounds the fraction. -/
theorem quotient_eq_integer (numerator : ℤ) {denominator : ℕ} (positive : 0 < denominator) :
    direction.quotient numerator denominator = direction.integer (numerator / denominator) := by
  have scale : (0 : ℚ) < denominator := by exact_mod_cast positive
  cases direction with
  | down => exact (Rat.floor_intCast_div_natCast numerator denominator).symm
  | up =>
    show -(-numerator / denominator) = ⌈(numerator : ℚ) / denominator⌉
    rw [← neg_inj, neg_neg, ← Int.floor_neg, ← neg_div, ← Int.cast_neg,
      Rat.floor_intCast_div_natCast]
  | nearest =>
    have halved (n : ℤ) :
        ⌊(n : ℚ) / denominator + 1 / 2⌋ = (2 * n + denominator) / (2 * denominator) := by
      have fraction : (n : ℚ) / denominator + 1 / 2 =
          ((2 * n + denominator : ℤ) : ℚ) / ((2 * denominator : ℕ) : ℚ) := by
        push_cast
        field_simp
      rw [fraction, Rat.floor_intCast_div_natCast]
      push_cast
      rfl
    have sign : (0 : ℚ) ≤ numerator / denominator ↔ 0 ≤ numerator := by
      rw [le_div_iff₀ scale, zero_mul, Int.cast_nonneg_iff]
    simp only [quotient, integer, sign]
    split
    · rw [halved]
    · rw [← neg_div, ← Int.cast_neg, halved]
      ring_nf

theorem bounds_integer (q : ℚ) : direction.Bounds q (direction.integer q) := by
  cases direction with
  | down => exact Int.floor_le q
  | up => exact Int.le_ceil q
  | nearest => trivial

@[simp] theorem Bounds.refl (q : ℚ) : direction.Bounds q q := by
  cases direction <;> simp [Bounds]

variable {direction}

theorem Bounds.trans {exact middle rounded : ℚ} (first : direction.Bounds exact middle)
    (second : direction.Bounds middle rounded) : direction.Bounds exact rounded := by
  cases direction with
  | down => exact le_trans second first
  | up => exact le_trans first second
  | nearest => trivial

theorem Bounds.mul_of_pos {exact rounded scale : ℚ} (positive : 0 < scale)
    (bounds : direction.Bounds exact rounded) :
    direction.Bounds (exact * scale) (rounded * scale) := by
  cases direction with
  | down => exact mul_le_mul_of_nonneg_right bounds positive.le
  | up => exact mul_le_mul_of_nonneg_right bounds positive.le
  | nearest => trivial

/-- A point of the grid lies on the side that the direction promises. -/
theorem bounds_onGrid (direction : Direction) (position : ℤ) (q : ℚ) :
    direction.Bounds q (direction.onGrid position q) := by
  have power : (0 : ℚ) < 10 ^ position := by positivity
  have scaled := (direction.bounds_integer (q / 10 ^ position)).mul_of_pos power
  rwa [div_mul_cancel₀ _ power.ne'] at scaled

/-! ## Summands below the grid -/

section Near

variable {ε δ : ℚ}

/-- Next to an integer, a quotient of integers takes notice of the floor of a summand only. -/
private theorem floor_near (floors : ⌊ε⌋ = ⌊δ⌋) (k : ℤ) (n : ℕ) :
    ⌊(k + ε) / n⌋ = ⌊(k + δ) / n⌋ := by
  rw [Int.floor_div_natCast, Int.floor_div_natCast, Int.floor_intCast_add,
    Int.floor_intCast_add, floors]

/-- Half a step of a coarse grid is a whole number of steps of the fine one. -/
private theorem floor_half_near (floors : ⌊ε⌋ = ⌊δ⌋) (small : |ε| < 1 / 10)
    (small' : |δ| < 1 / 10) (k : ℤ) (j : ℕ) :
    ⌊(k + ε) / (10 ^ j : ℕ) + 1 / 2⌋ = ⌊(k + δ) / (10 ^ j : ℕ) + 1 / 2⌋ := by
  obtain ⟨low, high⟩ := abs_lt.mp small
  obtain ⟨low', high'⟩ := abs_lt.mp small'
  cases j with
  | zero =>
    have settled {ζ : ℚ} (low : -(1 / 10) < ζ) (high : ζ < 1 / 10) :
        ⌊(k + ζ) / (10 ^ 0 : ℕ) + 1 / 2⌋ = k := by
      rw [Int.floor_eq_iff]
      constructor <;> norm_num <;> linarith
    rw [settled low high, settled low' high']
  | succ j =>
    have shift (ζ : ℚ) : (k + ζ) / (10 ^ (j + 1) : ℕ) + 1 / 2 =
        ((k + 5 * 10 ^ j : ℤ) + ζ) / (10 ^ (j + 1) : ℕ) := by
      push_cast
      field_simp
      ring
    rw [shift, shift, floor_near floors]

private theorem floor_of_small {ζ : ℚ} (small : |ζ| < 1 / 10) :
    ⌊ζ⌋ = if ζ < 0 then -1 else 0 := by
  obtain ⟨low, high⟩ := abs_lt.mp small
  by_cases negative : ζ < 0
  · rw [if_pos negative, Int.floor_eq_iff]
    constructor <;> push_cast <;> linarith
  · rw [if_neg negative, Int.floor_eq_iff]
    constructor <;> push_cast <;> linarith

/-- Next to a multiple of the fine step, a small number matters only by its sign. -/
theorem integer_near (direction : Direction) (small : |ε| < 1 / 10) (small' : |δ| < 1 / 10)
    (negative : ε < 0 ↔ δ < 0) (positive : 0 < ε ↔ 0 < δ) (k : ℤ) (j : ℕ) :
    direction.integer ((k + ε) / (10 ^ j : ℕ)) = direction.integer ((k + δ) / (10 ^ j : ℕ)) := by
  have floors : ⌊ε⌋ = ⌊δ⌋ := by
    rw [floor_of_small small, floor_of_small small', if_congr negative rfl rfl]
  have mirrored : ⌊-ε⌋ = ⌊-δ⌋ := by
    rw [floor_of_small (by rwa [abs_neg]), floor_of_small (by rwa [abs_neg])]
    simp only [neg_lt_zero, positive]
  have reflect (ζ : ℚ) : -((k + ζ) / (10 ^ j : ℕ)) = ((-k : ℤ) + -ζ) / (10 ^ j : ℕ) := by
    push_cast
    ring
  cases direction with
  | down => exact floor_near floors k _
  | up =>
    show ⌈(k + ε) / (10 ^ j : ℕ)⌉ = ⌈(k + δ) / (10 ^ j : ℕ)⌉
    rw [← neg_inj, ← Int.floor_neg, ← Int.floor_neg, reflect, reflect, floor_near mirrored]
  | nearest =>
    have sign : 0 ≤ (k + ε) / (10 ^ j : ℕ) ↔ 0 ≤ (k + δ) / (10 ^ j : ℕ) := by
      rw [← Int.floor_nonneg, floor_near floors, Int.floor_nonneg]
    simp only [integer, sign]
    split
    · exact floor_half_near floors small small' k j
    · rw [reflect, reflect, floor_half_near mirrored (by rwa [abs_neg]) (by rwa [abs_neg])]

end Near

end Direction

namespace Decimal

/-- Rounding at a position takes the number to the grid. -/
theorem toRat_roundAt (direction : Direction) (position : ℤ) (x : Decimal) :
    (roundAt direction position x).toRat = direction.onGrid position x.toRat := by
  have power : (10 : ℚ) ^ position ≠ 0 := by positivity
  unfold roundAt Direction.onGrid
  split
  · next multiple =>
    rw [← scaled_mul_zpow multiple, mul_div_cancel_right₀ _ power, Direction.integer_intCast]
  · next finer =>
    have gap : ((position - x.exponent).toNat : ℤ) = position - x.exponent := by omega
    have fraction : (x.significand : ℚ) / (10 ^ (position - x.exponent).toNat : ℕ) =
        x.toRat / 10 ^ position := by
      push_cast
      rw [← zpow_natCast, gap, zpow_sub₀ (by norm_num), toRat]
      field_simp
    rw [toRat_of, Direction.quotient_eq_integer _ _ (by positivity), fraction]

/-- Division takes the exact quotient to the grid. -/
theorem toRat_quotientAt (direction : Direction) (position : ℤ) (x : Decimal) {y : Decimal}
    (nonzero : y.toRat ≠ 0) :
    (quotientAt direction position x y).toRat =
      direction.onGrid position (x.toRat / y.toRat) := by
  have divisor : y.significand ≠ 0 := mt toRat_eq_zero_iff.mpr nonzero
  have positive : 0 < y.significand.natAbs := by omega
  simp only [quotientAt, Direction.onGrid, toRat_of]
  generalize shift : x.exponent - y.exponent - position = s
  have power : (10 : ℚ) ^ s.toNat / 10 ^ (-s).toNat = 10 ^ s := by
    rw [← zpow_natCast, ← zpow_natCast, ← zpow_sub₀ (by norm_num)]
    congr 1
    omega
  have magnitude : (y.significand.natAbs : ℚ) = y.significand.sign * y.significand := by
    rw [← Int.cast_mul, Int.sign_mul_self_eq_natAbs, Int.cast_natCast]
  have unit : (y.significand.sign : ℚ) ≠ 0 := by
    rwa [Int.cast_ne_zero, Ne, Int.sign_eq_zero_iff_zero]
  have fraction : ((y.significand.sign * x.significand * (10 ^ s.toNat : ℕ) : ℤ) : ℚ) /
      ((y.significand.natAbs * 10 ^ (-s).toNat : ℕ) : ℚ) = x.toRat / y.toRat / 10 ^ position := by
    push_cast
    rw [magnitude, mul_div_mul_comm, power, mul_div_mul_left _ _ unit, ← shift,
      zpow_sub₀ (by norm_num), zpow_sub₀ (by norm_num), toRat, toRat, mul_div_mul_comm,
      mul_div_assoc]
  rw [Direction.quotient_eq_integer _ _ (by positivity), fraction]

/-- A number that lies wholly below a position is small in units of it. -/
private theorem abs_div_zpow_lt {position : ℤ} {y : Decimal} (below : y.top < position) :
    |y.toRat / 10 ^ position| < 1 / 10 := by
  have power : (0 : ℚ) < 10 ^ position := by positivity
  rw [abs_div, abs_of_pos power, div_lt_iff₀ power]
  calc |y.toRat| < 10 ^ y.top := abs_toRat_lt y
    _ ≤ 10 ^ (position - 1) := zpow_le_zpow_right₀ (by norm_num) (by omega)
    _ = 1 / 10 * 10 ^ position := by
      rw [zpow_sub₀ (by norm_num)]
      ring

private theorem speck_div_zpow (sign position : ℤ) :
    (speck sign position).toRat / 10 ^ position = (sign.sign : ℚ) / 100 := by
  rw [speck, toRat_of, zpow_sub₀ (by norm_num)]
  field_simp
  norm_num

private theorem abs_speck_div_zpow_lt (sign position : ℤ) :
    |(speck sign position).toRat / 10 ^ position| < 1 / 10 := by
  rw [speck_div_zpow]
  rcases lt_trichotomy sign 0 with negative | rfl | positive
  · rw [Int.sign_eq_neg_one_of_neg negative]
    norm_num
  · norm_num
  · rw [Int.sign_eq_one_of_pos positive]
    norm_num

/-- A speck has the sign of the number that it stands in for. -/
private theorem speck_neg_iff (y : Decimal) (position : ℤ) :
    y.toRat / 10 ^ position < 0 ↔ (speck y.significand position).toRat / 10 ^ position < 0 := by
  have power : (0 : ℚ) < 10 ^ position := by positivity
  have hundred : (0 : ℚ) < 100 := by norm_num
  rw [speck_div_zpow, div_lt_iff₀ power, div_lt_iff₀ hundred, zero_mul, zero_mul, toRat_neg_iff,
    Int.cast_lt_zero, Int.sign_neg_iff]

private theorem speck_pos_iff (y : Decimal) (position : ℤ) :
    0 < y.toRat / 10 ^ position ↔ 0 < (speck y.significand position).toRat / 10 ^ position := by
  have power : (0 : ℚ) < 10 ^ position := by positivity
  have hundred : (0 : ℚ) < 100 := by norm_num
  rw [speck_div_zpow, lt_div_iff₀ power, lt_div_iff₀ hundred, zero_mul, zero_mul, toRat_pos_iff,
    Int.cast_pos, Int.sign_pos_iff]

/-- Addition takes the exact sum to the grid, also where a speck stands in for a summand. -/
theorem toRat_sumAt (direction : Direction) (position : ℤ) (x y : Decimal) :
    (sumAt direction position x y).toRat = direction.onGrid position (x.toRat + y.toRat) := by
  simp only [sumAt, toRat_roundAt, toRat_add]
  split
  · next below =>
    generalize floor : min x.exponent position = fine at below ⊢
    have power : (10 : ℚ) ^ fine ≠ 0 := by positivity
    -- In units of the fine grid `x` is an integer, and the coarse grid is a multiple of it.
    have split (z : ℚ) : (x.toRat + z) / 10 ^ position =
        (x.scaled fine + z / 10 ^ fine) / (10 ^ (position - fine).toNat : ℕ) := by
      have gap : ((position - fine).toNat : ℤ) = position - fine := by omega
      push_cast
      rw [← zpow_natCast, gap, zpow_sub₀ (by norm_num),
        ← scaled_mul_zpow (by omega : fine ≤ x.exponent)]
      field_simp
    simp only [Direction.onGrid, split]
    rw [Direction.integer_near direction (abs_speck_div_zpow_lt _ _) (abs_div_zpow_lt below)
      (speck_neg_iff y fine).symm (speck_pos_iff y fine).symm]
  · rfl

theorem toRat_roundTo (direction : Direction) (digits : ℕ) (x : Decimal) :
    (roundTo direction digits x).toRat = direction.onGrid (x.top - digits) x.toRat :=
  toRat_roundAt direction _ x

end Decimal

end LinearEnclosure
