/-
# Zeros and what is not a number

A zero stays zero in a product with a finite number, in a quotient by anything that is neither
zero nor without a value, and in a difference of zeros. Its product with an infinity is not a
number, and then nothing that is computed from the product is.
-/

import LinearEnclosure.Arithmetic
import LinearEnclosure.Proofs.Binary.Rounding

namespace LinearEnclosure

@[simp] theorem Format.nearestRank_zero (F : Format) (denominator : ℕ) :
    F.nearestRank 0 denominator = 0 := by
  simp [nearestRank, halfEven]

namespace Binary

variable {F : Format} {x y : Binary F}

/-! ## What is not a number -/

@[simp] theorem neg_nan : (nan : Binary F).neg = nan := rfl

@[simp] theorem nan_add (x : Binary F) : nan.add x = nan := rfl

@[simp] theorem add_nan (x : Binary F) : x.add nan = nan := by
  cases x <;> rfl

@[simp] theorem nan_sub (x : Binary F) : nan.sub x = nan := rfl

@[simp] theorem sub_nan (x : Binary F) : x.sub nan = nan := by
  rw [Binary.sub, neg_nan, add_nan]

@[simp] theorem nan_mul (x : Binary F) : nan.mul x = nan := rfl

@[simp] theorem mul_nan (x : Binary F) : x.mul nan = nan := by
  cases x <;> rfl

@[simp] theorem nan_div (x : Binary F) : nan.div x = nan := rfl

@[simp] theorem div_nan (x : Binary F) : x.div nan = nan := by
  cases x <;> rfl

/-! ## Zeros -/

theorem exists_of_isZero (zero : x.isZero = true) :
    0 < F.infinityRank ∧ ∃ negative bound, x = finite negative 0 bound := by
  cases x with
  | finite negative rank bound =>
    obtain rfl := beq_iff_eq.mp zero
    exact ⟨bound, negative, bound, rfl⟩
  | infinite => cases zero
  | nan => cases zero

theorem isZero_round_zero (positive : 0 < F.infinityRank) (negative : Bool) (denominator : ℕ) :
    (round negative 0 denominator : Binary F).isZero = true := by
  rw [round, Format.nearestRank_zero, ofRank, dif_pos positive]
  rfl

theorem isZero_mul (zero : x.isZero = true) (finite : y.isFinite = true) :
    (x.mul y).isZero = true := by
  obtain ⟨positive, s, _, rfl⟩ := exists_of_isZero zero
  cases y with
  | finite t r _ =>
    rw [Binary.mul, Format.units_zero, zero_mul]
    exact isZero_round_zero positive _ _
  | infinite => cases finite
  | nan => cases finite

theorem mul_eq_nan (zero : x.isZero = true) (infinite : y.isFinite = false) : x.mul y = nan := by
  obtain ⟨-, s, _, rfl⟩ := exists_of_isZero zero
  cases y with
  | finite => cases infinite
  | infinite => rfl
  | nan => rfl

theorem isZero_div (zero : x.isZero = true) (nonzero : y.isZero = false) (number : y ≠ nan) :
    (x.div y).isZero = true := by
  obtain ⟨positive, s, _, rfl⟩ := exists_of_isZero zero
  cases y with
  | finite t r _ =>
    rw [Binary.div, if_neg (beq_eq_false_iff_ne.mp nonzero), Format.units_zero, zero_mul]
    exact isZero_round_zero positive _ _
  | infinite => exact isZero_round_zero positive _ _
  | nan => exact absurd rfl number

theorem isZero_sub (left : x.isZero = true) (right : y.isZero = true) :
    (x.sub y).isZero = true := by
  obtain ⟨positive, s, _, rfl⟩ := exists_of_isZero left
  obtain ⟨-, t, _, rfl⟩ := exists_of_isZero right
  have nothing (negative : Bool) : F.signedUnits negative 0 = 0 := by
    cases negative <;> simp [Format.signedUnits]
  rw [Binary.sub, Binary.neg, Binary.add, nothing, nothing, roundSigned, if_pos (add_zero 0)]
  exact isZero_round_zero positive _ _

end Binary

end LinearEnclosure
