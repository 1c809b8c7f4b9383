/-
# Rounding to nearest

The rank of a fraction of units is found by halving it to the length of a significand and
rounding the result to an integer. The place that comes out is the nearest one, and each
operation on finite numbers rounds its exact result to the nearest place once. Places
beyond the finite ones are cut off at the infinities.
-/

import LinearEnclosure.Binary.Arithmetic
import LinearEnclosure.Proofs.Binary.Place

namespace LinearEnclosure

namespace Format

/-! ## The nearest rank -/

/-- An integer lies within half a step of the exact number, and exactly half a step away only if
it is even. -/
structure NearestInteger (exact : ℚ) (m : ℕ) : Prop where
  lower : 2 * m - 1 ≤ 2 * exact
  upper : 2 * exact ≤ 2 * m + 1
  lower_even : 2 * m - 1 = 2 * exact → Even m
  upper_even : 2 * exact = 2 * m + 1 → Even m

/-- The distance of a fraction from its nearest integer, times the denominator. -/
private theorem halfEven_spec (n : ℕ) {d : ℕ} (positive : 0 < d) :
    2 * (d * halfEven n d) ≤ 2 * n + d ∧ 2 * n ≤ 2 * (d * halfEven n d) + d ∧
      (2 * (d * halfEven n d) = 2 * n + d → Even (halfEven n d)) ∧
      (2 * n = 2 * (d * halfEven n d) + d → Even (halfEven n d)) := by
  have split := Nat.div_add_mod n d
  have rest := Nat.mod_lt n positive
  simp only [halfEven]
  generalize n / d = floor at *
  generalize n % d = remainder at *
  split_ifs with low high
  · grind
  · grind
  · grind

theorem halfEven_nearest (n : ℕ) {d : ℕ} (positive : 0 < d) :
    NearestInteger (n / d) (halfEven n d) := by
  have scale : (0 : ℚ) < d := by exact_mod_cast positive
  obtain ⟨lower, upper, lower_even, upper_even⟩ := halfEven_spec n positive
  generalize halfEven n d = m at *
  constructor
  · rw [← mul_div_assoc, le_div_iff₀ scale]
    have lower : (2 * (d * m) : ℚ) ≤ 2 * n + d := by exact_mod_cast lower
    linarith
  · rw [← mul_div_assoc, div_le_iff₀ scale]
    have upper : (2 * n : ℚ) ≤ 2 * (d * m) + d := by exact_mod_cast upper
    linarith
  · intro half
    rw [← mul_div_assoc, eq_div_iff scale.ne'] at half
    have half : (2 * (d * m) : ℚ) = 2 * n + d := by linarith
    exact lower_even (by exact_mod_cast half)
  · intro half
    rw [← mul_div_assoc, div_eq_iff scale.ne'] at half
    have half : (2 * n : ℚ) = 2 * (d * m) + d := by linarith
    exact upper_even (by exact_mod_cast half)

theorem div_le_halfEven (n d : ℕ) : n / d ≤ halfEven n d := by
  simp only [halfEven]
  split_ifs <;> omega

theorem halfEven_le (n d : ℕ) : halfEven n d ≤ n / d + 1 := by
  simp only [halfEven]
  split_ifs <;> omega

variable (F : Format)

theorem le_units_block_succ {step m : ℕ} (low : step = 0 ∨ F.normalRank ≤ m)
    (high : m ≤ 2 * F.normalRank) :
    (m + 1) * 2 ^ step ≤ F.units (step * F.normalRank + m + 1) := by
  rcases high.lt_or_eq with inner | rfl
  · exact (F.units_block step (m + 1) (by omega) (by omega)).ge
  · have spacing := F.normalRank_pos
    have next := F.units_block (step + 1) (F.normalRank + 1) (by omega) (by omega)
    have rank : (step + 1) * F.normalRank + (F.normalRank + 1) =
        step * F.normalRank + 2 * F.normalRank + 1 := by ring
    rw [rank, pow_succ] at next
    rw [next]
    nlinarith [Nat.two_pow_pos step]

/-- Within a block and at its end, the units of the place below. -/
theorem unitsAt_block_pred {step m : ℕ} (low : step = 0 ∨ F.normalRank < m)
    (high : m ≤ 2 * F.normalRank) :
    F.unitsAt ((step * F.normalRank + m : ℕ) - 1) = (m - 1) * 2 ^ step := by
  rcases Nat.eq_zero_or_pos m with rfl | positive
  · obtain rfl : step = 0 := by omega
    have one := F.units_block 0 1 (.inl rfl) (by have := F.normalRank_pos; omega)
    rw [show ((0 * F.normalRank + 0 : ℕ) : ℤ) - 1 = -(0 * F.normalRank + 1 : ℕ) by push_cast; ring,
      unitsAt_neg, unitsAt_natCast, one]
    norm_num
  · have inner := F.units_block step (m - 1) (by omega) (by omega)
    rw [show ((step * F.normalRank + m : ℕ) : ℤ) - 1 = (step * F.normalRank + (m - 1) : ℕ) by omega,
      unitsAt_natCast, inner]
    push_cast [positive]
    rfl

variable {F}

/-- The whole part of a fraction fills a significand, unless it is shorter than one. -/
private theorem whole_bounds {whole step : ℕ} (length : whole.log2 - F.fractionBits = step) :
    (step = 0 ∨ F.normalRank * 2 ^ step ≤ whole) ∧ whole < 2 * F.normalRank * 2 ^ step := by
  have most : whole < 2 ^ (whole.log2 + 1) := Nat.lt_log2_self
  have power (k : ℕ) : F.normalRank * 2 ^ k = 2 ^ (F.fractionBits + k) := (pow_add ..).symm
  rw [mul_assoc, power, ← pow_succ']
  constructor
  · rcases Nat.eq_zero_or_pos step with zero | positive
    · exact .inl zero
    · right
      have nonzero : whole ≠ 0 := by
        rintro rfl
        rw [Nat.log2_zero] at length
        omega
      rw [← length, Nat.add_sub_cancel' (by omega)]
      exact Nat.log2_self_le nonzero
  · exact most.trans_le (Nat.pow_le_pow_right (by norm_num) (by omega))

instance : NeZero double.fractionBits := ⟨by decide⟩

variable [NeZero F.fractionBits]

theorem even_normalRank : Even F.normalRank :=
  (Nat.even_pow.mpr ⟨even_two, NeZero.ne F.fractionBits⟩)

/-- A significand that is nearest in its block names the nearest place. -/
theorem nearest_block {scaled : ℚ} {step m : ℕ} (low : step = 0 ∨ F.normalRank ≤ m)
    (high : m ≤ 2 * F.normalRank) (start : step = 0 ∨ F.normalRank ≤ scaled)
    (nearest : NearestInteger scaled m) :
    F.Nearest (scaled * 2 ^ step) (step * F.normalRank + m : ℕ) := by
  have power : (0 : ℚ) < 2 ^ step := by positivity
  have parity : Even m → Even ((step * F.normalRank + m : ℕ) : ℤ) := by
    intro even
    exact_mod_cast ((even_normalRank.mul_left step).add even)
  have here : (F.unitsAt (step * F.normalRank + m : ℕ) : ℚ) = m * 2 ^ step := by
    rw [unitsAt_natCast, F.units_block step m low high]
    push_cast
    rfl
  have above : (m + 1 : ℚ) * 2 ^ step ≤ F.unitsAt ((step * F.normalRank + m : ℕ) + 1) := by
    rw [unitsAt_natCast_succ]
    exact_mod_cast F.le_units_block_succ low high
  have below : (F.unitsAt ((step * F.normalRank + m : ℕ) - 1) : ℚ) = (m - 1) * 2 ^ step ∨
      (F.unitsAt ((step * F.normalRank + m : ℕ) - 1) : ℚ) +
        F.unitsAt (step * F.normalRank + m : ℕ) < 2 * (scaled * 2 ^ step) := by
    by_cases inner : step = 0 ∨ F.normalRank < m
    · left
      rw [F.unitsAt_block_pred inner high]
      push_cast
      rfl
    · -- At the start of a block the place below has the smaller spacing.
      right
      obtain rfl : m = F.normalRank := by omega
      have start := mul_le_mul_of_nonneg_right (start.resolve_left (by omega)) power.le
      have less : (F.unitsAt ((step * F.normalRank + F.normalRank : ℕ) - 1) : ℚ) <
          F.unitsAt (step * F.normalRank + F.normalRank : ℕ) := by
        exact_mod_cast F.unitsAt_strictMono (sub_one_lt _)
      linarith
  have lower := mul_le_mul_of_nonneg_right nearest.lower power.le
  have upper := mul_le_mul_of_nonneg_right nearest.upper power.le
  refine ⟨?_, by linarith, ?_, fun half => parity (nearest.upper_even ?_)⟩
  · rcases below with inner | less <;> linarith
  · intro half
    rcases below with inner | less
    · apply parity (nearest.lower_even (mul_right_cancel₀ power.ne' _))
      linarith
    · linarith
  · apply mul_right_cancel₀ power.ne'
    linarith

theorem nearest_nearestRank (n : ℕ) {d : ℕ} (positive : 0 < d) :
    F.Nearest (n / d) (F.nearestRank n d) := by
  have rank : F.nearestRank n d = ((n / d).log2 - F.fractionBits) * F.normalRank +
      halfEven n (d * 2 ^ ((n / d).log2 - F.fractionBits)) := rfl
  rw [rank]
  generalize length : (n / d).log2 - F.fractionBits = step
  obtain ⟨fills, short⟩ := whole_bounds length
  have power : 0 < 2 ^ step := Nat.two_pow_pos step
  have floor : n / (d * 2 ^ step) = n / d / 2 ^ step := (Nat.div_div_eq_div_mul ..).symm
  have least := div_le_halfEven n (d * 2 ^ step)
  have most := halfEven_le n (d * 2 ^ step)
  have nearest := halfEven_nearest n (Nat.mul_pos positive power)
  have fills : step = 0 ∨ F.normalRank ≤ n / d / 2 ^ step :=
    fills.imp_right (Nat.le_div_iff_mul_le power).mpr
  have scaled : (n / d : ℚ) = n / (d * 2 ^ step : ℕ) * 2 ^ step := by
    push_cast
    rw [← div_div, div_mul_cancel₀ _ (by positivity)]
  rw [floor] at least most
  rw [scaled]
  apply nearest_block _ _ _ nearest
  · exact fills.imp_right fun large => large.trans least
  · have := (Nat.div_lt_iff_lt_mul power).mpr short
    omega
  · rw [← floor] at fills
    exact fills.imp_right fun large => le_trans (by exact_mod_cast large) Nat.cast_div_le

variable (F) in
/-- A place cut off at the infinities. -/
def clamp (place : ℤ) : ℤ :=
  max (-F.infinityRank) (min place F.infinityRank)

omit [NeZero F.fractionBits] in
theorem clamp_eq_self {place : ℤ} (inside : |place| < F.infinityRank) :
    F.clamp place = place := by
  rw [abs_lt] at inside
  rw [clamp, min_eq_left inside.2.le, max_eq_right inside.1.le]

end Format

namespace Binary

variable {F : Format}

/-! ## Finite numbers -/

theorem signedUnits_eq_unitsAt (negative : Bool) (rank : ℕ) :
    F.signedUnits negative rank = F.unitsAt (if negative then -rank else rank) := by
  cases negative <;> simp [Format.signedUnits]

theorem exists_finite {x : Binary F} {a : ℤ} (finite : x.units? = some a) :
    ∃ negative rank rank_lt, x = .finite negative rank rank_lt ∧
      F.signedUnits negative rank = a := by
  cases x with
  | finite negative rank rank_lt =>
    exact ⟨negative, rank, rank_lt, rfl, Option.some.inj finite⟩
  | infinite => cases finite
  | nan => cases finite

/-- A finite number stands at a place before the infinities. -/
theorem exists_place {x : Binary F} {a : ℤ} (finite : x.units? = some a) :
    ∃ place, x.place? = some place ∧ |place| < F.infinityRank ∧ F.unitsAt place = a := by
  obtain ⟨negative, rank, rank_lt, rfl, rfl⟩ := exists_finite finite
  refine ⟨if negative then -rank else rank, rfl, ?_, (signedUnits_eq_unitsAt ..).symm⟩
  cases negative <;> simpa using rank_lt

theorem units?_of_place {x : Binary F} {place : ℤ} (stands : x.place? = some place)
    (inside : |place| < F.infinityRank) : x.units? = some (F.unitsAt place) := by
  cases x with
  | finite negative rank rank_lt =>
    obtain rfl := Option.some.inj stands
    rw [units?, signedUnits_eq_unitsAt]
  | infinite negative =>
    obtain rfl := Option.some.inj stands
    cases negative <;> simp at inside
  | nan => cases stands

theorem isFinite_iff {x : Binary F} : x.isFinite ↔ ∃ c, x.units? = some c := by
  cases x <;> simp [isFinite, units?]

theorem abs_lt_of_units {x : Binary F} {a : ℤ} (finite : x.units? = some a) :
    |a| < F.units F.infinityRank := by
  obtain ⟨place, -, inside, rfl⟩ := exists_place finite
  rw [abs_lt] at inside
  rw [Format.abs_unitsAt, Int.ofNat_lt]
  exact F.units_strictMono (by omega)

theorem exists_units_of_isTiny {x : Binary F} (tiny : x.isTiny) : ∃ a, x.units? = some a := by
  cases x with
  | finite negative rank _ => exact ⟨_, rfl⟩
  | infinite => cases tiny
  | nan => cases tiny

theorem isZero_iff_units {x : Binary F} {a : ℤ} (finite : x.units? = some a) :
    x.isZero ↔ a = 0 := by
  obtain ⟨negative, rank, _, rfl, rfl⟩ := exists_finite finite
  have zero : F.units rank = F.units 0 ↔ rank = 0 := F.units_strictMono.injective.eq_iff
  rw [Format.units_zero] at zero
  cases negative <;> simp [isZero, Format.signedUnits, zero]

theorem representable_of_units {x : Binary F} {a : ℤ} (finite : x.units? = some a) :
    F.Representable a := by
  obtain ⟨place, -, -, units⟩ := exists_place finite
  exact ⟨place, units⟩

theorem units?_neg {x : Binary F} {a : ℤ} (finite : x.units? = some a) :
    x.neg.units? = some (-a) := by
  obtain ⟨negative, rank, rank_lt, rfl, rfl⟩ := exists_finite finite
  cases negative <;> simp [Binary.neg, units?, Format.signedUnits]

/-! ## Operations round once -/

/-- A result stands at the place nearest to the exact one, or at an infinity if that place
lies beyond the finite ones. -/
def RoundsTo (exact : ℚ) (x : Binary F) : Prop :=
  ∃ place, F.Nearest exact place ∧ x.place? = some (F.clamp place)

theorem place?_ofRank (negative : Bool) (rank : ℕ) :
    (ofRank negative rank : Binary F).place? =
      some (F.clamp (if negative then -rank else rank)) := by
  unfold ofRank
  split
  · next finite =>
    rw [place?, Format.clamp, Option.some.injEq]
    split <;> omega
  · next infinite =>
    rw [place?, Format.clamp, Option.some.injEq]
    split <;> omega

/-- Signs of a product are combined, and magnitudes are multiplied. -/
private theorem signedUnits_mul (s t : Bool) (q r : ℕ) :
    (F.signedUnits s q * F.signedUnits t r : ℚ) =
      if (s ^^ t) then -((F.units q : ℚ) * F.units r) else F.units q * F.units r := by
  cases s <;> cases t <;> simp [Format.signedUnits]

variable [NeZero F.fractionBits]

theorem round_roundsTo (negative : Bool) (n : ℕ) {d : ℕ} (positive : 0 < d) :
    RoundsTo (if negative then -(n / d) else n / d) (round negative n d : Binary F) := by
  have nearest := F.nearest_nearestRank n positive
  refine ⟨if negative then -F.nearestRank n d else F.nearestRank n d, ?_, place?_ofRank ..⟩
  cases negative with
  | false => exact nearest
  | true => exact nearest.neg

theorem roundSigned_roundsTo (zeroSign : Bool) (n : ℤ) {d : ℕ} (positive : 0 < d) :
    RoundsTo (n / d) (roundSigned zeroSign n d : Binary F) := by
  unfold roundSigned
  split
  · next zero =>
    have rounds : RoundsTo _ (round zeroSign 0 d : Binary F) := round_roundsTo zeroSign 0 positive
    simpa [zero] using rounds
  · have rounds : RoundsTo _ (round (n < 0) n.natAbs d : Binary F) :=
      round_roundsTo (decide (n < 0)) n.natAbs positive
    convert rounds using 1
    rcases le_or_gt 0 n with nonneg | negative
    · rw [decide_eq_false (by omega), if_neg (by decide), ← Int.cast_natCast n.natAbs,
        Int.natAbs_of_nonneg nonneg]
    · rw [decide_eq_true negative, if_pos rfl, ← Int.cast_natCast n.natAbs,
        Int.ofNat_natAbs_of_nonpos negative.le]
      push_cast
      ring

section Operations

variable {x y z : Binary F} {a b c : ℤ}

theorem add_roundsTo (left : x.units? = some a) (right : y.units? = some b) :
    RoundsTo (a + b : ℤ) (x.add y) := by
  obtain ⟨s, q, _, rfl, rfl⟩ := exists_finite left
  obtain ⟨t, r, _, rfl, rfl⟩ := exists_finite right
  have rounds : RoundsTo _
      (roundSigned (s && t) (F.signedUnits s q + F.signedUnits t r) 1 : Binary F) :=
    roundSigned_roundsTo _ _ Nat.one_pos
  rw [Nat.cast_one, div_one] at rounds
  exact rounds

theorem sub_roundsTo (left : x.units? = some a) (right : y.units? = some b) :
    RoundsTo (a - b : ℤ) (x.sub y) := by
  rw [sub_eq_add_neg]
  exact add_roundsTo left (units?_neg right)

theorem mul_roundsTo (left : x.units? = some a) (right : y.units? = some b) :
    RoundsTo (a * b / 2 ^ F.unitBits) (x.mul y) := by
  obtain ⟨s, q, _, rfl, rfl⟩ := exists_finite left
  obtain ⟨t, r, _, rfl, rfl⟩ := exists_finite right
  have rounds : RoundsTo _
      (round (s ^^ t) (F.units q * F.units r) (2 ^ F.unitBits) : Binary F) :=
    round_roundsTo _ _ (Nat.two_pow_pos F.unitBits)
  rw [Binary.mul]
  convert rounds using 1
  rw [signedUnits_mul]
  push_cast
  split
  · rw [neg_div]
  · rfl

theorem div_roundsTo (left : x.units? = some a) (right : y.units? = some b) (nonzero : b ≠ 0) :
    RoundsTo (a * 2 ^ F.unitBits / b) (x.div y) := by
  obtain ⟨s, q, _, rfl, rfl⟩ := exists_finite left
  obtain ⟨t, r, _, rfl, rfl⟩ := exists_finite right
  have divisor : 0 < F.units r := by
    rw [Nat.pos_iff_ne_zero]
    rintro zero
    cases t <;> simp [Format.signedUnits, zero] at nonzero
  have rank : r ≠ 0 := by
    rintro rfl
    simp at divisor
  have rounds : RoundsTo _ (round (s ^^ t) (F.units q * 2 ^ F.unitBits) (F.units r) : Binary F) :=
    round_roundsTo (s ^^ t) (F.units q * 2 ^ F.unitBits) divisor
  rw [Binary.div, if_neg rank]
  convert rounds using 1
  cases s <;> cases t <;> simp [Format.signedUnits, neg_div, div_neg]

theorem mulAdd_roundsTo (left : x.units? = some a) (right : y.units? = some b)
    (last : z.units? = some c) : RoundsTo (a * b / 2 ^ F.unitBits + c) (mulAdd x y z) := by
  obtain ⟨s, q, _, rfl, rfl⟩ := exists_finite left
  obtain ⟨t, r, _, rfl, rfl⟩ := exists_finite right
  obtain ⟨u, l, _, rfl, rfl⟩ := exists_finite last
  have rounds : RoundsTo _ (roundSigned ((s ^^ t) && u)
      (F.signedUnits s q * F.signedUnits t r + F.signedUnits u l * (2 ^ F.unitBits : ℕ))
      (2 ^ F.unitBits) : Binary F) :=
    roundSigned_roundsTo _ _ (Nat.two_pow_pos F.unitBits)
  rw [mulAdd]
  convert rounds using 1
  push_cast
  rw [add_div, mul_div_cancel_right₀ _ (by positivity)]

end Operations

end Binary

end LinearEnclosure
