/-
# Binary numbers that are read

A text that spells a number is read as the nearest binary number, which may be infinite. Read
as an endpoint it is refused then, and in every other case the result lies on the side of the
written number that the direction promises: what is written exactly is kept, what vanishes
stays on its side of zero, and everything else takes one step from the nearest number.
-/

import LinearEnclosure.Interval.Endpoint
import LinearEnclosure.Proofs.Binary.Decimal
import LinearEnclosure.Proofs.Decimal.Reading

namespace LinearEnclosure

/-- A literal has the sign of its number, unless that is zero. -/
theorem Literal.negative_iff {literal : Literal} (nonzero : literal.number ≠ 0) :
    literal.negative = true ↔ literal.number < 0 := by
  have power : (0 : ℚ) < 10 ^ literal.position := by positivity
  have magnitude : (0 : ℚ) ≤ literal.coefficient := by positivity
  have scaled : 0 ≤ literal.coefficient * (10 : ℚ) ^ literal.position :=
    mul_nonneg magnitude power.le
  rw [number] at nonzero ⊢
  cases sign : literal.negative with
  | false =>
    rw [if_neg (by decide)]
    simpa using scaled
  | true =>
    rw [sign, if_pos rfl, neg_mul] at nonzero
    rw [if_pos rfl, neg_mul]
    have := neg_ne_zero.mp nonzero
    simpa using scaled.lt_of_ne' this

/-- The place that a reader moves to from the nearest one. It takes one step in its direction,
unless the number stands at that place already, or vanishes there and zero is on its way. -/
def Format.outward (F : Format) (direction : Direction) (exact : ℚ) (place : ℤ) : ℤ :=
  match direction with
  | .down => if (F.unitsAt place : ℚ) = exact ∨ place = 0 ∧ 0 < exact then place else place - 1
  | .nearest => place
  | .up => if (F.unitsAt place : ℚ) = exact ∨ place = 0 ∧ exact < 0 then place else place + 1

theorem Format.outward_of_eq {F : Format} {exact : ℚ} {place : ℤ} (direction : Direction)
    (same : (F.unitsAt place : ℚ) = exact) : F.outward direction exact place = place := by
  cases direction with
  | down => exact if_pos (.inl same)
  | nearest => rfl
  | up => exact if_pos (.inl same)

namespace Binary

variable {F : Format} {x : Binary F} {exact : ℚ} {direction : Direction} {c : ℤ}

/-- A value on the side of the exact one that the direction promises. An infinity counts as the
place after the largest magnitude. -/
def IsBound (direction : Direction) (exact : ℚ) (x : Binary F) : Prop :=
  ∃ place, x.place? = some place ∧ direction.Bounds exact (F.unitsAt place)

section Steps

variable {place : ℤ}

/-- Reading leads from the nearest place to the promised side. -/
theorem bounds_outward (nearest : F.Nearest exact place) :
    direction.Bounds exact (F.unitsAt (F.outward direction exact place)) := by
  cases direction with
  | down =>
    simp only [Format.outward, Direction.Bounds]
    split
    · next stays =>
      rcases stays with same | ⟨rfl, positive⟩
      · exact same.le
      · simpa using positive.le
    · exact nearest.pred_lt.le
  | nearest => trivial
  | up =>
    simp only [Format.outward, Direction.Bounds]
    split
    · next stays =>
      rcases stays with same | ⟨rfl, negative⟩
      · exact same.ge
      · simpa using negative.le
    · exact nearest.lt_succ.le

variable [NeZero F.infinityRank]

/-- One step leads there from a number that is neither exact nor zero. -/
theorem place?_step (stands : x.place? = some place) (inside : |place| < F.infinityRank)
    (inexact : (F.unitsAt place : ℚ) ≠ exact) (nonzero : place ≠ 0) :
    (x.step direction).place? = some (F.outward direction exact place) := by
  rw [abs_lt] at inside
  cases direction with
  | down =>
    rw [step, place?_nextDown stands, max_eq_left (by omega)]
    simp [Format.outward, inexact, nonzero]
  | nearest => exact stands
  | up =>
    rw [step, place?_nextUp stands, min_eq_left (by omega)]
    simp [Format.outward, inexact, nonzero]

/-- What a nonzero number that vanishes is read as: the first magnitude in its direction if that
leads away from zero, and zero otherwise. -/
def vanished (direction : Direction) (negative : Bool) : Binary F :=
  match negative, direction with
  | false, .up => ofRank false 1
  | true, .down => ofRank true 1
  | _, _ => ofRank false 0

theorem place?_vanished (nonzero : exact ≠ 0) {negative : Bool}
    (signed : negative = true ↔ exact < 0) :
    (vanished direction negative : Binary F).place? = some (F.outward direction exact 0) := by
  have positive := Nat.pos_of_neZero F.infinityRank
  have first (sign : Bool) :
      (ofRank sign 1 : Binary F).place? = some (if sign then -1 else 1) := by
    rw [place?_ofRank, Format.clamp]
    cases sign <;> simp <;> omega
  have zero : (ofRank false 0 : Binary F).place? = some 0 := by
    rw [place?_ofRank, Format.clamp]
    simp
  cases negative with
  | false =>
    have above : 0 < exact := lt_of_le_of_ne (by simpa using signed) nonzero.symm
    cases direction <;>
      simp [vanished, Format.outward, first, zero, nonzero.symm, above, above.not_gt]
  | true =>
    have below : exact < 0 := signed.mp rfl
    cases direction <;>
      simp [vanished, Format.outward, first, zero, nonzero.symm, below, below.not_gt]

end Steps

/-! ## Reading -/

variable {text : List Char} {literal : Literal}

theorem read_of_spells (spelled : literal.Spells text) :
    (read text : Except ReadError (Binary F)) = .ok (nearest literal.negative literal.value) := by
  have filled := WritesNumber.ne_nil ⟨_, spelled, rfl⟩
  rw [read, if_neg (by simpa using filled), Literal.read_eq_some_iff.mpr spelled]

/-- What is read spells a decimal number, and the nearest binary number is finite. In a direction
the decimal number is read as well, and it must be in range. -/
theorem exists_spells_of_readDirected
    (accepted : (readDirected direction text : Except Fault (Binary F)) = .ok y) :
    ∃ literal : Literal, literal.Spells text ∧
      (direction ≠ .nearest → literal.inRange = true) ∧
      (nearest literal.negative literal.value : Binary F).isFinite = true := by
  rw [readDirected] at accepted
  cases readValue : (read text : Except ReadError (Binary F)) with
  | error cause => simp [readValue] at accepted
  | ok value =>
    simp only [readValue] at accepted
    split at accepted
    · cases accepted
    next finite =>
    have finite : value.isFinite = true := by simpa using finite
    obtain ⟨literal, found⟩ := exists_literal_of_read readValue finite
    have spelled := Literal.read_eq_some_iff.mp found
    rw [read_of_spells spelled] at readValue
    obtain rfl := Except.ok.inj readValue
    refine ⟨literal, spelled, fun directed => ?_, finite⟩
    simp only [directed, if_false] at accepted
    cases readParts : Decimal.Parts.read text with
    | none => simp [readParts] at accepted
    | some parts => exact ((Decimal.Parts.read_eq_some_iff spelled).mp readParts).1

/-- An endpoint is refused if the nearest number overflows. -/
theorem readDirected_of_overflow (spelled : literal.Spells text)
    (overflows : (nearest literal.negative literal.value : Binary F).isFinite = false) :
    (readDirected direction text : Except Fault (Binary F)) = .error .notFiniteEndpoint := by
  rw [readDirected, read_of_spells spelled]
  simp only [overflows, Bool.not_false, if_true]

/-! ## Exact numbers -/

theorem isZero_decimal (finite : x.units? = some c) : x.decimal.isZero = x.isZero := by
  rw [Bool.eq_iff_iff, Decimal.isZero_iff, isZero_iff_units finite,
    ← F.inUnits_strictMono.injective.eq_iff, inUnits_decimal finite, F.inUnits_zero,
    Int.cast_eq_zero]

/-- Finite numbers other than zero have the parts of their decimals. -/
theorem parts?_eq_some (finite : x.units? = some c) (nonzero : x.isZero = false) :
    x.parts? = some x.decimal.parts := by
  rw [parts?, toDecimal?_eq_some finite, Option.filter_some, isZero_decimal finite, nonzero]
  rfl

/-- The parts of a number agree with those of a text if the text writes the number. -/
theorem isExact_iff (finite : x.units? = some c) (nonzero : x.isZero = false)
    (spelled : literal.Spells text) (inRange : literal.inRange = true) :
    x.parts?.any (·.isWrittenIn text) = true ↔ x.decimal = literal.value := by
  rw [parts?_eq_some finite nonzero, Option.any_some,
    Decimal.isWrittenIn_parts_iff ((isZero_decimal finite).trans nonzero),
    Decimal.read_eq_some_iff spelled, and_iff_right inRange, eq_comm]

variable [NeZero F.fractionBits] [NeZero F.infinityRank]

theorem nearest_literal_roundsTo (reach : F.unitBits ≤ F.blocks + F.fractionBits)
    (literal : Literal) :
    RoundsTo (F.inUnits literal.number) (nearest literal.negative literal.value : Binary F) := by
  rw [← literal.toRat_value]
  apply nearest_roundsTo reach
  rw [literal.toRat_value]
  exact Literal.negative_iff

/-- If it does not, what is read stands at the nearest place or one step outward from it. -/
theorem exists_place_readDirected (reach : F.unitBits ≤ F.blocks + F.fractionBits)
    (spelled : literal.Spells text) (inRange : direction ≠ .nearest → literal.inRange = true)
    (fits : (nearest literal.negative literal.value : Binary F).isFinite = true) :
    ∃ (y : Binary F) (place : ℤ), readDirected direction text = .ok y ∧
      F.Nearest (F.inUnits literal.number) place ∧
      y.place? = some (F.outward direction (F.inUnits literal.number) place) := by
  have rounds := nearest_literal_roundsTo reach literal
  have written := literal.toRat_value
  rw [readDirected, read_of_spells spelled]
  by_cases toNearest : direction = .nearest
  · obtain rfl := toNearest
    obtain ⟨c, finite⟩ := Binary.isFinite_iff.mp fits
    obtain ⟨place, nearest, -, stands, -⟩ := rounds.exists_nearest finite
    exact ⟨_, place, by simp [fits], nearest, stands⟩
  rw [(Decimal.Parts.read_eq_some_iff spelled).mpr ⟨inRange toNearest, rfl⟩]
  generalize (nearest literal.negative literal.value : Binary F) = value at *
  obtain ⟨c, finite⟩ := Binary.isFinite_iff.mp fits
  obtain ⟨place, nearest, inside, stands, units⟩ := rounds.exists_nearest finite
  simp only [fits, Bool.not_true, Bool.false_eq_true, if_false, toNearest]
  -- The cases are those of the reader, in its order.
  split
  · next vanishes =>
    obtain rfl : place = 0 := F.unitsAt_strictMono.injective <| by
      rw [units, (isZero_iff_units finite).mp vanishes, F.unitsAt_zero]
    cases zero : literal.parts.isZero with
    | true =>
      have same : (F.unitsAt 0 : ℚ) = F.inUnits literal.number := by
        rw [literal.isZero_parts, Decimal.isZero_iff, literal.toRat_value] at zero
        rw [zero, F.inUnits_zero, F.unitsAt_zero, Int.cast_zero]
      exact ⟨value, 0, rfl, nearest, by rw [F.outward_of_eq direction same, stands]⟩
    | false =>
      have nonzero : literal.number ≠ 0 := by
        rw [literal.isZero_parts, Bool.eq_false_iff, Ne, Decimal.isZero_iff, literal.toRat_value]
          at zero
        exact zero
      refine ⟨vanished direction literal.parts.negative, 0, ?_, nearest, place?_vanished ?_ ?_⟩
      · generalize literal.parts.negative = negative
        cases negative <;> cases direction <;> rfl
      · rwa [← F.inUnits_zero, F.inUnits_strictMono.injective.ne_iff]
      · rw [literal.negative_parts spelled.allDigits, Literal.negative_iff nonzero,
          ← F.inUnits_strictMono.lt_iff_lt, F.inUnits_zero]
  next remains =>
  have remains : value.isZero = false := Bool.eq_false_of_not_eq_true remains
  have exact_iff := isExact_iff finite remains spelled (inRange toNearest)
  split
  · next exact =>
    have same : (F.unitsAt place : ℚ) = F.inUnits literal.number := by
      rw [units, ← inUnits_decimal finite, exact_iff.mp exact, literal.toRat_value]
    exact ⟨value, place, rfl, nearest, by rw [F.outward_of_eq direction same, stands]⟩
  · next inexact =>
    refine ⟨_, place, rfl, nearest, place?_step stands inside ?_ ?_⟩
    · intro same
      rw [units, ← inUnits_decimal finite, ← literal.toRat_value,
        F.inUnits_strictMono.injective.eq_iff] at same
      exact inexact (exact_iff.mpr (Decimal.toRat_injective same))
    · rintro rfl
      rw [F.unitsAt_zero] at units
      exact Bool.eq_false_iff.mp remains ((isZero_iff_units finite).mpr units.symm)

/-- Either way it lies on the promised side of what is written. -/
theorem exists_readDirected (reach : F.unitBits ≤ F.blocks + F.fractionBits)
    (spelled : literal.Spells text) (inRange : literal.inRange = true)
    (fits : (nearest literal.negative literal.value : Binary F).isFinite = true) :
    ∃ y : Binary F, readDirected direction text = .ok y ∧
      y.IsBound direction (F.inUnits literal.number) := by
  obtain ⟨y, place, accepted, nearest, stands⟩ :=
    exists_place_readDirected reach spelled (fun _ => inRange) fits
  exact ⟨y, accepted, _, stands, bounds_outward nearest⟩

/-! ## Printing -/

omit [NeZero F.fractionBits] [NeZero F.infinityRank] in
/-- No decimal of a finite number has a position below half a unit. -/
theorem unitBits_le_exponent (finite : x.units? = some c) :
    -(F.unitBits + 1 : ℤ) ≤ x.decimal.exponent := by
  obtain ⟨negative, rank, _, rfl, -⟩ := exists_finite finite
  have magnitude : -(F.unitBits + 1 : ℤ) ≤ (F.decimal rank).exponent := by
    rw [Format.decimal, Format.halfUnits]
    split
    · exact le_trans (by omega) (Decimal.min_le_exponent_of _ _)
    · exact le_trans (by push_cast; omega) (Decimal.min_le_exponent_of _ _)
  cases negative with
  | false => exact magnitude
  | true => exact magnitude

omit [NeZero F.fractionBits] in
/-- And its leading position is not above that of the infinities. -/
theorem top_decimal_le (finite : x.units? = some c) :
    x.decimal.top ≤ F.fractionBits + F.blocks := by
  by_cases zero : x.decimal.significand = 0
  · rw [Decimal.eq_zero_of_significand zero]
    exact Int.natCast_nonneg (F.fractionBits + F.blocks)
  have bounded : |(c : ℚ)| < 2 ^ (F.fractionBits + F.blocks - 1) := by
    have inside := abs_lt_of_units finite
    rw [F.units_infinityRank] at inside
    exact_mod_cast inside
  have unit : |x.decimal.toRat| ≤ F.inUnits |x.decimal.toRat| :=
    le_mul_of_one_le_right (abs_nonneg _) (one_le_pow₀ (by norm_num))
  rw [← F.abs_inUnits, inUnits_decimal finite] at unit
  have powers : (10 : ℚ) ^ (x.decimal.top - 1) < 10 ^ (F.fractionBits + F.blocks - 1 : ℕ) :=
    calc (10 : ℚ) ^ (x.decimal.top - 1) ≤ |x.decimal.toRat| := Decimal.zpow_top_le_abs_toRat zero
      _ < 2 ^ (F.fractionBits + F.blocks - 1) := unit.trans_lt bounded
      _ ≤ 10 ^ (F.fractionBits + F.blocks - 1) := by gcongr; norm_num
  rw [← zpow_natCast, zpow_lt_zpow_iff_right₀ (by norm_num)] at powers
  have blocks := F.blocks_pos
  omega

end Binary

end LinearEnclosure
