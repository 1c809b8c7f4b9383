/-
# One number, read three ways

A decimal that is read downward, to nearest and upward starts from the same nearest binary number
each time. If that is the written number itself, no direction moves away from it, and all three
readings agree. Otherwise the directed ones lie strictly on either side of the written number, and
they are no more than one step away from the nearest one. So the gap between them is two steps, or
a single one where the nearest number is zero and one of the directions stays there.
-/

import LinearEnclosure.Proofs.Binary.Order
import LinearEnclosure.Proofs.Binary.Reading

namespace LinearEnclosure

variable {F : Format}

/-! ## Places of the readings -/

namespace Format

variable {exact : ℚ} {place : ℤ}

theorem outward_mem_of_ne_up (F : Format) (exact : ℚ) (place : ℤ) {direction : Direction}
    (notUp : direction ≠ .up) : F.outward direction exact place ∈ Set.Icc (place - 1) place := by
  cases direction with
  | down =>
    rw [outward]
    split <;> constructor <;> omega
  | nearest => exact ⟨sub_le_self place one_pos.le, le_rfl⟩
  | up => exact absurd rfl notUp

theorem outward_mem_of_ne_down (F : Format) (exact : ℚ) (place : ℤ) {direction : Direction}
    (notDown : direction ≠ .down) :
    F.outward direction exact place ∈ Set.Icc place (place + 1) := by
  cases direction with
  | down => exact absurd rfl notDown
  | nearest => exact ⟨le_rfl, le_add_of_nonneg_right one_pos.le⟩
  | up =>
    rw [outward]
    split <;> constructor <;> omega

theorem unitsAt_outward_down_lt (nearest : F.Nearest exact place)
    (inexact : (F.unitsAt place : ℚ) ≠ exact) :
    (F.unitsAt (F.outward .down exact place) : ℚ) < exact := by
  simp only [outward, inexact, false_or]
  split
  · next vanishes =>
    obtain ⟨rfl, positive⟩ := vanishes
    simpa using positive
  · exact nearest.pred_lt

theorem lt_unitsAt_outward_up (nearest : F.Nearest exact place)
    (inexact : (F.unitsAt place : ℚ) ≠ exact) :
    exact < F.unitsAt (F.outward .up exact place) := by
  simp only [outward, inexact, false_or]
  split
  · next vanishes =>
    obtain ⟨rfl, negative⟩ := vanishes
    simpa using negative
  · exact nearest.lt_succ

end Format

namespace Binary

variable {x y : Binary F} {text : List Char} {direction : Direction} {place : ℤ}

/-- Steps upward, one after another, up to the upper infinity. -/
theorem place?_iterate_nextUp [NeZero F.infinityRank] (stands : x.place? = some place)
    (steps : ℕ) : (nextUp^[steps] x).place? = some (min (place + steps) F.infinityRank) := by
  induction steps with
  | zero =>
    have inside := (place_mem stands).2
    rw [Function.iterate_zero, id, stands, Option.some.injEq]
    omega
  | succ steps ih =>
    rw [Function.iterate_succ_apply', place?_nextUp ih, Option.some.injEq]
    omega

theorem value?_of_place [NeZero F.infinityRank] (stands : x.place? = some place) :
    x.value? = some (F.valueAt place) := by
  rw [value?_eq_map, stands, Option.map_some]

/-- Some value stands at each place between the infinities. -/
theorem exists_of_place [NeZero F.infinityRank] (inside : |place| < F.infinityRank) :
    ∃ x : Binary F, x.place? = some place := by
  refine ⟨ofRank (decide (place < 0)) place.natAbs, ?_⟩
  rw [abs_lt] at inside
  rw [place?_ofRank, Format.clamp, Option.some.injEq]
  by_cases negative : place < 0
  · simp only [negative, decide_true, if_true]
    omega
  · simp only [negative, decide_false, Bool.false_eq_true, if_false]
    omega

/-- Two values, the second a few places above the first. -/
theorem exists_steps [NeZero F.infinityRank] {low high : ℤ} (lower : x.place? = some low)
    (upper : y.place? = some high) (order : low ≤ high) {most : ℕ} (near : high ≤ low + most) :
    ∃ steps ≤ most, (nextUp^[steps] x).value? = y.value? := by
  have inside := (place_mem upper).2
  have reached := place?_iterate_nextUp lower (high - low).toNat
  rw [min_eq_left (by omega), show low + (high - low).toNat = high by omega] at reached
  exact ⟨(high - low).toNat, by omega, (value?_of_place reached).trans (value?_of_place upper).symm⟩

/-- A number is a value of the format if it stands at its nearest place. -/
theorem mem_values_iff [NeZero F.infinityRank] {q : ℚ} (nearest : F.Nearest (F.inUnits q) place)
    (inside : |place| < F.infinityRank) :
    ((q : ℝ) : EReal) ∈ values F ↔ (F.unitsAt place : ℚ) = F.inUnits q := by
  constructor
  · rintro ⟨x, stands⟩
    obtain ⟨n, finite, same⟩ := exists_units stands
    obtain ⟨other, -, -, rfl⟩ := exists_place finite
    have same : F.inUnits q = F.unitsAt other := by
      rw [← F.ofUnits_inUnits] at same
      exact (F.ofUnits_strictMono.injective same).symm
    rw [same] at nearest ⊢
    have rounds : F.Rounds (F.unitsAt other) (F.unitsAt place) := ⟨place, nearest, rfl⟩
    rw [rounds.eq ⟨other, rfl⟩]
  · intro same
    obtain ⟨x, stands⟩ := exists_of_place inside
    refine ⟨x, ?_⟩
    rw [value?_of_place stands, Format.valueAt_of_inside inside, same, F.ofUnits_inUnits]

variable [NeZero F.fractionBits] [NeZero F.infinityRank]
  (reach : F.unitBits ≤ F.blocks + F.fractionBits)
include reach

/-- The nearest place of a number that is read in any direction. -/
theorem exists_nearest_of_readDirected
    (accepted : (readDirected direction text : Except Fault (Binary F)) = .ok x) :
    ∃ (literal : Literal) (place : ℤ), literal.Spells text ∧
      F.Nearest (F.inUnits literal.number) place ∧ |place| < F.infinityRank := by
  obtain ⟨literal, spelled, -, fits⟩ := exists_spells_of_readDirected accepted
  obtain ⟨c, finite⟩ := isFinite_iff.mp fits
  obtain ⟨place, nearest, inside, -⟩ :=
    (nearest_literal_roundsTo reach literal).exists_nearest finite
  exact ⟨literal, place, spelled, nearest, inside⟩

/-- Each reading stands where its direction leads from there. -/
theorem place?_of_readDirected {literal : Literal} (spelled : literal.Spells text)
    (nearest : F.Nearest (F.inUnits literal.number) place)
    (accepted : (readDirected direction text : Except Fault (Binary F)) = .ok x) :
    x.place? = some (F.outward direction (F.inUnits literal.number) place) := by
  obtain ⟨other, again, inRange, fits⟩ := exists_spells_of_readDirected accepted
  obtain rfl := spelled.unique again
  obtain ⟨y, place', readAgain, nearest', stands⟩ :=
    exists_place_readDirected reach spelled inRange fits
  obtain rfl := Except.ok.inj (accepted.symm.trans readAgain)
  rwa [nearest.unique nearest']

end Binary

/-! ## The readings of a 64-bit number -/

namespace Double

open Binary

/-- A text that is read as a 64-bit number in all three directions writes a number. If that is a
64-bit number, it is read as itself in all directions. Otherwise the number read downward lies
strictly below it and the one read upward strictly above, the nearest one lies between them, and
it takes at most two steps from the lower one to the upper one. -/
theorem readings_meet_or_bracket {text : List Char} {down middle up : Double}
    (readDown : readDirected .down text = .ok down)
    (readMiddle : readDirected .nearest text = .ok middle)
    (readUp : readDirected .up text = .ok up) :
    ∃ q : ℚ, WritesNumber text q ∧
      (((q : ℝ) : EReal) ∈ values Format.double →
        down.value? = some ((q : ℝ) : EReal) ∧ middle.value? = some ((q : ℝ) : EReal) ∧
          up.value? = some ((q : ℝ) : EReal)) ∧
      (((q : ℝ) : EReal) ∉ values Format.double →
        ∃ lower nearest upper : EReal, down.value? = some lower ∧ middle.value? = some nearest ∧
          up.value? = some upper ∧ lower < (q : ℝ) ∧ (q : ℝ) < upper ∧
          lower ≤ nearest ∧ nearest ≤ upper ∧
          ∃ steps ≤ 2, (nextUp^[steps] down).value? = up.value?) := by
  have reach : Format.double.unitBits ≤ Format.double.blocks + Format.double.fractionBits := by
    decide
  obtain ⟨literal, place, spelled, nearest, inside⟩ :=
    exists_nearest_of_readDirected reach readMiddle
  have atDown := place?_of_readDirected reach spelled nearest readDown
  have atMiddle : middle.place? = some place :=
    place?_of_readDirected reach spelled nearest readMiddle
  have atUp := place?_of_readDirected reach spelled nearest readUp
  have limits := abs_lt.mp inside
  refine ⟨literal.number, ⟨literal, spelled, rfl⟩, ?_, ?_⟩
  · intro known
    have same := (mem_values_iff nearest inside).mp known
    rw [Format.outward_of_eq _ same] at atDown atUp
    have value : Format.double.valueAt place = ((literal.number : ℝ) : EReal) := by
      rw [Format.valueAt_of_inside inside, same, Format.ofUnits_inUnits]
    exact value ▸ ⟨value?_of_place atDown, value?_of_place atMiddle, value?_of_place atUp⟩
  · intro unknown
    have inexact := mt (mem_values_iff nearest inside).mpr unknown
    have low := Format.double.outward_mem_of_ne_up (Format.double.inUnits literal.number) place
      (by decide : Direction.down ≠ .up)
    have high := Format.double.outward_mem_of_ne_down (Format.double.inUnits literal.number) place
      (by decide : Direction.up ≠ .down)
    have below := Format.valueAt_lt_ofUnits (low.2.trans_lt limits.2)
      (Format.unitsAt_outward_down_lt nearest inexact)
    have above := Format.ofUnits_lt_valueAt (limits.1.trans_le high.1)
      (Format.lt_unitsAt_outward_up nearest inexact)
    rw [Format.ofUnits_inUnits] at below above
    have order := (Format.valueAt_strictMonoOn (F := Format.double)).monotoneOn
    exact ⟨_, _, _, value?_of_place atDown, value?_of_place atMiddle, value?_of_place atUp,
      below, above, order (place_mem atDown) (place_mem atMiddle) low.2,
      order (place_mem atMiddle) (place_mem atUp) high.1,
      exists_steps atDown atUp (low.2.trans high.1) (by have := low.1; have := high.2; omega)⟩

/-- A tenth is not a 64-bit number. The directed readings are the neighbours of the nearest one. -/
theorem readings_meet_or_bracket_tenth :
    let down : Double := ofRank false 0x3FB9999999999999
    let middle : Double := ofRank false 0x3FB999999999999A
    let up : Double := ofRank false 0x3FB999999999999B
    readDirected .down "0.1".toList = .ok down ∧ readDirected .nearest "0.1".toList = .ok middle ∧
      readDirected .up "0.1".toList = .ok up ∧
      ∃ lower upper : EReal, down.value? = some lower ∧ up.value? = some upper ∧
        lower < ((1 / 10 : ℚ) : ℝ) ∧ ((1 / 10 : ℚ) : ℝ) < upper := by
  intro down middle up
  have readDown : readDirected .down "0.1".toList = .ok down := by decide +kernel
  have readMiddle : readDirected .nearest "0.1".toList = .ok middle := by decide +kernel
  have readUp : readDirected .up "0.1".toList = .ok up := by decide +kernel
  obtain ⟨q, writes, exact, inexact⟩ := readings_meet_or_bracket readDown readMiddle readUp
  have tenth : WritesNumber "0.1".toList (1 / 10) := by
    refine ⟨⟨false, ['0'], ['1'], 0⟩, Literal.read_eq_some_iff.mp (by decide +kernel), ?_⟩
    have digits : Literal.coefficient ⟨false, ['0'], ['1'], 0⟩ = 1 := rfl
    norm_num [Literal.number, digits, Literal.position]
  obtain rfl := writes.unique tenth
  have lower : down.place? = some 0x3FB9999999999999 := by decide +kernel
  have upper : up.place? = some 0x3FB999999999999B := by decide +kernel
  have apart : ((((1 / 10 : ℚ) : ℝ) : EReal)) ∉ values Format.double := by
    intro known
    obtain ⟨atDown, -, atUp⟩ := exact known
    rw [value?_of_place lower] at atDown
    rw [value?_of_place upper] at atUp
    have same := Format.valueAt_strictMonoOn.injOn (place_mem lower) (place_mem upper)
      (Option.some.inj (atDown.trans atUp.symm))
    exact absurd same (by decide)
  obtain ⟨low, -, high, atDown, -, atUp, below, above, -⟩ := inexact apart
  exact ⟨readDown, readMiddle, readUp, low, high, atDown, atUp, below, above⟩

end Double

end LinearEnclosure
