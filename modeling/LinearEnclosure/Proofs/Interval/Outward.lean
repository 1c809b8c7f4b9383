/-
# Reading encloses what is written

In dual mode an interval that is read lies around everything its text writes: around two
written bounds, or around a single written number and one unit in the last place to both of its
sides. This holds for both kinds of endpoints, where the ends of an interval of binary numbers
may be infinite and are compared in the extended line.

The argument is the same for both. An end that is read lies on its side of the written number,
and it stays there when it is moved outward by a unit. What a kind of endpoint has to supply are
those two facts.
-/

import LinearEnclosure.Proofs.Binary.Sum
import LinearEnclosure.Proofs.Interval.DoubleRoundTrip

namespace LinearEnclosure

/-- The side of a number on which one of the extended line lies. -/
def Direction.Leads (direction : Direction) (r : ℝ) (v : EReal) : Prop :=
  match direction with
  | .down => v ≤ r
  | .up => r ≤ v
  | .nearest => True

/-- Endpoints that stand for numbers of the extended line. -/
class OnLine (β : Type) where
  value? : β → Option EReal

noncomputable instance : OnLine Double where
  value? := Binary.value?

noncomputable instance : OnLine DecimalFloat where
  value? x := some ((x.value.toRat : ℝ) : EReal)

namespace OnLine

variable {β : Type} [Endpoint β] [OnLine β]

/-- `x` stands for a number on the promised side of `r`. -/
def Bounds (direction : Direction) (r : ℝ) (x : β) : Prop :=
  ∃ v, value? x = some v ∧ direction.Leads r v

variable (β) in
/-- What it takes of endpoints that reading encloses. -/
structure ReadsOutward : Prop where
  /-- The unit in the last place is a number. -/
  exists_unit (precision : ℕ) :
    ∃ unit : ℝ, value? (Endpoint.epsilon precision : β) = some (unit : EReal)
  /-- A text without blanks that is read in a direction writes a number, and what is read lies
  on the promised side of it. -/
  read {direction : Direction} {precision : ℕ} {text : List Char} {x : β} :
    direction ≠ .nearest → (∀ c ∈ text, Text.isBlank c = false) →
      Endpoint.read direction precision text = .ok x →
        ∃ q : ℚ, WritesNumber text q ∧ Bounds direction q x
  /-- Taking a unit away downward leads below the number less the unit. -/
  sub_unit {precision : ℕ} {x : β} {r unit : ℝ} :
    value? (Endpoint.epsilon precision : β) = some (unit : EReal) → Bounds .down r x →
      Bounds .down (r - unit) (Endpoint.sub .down precision x (Endpoint.epsilon precision))
  /-- Adding a unit upward leads above the number and the unit. -/
  add_unit {precision : ℕ} {x : β} {r unit : ℝ} :
    value? (Endpoint.epsilon precision : β) = some (unit : EReal) → Bounds .up r x →
      Bounds .up (r + unit) (Endpoint.add .up precision x (Endpoint.epsilon precision))

end OnLine

open OnLine

namespace Interval

variable {β : Type} [Endpoint β] [OnLine β] {context : Context} {x : Interval β}

/-- An interval around everything that a text without blanks and brackets writes: around a
number and a unit in the last place to both sides, or around two bounds. -/
inductive EnclosesWritten (context : Context) (x : Interval β) : List Char → Prop
  | single {text : List Char} {q : ℚ} {unit : ℝ} :
      WritesNumber text q →
      value? (Endpoint.epsilon context.precision : β) = some (unit : EReal) →
      Bounds .down (q - unit) x.lo → Bounds .up (q + unit) x.hi →
      EnclosesWritten context x text
  | pair {lower upper : List Char} {separator : Char} {lo hi : ℚ} :
      separator = ';' ∨ separator = ',' → WritesNumber lower lo → WritesNumber upper hi →
      Bounds .down lo x.lo → Bounds .up hi x.hi →
      EnclosesWritten context x (lower ++ separator :: upper)

/-- An interval around everything that a text writes. Blanks may stand anywhere in the text, and
brackets around it all. -/
def EnclosesText (context : Context) (text : String) (x : Interval β) : Prop :=
  ∃ inner, (Text.squeeze text.toList = inner ∨
    Text.squeeze text.toList = '[' :: (inner ++ [']'])) ∧ EnclosesWritten context x inner

theorem ReadFrom.enclosesWritten (outward : ReadsOutward β) (dual : context.mode = .dual)
    {inner : List Char} (clear : ∀ c ∈ inner, Text.isBlank c = false)
    (came : ReadFrom context x inner) : EnclosesWritten context x inner := by
  cases came with
  | single readBelow readAbove made =>
    obtain ⟨-, rfl⟩ := make?_eq_ok_iff.mp made
    rw [Context.lower_eq_down dual] at readBelow ⊢
    rw [Context.upper_eq_up dual] at readAbove ⊢
    obtain ⟨q, number, low⟩ := outward.read (by decide) clear readBelow
    obtain ⟨q', number', high⟩ := outward.read (by decide) clear readAbove
    obtain rfl := number.unique number'
    obtain ⟨unit, known⟩ := outward.exists_unit context.precision
    exact .single number known (outward.sub_unit known low) (outward.add_unit known high)
  | pair parted readBelow readAbove made =>
    obtain ⟨-, rfl⟩ := make?_eq_ok_iff.mp made
    rw [Context.lower_eq_down dual] at readBelow
    rw [Context.upper_eq_up dual] at readAbove
    rw [List.forall_mem_append, List.forall_mem_cons] at clear
    obtain ⟨lo, lower, low⟩ := outward.read (by decide) clear.1 readBelow
    obtain ⟨hi, upper, high⟩ := outward.read (by decide) clear.2.2 readAbove
    exact .pair parted lower upper low high

theorem enclosesText_of_read (outward : ReadsOutward β) (dual : context.mode = .dual)
    {text : String} (accepted : read context text = .ok x) : EnclosesText context text x := by
  obtain ⟨inner, shape, clear, came⟩ := exists_readFrom accepted
  exact ⟨inner, shape, came.enclosesWritten outward dual clear⟩

end Interval

/-! ## Decimal endpoints -/

namespace DecimalFloat

theorem readsOutward : ReadsOutward DecimalFloat where
  exists_unit precision := ⟨_, rfl⟩
  read := by
    intro direction precision text x _ clear accepted
    obtain ⟨q, number⟩ := Interval.exists_writesNumber clear accepted
    have side := number.read_bounds accepted
    refine ⟨q, number, _, rfl, ?_⟩
    cases direction with
    | down => exact EReal.coe_le_coe_iff.mpr (Rat.cast_le.mpr side)
    | nearest => trivial
    | up => exact EReal.coe_le_coe_iff.mpr (Rat.cast_le.mpr side)
  sub_unit := by
    rintro precision x r unit ⟨⟩ ⟨_, ⟨⟩, low⟩
    have rounded : Direction.Bounds .down _ _ :=
      sub_bounds .down precision x (epsilon precision)
    refine ⟨_, rfl, EReal.coe_le_coe_iff.mpr ?_⟩
    calc ((DecimalFloat.sub .down precision x (epsilon precision)).value.toRat : ℝ)
        ≤ (x.value.toRat - (epsilon precision).value.toRat : ℚ) := Rat.cast_le.mpr rounded
      _ = x.value.toRat - (epsilon precision).value.toRat := Rat.cast_sub _ _
      _ ≤ r - _ := sub_le_sub_right (EReal.coe_le_coe_iff.mp low) _
  add_unit := by
    rintro precision x r unit ⟨⟩ ⟨_, ⟨⟩, high⟩
    have rounded : Direction.Bounds .up _ _ :=
      add_bounds .up precision x (epsilon precision)
    refine ⟨_, rfl, EReal.coe_le_coe_iff.mpr ?_⟩
    calc r + _ ≤ x.value.toRat + ((epsilon precision).value.toRat : ℝ) :=
          add_le_add_left (EReal.coe_le_coe_iff.mp high) _
      _ = (x.value.toRat + (epsilon precision).value.toRat : ℚ) := (Rat.cast_add _ _).symm
      _ ≤ (DecimalFloat.add .up precision x (epsilon precision)).value.toRat :=
          Rat.cast_le.mpr rounded

end DecimalFloat

/-! ## Binary endpoints -/

namespace Binary

variable {F : Format} {x y : Binary F} {exact : ℚ} {b c : ℤ} {direction : Direction}
  {text : List Char}

/-- A bound of a number between the infinities lies on the promised side in the extended line. -/
theorem IsBound.exists_leads [NeZero F.infinityRank] (bound : y.IsBound direction exact)
    (between : F.unitsAt (-F.infinityRank) < exact ∧ exact < F.unitsAt F.infinityRank) :
    ∃ v, y.value? = some v ∧ direction.Leads (F.ofUnits exact) v := by
  obtain ⟨place, stands, side⟩ := bound
  refine ⟨F.valueAt place, by rw [value?_eq_map, stands, Option.map_some], ?_⟩
  cases direction with
  | down =>
    have inside : F.unitsAt place < F.unitsAt F.infinityRank := by
      exact_mod_cast lt_of_le_of_lt side between.2
    exact Format.valueAt_le_ofUnits (F.unitsAt_strictMono.lt_iff_lt.mp inside) side
  | nearest => trivial
  | up =>
    have inside : F.unitsAt (-F.infinityRank) < F.unitsAt place := by
      exact_mod_cast lt_of_lt_of_le between.1 side
    exact Format.ofUnits_le_valueAt (F.unitsAt_strictMono.lt_iff_lt.mp inside) side

variable [NeZero F.fractionBits] [NeZero F.infinityRank]

/-- What is read in a direction lies on the promised side of the written number. -/
theorem exists_leads_of_readDirected (reach : F.unitBits ≤ F.blocks + F.fractionBits)
    (directed : direction ≠ .nearest)
    (accepted : (readDirected direction text : Except Fault (Binary F)) = .ok y) :
    ∃ q : ℚ, WritesNumber text q ∧ ∃ v, y.value? = some v ∧ direction.Leads q v := by
  obtain ⟨literal, spelled, inRange, fits⟩ := exists_spells_of_readDirected accepted
  obtain ⟨y', again, bound⟩ := exists_readDirected reach spelled (inRange directed) fits
  obtain rfl := Except.ok.inj (accepted.symm.trans again)
  obtain ⟨c, finite⟩ := isFinite_iff.mp fits
  have leads := bound.exists_leads ((nearest_literal_roundsTo reach literal).between finite)
  rw [F.ofUnits_inUnits] at leads
  exact ⟨_, ⟨literal, spelled, rfl⟩, leads⟩

/-- A directed sum lies on the promised side of a bound of its first summand and its second
summand together, unless that is one of the largest magnitude. -/
theorem exists_leads_addDirected {v : EReal} {r : ℝ} (left : x.value? = some v)
    (side : direction.Leads r v) (right : y.units? = some b)
    (small : |b| ≠ F.units (F.infinityRank - 1)) (directed : direction ≠ .nearest) :
    ∃ w, (addDirected direction x y).value? = some w ∧ direction.Leads (r + F.ofUnits b) w := by
  cases x with
  | finite negative rank rank_lt =>
    have taken : ¬BackOverflows (finite negative rank rank_lt) y :=
      fun overflows => small (abs_eq_of_backOverflows rfl right overflows)
    obtain ⟨⟨w, stands, ⟨-, below⟩, -⟩, w', stands', ⟨-, above⟩, -⟩ :=
      addDirected_tight rfl right taken
    obtain rfl := Option.some.inj left
    rw [Int.cast_add, F.ofUnits_add] at below above
    cases direction with
    | down =>
      refine ⟨w, stands, below.trans (EReal.coe_le_coe_iff.mpr ?_)⟩
      exact add_le_add_left (EReal.coe_le_coe_iff.mp side) _
    | nearest => exact absurd rfl directed
    | up =>
      refine ⟨w', stands', le_trans (EReal.coe_le_coe_iff.mpr ?_) above⟩
      exact add_le_add_left (EReal.coe_le_coe_iff.mp side) _
  | infinite negative =>
    -- An infinite bound of a number stays where it is.
    obtain rfl := Option.some.inj left
    obtain ⟨_, _, _, rfl, -⟩ := exists_finite right
    cases direction with
    | down =>
      cases negative with
      | false => exact absurd side (not_le.mpr (EReal.coe_lt_top r))
      | true => exact ⟨⊥, rfl, bot_le⟩
    | nearest => exact absurd rfl directed
    | up =>
      cases negative with
      | false => exact ⟨⊤, rfl, le_top⟩
      | true => exact absurd side (not_le.mpr (EReal.bot_lt_coe r))
  | nan => cases left

end Binary

namespace Double

open Binary

theorem units?_epsilon : (epsilon : Double).units? = some (2 ^ 1022) := by
  decide +kernel

theorem readsOutward : ReadsOutward Double where
  exists_unit _ := ⟨_, value?_of_units units?_epsilon⟩
  read directed _ accepted :=
    exists_leads_of_readDirected (by decide) directed (mapError_eq_ok_iff.mp accepted)
  sub_unit := by
    rintro precision x r unit known ⟨v, stands, side⟩
    have right : (epsilon : Double).neg.units? = some (-2 ^ 1022) := by decide +kernel
    obtain rfl : Format.double.ofUnits (2 ^ 1022 : ℤ) = unit :=
      EReal.coe_eq_coe_iff.mp (Option.some.inj ((value?_of_units units?_epsilon).symm.trans known))
    have leads := exists_leads_addDirected stands side right (by decide +kernel) (by decide)
    rw [Int.cast_neg, Format.ofUnits_neg, ← sub_eq_add_neg] at leads
    exact leads
  add_unit := by
    rintro precision x r unit known ⟨v, stands, side⟩
    obtain rfl : Format.double.ofUnits (2 ^ 1022 : ℤ) = unit :=
      EReal.coe_eq_coe_iff.mp (Option.some.inj ((value?_of_units units?_epsilon).symm.trans known))
    exact exists_leads_addDirected stands side units?_epsilon (by decide +kernel) (by decide)

end Double

namespace Interval

variable {context : Context}

/-- In dual mode an interval that is read from a text, with either kind of endpoints, lies around
everything that the text writes. -/
theorem read_encloses_written (dual : context.mode = .dual) (text : String) :
    (∀ x : Interval Double, read context text = .ok x → EnclosesText context text x) ∧
      ∀ x : Interval DecimalFloat, read context text = .ok x → EnclosesText context text x :=
  ⟨fun _ => enclosesText_of_read Double.readsOutward dual,
    fun _ => enclosesText_of_read DecimalFloat.readsOutward dual⟩

/-- A tenth is no binary number, and its text is read with both kinds of endpoints. -/
theorem read_encloses_written_tenth :
    (∃ x : Interval Double, read ⟨16, 16, .dual⟩ " [ 0.1 ] " = .ok x ∧
      EnclosesText ⟨16, 16, .dual⟩ " [ 0.1 ] " x) ∧
    ∃ x : Interval DecimalFloat, read ⟨16, 16, .dual⟩ " [ 0.1 ] " = .ok x ∧
      EnclosesText ⟨16, 16, .dual⟩ " [ 0.1 ] " x := by
  have dual : (⟨16, 16, .dual⟩ : Context).mode = .dual := rfl
  obtain ⟨doubles, decimals⟩ := read_encloses_written dual " [ 0.1 ] "
  obtain ⟨x, readDouble⟩ := exists_of_isOk
    (by decide +kernel : (read ⟨16, 16, .dual⟩ " [ 0.1 ] " :
      Except IntervalError (Interval Double)).isOk = true)
  obtain ⟨y, readDecimal⟩ := exists_of_isOk
    (by decide +kernel : (read ⟨16, 16, .dual⟩ " [ 0.1 ] " :
      Except IntervalError (Interval DecimalFloat)).isOk = true)
  exact ⟨⟨x, readDouble, doubles x readDouble⟩, y, readDecimal, decimals y readDecimal⟩

end Interval

end LinearEnclosure
