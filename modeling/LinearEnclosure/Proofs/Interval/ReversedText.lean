/-
# Texts with reversed bounds

The order of two bounds is tested after they have been rounded. In single mode rounding to nearest
can make two different numbers equal, and in dual mode the lower bound goes down and the upper one
up, toward each other if they are written in the wrong order. So a text with reversed bounds is
accepted where these lie too close together, and which ones do is said here exactly.

With decimal ends the numbers that the precision can hold decide: in dual mode the bounds are
found to be reversed if two of these lie between them, and in single mode if they are nearest to
different ones. With 64-bit ends the reader takes whole steps from the nearest number, so in dual
mode the places of the two nearest numbers and the steps from them decide, and in single mode
these places alone.
-/

import LinearEnclosure.Proofs.Interval.DoubleRoundTrip
import LinearEnclosure.Proofs.Interval.Grammar

namespace LinearEnclosure

/-! ## Decimal ends -/

namespace DecimalFloat

variable {precision : ℕ}

/-- Bounds that do not stay reversed when they are rounded: no two numbers that the precision can
hold lie between them, or one is nearest to both. -/
def Meet (mode : RoundingMode) (precision : ℕ) (lower upper : ℚ) : Prop :=
  match mode with
  | .dual => Set.Subsingleton {s ∈ Decimal.short precision | upper ≤ s ∧ s ≤ lower}
  | .single => ∃ s, Direction.IsNearest precision lower s ∧ Direction.IsNearest precision upper s

theorem le_iff_meet {mode : RoundingMode} {lower upper lo hi : ℚ} (reversed : upper < lower)
    (low : mode.lower.IsRounding precision lower lo)
    (high : mode.upper.IsRounding precision upper hi) :
    lo ≤ hi ↔ Meet mode precision lower upper := by
  cases mode with
  | dual =>
    constructor
    · -- A short number between the bounds is not passed by either end.
      rintro le s ⟨few, above, below⟩ t ⟨few', above', below'⟩
      have first : hi ≤ s ∧ s ≤ lo := ⟨high.2 ⟨few, above⟩, low.2 ⟨few, below⟩⟩
      have second : hi ≤ t ∧ t ≤ lo := ⟨high.2 ⟨few', above'⟩, low.2 ⟨few', below'⟩⟩
      linarith
    · intro alone
      obtain ⟨⟨fewLow, below⟩, -⟩ := low
      obtain ⟨⟨fewHigh, above⟩, -⟩ := high
      by_contra! less
      exact less.ne (alone ⟨fewHigh, above, less.le.trans below⟩
        ⟨fewLow, above.trans less.le, below⟩)
  | single =>
    constructor
    · intro le
      obtain rfl := le_antisymm le (high.mono low reversed)
      exact ⟨lo, low, high⟩
    · rintro ⟨s, first, second⟩
      rw [low.unique first, high.unique second]

end DecimalFloat

/-! ## Binary ends -/

namespace Double

open Binary

variable {direction : Direction} {precision : ℕ} {text : List Char} {literal : Literal}

/-- The nearest 64-bit number is finite, and a directed reader finds the decimal in range. -/
def Reads (direction : Direction) (literal : Literal) : Prop :=
  Fits literal.number ∧ (direction ≠ .nearest → literal.inRange = true)

theorem reads_of_read (spelled : literal.Spells text) {x : Double}
    (accepted : Endpoint.read direction precision text = .ok x) : Reads direction literal := by
  obtain ⟨other, again, inRange, finite⟩ :=
    exists_spells_of_readDirected (mapError_eq_ok_iff.mp accepted)
  obtain rfl := spelled.unique again
  exact ⟨(isFinite_nearest_iff _).mp finite, inRange⟩

/-- A number that reads stands at the nearest place or one step outward from it. -/
theorem exists_place_of_reads (spelled : literal.Spells text) (reads : Reads direction literal) :
    ∃ (x : Double) (place : ℤ), Endpoint.read direction precision text = .ok x ∧
      Format.double.Nearest (Format.double.inUnits literal.number) place ∧
      x.place? = some
        (Format.double.outward direction (Format.double.inUnits literal.number) place) := by
  obtain ⟨x, place, accepted, nearest, stands⟩ := exists_place_readDirected (F := Format.double)
    (by decide) spelled reads.2 ((isFinite_nearest_iff _).mpr reads.1)
  exact ⟨x, place, mapError_eq_ok_iff.mpr accepted, nearest, stands⟩

/-- So does every number that was read. -/
theorem exists_place_of_read (spelled : literal.Spells text) {x : Double}
    (accepted : Endpoint.read direction precision text = .ok x) :
    Reads direction literal ∧
      ∃ place : ℤ, Format.double.Nearest (Format.double.inUnits literal.number) place ∧
        x.place? = some
          (Format.double.outward direction (Format.double.inUnits literal.number) place) := by
  have reads := reads_of_read spelled accepted
  obtain ⟨_, place, again, nearest, stands⟩ := exists_place_of_reads spelled reads
  obtain rfl := Except.ok.inj (accepted.symm.trans again)
  exact ⟨reads, place, nearest, stands⟩

/-- Bounds that do not stay reversed when they are read: the steps from the nearest places cross
or end in one place, or one place is nearest to both. -/
def Meet (mode : RoundingMode) (lower upper : ℚ) : Prop :=
  match mode with
  | .dual => ∃ i j : ℤ, Format.double.Nearest (Format.double.inUnits lower) i ∧
      Format.double.Nearest (Format.double.inUnits upper) j ∧
      Format.double.outward .down (Format.double.inUnits lower) i ≤
        Format.double.outward .up (Format.double.inUnits upper) j
  | .single => ∃ place, Format.double.Nearest (Format.double.inUnits lower) place ∧
      Format.double.Nearest (Format.double.inUnits upper) place

theorem le_iff_meet {mode : RoundingMode} {lower upper : ℚ} {i j : ℤ} (reversed : upper < lower)
    (low : Format.double.Nearest (Format.double.inUnits lower) i)
    (high : Format.double.Nearest (Format.double.inUnits upper) j) :
    Format.double.outward mode.lower (Format.double.inUnits lower) i ≤
      Format.double.outward mode.upper (Format.double.inUnits upper) j ↔
        Meet mode lower upper := by
  cases mode with
  | dual =>
    constructor
    · intro le
      exact ⟨i, j, low, high, le⟩
    · rintro ⟨i', j', first, second, le⟩
      rwa [low.unique first, high.unique second]
  | single =>
    constructor
    · intro le
      have order := high.mono low (Format.double.inUnits_strictMono.monotone reversed.le)
      obtain rfl := le_antisymm (show i ≤ j from le) order
      exact ⟨i, low, high⟩
    · rintro ⟨place, first, second⟩
      rw [low.unique first, high.unique second]
      exact le_rfl

end Double

/-! ## Intervals -/

namespace Interval

open Endpoint

variable {context : Context} {text : String} {lower upper : Literal}

/-- A text of two numbers is accepted if both are read and the ends that they are read as are in
order. -/
theorem exists_read_iff (β : Type) [Endpoint β] (context : Context)
    (spelled : SpellsInterval text [lower, upper]) :
    ∃ first last, lower.Spells first ∧ upper.Spells last ∧
      ((∃ x : Interval β, read context text = .ok x) ↔
        ∃ below above : β, Endpoint.read context.lower context.precision first = .ok below ∧
          Endpoint.read context.upper context.precision last = .ok above ∧
          NotAbove below above) := by
  obtain ⟨first, last, spelledLower, spelledUpper, reads⟩ := exists_read_pair β context spelled
  refine ⟨first, last, spelledLower, spelledUpper, ?_⟩
  simp only [reads, bind_eq_ok_iff, make?_eq_ok_iff]
  constructor
  · rintro ⟨x, below, readBelow, above, readAbove, ordered, -⟩
    exact ⟨below, above, readBelow, readAbove, ordered⟩
  · rintro ⟨below, above, readBelow, readAbove, ordered⟩
    exact ⟨⟨below, above⟩, below, readBelow, above, readAbove, ordered, rfl⟩

theorem read_decimal_reversed_iff (precise : 1 ≤ context.precision)
    (spelled : SpellsInterval text [lower, upper]) (reversed : upper.number < lower.number) :
    (∃ x : Interval DecimalFloat, read context text = .ok x) ↔
      (DecimalFloat.Reads lower ∧ DecimalFloat.Reads upper) ∧
        DecimalFloat.Meet context.mode context.precision lower.number upper.number := by
  obtain ⟨first, last, spelledLower, spelledUpper, outcome⟩ :=
    exists_read_iff DecimalFloat context spelled
  have order {below above : DecimalFloat}
      (readBelow : Endpoint.read context.lower context.precision first = .ok below)
      (readAbove : Endpoint.read context.upper context.precision last = .ok above) :
      NotAbove below above ↔
        DecimalFloat.Meet context.mode context.precision lower.number upper.number :=
    (DecimalFloat.notAbove_iff below above).trans (DecimalFloat.le_iff_meet reversed
      (DecimalFloat.isRounding_of_read precise spelledLower readBelow)
      (DecimalFloat.isRounding_of_read precise spelledUpper readAbove))
  rw [outcome]
  constructor
  · rintro ⟨below, above, readBelow, readAbove, ordered⟩
    exact ⟨⟨(DecimalFloat.exists_read_iff spelledLower).mp ⟨below, readBelow⟩,
      (DecimalFloat.exists_read_iff spelledUpper).mp ⟨above, readAbove⟩⟩,
      (order readBelow readAbove).mp ordered⟩
  · rintro ⟨⟨readsLower, readsUpper⟩, meet⟩
    obtain ⟨below, readBelow⟩ := (DecimalFloat.exists_read_iff spelledLower).mpr readsLower
    obtain ⟨above, readAbove⟩ := (DecimalFloat.exists_read_iff spelledUpper).mpr readsUpper
    exact ⟨below, above, readBelow, readAbove, (order readBelow readAbove).mpr meet⟩

theorem read_binary_reversed_iff (spelled : SpellsInterval text [lower, upper])
    (reversed : upper.number < lower.number) :
    (∃ x : Interval Double, read context text = .ok x) ↔
      (Double.Reads context.lower lower ∧ Double.Reads context.upper upper) ∧
        Double.Meet context.mode lower.number upper.number := by
  obtain ⟨first, last, spelledLower, spelledUpper, outcome⟩ :=
    exists_read_iff Double context spelled
  rw [outcome]
  constructor
  · rintro ⟨below, above, readBelow, readAbove, ordered⟩
    obtain ⟨readsLower, i, low, here⟩ := Double.exists_place_of_read spelledLower readBelow
    obtain ⟨readsUpper, j, high, there⟩ := Double.exists_place_of_read spelledUpper readAbove
    exact ⟨⟨readsLower, readsUpper⟩, (Double.le_iff_meet reversed low high).mp
      ((Double.notAbove_iff here there).mp ordered)⟩
  · rintro ⟨⟨readsLower, readsUpper⟩, meet⟩
    obtain ⟨below, i, readBelow, low, here⟩ :=
      Double.exists_place_of_reads spelledLower readsLower
    obtain ⟨above, j, readAbove, high, there⟩ :=
      Double.exists_place_of_reads spelledUpper readsUpper
    exact ⟨below, above, readBelow, readAbove, (Double.notAbove_iff here there).mpr
      ((Double.le_iff_meet reversed low high).mpr meet)⟩

/-- Bounds that are written in the wrong order are accepted if both are read and they meet when
they are rounded, and in no other case. This holds for both kinds of ends and in both modes. -/
theorem read_reversed_iff (precise : 1 ≤ context.precision)
    (spelled : SpellsInterval text [lower, upper]) (reversed : upper.number < lower.number) :
    ((∃ x : Interval DecimalFloat, read context text = .ok x) ↔
      (DecimalFloat.Reads lower ∧ DecimalFloat.Reads upper) ∧
        DecimalFloat.Meet context.mode context.precision lower.number upper.number) ∧
    ((∃ x : Interval Double, read context text = .ok x) ↔
      (Double.Reads context.lower lower ∧ Double.Reads context.upper upper) ∧
        Double.Meet context.mode lower.number upper.number) :=
  ⟨read_decimal_reversed_iff precise spelled reversed, read_binary_reversed_iff spelled reversed⟩

/-- To one digit 1.5 and 1.2 go to 1 and to 2, as nothing with one digit lies between them. As
64-bit numbers they stay apart. -/
theorem read_reversed_iff_digit :
    let context : Context := ⟨1, 1, .dual⟩
    ((∃ x : Interval DecimalFloat, read context "[1.5;1.2]" = .ok x) ∧
      DecimalFloat.Meet .dual 1 (3 / 2) (6 / 5)) ∧
    (¬∃ x : Interval Double, read context "[1.5;1.2]" = .ok x) ∧
      ¬Double.Meet .dual (3 / 2) (6 / 5) := by
  intro context
  have lower : Literal.Spells "1.5".toList ⟨false, ['1'], ['5'], 0⟩ :=
    Literal.read_eq_some_iff.mp (by decide +kernel)
  have upper : Literal.Spells "1.2".toList ⟨false, ['1'], ['2'], 0⟩ :=
    Literal.read_eq_some_iff.mp (by decide +kernel)
  have spelled : SpellsInterval "[1.5;1.2]" [⟨false, ['1'], ['5'], 0⟩, ⟨false, ['1'], ['2'], 0⟩] :=
    ⟨_, .pair (.inl rfl) lower upper, .inr (by decide +kernel)⟩
  have first : Literal.number ⟨false, ['1'], ['5'], 0⟩ = 3 / 2 := by
    have digits : Literal.coefficient ⟨false, ['1'], ['5'], 0⟩ = 15 := rfl
    norm_num [Literal.number, digits, Literal.position]
  have last : Literal.number ⟨false, ['1'], ['2'], 0⟩ = 6 / 5 := by
    have digits : Literal.coefficient ⟨false, ['1'], ['2'], 0⟩ = 12 := rfl
    norm_num [Literal.number, digits, Literal.position]
  obtain ⟨decimals, doubles⟩ := @read_reversed_iff context _ _ _ (by decide) spelled
    (by rw [first, last]; norm_num)
  rw [first, last] at decimals doubles
  have accepted := exists_of_isOk (by decide +kernel :
    (read context "[1.5;1.2]" : Except IntervalError (Interval DecimalFloat)).isOk)
  have refused : ¬∃ x : Interval Double, read context "[1.5;1.2]" = .ok x := by
    have failed : (read context "[1.5;1.2]" : Except IntervalError (Interval Double)).isOk =
        false := by
      decide +kernel
    rintro ⟨x, accepted⟩
    rw [accepted] at failed
    cases failed
  have readsLower : Double.Reads .down ⟨false, ['1'], ['5'], 0⟩ :=
    ⟨(Double.isFinite_nearest_iff _).mp (by decide +kernel), fun _ => by decide +kernel⟩
  have readsUpper : Double.Reads .up ⟨false, ['1'], ['2'], 0⟩ :=
    ⟨(Double.isFinite_nearest_iff _).mp (by decide +kernel), fun _ => by decide +kernel⟩
  exact ⟨⟨accepted, (decimals.mp accepted).2⟩, refused,
    fun meet => refused (doubles.mpr ⟨⟨readsLower, readsUpper⟩, meet⟩)⟩

/-- A lower bound that is written above one, but too close to it, is accepted beside the upper bound
one, and the interval does not hold it. -/
theorem read_reversed_above_one :
    ∃ lower upper : Literal, SpellsInterval "[1.00000000000000005;1]" [lower, upper] ∧
      upper.number < lower.number ∧
      ∃ x : Interval Double, read ⟨16, 16, .dual⟩ "[1.00000000000000005;1]" = .ok x ∧
        x.hi = Binary.one := by
  have lower : Literal.Spells "1.00000000000000005".toList
      ⟨false, ['1'], List.replicate 16 '0' ++ ['5'], 0⟩ :=
    Literal.read_eq_some_iff.mp (by decide +kernel)
  have upper : Literal.Spells "1".toList ⟨false, ['1'], [], 0⟩ :=
    Literal.read_eq_some_iff.mp (by decide +kernel)
  refine ⟨_, _, ⟨_, .pair (.inl rfl) lower upper, .inr (by decide +kernel)⟩, ?_, ?_⟩
  · have first : Literal.coefficient ⟨false, ['1'], List.replicate 16 '0' ++ ['5'], 0⟩ =
        100000000000000005 := by
      decide +kernel
    have last : Literal.coefficient ⟨false, ['1'], [], 0⟩ = 1 := rfl
    norm_num [Literal.number, first, last, Literal.position]
  · have shown : ((read ⟨16, 16, .dual⟩ "[1.00000000000000005;1]" :
        Except IntervalError (Interval Double)).toOption.map (·.hi)) = some Binary.one := by
      decide +kernel
    obtain ⟨x, accepted⟩ := exists_of_isOk (by decide +kernel :
      (read ⟨16, 16, .dual⟩ "[1.00000000000000005;1]" :
        Except IntervalError (Interval Double)).isOk)
    rw [accepted] at shown
    exact ⟨x, accepted, Option.some.inj shown⟩

end Interval

end LinearEnclosure
