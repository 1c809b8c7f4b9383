/-
# Intervals of 64-bit numbers that are printed and read back

A printed end is the exact decimal of the number, rounded outward to the digits that are
shown, and reading it goes outward once more. So what comes back lies around the interval,
unless a printed end overflows: rounding a number next to the largest one outward to few
digits leads beyond all 64-bit numbers, and the reader refuses a number whose nearest binary
one is infinite. With seventeen digits that does not happen.
-/

import LinearEnclosure.Proofs.Binary.Order
import LinearEnclosure.Proofs.Binary.Reading
import LinearEnclosure.Proofs.Interval.RoundTrip

namespace LinearEnclosure

namespace Double

open Binary

/-- The numbers that are nearest to a finite 64-bit number. The bound is the midpoint between
the largest one and the power of two after it, and it belongs to the latter. -/
def Fits (q : ℚ) : Prop :=
  |q| < 2 ^ 1024 - 2 ^ 970

theorem isFinite_iff_fits {q : ℚ} {x : Double} (rounds : RoundsTo (Format.double.inUnits q) x) :
    x.isFinite ↔ Fits q := by
  have last : Format.double.infinityRank = (2047 * 2 ^ 52 - 1) + 1 := by decide
  have units : Format.double.unitsAt (2047 * 2 ^ 52 - 1 : ℕ) +
      Format.double.unitsAt ((2047 * 2 ^ 52 - 1 : ℕ) + 1) =
        2 * ((2 ^ 1024 - 2 ^ 970) * 2 ^ Format.double.unitBits) := by
    decide +kernel
  have midpoint : (Format.double.unitsAt (2047 * 2 ^ 52 - 1 : ℕ) +
      Format.double.unitsAt ((2047 * 2 ^ 52 - 1 : ℕ) + 1) : ℚ) =
        2 * Format.double.inUnits (2 ^ 1024 - 2 ^ 970) := by
    rw [Format.inUnits]
    exact_mod_cast units
  rw [rounds.isFinite_iff last, Format.abs_inUnits, midpoint, mul_lt_mul_iff_right₀ two_pos,
    Format.double.inUnits_strictMono.lt_iff_lt, Fits]

/-- What a literal is read as first, before it is corrected outward, is finite if it fits. -/
theorem isFinite_nearest_iff (literal : Literal) :
    (nearest literal.negative literal.value : Double).isFinite ↔ Fits literal.number :=
  isFinite_iff_fits (nearest_literal_roundsTo (by decide) literal)

variable {x : Double} {c : ℤ} {direction : Direction} {places : ℕ}

/-- The decimal that is printed for a finite number. -/
def shown (direction : Direction) (places : ℕ) (x : Double) : Decimal :=
  x.decimal.roundTo direction (places + 1)

theorem shown_inRange (finite : x.units? = some c) : (x.shown direction places).InRange := by
  have low : -1075 ≤ x.decimal.exponent := unitBits_le_exponent finite
  have high : x.decimal.top ≤ 2099 := top_decimal_le finite
  exact Decimal.inRange_roundTo (by omega) (by omega)

theorem shown_spells (positive : places ≠ 0) (finite : x.units? = some c) :
    (x.decimal.printed direction places).Spells (Endpoint.scientific direction places x) := by
  show (x.decimal.printed direction places).Spells (x.scientific direction places)
  rw [scientific_eq_decimal finite]
  exact x.decimal.printed_spells direction positive

/-- What is printed lies outward of the number. -/
theorem shown_bounds (finite : x.units? = some c) :
    direction.Bounds (c : ℚ) (Format.double.inUnits (x.shown direction places).toRat) := by
  have rounded := (x.decimal.roundTo_isRounded direction (Nat.le_add_left 1 places)).bounds
  rw [← inUnits_decimal finite]
  exact rounded.mul_of_pos (by positivity)

/-- For a printed number this is so if what is printed fits. -/
theorem nearest_printed_isFinite_iff :
    (nearest (x.decimal.printed direction places).negative
      (x.decimal.printed direction places).value : Double).isFinite ↔
        Fits (x.shown direction places).toRat := by
  rw [isFinite_nearest_iff, ← Literal.toRat_value, Decimal.value_printed, shown]

/-- A printed end that fits is read, and what is read lies outward of the number. -/
theorem exists_read_scientific (precision : ℕ) (positive : places ≠ 0) (finite : x.units? = some c)
    (fits : Fits (x.shown direction places).toRat) :
    ∃ y : Double, Endpoint.read direction precision (Endpoint.scientific direction places x) =
      .ok y ∧ y.IsBound direction c := by
  obtain ⟨y, accepted, place, stands, bounds⟩ := exists_readDirected (by decide)
    (shown_spells positive finite) (Decimal.inRange_printed (shown_inRange finite))
    (nearest_printed_isFinite_iff.mpr fits)
  rw [← Literal.toRat_value, Decimal.value_printed] at bounds
  exact ⟨y, mapError_eq_ok_iff.mpr accepted, place, stands, (shown_bounds finite).trans bounds⟩

/-- One that does not is refused. -/
theorem read_scientific_of_not_fits (precision : ℕ) (positive : places ≠ 0)
    (finite : x.units? = some c) (overflows : ¬Fits (x.shown direction places).toRat) :
    (Endpoint.read direction precision (Endpoint.scientific direction places x) :
        Except IntervalError Double) =
      .error (.unreadable (String.ofList (Endpoint.scientific direction places x))
        .notFiniteEndpoint) := by
  have refused : (Endpoint.read? direction precision (Endpoint.scientific direction places x) :
      Except Fault Double) = .error .notFiniteEndpoint :=
    readDirected_of_overflow (shown_spells positive finite)
      (Bool.not_eq_true _ ▸ mt nearest_printed_isFinite_iff.mp overflows)
  rw [Endpoint.read, refused]
  rfl

/-- No finite number is beyond the largest one. -/
theorem abs_decimal_le (finite : x.units? = some c) :
    |x.decimal.toRat| ≤ ((2 ^ 1024 - 2 ^ 971 : ℤ) : ℚ) := by
  obtain ⟨place, -, inside, rfl⟩ := exists_place finite
  have before : place.natAbs ≤ 2047 * 2 ^ 52 - 1 := by
    have last : Format.double.infinityRank = 2047 * 2 ^ 52 := rfl
    rw [last, abs_lt] at inside
    omega
  have largest : Format.double.units (2047 * 2 ^ 52 - 1) =
      (2 ^ 1024 - 2 ^ 971 : ℤ) * 2 ^ Format.double.unitBits := by
    decide +kernel
  have bounded : |Format.double.unitsAt place| ≤
      (2 ^ 1024 - 2 ^ 971 : ℤ) * 2 ^ Format.double.unitBits := by
    rw [← largest, Format.abs_unitsAt, Int.ofNat_le]
    exact Format.double.units_strictMono.monotone before
  have bounded : |(Format.double.unitsAt place : ℚ)| ≤
      Format.double.inUnits (2 ^ 1024 - 2 ^ 971 : ℤ) := by
    rw [Format.inUnits]
    exact_mod_cast bounded
  rwa [← inUnits_decimal finite, Format.abs_inUnits,
    Format.double.inUnits_strictMono.le_iff_le] at bounded

/-- Seventeen digits are enough: the largest number, rounded outward to so many, still fits. -/
theorem shown_fits (finite : x.units? = some c) (directed : direction ≠ .nearest)
    (enough : 16 ≤ places) : Fits (x.shown direction places).toRat := by
  have rounded := x.decimal.roundTo_isRounded direction (Nat.le_add_left 1 places)
  have few : ((17976931348623158 * 10 ^ 292 : ℤ) : ℚ) ∈ Decimal.short (places + 1) := by
    have written : ((17976931348623158 : ℤ) : ℚ) * 10 ^ ((292 : ℕ) : ℤ) ∈ Decimal.short 17 :=
      Decimal.mul_zpow_mem_short (by decide) (by decide) _
    rw [zpow_natCast] at written
    rw [Int.cast_mul, Int.cast_pow, Int.cast_ofNat 10]
    exact Decimal.short_mono (by omega) written
  -- The limits are compared as integers, by evaluation.
  have above : (2 : ℤ) ^ 1024 - 2 ^ 971 ≤ 17976931348623158 * 10 ^ 292 := by decide +kernel
  have below : (17976931348623158 : ℤ) * 10 ^ 292 < 2 ^ 1024 - 2 ^ 970 := by decide +kernel
  have inside := (abs_decimal_le finite).trans (Int.cast_le.mpr above)
  have limit : ((2 ^ 1024 - 2 ^ 970 : ℤ) : ℚ) = 2 ^ 1024 - 2 ^ 970 := by
    simp only [Int.cast_sub, Int.cast_pow, Int.cast_ofNat]
  exact ((rounded.within directed few inside).trans_lt (Int.cast_lt.mpr below)).trans_eq limit

end Double

namespace Interval

open Binary Double

variable {context : Context} {x y : Interval Double} {low high : ℤ}

/-- What lies outward of the ends of an interval in order is an interval around it. -/
theorem make?_of_isBound (ordered : x.Ordered) (lower : x.lo.units? = some low)
    (upper : x.hi.units? = some high) (below : y.lo.IsBound .down low)
    (above : y.hi.IsBound .up high) :
    make? y.lo y.hi = .ok y ∧ x.isSubset y = true := by
  obtain ⟨k, here, -, rfl⟩ := exists_place lower
  obtain ⟨l, there, -, rfl⟩ := exists_place upper
  obtain ⟨i, stands, le⟩ := below
  obtain ⟨j, stands', ge⟩ := above
  have between : k ≤ l := (notAbove_iff here there).mp ordered
  have down : i ≤ k := by
    rw [← Format.double.unitsAt_strictMono.le_iff_le]
    exact_mod_cast (show (Format.double.unitsAt i : ℚ) ≤ Format.double.unitsAt k from le)
  have up : l ≤ j := by
    rw [← Format.double.unitsAt_strictMono.le_iff_le]
    exact_mod_cast (show (Format.double.unitsAt l : ℚ) ≤ Format.double.unitsAt j from ge)
  constructor
  · exact make?_eq_ok_iff.mpr ⟨(notAbove_iff stands stands').mpr (by omega), rfl⟩
  · rw [isSubset, Bool.and_eq_true, Endpoint.le_iff_level, Endpoint.le_iff_level]
    simp only [Leveled.level, stands, stands', here, there, Option.map_some, Option.mem_def,
      Option.some.injEq, exists_eq_left', Int.cast_le]
    exact ⟨down, up⟩

/-- The reader sees the two printed ends. -/
theorem read_printed (positive : context.outDigits ≠ 0) (lower : x.lo.units? = some low)
    (upper : x.hi.units? = some high) :
    (read context (x.format context) : Except IntervalError (Interval Double)) =
      Endpoint.read context.lower context.precision
          (Endpoint.scientific context.lower context.outDigits x.lo) >>= fun lo =>
        Endpoint.read context.upper context.precision
          (Endpoint.scientific context.upper context.outDigits x.hi) >>= make? lo :=
  read_bracket ⟨_, shown_spells positive lower, rfl⟩ ⟨_, shown_spells positive upper, rfl⟩

/-- In dual mode an interval whose printed ends fit is read back around itself. -/
theorem exists_read_printed (dual : context.mode = .dual) (positive : context.outDigits ≠ 0)
    (ordered : x.Ordered) (lower : x.lo.units? = some low) (upper : x.hi.units? = some high)
    (fits : Fits (x.lo.shown .down context.outDigits).toRat ∧
      Fits (x.hi.shown .up context.outDigits).toRat) :
    ∃ y : Interval Double, read context (x.format context) = .ok y ∧ x.isSubset y = true := by
  obtain ⟨lo, acceptedLo, below⟩ := exists_read_scientific context.precision positive lower fits.1
  obtain ⟨hi, acceptedHi, above⟩ := exists_read_scientific context.precision positive upper fits.2
  obtain ⟨made, inside⟩ := make?_of_isBound (y := ⟨lo, hi⟩) ordered lower upper below above
  refine ⟨⟨lo, hi⟩, ?_, inside⟩
  rw [read_printed positive lower upper, Context.lower_eq_down dual, Context.upper_eq_up dual,
    acceptedLo, ok_bind, acceptedHi, ok_bind, made]

/-- It is refused if one of them does not. -/
theorem read_printed_of_not_fits (dual : context.mode = .dual) (positive : context.outDigits ≠ 0)
    (lower : x.lo.units? = some low) (upper : x.hi.units? = some high)
    (overflows : ¬(Fits (x.lo.shown .down context.outDigits).toRat ∧
      Fits (x.hi.shown .up context.outDigits).toRat)) :
    ∃ text, (read context (x.format context) : Except IntervalError (Interval Double)) =
      .error (.unreadable text .notFiniteEndpoint) := by
  rw [read_printed positive lower upper, Context.lower_eq_down dual, Context.upper_eq_up dual]
  by_cases fits : Fits (x.lo.shown .down context.outDigits).toRat
  · obtain ⟨lo, accepted, -⟩ := exists_read_scientific context.precision positive lower fits
    have refused := read_scientific_of_not_fits context.precision positive upper
      (fun other => overflows ⟨fits, other⟩)
    exact ⟨_, by rw [accepted, ok_bind, refused, error_bind]⟩
  · have refused := read_scientific_of_not_fits context.precision positive lower fits
    exact ⟨_, by rw [refused, error_bind]⟩

/-- A finite interval of 64-bit numbers that is printed in dual mode is read back around itself
if its ends, rounded outward to the digits that are shown, stay below the midpoint of the
largest number and the power of two after it. If one of them does not, the text is refused
because that end is not finite. With seventeen digits every interval is read back. -/
theorem format_read (dual : context.mode = .dual) (shown : 1 ≤ context.outDigits)
    (finite : x.isFinite = true) (ordered : x.Ordered) :
    ∃ a b low high : ℚ,
      x.lo.value? = some ((a : ℝ) : EReal) ∧ x.hi.value? = some ((b : ℝ) : EReal) ∧
      IsGreatest {s ∈ Decimal.short (context.outDigits + 1) | s ≤ a} low ∧
      IsLeast {s ∈ Decimal.short (context.outDigits + 1) | b ≤ s} high ∧
      (Fits low ∧ Fits high →
        ∃ y : Interval Double, read context (x.format context) = .ok y ∧ x.isSubset y = true) ∧
      (¬(Fits low ∧ Fits high) →
        ∃ text, (read context (x.format context) : Except IntervalError (Interval Double)) =
          .error (.unreadable text .notFiniteEndpoint)) ∧
      (16 ≤ context.outDigits → Fits low ∧ Fits high) := by
  have positive : context.outDigits ≠ 0 := Nat.one_le_iff_ne_zero.mp shown
  obtain ⟨finiteLo, finiteHi⟩ := Bool.and_eq_true_iff.mp finite
  obtain ⟨k, lower⟩ := Binary.isFinite_iff.mp finiteLo
  obtain ⟨l, upper⟩ := Binary.isFinite_iff.mp finiteHi
  have digits : 1 ≤ context.outDigits + 1 := Nat.le_add_left 1 _
  exact ⟨x.lo.decimal.toRat, x.hi.decimal.toRat, (x.lo.shown .down context.outDigits).toRat,
    (x.hi.shown .up context.outDigits).toRat, value?_eq_decimal lower, value?_eq_decimal upper,
    (x.lo.decimal.roundTo_isRounded .down digits).isGreatest,
    (x.hi.decimal.roundTo_isRounded .up digits).isLeast,
    exists_read_printed dual positive ordered lower upper,
    read_printed_of_not_fits dual positive lower upper,
    fun enough => ⟨shown_fits lower (by decide) enough, shown_fits upper (by decide) enough⟩⟩

/-- The widest finite interval is read back if seventeen digits are printed. -/
theorem format_read_widest :
    let context : Context := ⟨16, 16, .dual⟩
    let x : Interval Double := ⟨largest true, largest false⟩
    x.format context = "[-1.7976931348623158E+308;1.7976931348623158E+308]" ∧
      ∃ y : Interval Double,
        read context "[-1.7976931348623158E+308;1.7976931348623158E+308]" = .ok y ∧
          x.isSubset y = true := by
  intro context x
  have text : x.format context = "[-1.7976931348623158E+308;1.7976931348623158E+308]" := by
    decide +kernel
  have ordered : x.Ordered := by
    rw [Interval.Ordered, Endpoint.NotAbove]
    decide +kernel
  have dual : context.mode = .dual := rfl
  obtain ⟨_, _, _, _, -, -, -, -, enclosed, -, enough⟩ :=
    format_read dual (by decide) (by decide +kernel : x.isFinite = true) ordered
  have back := enclosed (enough le_rfl)
  rw [text] at back
  exact ⟨text, back⟩

/-- With two digits the largest number is printed beyond all 64-bit numbers, and the text is not
read back. -/
theorem format_unread_largest :
    let context : Context := ⟨16, 1, .dual⟩
    let x : Interval Double := ⟨Binary.zero, largest false⟩
    x.isFinite = true ∧ x.Ordered ∧ x.format context = "[0.0E+000;1.8E+308]" ∧
      ¬∃ y : Interval Double, read context (x.format context) = .ok y ∧ x.isSubset y = true := by
  intro context x
  have ordered : x.Ordered := by
    rw [Interval.Ordered, Endpoint.NotAbove]
    decide +kernel
  refine ⟨by decide +kernel, ordered, by decide +kernel, ?_⟩
  rintro ⟨y, accepted, -⟩
  have refused : (read context (x.format context) : Except IntervalError (Interval Double)).isOk =
      false := by
    decide +kernel
  rw [accepted] at refused
  cases refused

end Interval

end LinearEnclosure
