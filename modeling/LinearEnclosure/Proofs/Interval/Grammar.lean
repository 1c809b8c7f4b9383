/-
# The language of interval texts

The reader takes blanks out of a text, then brackets off it, cuts it at separators, and looks
for a sign, a point and a power of ten in each field. All of this together accepts one language,
which is described here in the order in which it is written: one number or two with a separator
between them, perhaps in brackets. Outside of it every text is unreadable, whatever is wrong with
it, and no field is filled in with a default.

Inside the language only the exponents are limited. One that does not fit into a signed word of
64 bits makes the text unreadable. Where the exponents leave a margin and the text is not of
astronomical length, all positions that are computed on the way fit, and then the only possible
refusal is that of reversed bounds.
-/

import LinearEnclosure.Proofs.Interval.Printing
import LinearEnclosure.Proofs.Interval.Writing

namespace LinearEnclosure

/-- The literals of a text without blanks and brackets: one, or two with a separator between
them. -/
inductive SpellsBounds : List Char → List Literal → Prop
  | single {text : List Char} {literal : Literal} : literal.Spells text →
      SpellsBounds text [literal]
  | pair {first last : List Char} {separator : Char} {lower upper : Literal} :
      separator = ';' ∨ separator = ',' → lower.Spells first → upper.Spells last →
      SpellsBounds (first ++ separator :: last) [lower, upper]

/-- The language of interval texts, with the literals of each text. Blanks may stand anywhere,
and brackets around it all. -/
def SpellsInterval (text : String) (literals : List Literal) : Prop :=
  ∃ inner, SpellsBounds inner literals ∧
    (Text.squeeze text.toList = inner ∨ Text.squeeze text.toList = '[' :: (inner ++ [']']))

/-! ## Literals in range -/

namespace Literal

variable {text : List Char} {literal : Literal}

/-- Small exponents and a text of possible length leave every position in range. -/
theorem inRange_of_small (spelled : literal.Spells text) (short : text.length < 2 ^ 62)
    (small : |literal.exponent| < 2 ^ 62) :
    literal.inRange = true ∧ fits (literal.value.exponent - 1) = true := by
  have length := spelled.length_le
  have last : min literal.position 0 ≤ literal.value.exponent := Decimal.min_le_exponent_of _ _
  rw [position] at last
  rw [abs_lt] at small
  by_cases zero : literal.coefficient = 0
  · have value := Decimal.isZero_iff_eq.mp (literal.isZero_value.mpr zero)
    rw [value, inRange, zero, beq_self_eq_true, Bool.true_or, Bool.and_true, Decimal.fits_iff]
    exact ⟨by omega, by decide⟩
  · -- Every position is the exponent, moved by no more digits than the text holds.
    have leading := top_value spelled.allDigits zero
    have zeros := literal.length_leadingZeros_le
    have order := Decimal.exponent_lt_top (significand_ne_zero zero)
    simp only [significant] at leading
    simp only [inRange, Bool.and_eq_true, Bool.or_eq_true, Decimal.fits_iff]
    omega

end Literal

/-! ## Endpoints -/

namespace DecimalFloat

variable {direction : Direction} {precision : ℕ} {text : List Char} {literal : Literal}

theorem round_isRounding (direction : Direction) (positive : 1 ≤ precision) (x : Decimal) :
    direction.IsRounding precision x.toRat (round direction precision x).value.toRat := by
  have rounded := x.roundTo_isRounding direction positive
  rcases le_or_gt x.size precision with fits | long
  · rw [Decimal.roundTo_of_size_le fits] at rounded
    rwa [round_of_size_le positive fits]
  · rwa [round_of_lt_size positive long]

/-- All positions of the number fit into signed words. -/
def Reads (literal : Literal) : Prop :=
  literal.inRange = true ∧ Literal.fits (literal.value.exponent - 1) = true

theorem exists_read_iff (spelled : literal.Spells text) :
    (∃ x : DecimalFloat, Endpoint.read direction precision text = .ok x) ↔ Reads literal := by
  constructor
  · rintro ⟨x, accepted⟩
    obtain ⟨number, read, fits, -⟩ := read_eq_ok_iff.mp accepted
    obtain ⟨inRange, rfl⟩ := (Decimal.read_eq_some_iff spelled).mp read
    exact ⟨inRange, fits⟩
  · rintro ⟨inRange, fits⟩
    exact ⟨_, read_eq_ok_iff.mpr ⟨_, Decimal.read_of_spells spelled inRange, fits, rfl⟩⟩

/-- A number with a small exponent is read. -/
theorem exists_read_of_small (spelled : literal.Spells text) (short : text.length < 2 ^ 62)
    (small : |literal.exponent| < 2 ^ 62) :
    ∃ x : DecimalFloat, Endpoint.read direction precision text = .ok x :=
  (exists_read_iff spelled).mpr (Literal.inRange_of_small spelled short small)

/-- The exponent of a number that is read fits into a signed word. -/
theorem fits_of_read (spelled : literal.Spells text) {x : DecimalFloat}
    (accepted : Endpoint.read direction precision text = .ok x) :
    -2 ^ 63 ≤ literal.exponent ∧ literal.exponent < 2 ^ 63 := by
  obtain ⟨inRange, -⟩ := (exists_read_iff spelled).mp ⟨x, accepted⟩
  rw [Literal.inRange, Bool.and_eq_true] at inRange
  exact Decimal.fits_iff.mp inRange.1

/-- What is read is the written number, rounded once. -/
theorem isRounding_of_read (positive : 1 ≤ precision) (spelled : literal.Spells text)
    {x : DecimalFloat} (accepted : Endpoint.read direction precision text = .ok x) :
    direction.IsRounding precision literal.number x.value.toRat := by
  obtain ⟨number, read, -, rfl⟩ := read_eq_ok_iff.mp accepted
  have writes : WritesNumber text literal.number := ⟨literal, spelled, rfl⟩
  rw [← writes.decimal_read read]
  exact round_isRounding direction positive number

end DecimalFloat

/-! ## Intervals -/

namespace Interval

variable {context : Context} {text : String} {literals : List Literal}

theorem make?_cases {β : Type} [Endpoint β] (lo hi : β) :
    (∃ x, make? lo hi = .ok x) ∨ ∃ low high, make? lo hi = .error (.reversedBounds low high) := by
  unfold make?
  split
  · exact .inr ⟨_, _, rfl⟩
  · exact .inl ⟨_, rfl⟩

/-- Where two ends come out of a text, literals do. -/
theorem EndsFrom.exists_spells {inner : List Char} {lo hi : DecimalFloat}
    (clear : ∀ c ∈ inner, Text.isBlank c = false) (ends : EndsFrom context inner lo hi) :
    ∃ literals, SpellsBounds inner literals := by
  cases ends with
  | single readBelow _ =>
    obtain ⟨_, literal, spelled, -⟩ := exists_writesNumber clear readBelow
    exact ⟨_, .single spelled⟩
  | pair parted readBelow readAbove =>
    rw [List.forall_mem_append, List.forall_mem_cons] at clear
    obtain ⟨_, lower, first, -⟩ := exists_writesNumber clear.1 readBelow
    obtain ⟨_, upper, last, -⟩ := exists_writesNumber clear.2.2 readAbove
    exact ⟨_, .pair parted first last⟩

/-- A text outside the language is unreadable. -/
theorem isUnreadable_of_not_spells (outside : ¬∃ literals, SpellsInterval text literals) :
    IsUnreadable (read context text : Except IntervalError (Interval DecimalFloat)) := by
  refine (read_cases DecimalFloat context text).resolve_right ?_
  rintro ⟨inner, shape, clear, lo, hi, ends, -⟩
  obtain ⟨literals, spelled⟩ := ends.exists_spells clear
  exact outside ⟨literals, inner, spelled, shape⟩

/-- So is one with an exponent that does not fit into a signed word. -/
theorem isUnreadable_of_not_fits (spelled : SpellsInterval text literals)
    (outside : ∃ literal ∈ literals, literal.exponent < -2 ^ 63 ∨ 2 ^ 63 ≤ literal.exponent) :
    IsUnreadable (read context text : Except IntervalError (Interval DecimalFloat)) := by
  obtain ⟨inner, bounds, shape⟩ := spelled
  cases bounds with
  | single spelled =>
    rw [read_of_single ⟨_, spelled, rfl⟩ shape]
    refine (read_ends_cases context inner inner _).resolve_right ?_
    rintro ⟨below, above, readBelow, -⟩
    have fits := DecimalFloat.fits_of_read spelled readBelow
    simp only [List.mem_singleton, exists_eq_left] at outside
    omega
  | @pair first last _ lower upper parted spelledLower spelledUpper =>
    rw [read_of_pair parted ⟨_, spelledLower, rfl⟩ ⟨_, spelledUpper, rfl⟩ shape]
    refine (read_ends_cases context first last make?).resolve_right ?_
    rintro ⟨below, above, readBelow, readAbove, -⟩
    have fits := DecimalFloat.fits_of_read spelledLower readBelow
    have fits' := DecimalFloat.fits_of_read spelledUpper readAbove
    simp only [List.mem_cons, List.not_mem_nil, or_false, exists_eq_or_imp, exists_eq_left]
      at outside
    omega

/-- In the language, with exponents that leave a margin, nothing is left but the test of the
ends. -/
theorem read_cases_of_small (spelled : SpellsInterval text literals) (short : text.length < 2 ^ 62)
    (small : ∀ literal ∈ literals, |literal.exponent| < 2 ^ 62) :
    (∃ x : Interval DecimalFloat, read context text = .ok x) ∨
      ∃ low high, (read context text : Except IntervalError (Interval DecimalFloat)) =
        .error (.reversedBounds low high) := by
  obtain ⟨inner, bounds, shape⟩ := spelled
  have inside : inner.length < 2 ^ 62 := by
    have squeezed : (Text.squeeze text.toList).length ≤ text.length :=
      (List.length_filter_le _ _).trans_eq String.length_toList
    rcases shape with shape | shape <;> rw [shape] at squeezed
    · exact squeezed.trans_lt short
    · simp only [List.length_cons, List.length_append] at squeezed
      omega
  cases bounds with
  | single spelled =>
    have small := small _ List.mem_cons_self
    obtain ⟨below, readBelow⟩ := DecimalFloat.exists_read_of_small spelled inside small
    obtain ⟨above, readAbove⟩ := DecimalFloat.exists_read_of_small spelled inside small
    rw [read_of_single ⟨_, spelled, rfl⟩ shape, readBelow, ok_bind, readAbove, ok_bind]
    exact make?_cases _ _
  | @pair first last _ lower upper parted spelledLower spelledUpper =>
    simp only [List.length_append, List.length_cons] at inside
    obtain ⟨below, readBelow⟩ := DecimalFloat.exists_read_of_small spelledLower
      (by omega) (small lower (by simp))
    obtain ⟨above, readAbove⟩ := DecimalFloat.exists_read_of_small spelledUpper
      (by omega) (small upper (by simp))
    rw [read_of_pair parted ⟨_, spelledLower, rfl⟩ ⟨_, spelledUpper, rfl⟩ shape, readBelow,
      ok_bind, readAbove, ok_bind]
    exact make?_cases _ _

/-- The two ends of a pair are read one after the other and then tested. -/
theorem exists_read_pair (β : Type) [Endpoint β] (context : Context) {lower upper : Literal}
    (spelled : SpellsInterval text [lower, upper]) :
    ∃ first last, lower.Spells first ∧ upper.Spells last ∧
      (read context text : Except IntervalError (Interval β)) =
        Endpoint.read context.lower context.precision first >>= fun below =>
          Endpoint.read context.upper context.precision last >>= make? below := by
  obtain ⟨inner, bounds, shape⟩ := spelled
  cases bounds with
  | @pair first last _ _ _ parted spelledLower spelledUpper =>
    exact ⟨first, last, spelledLower, spelledUpper,
      read_of_pair parted ⟨_, spelledLower, rfl⟩ ⟨_, spelledUpper, rfl⟩ shape⟩

/-- Two numbers that are accepted are each rounded in the direction of their side. -/
theorem isRounding_of_read (precise : 1 ≤ context.precision) {lower upper : Literal}
    (spelled : SpellsInterval text [lower, upper]) {x : Interval DecimalFloat}
    (accepted : read context text = .ok x) :
    context.lower.IsRounding context.precision lower.number x.lo.value.toRat ∧
      context.upper.IsRounding context.precision upper.number x.hi.value.toRat := by
  obtain ⟨first, last, spelledLower, spelledUpper, reads⟩ :=
    exists_read_pair DecimalFloat context spelled
  simp only [reads, bind_eq_ok_iff] at accepted
  obtain ⟨below, readBelow, above, readAbove, made⟩ := accepted
  obtain ⟨-, rfl⟩ := make?_eq_ok_iff.mp made
  exact ⟨DecimalFloat.isRounding_of_read precise spelledLower readBelow,
    DecimalFloat.isRounding_of_read precise spelledUpper readAbove⟩

/-- The reader decides the language of interval texts. What is outside of it is unreadable, and so
is an exponent beyond a signed word of 64 bits. With exponents that leave a margin, a text of the
language is accepted or its bounds are reversed, and the two ends of a pair that is accepted are
the written numbers, rounded to the precision in the directions of their sides. -/
theorem read_language (precise : 1 ≤ context.precision) (short : text.length < 2 ^ 62) :
    ((¬∃ literals, SpellsInterval text literals) →
      IsUnreadable (read context text : Except IntervalError (Interval DecimalFloat))) ∧
    ∀ literals, SpellsInterval text literals →
      ((∃ literal ∈ literals, literal.exponent < -2 ^ 63 ∨ 2 ^ 63 ≤ literal.exponent) →
        IsUnreadable (read context text : Except IntervalError (Interval DecimalFloat))) ∧
      ((∀ literal ∈ literals, |literal.exponent| < 2 ^ 62) →
        (∃ x : Interval DecimalFloat, read context text = .ok x) ∨
          ∃ low high, (read context text : Except IntervalError (Interval DecimalFloat)) =
            .error (.reversedBounds low high)) ∧
      ∀ lower upper, literals = [lower, upper] →
        ∀ x : Interval DecimalFloat, read context text = .ok x →
          context.lower.IsRounding context.precision lower.number x.lo.value.toRat ∧
          context.upper.IsRounding context.precision upper.number x.hi.value.toRat := by
  refine ⟨isUnreadable_of_not_spells, fun literals spelled => ⟨isUnreadable_of_not_fits spelled,
    read_cases_of_small spelled short, ?_⟩⟩
  rintro lower upper rfl x accepted
  exact isRounding_of_read precise spelled accepted

/-- A text with blanks, a comma and a power of ten is read to two digits, and one with too large
an exponent is not. -/
theorem read_language_spaced :
    let context : Context := ⟨2, 2, .dual⟩
    (∃ x : Interval DecimalFloat, read context " [ +1.25 ,\t3E2 ] " = .ok x ∧
      IsGreatest {s ∈ Decimal.short 2 | s ≤ 5 / 4} x.lo.value.toRat ∧
      IsLeast {s ∈ Decimal.short 2 | 300 ≤ s} x.hi.value.toRat) ∧
    IsUnreadable (read context "1e9223372036854775808" :
      Except IntervalError (Interval DecimalFloat)) := by
  intro context
  have lower : Literal.Spells "+1.25".toList ⟨false, ['1'], ['2', '5'], 0⟩ :=
    Literal.read_eq_some_iff.mp (by decide +kernel)
  have upper : Literal.Spells "3E2".toList ⟨false, ['3'], [], 2⟩ :=
    Literal.read_eq_some_iff.mp (by decide +kernel)
  have large : Literal.Spells "1e9223372036854775808".toList ⟨false, ['1'], [], 2 ^ 63⟩ :=
    Literal.read_eq_some_iff.mp (by decide +kernel)
  constructor
  · obtain ⟨x, accepted⟩ := exists_of_isOk (by decide +kernel :
      (read context " [ +1.25 ,\t3E2 ] " : Except IntervalError (Interval DecimalFloat)).isOk)
    obtain ⟨-, -, rounded⟩ := (@read_language context " [ +1.25 ,\t3E2 ] " (by decide)
      (by decide +kernel)).2 _ ⟨_, .pair (.inr rfl) lower upper, .inr (by decide +kernel)⟩
    obtain ⟨below, above⟩ := rounded _ _ rfl x accepted
    have first : Literal.number ⟨false, ['1'], ['2', '5'], 0⟩ = 5 / 4 := by
      have digits : Literal.coefficient ⟨false, ['1'], ['2', '5'], 0⟩ = 125 := rfl
      norm_num [Literal.number, digits, Literal.position]
    have last : Literal.number ⟨false, ['3'], [], 2⟩ = 300 := by
      have digits : Literal.coefficient ⟨false, ['3'], [], 2⟩ = 3 := rfl
      norm_num [Literal.number, digits, Literal.position]
    rw [first] at below
    rw [last] at above
    exact ⟨x, accepted, below, above⟩
  · obtain ⟨refused, -⟩ := (@read_language context "1e9223372036854775808" (by decide)
      (by decide +kernel)).2 _ ⟨_, .single large, .inl (by decide +kernel)⟩
    exact refused ⟨_, List.mem_singleton_self _, .inr le_rfl⟩

end Interval

end LinearEnclosure
