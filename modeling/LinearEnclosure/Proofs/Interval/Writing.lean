/-
# What interval texts write

A text writes a closed set of real numbers: all numbers between two written bounds, or a
single written number. This is said here by the shape of the text alone. In dual mode the
reader returns an interval around the whole set, since it rounds bounds outward and widens
a single number, and the printer writes a set around the whole interval.

A text that is accepted writes something. Bounds may be written in the wrong order and
still be accepted where rounding has exchanged them; such a text writes the empty set.
-/

import LinearEnclosure.Proofs.Decimal.Capacity
import LinearEnclosure.Proofs.Decimal.Parts
import LinearEnclosure.Proofs.Interval.Containment
import LinearEnclosure.Proofs.Interval.Reading

namespace LinearEnclosure

/-- One number, or two with a separator between them. -/
inductive WritesBounds : List Char → ℚ → ℚ → Prop
  | single {text : List Char} {q : ℚ} : WritesNumber text q → WritesBounds text q q
  | pair {lower upper : List Char} {separator : Char} {lo hi : ℚ} :
      separator = ';' ∨ separator = ',' → WritesNumber lower lo → WritesNumber upper hi →
      WritesBounds (lower ++ separator :: upper) lo hi

/-- A text that writes bounds. Blanks may stand anywhere, and brackets around it all. -/
def WritesInterval (text : String) (lo hi : ℚ) : Prop :=
  ∃ inner, WritesBounds inner lo hi ∧
    (Text.squeeze text.toList = inner ∨ Text.squeeze text.toList = '[' :: (inner ++ [']']))

/-- The closed set of numbers that a text writes. -/
def written (text : String) : Set ℝ :=
  {r | ∃ lo hi : ℚ, WritesInterval text lo hi ∧ (lo : ℝ) ≤ r ∧ r ≤ hi}

theorem mem_written_single {text : String} {inner : List Char} {q : ℚ}
    (number : WritesNumber inner q) (shape : Text.squeeze text.toList = inner) :
    (q : ℝ) ∈ written text :=
  ⟨q, q, ⟨inner, .single number, .inl shape⟩, le_rfl, le_rfl⟩

theorem mem_written_pair {text : String} {lower upper : List Char} {separator : Char} {lo hi : ℚ}
    {r : ℝ} (split : separator = ';' ∨ separator = ',') (first : WritesNumber lower lo)
    (last : WritesNumber upper hi)
    (shape : Text.squeeze text.toList = lower ++ separator :: upper ∨
      Text.squeeze text.toList = '[' :: (lower ++ separator :: upper ++ [']']))
    (low : (lo : ℝ) ≤ r) (high : r ≤ hi) : r ∈ written text :=
  ⟨lo, hi, ⟨_, .pair split first last, shape⟩, low, high⟩

/-- Written bounds hold no bracket. -/
theorem WritesBounds.not_mem {text : List Char} {lo hi : ℚ} (writes : WritesBounds text lo hi) :
    '[' ∉ text ∧ ']' ∉ text := by
  have apart {part : List Char} {q : ℚ} (number : WritesNumber part q) :
      '[' ∉ part ∧ ']' ∉ part :=
    ⟨fun member => (number.isNumberChar _ member).not_mem (by simp),
      fun member => (number.isNumberChar _ member).not_mem (by simp)⟩
  cases writes with
  | single number => exact apart number
  | pair split lower upper =>
    rcases split with rfl | rfl <;>
      simp [(apart lower).1, (apart lower).2, (apart upper).1, (apart upper).2]

/-! ## Fields and brackets -/

namespace Interval

theorem fields_cons_numeral {c : Char} (numeral : IsNumberChar c) (rest : List Char) :
    fields (c :: rest) = (c :: (fields rest).1, (fields rest).2) := by
  apply fields_cons
  rintro (rfl | rfl) <;> exact numeral.not_mem (by simp)

/-- A text without separators is one field. -/
theorem fields_of_number {text : List Char} (numerals : ∀ c ∈ text, IsNumberChar c) :
    fields text = (text, []) := by
  induction text with
  | nil => rfl
  | cons c rest ih =>
    obtain ⟨first, others⟩ := List.forall_mem_cons.mp numerals
    rw [fields_cons_numeral first, ih others]

/-- The first separator ends the first field. -/
theorem fields_append {lower upper : List Char} {separator : Char}
    (numerals : ∀ c ∈ lower, IsNumberChar c) (split : separator = ';' ∨ separator = ',') :
    fields (lower ++ separator :: upper) = (lower, (fields upper).1 :: (fields upper).2) := by
  induction lower with
  | nil => exact fields_separator split upper
  | cons c rest ih =>
    obtain ⟨first, others⟩ := List.forall_mem_cons.mp numerals
    rw [List.cons_append, fields_cons_numeral first, ih others]

theorem unbracket_self {text : List Char} (opening : '[' ∉ text) (closing : ']' ∉ text) :
    unbracket text = some text := by
  unfold unbracket
  split
  · exact absurd List.mem_cons_self opening
  · rw [if_neg]
    intro last
    exact closing (List.mem_of_getLast? last)

theorem unbracket_bracketed (text : List Char) :
    unbracket ('[' :: (text ++ [']'])) = some text := by
  simp [unbracket]

theorem unbracket_of_writes {text inner : List Char} {lo hi : ℚ}
    (writes : WritesBounds inner lo hi)
    (shape : text = inner ∨ text = '[' :: (inner ++ [']'])) : unbracket text = some inner := by
  rcases shape with rfl | rfl
  · exact unbracket_self writes.not_mem.1 writes.not_mem.2
  · exact unbracket_bracketed inner

section Fields

variable {β : Type} [Endpoint β] {context : Context} {text : String}

/-- A single number is read at both ends and widened there. -/
theorem read_of_single {inner : List Char} {q : ℚ} (number : WritesNumber inner q)
    (shape : Text.squeeze text.toList = inner ∨
      Text.squeeze text.toList = '[' :: (inner ++ [']'])) :
    (read context text : Except IntervalError (Interval β)) =
      Endpoint.read context.lower context.precision inner >>= fun below =>
        Endpoint.read context.upper context.precision inner >>= fun above =>
          make? (Endpoint.sub context.lower context.precision below
              (Endpoint.epsilon context.precision))
            (Endpoint.add context.upper context.precision above
              (Endpoint.epsilon context.precision)) := by
  have writes : WritesBounds inner q q := .single number
  have nonempty : (Text.squeeze text.toList).isEmpty = false := by
    rcases shape with shape | shape <;> simp [shape, number.ne_nil]
  have filled := List.isEmpty_eq_false_iff.mpr number.ne_nil
  simp only [read, nonempty, Bool.false_eq_true, if_false, unbracket_of_writes writes shape,
    fields_of_number number.isNumberChar, filled]

/-- Two numbers are read as the two ends. -/
theorem read_of_pair {lower upper : List Char} {separator : Char} {lo hi : ℚ}
    (split : separator = ';' ∨ separator = ',') (first : WritesNumber lower lo)
    (last : WritesNumber upper hi)
    (shape : Text.squeeze text.toList = lower ++ separator :: upper ∨
      Text.squeeze text.toList = '[' :: (lower ++ separator :: upper ++ [']'])) :
    (read context text : Except IntervalError (Interval β)) =
      Endpoint.read context.lower context.precision lower >>= fun below =>
        Endpoint.read context.upper context.precision upper >>= make? below := by
  have writes : WritesBounds (lower ++ separator :: upper) lo hi := .pair split first last
  have nonempty : (Text.squeeze text.toList).isEmpty = false := by
    rcases shape with shape | shape <;> simp [shape]
  have cut : fields (lower ++ separator :: upper) = (lower, [upper]) := by
    rw [fields_append first.isNumberChar split, fields_of_number last.isNumberChar]
  have filled : (lower.isEmpty || upper.isEmpty) = false := by
    simp [first.ne_nil, last.ne_nil]
  simp only [read, nonempty, Bool.false_eq_true, if_false, unbracket_of_writes writes shape,
    cut, filled]

end Fields

end Interval

/-! ## Reading -/

theorem WritesNumber.decimal_read {text : List Char} {q : ℚ} (writes : WritesNumber text q)
    {x : Decimal} (accepted : Decimal.read text = some x) : x.toRat = q := by
  obtain ⟨literal, spelled, rfl⟩ := writes
  obtain ⟨-, rfl⟩ := (Decimal.read_eq_some_iff spelled).mp accepted
  exact literal.toRat_value

theorem DecimalFloat.read_eq_ok_iff {direction : Direction} {precision : ℕ} {text : List Char}
    {x : DecimalFloat} :
    Endpoint.read direction precision text = .ok x ↔
      ∃ number, Decimal.read text = some number ∧ Literal.fits (number.exponent - 1) = true ∧
        round direction precision number = x :=
  mapError_eq_ok_iff.trans readDirected_eq_ok_iff

/-- An endpoint that was read lies on its side of the written number. -/
theorem WritesNumber.read_bounds {text : List Char} {q : ℚ} (writes : WritesNumber text q)
    {direction : Direction} {precision : ℕ} {x : DecimalFloat}
    (accepted : Endpoint.read direction precision text = .ok x) :
    direction.Bounds q x.value.toRat := by
  obtain ⟨number, read, -, rfl⟩ := DecimalFloat.read_eq_ok_iff.mp accepted
  rw [← writes.decimal_read read]
  exact DecimalFloat.round_bounds direction precision number

namespace Interval

variable {context : Context}

/-- A number between two bounds stays between them when each is moved by a unit in the
last place. -/
theorem mem_moved_outward (dual : context.mode = .dual) {below above : DecimalFloat} {r : ℝ}
    (low : (below.value.toRat : ℝ) ≤ r) (high : r ≤ above.value.toRat) :
    r ∈ (⟨Endpoint.sub context.lower context.precision below (Endpoint.epsilon context.precision),
      Endpoint.add context.upper context.precision above (Endpoint.epsilon context.precision)⟩ :
        Interval DecimalFloat) := by
  rw [Context.lower_eq_down dual, Context.upper_eq_up dual]
  have unit := DecimalFloat.epsilon_pos context.precision
  have down := DecimalFloat.sub_bounds .down context.precision below
    (DecimalFloat.epsilon context.precision)
  have up := DecimalFloat.add_bounds .up context.precision above
    (DecimalFloat.epsilon context.precision)
  have left : Direction.Bounds .down below.value.toRat _ :=
    le_trans down (sub_le_self _ unit.le)
  have right : Direction.Bounds .up above.value.toRat _ :=
    le_trans (le_add_of_nonneg_right unit.le) up
  exact mem_of_bounds left right low high

/-- Reading encloses: every number of the written set lies in the interval. -/
theorem mem_of_read (dual : context.mode = .dual) {text : String} {x : Interval DecimalFloat}
    {r : ℝ} (accepted : read context text = .ok x) (member : r ∈ written text) : r ∈ x := by
  obtain ⟨lo, hi, ⟨inner, writes, shape⟩, low, high⟩ := member
  cases writes with
  | single number =>
    rw [read_of_single number shape] at accepted
    simp only [bind_eq_ok_iff] at accepted
    obtain ⟨below, readBelow, above, readAbove, made⟩ := accepted
    obtain ⟨-, rfl⟩ := make?_eq_ok_iff.mp made
    rw [Context.lower_eq_down dual] at readBelow
    rw [Context.upper_eq_up dual] at readAbove
    obtain ⟨low, high⟩ := mem_of_bounds (number.read_bounds readBelow)
      (number.read_bounds readAbove) low high
    exact mem_moved_outward dual low high
  | pair split lower upper =>
    rw [read_of_pair split lower upper shape] at accepted
    simp only [bind_eq_ok_iff] at accepted
    obtain ⟨below, readBelow, above, readAbove, made⟩ := accepted
    obtain ⟨-, rfl⟩ := make?_eq_ok_iff.mp made
    rw [Context.lower_eq_down dual] at readBelow
    rw [Context.upper_eq_up dual] at readAbove
    exact mem_of_bounds (lower.read_bounds readBelow) (upper.read_bounds readAbove) low high

/-- An accepted endpoint without blanks writes a number. -/
theorem exists_writesNumber {direction : Direction} {precision : ℕ} {text : List Char}
    {x : DecimalFloat} (clear : ∀ c ∈ text, Text.isBlank c = false)
    (accepted : Endpoint.read direction precision text = .ok x) : ∃ q, WritesNumber text q := by
  obtain ⟨number, read, -, -⟩ := DecimalFloat.read_eq_ok_iff.mp accepted
  obtain ⟨literal, spelled, -⟩ := Decimal.exists_spells_of_read clear read
  exact ⟨_, literal, spelled, rfl⟩

/-- An accepted text writes bounds. -/
theorem exists_writesInterval {text : String} {x : Interval DecimalFloat}
    (accepted : read context text = .ok x) : ∃ lo hi, WritesInterval text lo hi := by
  obtain ⟨inner, shape, clear, came⟩ := exists_readFrom accepted
  cases came with
  | single readBelow _ _ =>
    obtain ⟨q, number⟩ := exists_writesNumber clear readBelow
    exact ⟨q, q, inner, .single number, shape⟩
  | pair parted readBelow readAbove _ =>
    rw [List.forall_mem_append, List.forall_mem_cons] at clear
    obtain ⟨lo, low⟩ := exists_writesNumber clear.1 readBelow
    obtain ⟨hi, high⟩ := exists_writesNumber clear.2.2 readAbove
    exact ⟨lo, hi, _, .pair parted low high, shape⟩

/-! ## Writing -/

/-- What is printed for an interval encloses it: the numbers between the brackets lie at or
beyond its endpoints. -/
theorem exists_format (dual : context.mode = .dual) (positive : context.outDigits ≠ 0)
    {x : Interval DecimalFloat} {r : ℝ} (member : r ∈ x) :
    ∃ lo hi : String, x.format context = "[" ++ lo ++ ";" ++ hi ++ "]" ∧
      ∃ l h : ℚ, WritesNumber lo.toList l ∧ WritesNumber hi.toList h ∧ (l : ℝ) ≤ r ∧ r ≤ h := by
  obtain ⟨l, writesLow, low⟩ := x.lo.value.exists_scientific .down positive
  obtain ⟨h, writesHigh, high⟩ := x.hi.value.exists_scientific .up positive
  refine ⟨.ofList (x.lo.value.scientific .down context.outDigits),
    .ofList (x.hi.value.scientific .up context.outDigits), ?_, l, h, ?_, ?_, ?_, ?_⟩
  · rw [← String.toList_inj]
    simp [format, formatEndpoints, bracket, Context.lower_eq_down dual, Context.upper_eq_up dual,
      Endpoint.scientific]
  · simpa using writesLow
  · simpa using writesHigh
  · exact le_trans (by exact_mod_cast low) member.1
  · exact member.2.trans (by exact_mod_cast high)

end Interval

end LinearEnclosure
