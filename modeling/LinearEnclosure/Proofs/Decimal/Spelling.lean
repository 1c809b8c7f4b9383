/-
# How numbers are spelled

The spelling of a decimal number is described here without a reader: a sign or none,
digits with an optional point among them, and an optional power of ten. The number is
what its digits say in base ten. The reader of literals accepts exactly these spellings,
so a text spells at most one number, and texts that a program writes can be shown to
spell what they stand for without being read back.
-/

import LinearEnclosure.Decimal.Literal
import LinearEnclosure.Proofs.Decimal.Value
import LinearEnclosure.Text.Blank

namespace LinearEnclosure

/-- Decimal digits and nothing else. -/
def AllDigits (text : List Char) : Prop := ∀ c ∈ text, c.isDigit = true

/-- A sign, and whether it is a minus. A plus may be left out. -/
inductive SpellsSign : List Char → Bool → Prop
  | absent : SpellsSign [] false
  | plus : SpellsSign ['+'] false
  | minus : SpellsSign ['-'] true

/-- What stands between the whole digits and the power of ten, and the digits in it. -/
inductive SpellsFraction : List Char → List Char → Prop
  | absent : SpellsFraction [] []
  | point {digits : List Char} : AllDigits digits → SpellsFraction ('.' :: digits) digits

/-- A power of ten, and its exponent. -/
inductive SpellsPower : List Char → ℤ → Prop
  | absent : SpellsPower [] 0
  | present {mark : Char} {sign digits : List Char} {negative : Bool} :
      mark = 'e' ∨ mark = 'E' → SpellsSign sign negative → digits ≠ [] → AllDigits digits →
      SpellsPower (mark :: (sign ++ digits))
        (if negative then -(Nat.ofDigitChars 10 digits 0 : ℤ) else Nat.ofDigitChars 10 digits 0)

/-- A text that spells a literal. There is a digit before or behind the point. -/
inductive Literal.Spells : List Char → Literal → Prop
  | parts {sign whole point fraction power : List Char} {negative : Bool} {exponent : ℤ} :
      SpellsSign sign negative → AllDigits whole → SpellsFraction point fraction →
      SpellsPower power exponent → ¬(whole = [] ∧ fraction = []) →
      Spells (sign ++ (whole ++ (point ++ power))) ⟨negative, whole, fraction, exponent⟩

/-- The number that a literal stands for. -/
def Literal.number (literal : Literal) : ℚ :=
  (if literal.negative then -(literal.coefficient : ℚ) else literal.coefficient) *
    10 ^ literal.position

theorem Literal.toRat_value (literal : Literal) : literal.value.toRat = literal.number := by
  rw [value, Decimal.toRat_of, number]
  cases literal.negative <;> simp

/-- A text that writes a number. -/
def WritesNumber (text : List Char) (q : ℚ) : Prop :=
  ∃ literal : Literal, literal.Spells text ∧ literal.number = q

/-! ## Pieces of a text -/

/-- A text that does not go on with a digit. -/
def StopsDigits (rest : List Char) : Prop := ∀ c ∈ rest.head?, c.isDigit = false

/-- A text that does not go on with a sign. -/
def StartsUnsigned (rest : List Char) : Prop := ∀ c ∈ rest.head?, c ≠ '-' ∧ c ≠ '+'

theorem takeWhile_digits {digits rest : List Char} (all : AllDigits digits)
    (stops : StopsDigits rest) : (digits ++ rest).takeWhile Char.isDigit = digits := by
  rw [List.takeWhile_append_of_pos all]
  cases rest with
  | nil => simp
  | cons c rest => simp [stops c rfl]

theorem dropWhile_digits {digits rest : List Char} (all : AllDigits digits)
    (stops : StopsDigits rest) : (digits ++ rest).dropWhile Char.isDigit = rest := by
  rw [List.dropWhile_append_of_pos all]
  cases rest with
  | nil => rfl
  | cons c rest => simp [stops c rfl]

theorem allDigits_takeWhile (text : List Char) : AllDigits (text.takeWhile Char.isDigit) :=
  fun _ member => List.mem_takeWhile_imp member

theorem AllDigits.append {front back : List Char} (first : AllDigits front)
    (second : AllDigits back) : AllDigits (front ++ back) := by
  intro c member
  rcases List.mem_append.mp member with early | late
  · exact first c early
  · exact second c late

theorem AllDigits.startsUnsigned {digits rest : List Char} (all : AllDigits digits)
    (unsigned : StartsUnsigned rest) : StartsUnsigned (digits ++ rest) := by
  cases digits with
  | nil => exact unsigned
  | cons c digits =>
    have digit := all c List.mem_cons_self
    intro first here
    obtain rfl : c = first := by simpa using here
    constructor <;> rintro rfl <;> simp at digit

theorem SpellsPower.stopsDigits {power : List Char} {exponent : ℤ}
    (spelled : SpellsPower power exponent) : StopsDigits power := by
  cases spelled with
  | absent => simp [StopsDigits]
  | present mark _ _ _ => rcases mark with rfl | rfl <;> simp [StopsDigits]

theorem SpellsPower.startsUnsigned {power : List Char} {exponent : ℤ}
    (spelled : SpellsPower power exponent) : StartsUnsigned power := by
  cases spelled with
  | absent => simp [StartsUnsigned]
  | present mark _ _ _ => rcases mark with rfl | rfl <;> simp [StartsUnsigned]

theorem SpellsFraction.stopsDigits {point fraction rest : List Char}
    (spelled : SpellsFraction point fraction) (stops : StopsDigits rest) :
    StopsDigits (point ++ rest) := by
  cases spelled with
  | absent => exact stops
  | point _ => simp [StopsDigits]

theorem SpellsFraction.startsUnsigned {point fraction rest : List Char}
    (spelled : SpellsFraction point fraction) (unsigned : StartsUnsigned rest) :
    StartsUnsigned (point ++ rest) := by
  cases spelled with
  | absent => exact unsigned
  | point _ => simp [StartsUnsigned]

namespace Literal

/-! ## The reader of literals -/

theorem takeSign_append {sign rest : List Char} {negative : Bool}
    (spelled : SpellsSign sign negative) (unsigned : StartsUnsigned rest) :
    takeSign (sign ++ rest) = (negative, rest) := by
  cases spelled with
  | absent =>
    rw [List.nil_append]
    unfold takeSign
    split
    · exact absurd rfl (unsigned _ rfl).1
    · exact absurd rfl (unsigned _ rfl).2
    · rfl
  | plus => rfl
  | minus => rfl

theorem exists_sign (text : List Char) :
    ∃ sign, SpellsSign sign (takeSign text).1 ∧ text = sign ++ (takeSign text).2 := by
  unfold takeSign
  split
  · exact ⟨['-'], .minus, rfl⟩
  · exact ⟨['+'], .plus, rfl⟩
  · exact ⟨[], .absent, rfl⟩

theorem takeFraction_append {point fraction power : List Char} {exponent : ℤ}
    (spelled : SpellsFraction point fraction) (behind : SpellsPower power exponent) :
    takeFraction (point ++ power) = (fraction, power) := by
  cases spelled with
  | absent =>
    cases behind with
    | absent => rfl
    | present mark _ _ _ => rcases mark with rfl | rfl <;> rfl
  | point all =>
    rw [List.cons_append, takeFraction, takeWhile_digits all behind.stopsDigits,
      dropWhile_digits all behind.stopsDigits]

theorem exists_point (text : List Char) :
    ∃ point, SpellsFraction point (takeFraction text).1 ∧
      text = point ++ (takeFraction text).2 := by
  unfold takeFraction
  split
  · next rest =>
    exact ⟨'.' :: rest.takeWhile Char.isDigit, .point (allDigits_takeWhile rest), by simp⟩
  · exact ⟨[], .absent, rfl⟩

theorem readExponent_eq_some_iff {text : List Char} {exponent : ℤ} :
    readExponent text = some exponent ↔ SpellsPower text exponent := by
  constructor
  · intro read
    cases text with
    | nil =>
      obtain rfl := Option.some.inj read
      exact .absent
    | cons mark rest =>
      obtain ⟨sign, signed, split⟩ := exists_sign rest
      simp only [readExponent] at read
      split at read
      · next valid =>
        obtain rfl := Option.some.inj read
        simp only [Bool.and_eq_true, Bool.or_eq_true, beq_iff_eq, Bool.not_eq_true',
          List.isEmpty_eq_false_iff, List.all_eq_true] at valid
        obtain ⟨⟨marked, nonempty⟩, all⟩ := valid
        have spelled := SpellsPower.present marked signed nonempty all
        rwa [← split] at spelled
      · cases read
  · intro spelled
    cases spelled with
    | absent => rfl
    | @present mark sign digits negative marked signed nonempty all =>
      have ended : StartsUnsigned [] := by simp [StartsUnsigned]
      have unsigned : StartsUnsigned digits := by simpa using all.startsUnsigned ended
      have valid : ((mark == 'e' || mark == 'E') && !digits.isEmpty &&
          digits.all Char.isDigit) = true := by
        simpa [nonempty] using ⟨marked, all⟩
      simp only [readExponent, takeSign_append signed unsigned, valid, if_true]

/-- The reader accepts the spellings of literals and nothing else. -/
theorem read_eq_some_iff {text : List Char} {literal : Literal} :
    read text = some literal ↔ literal.Spells text := by
  constructor
  · intro accepted
    obtain ⟨sign, signed, split⟩ := exists_sign text
    obtain ⟨point, pointed, behind⟩ :=
      exists_point ((takeSign text).2.dropWhile Char.isDigit)
    simp only [read] at accepted
    split at accepted
    · cases accepted
    · next digits =>
      obtain ⟨exponent, power, rfl⟩ := Option.map_eq_some_iff.mp accepted
      have spelled := Spells.parts signed (allDigits_takeWhile (takeSign text).2) pointed
        (readExponent_eq_some_iff.mp power) (by simpa using digits)
      rwa [← behind, List.takeWhile_append_dropWhile, ← split] at spelled
  · intro spelled
    cases spelled with
    | @parts sign whole point fraction power negative exponent signed all pointed powered digits =>
      have unsigned :=
        all.startsUnsigned (pointed.startsUnsigned powered.startsUnsigned)
      have stops := pointed.stopsDigits powered.stopsDigits
      have nonempty : (whole.isEmpty && fraction.isEmpty) = false := by simpa using digits
      simp only [read, takeSign_append signed unsigned, takeWhile_digits all stops,
        dropWhile_digits all stops, takeFraction_append pointed powered,
        readExponent_eq_some_iff.mpr powered, nonempty, Bool.false_eq_true, if_false,
        Option.map_some]

/-! ## Digits of a literal -/

variable {text : List Char} {literal : Literal}

theorem Spells.allDigits (spelled : literal.Spells text) :
    AllDigits (literal.whole ++ literal.fraction) := by
  cases spelled with
  | parts _ whole fraction _ _ =>
    cases fraction with
    | absent => simpa using whole
    | point digits => exact whole.append digits

/-- The digits of a literal stand in its text. -/
theorem Spells.length_le (spelled : literal.Spells text) :
    literal.whole.length + literal.fraction.length ≤ text.length := by
  cases spelled with
  | parts _ _ fraction _ _ =>
    cases fraction with
    | absent => simp only [List.length_append, List.length_nil]; omega
    | point _ => simp only [List.length_append, List.length_cons]; omega

end Literal

/-- A text spells at most one literal. -/
theorem Literal.Spells.unique {text : List Char} {literal other : Literal}
    (first : literal.Spells text) (second : other.Spells text) : literal = other := by
  rw [← read_eq_some_iff] at first second
  exact Option.some.inj (first.symm.trans second)

/-- A text writes at most one number. -/
theorem WritesNumber.unique {text : List Char} {q r : ℚ} (first : WritesNumber text q)
    (second : WritesNumber text r) : q = r := by
  obtain ⟨literal, spelled, rfl⟩ := first
  obtain ⟨other, alsoSpelled, rfl⟩ := second
  rw [spelled.unique alsoSpelled]

/-! ## The characters of a number -/

/-- A character that may stand in a number. -/
def IsNumberChar (c : Char) : Prop :=
  c.isDigit = true ∨ c ∈ ['+', '-', '.', 'e', 'E']

theorem IsNumberChar.not_mem {c : Char} (numeral : IsNumberChar c) : c ∉ ['[', ';', ',', ']'] := by
  intro member
  simp only [List.mem_cons, List.not_mem_nil, or_false] at member
  rcases member with rfl | rfl | rfl | rfl <;> simp [IsNumberChar] at numeral

theorem isBlank_of_isDigit {c : Char} (digit : c.isDigit = true) : Text.isBlank c = false := by
  simp only [Char.isDigit, Bool.and_eq_true, decide_eq_true_eq] at digit
  have low : 48 ≤ c.toNat := digit.1
  have high : c.toNat ≤ 57 := digit.2
  simp only [Text.isBlank]
  simp
  omega

theorem IsNumberChar.not_isBlank {c : Char} (numeral : IsNumberChar c) :
    Text.isBlank c = false := by
  rcases numeral with digit | mark
  · exact isBlank_of_isDigit digit
  · simp only [List.mem_cons, List.not_mem_nil, or_false] at mark
    rcases mark with rfl | rfl | rfl | rfl | rfl <;> rfl

theorem SpellsSign.isNumberChar {sign : List Char} {negative : Bool}
    (spelled : SpellsSign sign negative) : ∀ c ∈ sign, IsNumberChar c := by
  cases spelled <;> simp [IsNumberChar]

theorem AllDigits.isNumberChar {digits : List Char} (all : AllDigits digits) :
    ∀ c ∈ digits, IsNumberChar c :=
  fun c member => .inl (all c member)

theorem SpellsFraction.isNumberChar {point fraction : List Char}
    (spelled : SpellsFraction point fraction) : ∀ c ∈ point, IsNumberChar c := by
  cases spelled with
  | absent => simp
  | point all => exact List.forall_mem_cons.mpr ⟨.inr (by simp), all.isNumberChar⟩

theorem SpellsPower.isNumberChar {power : List Char} {exponent : ℤ}
    (spelled : SpellsPower power exponent) : ∀ c ∈ power, IsNumberChar c := by
  cases spelled with
  | absent => simp
  | present mark sign _ all =>
    rw [List.forall_mem_cons, List.forall_mem_append]
    constructor
    · rcases mark with rfl | rfl <;> simp [IsNumberChar]
    · exact ⟨sign.isNumberChar, all.isNumberChar⟩

theorem WritesNumber.isNumberChar {text : List Char} {q : ℚ} (writes : WritesNumber text q) :
    ∀ c ∈ text, IsNumberChar c := by
  obtain ⟨literal, spelled, -⟩ := writes
  cases spelled with
  | parts sign whole fraction power _ =>
    simp only [List.forall_mem_append]
    exact ⟨sign.isNumberChar, whole.isNumberChar, fraction.isNumberChar, power.isNumberChar⟩

theorem trim_eq_self {text : List Char} (clear : ∀ c ∈ text, Text.isBlank c = false) :
    Text.trim text = text := by
  have kept {chars : List Char} (clear : ∀ c ∈ chars, Text.isBlank c = false) :
      chars.dropWhile Text.isBlank = chars := by
    cases chars with
    | nil => rfl
    | cons c rest => simp [clear c List.mem_cons_self]
  have reversed : ∀ c ∈ text.reverse, Text.isBlank c = false := by
    intro c member
    exact clear c (List.mem_reverse.mp member)
  rw [Text.trim, kept clear, Text.trimEnd, kept reversed, List.reverse_reverse]

/-- A text that writes a number has no blanks around it. -/
theorem WritesNumber.trim_eq {text : List Char} {q : ℚ} (writes : WritesNumber text q) :
    Text.trim text = text :=
  trim_eq_self fun c member => (writes.isNumberChar c member).not_isBlank

theorem WritesNumber.ne_nil {text : List Char} {q : ℚ} (writes : WritesNumber text q) :
    text ≠ [] := by
  obtain ⟨literal, spelled, -⟩ := writes
  cases spelled with
  | parts _ _ fraction _ digits =>
    cases fraction with
    | absent => simpa using fun _ empty _ => absurd empty (by simpa using digits)
    | point _ => simp

end LinearEnclosure
