/-
# JSON that is written and read back

The indented layout of a value is read back as the value, and whatever stands behind it is
handed on. A string comes back piece by piece: an escape is one piece, and it stands for the
character that it was written for. Containers follow by induction on the value, and the
items and members of one container by induction on their list.

The reader follows the nesting with fuel. Every value is at least one character long, and
every further item or member has a comma of its own, so as much fuel as there are characters
is enough.
-/

import LinearEnclosure.Json.Reader
import LinearEnclosure.Json.Writer
import LinearEnclosure.Proofs.Decimal.Scientific

namespace LinearEnclosure.Json

/-! ## Strings -/

theorem readParts_char {c : Char} (printed : ¬c.toNat < 0x20) (quote : c ≠ '"')
    (backslash : c ≠ '\\') (text : List Char) :
    readParts (c :: text) = (readParts text).map (Prod.map (.char c :: ·) id) := by
  rw [readParts, Option.map_eq_bind]
  · simp [printed, backslash]
    rfl
  · exact quote
  · exact fun _ _ _ _ _ escaped => absurd escaped backslash
  · exact fun _ _ escaped => absurd escaped backslash

theorem readParts_short {c escaped : Char} (short : shortEscape? c = some escaped)
    (text : List Char) :
    readParts ('\\' :: c :: text) = (readParts text).map (Prod.map (.char escaped :: ·) id) := by
  rw [readParts, Option.map_eq_bind, short]
  · rfl
  · rintro _ _ _ _ _ rfl
    cases short

theorem readParts_unit {a b c d : Char} {code : ℕ} (named : unit? a b c d = some code)
    (text : List Char) :
    readParts ('\\' :: 'u' :: a :: b :: c :: d :: text) =
      (readParts text).map (Prod.map (.unit code :: ·) id) := by
  rw [readParts, Option.map_eq_bind, named]
  rfl

theorem unit?_hexDigits {code : ℕ} (control : code < 0x20) :
    unit? '0' '0' (hexDigit (code / 16)) (hexDigit (code % 16)) = some code := by
  revert code
  decide

/-- A unit below the surrogates is the code of its character. -/
theorem joinParts_unit {c : Char} (control : c.toNat < 0x20) (parts : List Part) :
    joinParts (.unit c.toNat :: parts) = (joinParts parts).map (c :: ·) := by
  have high : isHighSurrogate c.toNat = false := by
    simp [isHighSurrogate]
    omega
  have low : isLowSurrogate c.toNat = false := by
    simp [isLowSurrogate]
    omega
  rw [joinParts.eq_def]
  simp [high, low]

/-- An escaped character is read as one piece, which stands for the character. -/
theorem exists_part (c : Char) : ∃ part : Part,
    (∀ text, readParts (escape c ++ text) = (readParts text).map (Prod.map (part :: ·) id)) ∧
    ∀ parts, joinParts (part :: parts) = (joinParts parts).map (c :: ·) := by
  unfold escape
  split
  case h_8 quote backslash _ _ _ _ _ =>
    split
    · next control =>
      exact ⟨.unit c.toNat, readParts_unit (unit?_hexDigits control), joinParts_unit control⟩
    · next printed =>
      exact ⟨.char c, readParts_char printed quote backslash, fun _ => rfl⟩
  all_goals exact ⟨.char _, readParts_short rfl, fun _ => rfl⟩

theorem exists_parts (chars rest : List Char) : ∃ parts,
    readParts (chars.flatMap escape ++ '"' :: rest) = some (parts, rest) ∧
      joinParts parts = some chars := by
  induction chars with
  | nil => exact ⟨[], rfl, rfl⟩
  | cons c chars ih =>
    obtain ⟨part, read, stands⟩ := exists_part c
    obtain ⟨parts, readRest, standRest⟩ := ih
    refine ⟨part :: parts, ?_, ?_⟩
    · rw [List.flatMap_cons, List.append_assoc, read, readRest]
      rfl
    · rw [stands, standRest, Option.map_some]

/-- A text between quotes is read back behind its opening quote. -/
theorem readText_quote (content : String) (rest : List Char) :
    readText (content.toList.flatMap escape ++ '"' :: rest) = some (some content, rest) := by
  obtain ⟨parts, read, stands⟩ := exists_parts content.toList rest
  rw [readText, read]
  simp [stands]

/-- So is a name, and half of a surrogate pair is read as no text. -/
theorem exists_quoteName (name : Option String) : ∃ body, quoteName name = '"' :: body ∧
    ∀ rest, readText (body ++ rest) = some (name, rest) := by
  cases name with
  | none =>
    have surrogate : unit? 'd' '8' '0' '0' = some 0xD800 := by decide
    refine ⟨['\\', 'u', 'd', '8', '0', '0', '"'], rfl, fun rest => ?_⟩
    rw [readText]
    simp [readParts_unit surrogate, readParts, joinParts, isHighSurrogate]
  | some content =>
    refine ⟨content.toList.flatMap escape ++ ['"'], rfl, fun rest => ?_⟩
    rw [List.append_assoc]
    exact readText_quote content rest

/-! ## Numbers -/

/-- What can stand behind a value in the indented layout. -/
def Ends (rest : List Char) : Prop := ∀ c ∈ rest.head?, c = ',' ∨ c = '\n'

theorem Ends.stopsDigits {rest : List Char} (ends : Ends rest) : StopsDigits rest := by
  intro c first
  rcases ends c first with rfl | rfl <;> rfl

theorem readFraction_of_ends {rest : List Char} (ends : Ends rest) :
    readFraction rest = some ([], rest) := by
  unfold readFraction
  split
  · rcases ends '.' rfl with other | other <;> cases other
  · rfl

theorem readExponent_of_ends {rest : List Char} (ends : Ends rest) :
    readExponent rest = some ([], rest) := by
  cases rest with
  | nil => rfl
  | cons c rest => rcases ends c rfl with rfl | rfl <;> rfl

theorem takeMinus_of_digits {digits : List Char} (all : AllDigits digits) (filled : digits ≠ [])
    (rest : List Char) : takeMinus (digits ++ rest) = ([], digits ++ rest) := by
  cases digits with
  | nil => exact absurd rfl filled
  | cons c digits =>
    have digit := all c List.mem_cons_self
    rw [List.cons_append, takeMinus]
    rintro _ ⟨⟩
    cases digit

/-- A natural number is read back, since it has no leading zero. -/
theorem readNumber_toDigits (n : ℕ) {rest : List Char} (ends : Ends rest) :
    readNumber (Nat.toDigits 10 n ++ rest) = some (Nat.toDigits 10 n, rest) := by
  have all := allDigits_toDigits n
  have plain : ((Nat.toDigits 10 n).isEmpty || (Nat.toDigits 10 n).head? == some '0' &&
      (Nat.toDigits 10 n).length != 1) = false := by
    rcases Nat.eq_zero_or_pos n with rfl | positive
    · rfl
    · simp [Nat.toDigits_ne_nil, head?_toDigits positive]
  rw [readNumber, takeMinus_of_digits all Nat.toDigits_ne_nil]
  simp [takeWhile_digits all ends.stopsDigits, dropWhile_digits all ends.stopsDigits, plain,
    readFraction_of_ends ends, readExponent_of_ends ends]

/-! ## Values -/

/-- Values whose numbers are natural numbers. The reader may find others, but the library
writes no others. -/
inductive Plain : Json → Prop
  | null : Plain null
  | bool (value : Bool) : Plain (bool value)
  | number (n : ℕ) : Plain (ofNat n)
  | text (content : String) : Plain (text content)
  | brokenText : Plain brokenText
  | array {items : List Json} : (∀ item ∈ items, Plain item) → Plain (array items)
  | object {members : List (Option String × Json)} :
      (∀ member ∈ members, Plain member.2) → Plain (object members)

/-- A character with which a value can begin, seen from the container around it: it is not
skipped, and it does not close an array. -/
def Begins (c : Char) : Prop := c ∉ [' ', '\n', '\r', '\t', ']']

theorem skip_cons {c : Char} (kept : c ∉ [' ', '\n', '\r', '\t']) (text : List Char) :
    skip (c :: text) = c :: text := by
  have solid : (c == ' ' || c == '\n' || c == '\r' || c == '\t') = false := by
    simpa [and_assoc] using kept
  rw [skip, List.dropWhile_cons_of_neg (by simpa using solid)]

theorem Begins.skip_eq {c : Char} (begins : Begins c) (text : List Char) :
    skip (c :: text) = c :: text :=
  skip_cons (fun blank => begins (List.mem_append_left [']'] blank)) text

theorem begins_of_isDigit {c : Char} (digit : c.isDigit = true) : Begins c := by
  simp only [Begins, List.mem_cons, List.not_mem_nil, or_false]
  rintro (rfl | rfl | rfl | rfl | rfl) <;> cases digit

theorem exists_indented_eq {value : Json} (plain : Plain value) (depth : ℕ) :
    ∃ c text, indented depth value = c :: text ∧ Begins c := by
  cases plain with
  | null => exact ⟨'n', _, rfl, by simp [Begins]⟩
  | bool value =>
    cases value with
    | false => exact ⟨'f', _, rfl, by simp [Begins]⟩
    | true => exact ⟨'t', _, rfl, by simp [Begins]⟩
  | number n =>
    rw [ofNat, indented]
    cases digits : Nat.toDigits 10 n with
    | nil => exact absurd digits Nat.toDigits_ne_nil
    | cons c rest =>
      have digit := allDigits_toDigits n c (digits ▸ List.mem_cons_self)
      exact ⟨c, rest, rfl, begins_of_isDigit digit⟩
  | text content => exact ⟨'"', _, by rw [indented, quote, List.cons_append], by simp [Begins]⟩
  | brokenText =>
    obtain ⟨body, quoted, -⟩ := exists_quoteName none
    exact ⟨'"', body, by rw [indented, ← quoted, quoteName], by simp [Begins]⟩
  | @array items _ =>
    cases items with
    | nil => exact ⟨'[', _, by rw [indented], by simp [Begins]⟩
    | cons item items =>
      exact ⟨'[', _, by simp only [indented, List.cons_append]; rfl, by simp [Begins]⟩
  | @object members _ =>
    cases members with
    | nil => exact ⟨'\x7b', _, by rw [indented], by simp [Begins]⟩
    | cons member members =>
      exact ⟨'\x7b', _, by simp only [indented, List.cons_append]; rfl, by simp [Begins]⟩

@[simp] theorem skip_lineBreak (depth : ℕ) (text : List Char) :
    skip (lineBreak depth ++ text) = skip text := by
  have blank (n : ℕ) : skip (List.replicate n ' ' ++ text) = skip text := by
    rw [skip, List.dropWhile_append_of_pos]
    · rfl
    · intro c member
      rw [List.eq_of_mem_replicate member]
      rfl
  exact blank (2 * depth)

-- The reader is opened by its equations in this section and nowhere else.
attribute [local simp] readValue readItems readMembers

/-- The indented layout of a value is read back as the value, given as much fuel as there
are characters. -/
def ReadsBack (value : Json) : Prop :=
  ∀ depth fuel rest, (indented depth value).length ≤ fuel → Ends rest →
    readValue fuel (indented depth value ++ rest) = some (value, rest)

theorem readValue_lineBreak (fuel depth : ℕ) (text : List Char) :
    readValue fuel (lineBreak depth ++ text) = readValue fuel text := by
  cases fuel with
  | zero => simp
  | succ fuel => simp

theorem readValue_blank (fuel : ℕ) (text : List Char) :
    readValue fuel (' ' :: text) = readValue fuel text := by
  have blank : skip (' ' :: text) = skip text := rfl
  cases fuel with
  | zero => simp
  | succ fuel => simp [blank]

theorem readItems_lineBreak (fuel depth : ℕ) (text : List Char) :
    readItems fuel (lineBreak depth ++ text) = readItems fuel text := by
  cases fuel with
  | zero => simp
  | succ fuel => simp [readValue_lineBreak]

theorem readMembers_lineBreak (fuel depth : ℕ) (text : List Char) :
    readMembers fuel (lineBreak depth ++ text) = readMembers fuel text := by
  cases fuel with
  | zero => simp
  | succ fuel => simp

theorem ends_lineBreak (depth : ℕ) (text : List Char) : Ends (lineBreak depth ++ text) :=
  fun _ first => .inr (Option.some.inj first).symm

theorem ends_comma (text : List Char) : Ends (',' :: text) :=
  fun _ first => .inl (Option.some.inj first).symm

/-- The items of an array are read back one after another. -/
theorem readItems_indented {items : List Json} {item : Json} (first : ReadsBack item)
    (others : ∀ value ∈ items, ReadsBack value) {depth fuel : ℕ}
    (enough : (indented depth item).length + (indentedItems depth items).length < fuel)
    (outer : ℕ) (rest : List Char) :
    readItems fuel (indented depth item ++
      (indentedItems depth items ++ (lineBreak outer ++ ']' :: rest))) =
        some (item :: items, rest) := by
  induction items generalizing item fuel with
  | nil =>
    obtain ⟨fuel, rfl⟩ := Nat.exists_eq_succ_of_ne_zero (Nat.ne_zero_of_lt enough)
    have value := first depth fuel (lineBreak outer ++ ']' :: rest) (Nat.le_of_lt_succ enough)
      (ends_lineBreak _ _)
    rw [indentedItems, List.nil_append, readItems, value]
    simp only [skip_lineBreak, skip_cons (c := ']') (by decide)]
  | cons next items ih =>
    obtain ⟨fuel, rfl⟩ := Nat.exists_eq_succ_of_ne_zero (Nat.ne_zero_of_lt enough)
    rw [indentedItems] at enough ⊢
    simp only [List.length_cons, List.length_append] at enough
    simp only [List.cons_append, List.append_assoc]
    have room : (indented depth next).length + (indentedItems depth items).length < fuel := by
      omega
    have following := ih (others next List.mem_cons_self)
      (fun other isItem => others other (List.mem_cons_of_mem _ isItem)) room
    rw [readItems, first depth fuel _ (by omega) (ends_comma _)]
    simp only [skip_cons (c := ',') (by decide), readItems_lineBreak, following, Option.map_some]

/-- How the reading of members goes on behind one of them. -/
def readMore (fuel : ℕ) (member : Option String × Json) (tail : List Char) :
    Option (List (Option String × Json) × List Char) :=
  match skip tail with
  | ',' :: rest => (readMembers fuel rest).map fun (members, rest) => (member :: members, rest)
  | '\x7d' :: rest => some ([member], rest)
  | _ => none

theorem readMembers_succ {value : Json} (first : ReadsBack value) (name : Option String)
    {depth fuel : ℕ} {tail : List Char} (enough : (indented depth value).length ≤ fuel)
    (ends : Ends tail) :
    readMembers (fuel + 1) (quoteName name ++ ':' :: ' ' :: (indented depth value ++ tail)) =
      readMore fuel (name, value) tail := by
  obtain ⟨body, quoted, named⟩ := exists_quoteName name
  rw [quoted, List.cons_append, readMembers]
  simp only [skip_cons (c := '"') (by decide), named, skip_cons (c := ':') (by decide),
    readValue_blank, first depth fuel tail enough ends]
  rfl

/-- So are the members of an object, each with its name. -/
theorem readMembers_indented {members : List (Option String × Json)} {value : Json}
    (first : ReadsBack value) (others : ∀ member ∈ members, ReadsBack member.2) {depth fuel : ℕ}
    (enough : (indented depth value).length + (indentedMembers depth members).length < fuel)
    (name : Option String) (outer : ℕ) (rest : List Char) :
    readMembers fuel (quoteName name ++ ':' :: ' ' :: (indented depth value ++
      (indentedMembers depth members ++ (lineBreak outer ++ '\x7d' :: rest)))) =
        some ((name, value) :: members, rest) := by
  induction members generalizing name value fuel with
  | nil =>
    obtain ⟨fuel, rfl⟩ := Nat.exists_eq_succ_of_ne_zero (Nat.ne_zero_of_lt enough)
    rw [indentedMembers, List.nil_append, readMembers_succ first name (Nat.le_of_lt_succ enough)
      (ends_lineBreak _ _)]
    simp only [readMore, skip_lineBreak, skip_cons (c := '\x7d') (by decide)]
  | cons next members ih =>
    obtain ⟨fuel, rfl⟩ := Nat.exists_eq_succ_of_ne_zero (Nat.ne_zero_of_lt enough)
    rw [indentedMembers] at enough ⊢
    simp only [List.length_cons, List.length_append] at enough
    simp only [List.cons_append, List.append_assoc]
    have room :
        (indented depth next.2).length + (indentedMembers depth members).length < fuel := by
      omega
    have following := ih (others next List.mem_cons_self)
      (fun other isMember => others other (List.mem_cons_of_mem _ isMember)) room next.1
    rw [readMembers_succ first name (by omega) (ends_comma _)]
    simp only [readMore, skip_cons (c := ',') (by decide), readMembers_lineBreak, following,
      Option.map_some]

/-- A digit is the beginning of a number. -/
theorem readValue_digit {c : Char} (digit : c.isDigit = true) (fuel : ℕ) (text : List Char) :
    readValue (fuel + 1) (c :: text) =
      (readNumber (c :: text)).map fun (literal, rest) => (number literal, rest) := by
  rw [readValue, (begins_of_isDigit digit).skip_eq]
  split
  case h_7 => rfl
  all_goals
    next found =>
      cases found
      cases digit

/-- Behind an opening bracket a value is the first item. -/
theorem readValue_bracket {c : Char} (begins : Begins c) (fuel depth : ℕ) (text : List Char) :
    readValue (fuel + 1) ('[' :: (lineBreak depth ++ c :: text)) =
      (readItems fuel (c :: text)).map fun (items, rest) => (array items, rest) := by
  rw [readValue, skip_cons (by decide)]
  simp only [skip_lineBreak, begins.skip_eq]
  split
  case h_1 closes =>
    cases closes
    exact absurd begins (by simp [Begins])
  case h_2 => rfl

/-- Behind an opening brace a quote opens the first name. -/
theorem readValue_brace (fuel depth : ℕ) (text : List Char) :
    readValue (fuel + 1) ('\x7b' :: (lineBreak depth ++ '"' :: text)) =
      (readMembers fuel ('"' :: text)).map fun (members, rest) => (object members, rest) := by
  rw [readValue, skip_cons (by decide)]
  simp only [skip_lineBreak, skip_cons (c := '"') (by decide)]
  rfl

/-- No value is written without a character, so there is fuel for one step. -/
theorem readsBack_of_succ {value : Json} (plain : Plain value)
    (step : ∀ depth fuel rest, (indented depth value).length ≤ fuel + 1 → Ends rest →
      readValue (fuel + 1) (indented depth value ++ rest) = some (value, rest)) :
    ReadsBack value := by
  intro depth fuel rest enough ends
  obtain ⟨c, text, shape, -⟩ := exists_indented_eq plain depth
  cases fuel with
  | zero => simp [shape] at enough
  | succ fuel => exact step depth fuel rest enough ends

theorem readsBack_array {items : List Json} (plain : ∀ item ∈ items, Plain item)
    (inner : ∀ item ∈ items, ReadsBack item) : ReadsBack (array items) := by
  refine readsBack_of_succ (.array plain) fun depth fuel rest enough _ => ?_
  cases items with
  | nil =>
    rw [indented, readValue]
    rfl
  | cons item items =>
    rw [indented] at enough ⊢
    simp only [List.length_cons, List.length_append, List.cons_append, List.append_assoc,
      List.nil_append] at enough ⊢
    have room : (indented (depth + 1) item).length + (indentedItems (depth + 1) items).length <
        fuel := by
      omega
    have following := readItems_indented (inner item List.mem_cons_self)
      (fun other isItem => inner other (List.mem_cons_of_mem _ isItem)) room depth rest
    obtain ⟨c, text, shape, begins⟩ :=
      exists_indented_eq (plain item List.mem_cons_self) (depth + 1)
    rw [shape, List.cons_append] at following ⊢
    rw [readValue_bracket begins, following, Option.map_some]

theorem readsBack_object {members : List (Option String × Json)}
    (plain : ∀ member ∈ members, Plain member.2)
    (inner : ∀ member ∈ members, ReadsBack member.2) : ReadsBack (object members) := by
  refine readsBack_of_succ (.object plain) fun depth fuel rest enough _ => ?_
  cases members with
  | nil =>
    rw [indented, readValue]
    rfl
  | cons member members =>
    rw [indented] at enough ⊢
    simp only [List.length_cons, List.length_append, List.cons_append, List.append_assoc,
      List.nil_append] at enough ⊢
    have room : (indented (depth + 1) member.2).length +
        (indentedMembers (depth + 1) members).length < fuel := by
      omega
    have following := readMembers_indented (inner member List.mem_cons_self)
      (fun other isMember => inner other (List.mem_cons_of_mem _ isMember)) room member.1 depth
      rest
    obtain ⟨body, quoted, -⟩ := exists_quoteName member.1
    rw [quoted, List.cons_append] at following ⊢
    rw [readValue_brace, following, Option.map_some]

theorem readsBack_number (n : ℕ) : ReadsBack (ofNat n) := by
  refine readsBack_of_succ (.number n) fun depth fuel rest _ ends => ?_
  have read := readNumber_toDigits n ends
  rw [ofNat, indented]
  cases digits : Nat.toDigits 10 n with
  | nil => exact absurd digits Nat.toDigits_ne_nil
  | cons c tail =>
    have digit := allDigits_toDigits n c (digits ▸ List.mem_cons_self)
    rw [digits, List.cons_append] at read
    rw [List.cons_append, readValue_digit digit, read, Option.map_some]

/-- Values in the indented layout are read back, by induction on the value. -/
theorem readsBack_of_plain {value : Json} (plain : Plain value) : ReadsBack value := by
  induction plain with
  | null =>
    refine readsBack_of_succ .null fun depth fuel rest _ _ => ?_
    rw [indented, readValue]
    rfl
  | bool value =>
    refine readsBack_of_succ (.bool value) fun depth fuel rest _ _ => ?_
    rw [indented, readValue]
    cases value <;> rfl
  | number n => exact readsBack_number n
  | text content =>
    refine readsBack_of_succ (.text content) fun depth fuel rest _ _ => ?_
    rw [indented, quote, List.append_assoc, List.cons_append, readValue,
      skip_cons (by decide)]
    simp only [List.singleton_append, readText_quote]
  | brokenText =>
    obtain ⟨body, quoted, named⟩ := exists_quoteName none
    refine readsBack_of_succ .brokenText fun depth fuel rest _ _ => ?_
    rw [indented, ← quoteName, quoted, List.cons_append, readValue,
      skip_cons (by decide)]
    simp only [named]
  | array plain inner => exact readsBack_array plain inner
  | object plain inner => exact readsBack_object plain inner

/-- A value in the indented layout is a text that is read as the value. -/
theorem read_indented {value : Json} (plain : Plain value) :
    read (String.ofList (value.indented 0)) = some value := by
  have complete := readsBack_of_plain plain 0 ((value.indented 0).length + 1) []
    (Nat.le_succ _) (by simp [Ends])
  rw [List.append_nil] at complete
  rw [read, String.toList_ofList, complete]
  rfl

end LinearEnclosure.Json
