/-
# How an interval is read

Blanks are taken out of a text, and brackets off it. What is left is cut at the separators
into one field or two, and nothing else is accepted: a single field is read twice and widened
to both sides, and two fields are the two ends. Either way the ends are tested last.

Whatever is to be shown of intervals that were read can start from these two cases.
-/

import LinearEnclosure.Interval.Text
import LinearEnclosure.Proofs.Solver.Stages

namespace LinearEnclosure

/-- An endpoint is read, or refused as unreadable. -/
theorem Endpoint.read_cases (β : Type) [Endpoint β] (direction : Direction) (precision : ℕ)
    (text : List Char) :
    (∃ x : β, Endpoint.read direction precision text = .ok x) ∨
      ∃ fault, (Endpoint.read direction precision text : Except IntervalError β) =
        .error (.unreadable (String.ofList text) fault) := by
  rw [Endpoint.read]
  cases (Endpoint.read? direction precision text : Except Fault β) with
  | ok x => exact .inl ⟨x, rfl⟩
  | error fault => exact .inr ⟨fault, rfl⟩

namespace Interval

/-! ## Fields and brackets -/

theorem fields_separator {separator : Char} (split : separator = ';' ∨ separator = ',')
    (rest : List Char) : fields (separator :: rest) = ([], (fields rest).1 :: (fields rest).2) := by
  rcases split with rfl | rfl <;> rfl

theorem fields_cons {c : Char} (kept : ¬(c = ';' ∨ c = ',')) (rest : List Char) :
    fields (c :: rest) = (c :: (fields rest).1, (fields rest).2) := by
  rw [fields]
  exact if_neg (by simpa using kept)

/-- A first field ends with the text or at a separator, behind which the other fields
stand. -/
theorem fields_spec (text : List Char) :
    fields text = (text, []) ∨ ∃ separator rest, (separator = ';' ∨ separator = ',') ∧
      text = (fields text).1 ++ separator :: rest ∧
      (fields text).2 = (fields rest).1 :: (fields rest).2 := by
  induction text with
  | nil => exact .inl rfl
  | cons c text ih =>
    by_cases split : c = ';' ∨ c = ','
    · right
      rw [fields_separator split]
      exact ⟨c, text, split, rfl, rfl⟩
    · rw [fields_cons split]
      rcases ih with whole | ⟨separator, rest, valid, shape, others⟩
      · exact .inl (by rw [whole])
      · exact .inr ⟨separator, rest, valid, congrArg (c :: ·) shape, others⟩

theorem eq_of_fields_single {text value : List Char} (one : fields text = (value, [])) :
    text = value := by
  rcases fields_spec text with whole | ⟨separator, rest, -, -, others⟩
  · exact (Prod.ext_iff.mp (whole.symm.trans one)).1
  · simp [one] at others

theorem eq_of_fields_pair {text lower upper : List Char} (two : fields text = (lower, [upper])) :
    ∃ separator, (separator = ';' ∨ separator = ',') ∧ text = lower ++ separator :: upper := by
  rcases fields_spec text with whole | ⟨separator, rest, split, parts, others⟩
  · simp [two] at whole
  · rw [two] at parts others
    obtain ⟨first, last⟩ := List.cons.inj others
    obtain rfl : rest = upper := eq_of_fields_single (Prod.ext first.symm last.symm)
    exact ⟨separator, split, parts⟩

theorem unbracket_eq_some {text inner : List Char} (opened : unbracket text = some inner) :
    text = inner ∨ text = '[' :: (inner ++ [']']) := by
  unfold unbracket at opened
  split at opened
  · split at opened
    · next rest closed =>
      obtain rfl := Option.some.inj opened
      exact .inr (by rw [List.dropLast_append_getLast? _ closed])
    · cases opened
  · split at opened
    · cases opened
    · exact .inl (Option.some.inj opened)

/-! ## Intervals -/

variable {β : Type} [Endpoint β] {context : Context}

/-- How an interval comes out of a text without blanks and brackets. -/
inductive ReadFrom (context : Context) (x : Interval β) : List Char → Prop
  | single {text : List Char} {below above : β} :
      Endpoint.read context.lower context.precision text = .ok below →
      Endpoint.read context.upper context.precision text = .ok above →
      make? (Endpoint.sub context.lower context.precision below
          (Endpoint.epsilon context.precision))
        (Endpoint.add context.upper context.precision above
          (Endpoint.epsilon context.precision)) = .ok x →
      ReadFrom context x text
  | pair {lower upper : List Char} {separator : Char} {below above : β} :
      separator = ';' ∨ separator = ',' →
      Endpoint.read context.lower context.precision lower = .ok below →
      Endpoint.read context.upper context.precision upper = .ok above →
      make? below above = .ok x → ReadFrom context x (lower ++ separator :: upper)

/-- The ends that come out of a text without blanks and brackets, before they are tested. -/
inductive EndsFrom (context : Context) : List Char → β → β → Prop
  | single {text : List Char} {below above : β} :
      Endpoint.read context.lower context.precision text = .ok below →
      Endpoint.read context.upper context.precision text = .ok above →
      EndsFrom context text
        (Endpoint.sub context.lower context.precision below (Endpoint.epsilon context.precision))
        (Endpoint.add context.upper context.precision above (Endpoint.epsilon context.precision))
  | pair {lower upper : List Char} {separator : Char} {below above : β} :
      separator = ';' ∨ separator = ',' →
      Endpoint.read context.lower context.precision lower = .ok below →
      Endpoint.read context.upper context.precision upper = .ok above →
      EndsFrom context (lower ++ separator :: upper) below above

/-- A result that refuses a text, or a part of it, as unreadable. -/
def IsUnreadable {γ : Type} (result : Except IntervalError γ) : Prop :=
  ∃ input fault, result = .error (.unreadable input fault)

/-- Both ends are read and passed on, or one of them is refused. -/
theorem read_ends_cases (context : Context) (first last : List Char)
    (next : β → β → Except IntervalError (Interval β)) :
    IsUnreadable (Endpoint.read context.lower context.precision first >>= fun below =>
        Endpoint.read context.upper context.precision last >>= next below) ∨
      ∃ below above, Endpoint.read context.lower context.precision first = .ok below ∧
        Endpoint.read context.upper context.precision last = .ok above ∧
        (Endpoint.read context.lower context.precision first >>= fun below =>
          Endpoint.read context.upper context.precision last >>= next below) =
            next below above := by
  rcases Endpoint.read_cases β context.lower context.precision first with
    ⟨below, readBelow⟩ | ⟨fault, refused⟩
  · rcases Endpoint.read_cases β context.upper context.precision last with
      ⟨above, readAbove⟩ | ⟨fault, refused⟩
    · exact .inr ⟨below, above, readBelow, readAbove, by rw [readBelow, readAbove]; rfl⟩
    · exact .inl ⟨_, fault, by rw [readBelow, refused]; rfl⟩
  · exact .inl ⟨_, fault, by rw [refused]; rfl⟩

variable (β) in
/-- A text is unreadable, or two ends come out of it in one of the two ways and nothing but
their test is left. -/
theorem read_cases (context : Context) (text : String) :
    IsUnreadable (read context text : Except IntervalError (Interval β)) ∨
      ∃ inner, (Text.squeeze text.toList = inner ∨
          Text.squeeze text.toList = '[' :: (inner ++ [']'])) ∧
        (∀ c ∈ inner, Text.isBlank c = false) ∧
        ∃ lo hi : β, EndsFrom context inner lo hi ∧ read context text = make? lo hi := by
  have clear : ∀ c ∈ Text.squeeze text.toList, Text.isBlank c = false := by
    intro c member
    simpa using (List.mem_filter.mp member).2
  simp only [read]
  split
  · exact .inl ⟨_, _, rfl⟩
  split
  · exact .inl ⟨_, _, rfl⟩
  next inner opened =>
  have shape := unbracket_eq_some opened
  have clearInner : ∀ c ∈ inner, Text.isBlank c = false := by
    intro c member
    apply clear c
    rcases shape with shape | shape <;> rw [shape] <;> simp [member]
  split
  · next value one =>
    obtain rfl := eq_of_fields_single one
    split
    · exact .inl ⟨_, _, rfl⟩
    refine (read_ends_cases context inner inner _).imp_right ?_
    rintro ⟨below, above, readBelow, readAbove, tested⟩
    exact ⟨inner, shape, clearInner, _, _, .single readBelow readAbove, tested⟩
  · next lower upper two =>
    obtain ⟨separator, parted, rfl⟩ := eq_of_fields_pair two
    split
    · exact .inl ⟨_, _, rfl⟩
    refine (read_ends_cases context lower upper make?).imp_right ?_
    rintro ⟨below, above, readBelow, readAbove, tested⟩
    exact ⟨_, shape, clearInner, _, _, .pair parted readBelow readAbove, tested⟩
  · exact .inl ⟨_, _, rfl⟩

/-- Every interval that is read comes out of its text in one of the two ways. -/
theorem exists_readFrom {text : String} {x : Interval β} (accepted : read context text = .ok x) :
    ∃ inner, (Text.squeeze text.toList = inner ∨
        Text.squeeze text.toList = '[' :: (inner ++ [']'])) ∧
      (∀ c ∈ inner, Text.isBlank c = false) ∧ ReadFrom context x inner := by
  rcases read_cases β context text with ⟨input, fault, refused⟩ | came
  · rw [accepted] at refused
    cases refused
  · obtain ⟨inner, shape, clear, lo, hi, ends, tested⟩ := came
    have made := tested.symm.trans accepted
    refine ⟨inner, shape, clear, ?_⟩
    cases ends with
    | single readBelow readAbove => exact .single readBelow readAbove made
    | pair parted readBelow readAbove => exact .pair parted readBelow readAbove made

end Interval

end LinearEnclosure
