/-
# Binary numbers as text

A binary number is read from a decimal literal that makes up the whole text, or from
one of the words for infinity and for a value that is not a number, in any case of
letters. It is written in positional notation with the fewest digits that read back, or
in scientific notation with a fixed number of digits of its exact decimal value.
-/

import LinearEnclosure.Binary.Decimal
import LinearEnclosure.Decimal.Scientific

namespace LinearEnclosure.Binary

/-- Why a text is not a binary number. -/
inductive ReadError
  | empty
  | invalid
  deriving DecidableEq, Repr

def ReadError.message : ReadError → String
  | empty => "cannot parse float from empty string"
  | invalid => "invalid float literal"

variable {F : Format}

/-- The value that a word stands for, apart from its sign. -/
private def ofWord? (negative : Bool) (word : List Char) : Option (Binary F) :=
  match String.ofList (word.map Char.toLower) with
  | "inf" => some (infinite negative)
  | "infinity" => some (infinite negative)
  | "nan" => some nan
  | _ => none

/-- Read a text as the nearest binary number. Zero keeps the sign it is written with. -/
def read (text : List Char) : Except ReadError (Binary F) :=
  if text.isEmpty then .error .empty
  else
    match Literal.read text with
    | some literal => .ok (nearest literal.negative literal.value)
    | none =>
      let (negative, word) := Literal.takeSign text
      match ofWord? negative word with
      | some value => .ok value
      | none => .error .invalid

/-- No word stands for a finite value. -/
private theorem isFinite_of_ofWord? {negative : Bool} {word : List Char} {value : Binary F}
    (known : ofWord? negative word = some value) : value.isFinite = false := by
  unfold ofWord? at known
  split at known <;> cases known <;> rfl

/-- So a text that is read as a finite number is a literal. -/
theorem exists_literal_of_read {text : List Char} {value : Binary F}
    (accepted : read text = .ok value) (finite : value.isFinite = true) :
    ∃ literal, Literal.read text = some literal := by
  rw [read] at accepted
  cases found : Literal.read text with
  | some literal => exact ⟨literal, rfl⟩
  | none =>
    simp only [found] at accepted
    split at accepted
    · cases accepted
    split at accepted
    · next known =>
      cases accepted
      rw [isFinite_of_ofWord? known] at finite
      cases finite
    · cases accepted

private theorem mem_of_ofWord? {negative : Bool} {word : List Char} {value : Binary F}
    (known : ofWord? negative word = some value) :
    String.ofList (word.map Char.toLower) ∈ ["inf", "infinity", "nan"] := by
  unfold ofWord? at known
  split at known
  · next same => simp [same]
  · next same => simp [same]
  · next same => simp [same]
  · cases known

/-- Whatever is read is a literal or one of the words, which may have a sign. -/
theorem exists_literal_or_mem_of_read {text : List Char} {value : Binary F}
    (accepted : read text = .ok value) :
    (∃ literal, Literal.read text = some literal) ∨
      String.ofList ((Literal.takeSign text).2.map Char.toLower) ∈ ["inf", "infinity", "nan"] := by
  rw [read] at accepted
  cases found : Literal.read text with
  | some literal => exact .inl ⟨literal, rfl⟩
  | none =>
    simp only [found] at accepted
    split at accepted
    · cases accepted
    split at accepted
    · next known => exact .inr (mem_of_ofWord? known)
    · cases accepted

/-- Positional notation with the fewest digits that read back. -/
def plain : Binary F → List Char
  | finite negative rank _ =>
    (if negative then ['-'] else []) ++
      (if rank = 0 then ['0'] else (F.shortest rank).plain)
  | infinite negative => (if negative then "-inf" else "inf").toList
  | nan => "NaN".toList

/-- Scientific notation of the exact value, rounded in a direction. Zero is written
without its sign. -/
def scientific (direction : Direction) (places : Nat) : Binary F → List Char
  | x@(finite ..) => (x.toDecimal?.getD .zero).scientific direction places
  | infinite negative => (if negative then "-INF" else "INF").toList
  | nan => "NAN".toList

end LinearEnclosure.Binary
