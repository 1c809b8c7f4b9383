/-
# Data in JSON

A value as it is written: members keep their order and may repeat, and a number keeps
its literal. A string may name half of a surrogate pair by an escape; no text can hold
that, so it is kept apart as a broken text, which is fine wherever the value is ignored.

A record is written as an object with its fields as members, or as an array with its
fields in order. `fields?` reads both forms.
-/

namespace LinearEnclosure

-- Powers are those of the core library.
attribute [local instance (high)] instPowNat

/-- A JSON value. -/
inductive Json
  | null
  | bool (value : Bool)
  | number (literal : List Char)
  | text (content : String)
  | brokenText
  | array (items : List Json)
  | object (members : List (Option String × Json))
  deriving Inhabited

namespace Json

/-- The natural number of at most 64 bits that a plain sequence of digits stands for. -/
def size? : Json → Option Nat
  | number literal =>
    let value := Nat.ofDigitChars 10 literal 0
    if literal.all Char.isDigit && value < 2 ^ (64 : Nat) then some value else none
  | _ => none

def text? : Json → Option String
  | text content => some content
  | _ => none

def array? : Json → Option (List Json)
  | array items => some items
  | _ => none

/-- A word, which may also be the only member of an object, with the value null. -/
def word? : Json → Option String
  | text content => some content
  | object [(some name, null)] => some name
  | _ => none

/-- The member with a given name, or nothing in its place. A repeated name is refused. -/
def member? (members : List (String × Json)) (name : String) : Option (Option Json) :=
  match members.filter (·.1 == name) with
  | [] => some none
  | [(_, value)] => some (some value)
  | _ => none

/-- The values of the named fields of a record, in the order of the names. Other members
are ignored as long as their names are texts; an array may leave out its last fields. -/
def fields? (names : List String) : Json → Option (List (Option Json))
  | object members => do
    let named ← members.mapM fun (name, value) => name.map (·, value)
    names.mapM (member? named)
  | array items =>
    if items.length ≤ names.length then
      some (items.map some ++ List.replicate (names.length - items.length) none)
    else none
  | _ => none

end Json

end LinearEnclosure
