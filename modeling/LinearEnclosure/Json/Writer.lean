/-
# Writing JSON

Two layouts of the same grammar. The compact one has no white space. The indented one
puts every item and every member on a line of its own, two spaces deeper than its
container, and leaves empty containers closed. Strings escape quotes, backslashes and
control characters, and nothing else.
-/

import LinearEnclosure.Json.Basic

namespace LinearEnclosure.Json

/-- A digit of a hexadecimal number, in lower case. -/
def hexDigit (n : Nat) : Char := Nat.digitChar n

/-- A character as it stands in a string. -/
def escape (c : Char) : List Char :=
  match c with
  | '"' => ['\\', '"']
  | '\\' => ['\\', '\\']
  | '\x08' => ['\\', 'b']
  | '\x0c' => ['\\', 'f']
  | '\n' => ['\\', 'n']
  | '\r' => ['\\', 'r']
  | '\t' => ['\\', 't']
  | c =>
    if c.toNat < 0x20 then
      ['\\', 'u', '0', '0', hexDigit (c.toNat / 16), hexDigit (c.toNat % 16)]
    else [c]

/-- A text between quotes. -/
def quote (content : String) : List Char :=
  '"' :: content.toList.flatMap escape ++ ['"']

/-- The shortest broken text. -/
def brokenQuote : List Char := "\"\\ud800\"".toList

/-- A name between quotes. -/
def quoteName : Option String → List Char
  | some name => quote name
  | none => brokenQuote

/-- A line break and the indentation of a depth. -/
def lineBreak (depth : Nat) : List Char :=
  '\n' :: List.replicate (2 * depth) ' '

mutual

/-- A value in the indented layout, inside a container of a depth. -/
def indented (depth : Nat) : Json → List Char
  | null => "null".toList
  | bool value => (if value then "true" else "false").toList
  | number literal => literal
  | text content => quote content
  | brokenText => brokenQuote
  | array [] => ['[', ']']
  | array (item :: items) =>
    '[' :: lineBreak (depth + 1) ++ indented (depth + 1) item ++
      indentedItems (depth + 1) items ++ lineBreak depth ++ [']']
  | object [] => ['\x7b', '\x7d']
  | object ((name, value) :: members) =>
    '\x7b' :: lineBreak (depth + 1) ++ quoteName name ++ ':' :: ' ' ::
      indented (depth + 1) value ++ indentedMembers (depth + 1) members ++ lineBreak depth ++
      ['\x7d']

/-- The items behind the first one, each after a comma. -/
def indentedItems (depth : Nat) : List Json → List Char
  | [] => []
  | item :: items =>
    ',' :: lineBreak depth ++ indented depth item ++ indentedItems depth items

/-- The members behind the first one, each after a comma. -/
def indentedMembers (depth : Nat) : List (Option String × Json) → List Char
  | [] => []
  | (name, value) :: members =>
    ',' :: lineBreak depth ++ quoteName name ++ ':' :: ' ' :: indented depth value ++
      indentedMembers depth members

end

mutual

/-- A value in the compact layout. -/
def compact : Json → List Char
  | null => "null".toList
  | bool value => (if value then "true" else "false").toList
  | number literal => literal
  | text content => quote content
  | brokenText => brokenQuote
  | array [] => ['[', ']']
  | array (item :: items) => '[' :: compact item ++ compactItems items ++ [']']
  | object [] => ['\x7b', '\x7d']
  | object ((name, value) :: members) =>
    '\x7b' :: quoteName name ++ ':' :: compact value ++ compactMembers members ++ ['\x7d']

/-- The items behind the first one, each after a comma. -/
def compactItems : List Json → List Char
  | [] => []
  | item :: items => ',' :: compact item ++ compactItems items

/-- The members behind the first one, each after a comma. -/
def compactMembers : List (Option String × Json) → List Char
  | [] => []
  | (name, value) :: members =>
    ',' :: quoteName name ++ ':' :: compact value ++ compactMembers members

end

/-- The literal of a natural number. -/
def ofNat (n : Nat) : Json := number (Nat.toDigits 10 n)

end LinearEnclosure.Json
