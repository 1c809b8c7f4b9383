/-
# Reading JSON

The strict grammar: nothing may follow the value but white space, commas stand only
between items, and control characters in strings must be escaped. Strings are read in
two steps, first into characters and the units that escapes name, then into text, where
two surrogate units make one character.

Nesting is followed with fuel. Every item of an array and every level of nesting takes at
least two characters and spends at most as much fuel, so the length of the text is always
enough.
-/

import LinearEnclosure.Json.Basic

namespace LinearEnclosure.Json

/-- The text behind leading white space. -/
def skip (text : List Char) : List Char :=
  text.dropWhile fun c => c == ' ' || c == '\n' || c == '\r' || c == '\t'

/-- A piece of a string: a character, or a unit of sixteen bits that an escape names. -/
inductive Part
  | char (c : Char)
  | unit (code : Nat)
  deriving DecidableEq

/-- The character that a short escape stands for. -/
def shortEscape? : Char → Option Char
  | '"' => some '"'
  | '\\' => some '\\'
  | '/' => some '/'
  | 'b' => some '\x08'
  | 'f' => some '\x0c'
  | 'n' => some '\n'
  | 'r' => some '\r'
  | 't' => some '\t'
  | _ => none

/-- The value of a hexadecimal digit. -/
def hexDigit? (c : Char) : Option Nat :=
  if c.isDigit then some (c.toNat - '0'.toNat)
  else if 'a' ≤ c && c ≤ 'f' then some (c.toNat - 'a'.toNat + 10)
  else if 'A' ≤ c && c ≤ 'F' then some (c.toNat - 'A'.toNat + 10)
  else none

/-- The unit that four hexadecimal digits name. -/
def unit? (a b c d : Char) : Option Nat := do
  some ((((← hexDigit? a) * 16 + (← hexDigit? b)) * 16 + (← hexDigit? c)) * 16 + (← hexDigit? d))

/-- Read the pieces of a string up to its closing quote. -/
def readParts : List Char → Option (List Part × List Char)
  | [] => none
  | '"' :: rest => some ([], rest)
  | '\\' :: 'u' :: a :: b :: c :: d :: rest => do
    let code ← unit? a b c d
    let (parts, rest) ← readParts rest
    some (.unit code :: parts, rest)
  | '\\' :: c :: rest => do
    let escaped ← shortEscape? c
    let (parts, rest) ← readParts rest
    some (.char escaped :: parts, rest)
  | c :: rest =>
    if c.toNat < 0x20 || c == '\\' then none
    else do
      let (parts, rest) ← readParts rest
      some (.char c :: parts, rest)

def isHighSurrogate (code : Nat) : Bool := 0xD800 ≤ code && code < 0xDC00

def isLowSurrogate (code : Nat) : Bool := 0xDC00 ≤ code && code < 0xE000

/-- The text that pieces make up; there is none where a surrogate stands alone. -/
def joinParts : List Part → Option (List Char)
  | [] => some []
  | .char c :: rest => (joinParts rest).map (c :: ·)
  | .unit code :: rest =>
    if isHighSurrogate code then
      match rest with
      | .unit low :: rest =>
        if isLowSurrogate low then
          (joinParts rest).map
            (Char.ofNat (0x10000 + (code - 0xD800) * 0x400 + (low - 0xDC00)) :: ·)
        else none
      | _ => none
    else if isLowSurrogate code then none
    else (joinParts rest).map (Char.ofNat code :: ·)

/-- Read a string behind its opening quote. -/
def readText (text : List Char) : Option (Option String × List Char) := do
  let (parts, rest) ← readParts text
  some ((joinParts parts).map String.ofList, rest)

/-- Read the digits behind a point, if there is one. -/
def readFraction : List Char → Option (List Char × List Char)
  | '.' :: rest =>
    let digits := rest.takeWhile Char.isDigit
    if digits.isEmpty then none else some ('.' :: digits, rest.dropWhile Char.isDigit)
  | rest => some ([], rest)

/-- Split an optional sign of an exponent from a text. -/
def takeExponentSign : List Char → List Char × List Char
  | '+' :: rest => (['+'], rest)
  | '-' :: rest => (['-'], rest)
  | rest => ([], rest)

/-- Read an exponent, if there is one. -/
def readExponent : List Char → Option (List Char × List Char)
  | [] => some ([], [])
  | mark :: rest =>
    if mark == 'e' || mark == 'E' then
      let (sign, rest) := takeExponentSign rest
      let digits := rest.takeWhile Char.isDigit
      if digits.isEmpty then none
      else some (mark :: sign ++ digits, rest.dropWhile Char.isDigit)
    else some ([], mark :: rest)

/-- Split an optional minus from a text. -/
def takeMinus : List Char → List Char × List Char
  | '-' :: rest => (['-'], rest)
  | rest => ([], rest)

/-- Read the literal of a number. Its whole part has no needless leading zero. -/
def readNumber (text : List Char) : Option (List Char × List Char) := do
  let (sign, body) := takeMinus text
  let whole := body.takeWhile Char.isDigit
  if whole.isEmpty || whole.head? == some '0' && whole.length != 1 then none
  else
    let (fraction, rest) ← readFraction (body.dropWhile Char.isDigit)
    let (exponent, rest) ← readExponent rest
    some (sign ++ whole ++ fraction ++ exponent, rest)

mutual

/-- Read a value and hand on the text behind it. -/
def readValue : Nat → List Char → Option (Json × List Char)
  | 0, _ => none
  | fuel + 1, source =>
    match skip source with
    | 'n' :: 'u' :: 'l' :: 'l' :: rest => some (null, rest)
    | 't' :: 'r' :: 'u' :: 'e' :: rest => some (bool true, rest)
    | 'f' :: 'a' :: 'l' :: 's' :: 'e' :: rest => some (bool false, rest)
    | '"' :: rest =>
      match readText rest with
      | some (some content, rest) => some (text content, rest)
      | some (none, rest) => some (brokenText, rest)
      | none => none
    | '[' :: rest =>
      match skip rest with
      | ']' :: rest => some (array [], rest)
      | rest => (readItems fuel rest).map fun (items, rest) => (array items, rest)
    | '\x7b' :: rest =>
      match skip rest with
      | '\x7d' :: rest => some (object [], rest)
      | rest => (readMembers fuel rest).map fun (members, rest) => (object members, rest)
    | rest => (readNumber rest).map fun (literal, rest) => (number literal, rest)

/-- Read the items of an array up to its closing bracket; there is at least one. -/
def readItems : Nat → List Char → Option (List Json × List Char)
  | 0, _ => none
  | fuel + 1, source =>
    match readValue fuel source with
    | none => none
    | some (item, rest) =>
      match skip rest with
      | ',' :: rest => (readItems fuel rest).map fun (items, rest) => (item :: items, rest)
      | ']' :: rest => some ([item], rest)
      | _ => none

/-- Read the members of an object up to its closing brace; there is at least one. -/
def readMembers : Nat → List Char → Option (List (Option String × Json) × List Char)
  | 0, _ => none
  | fuel + 1, source =>
    match skip source with
    | '"' :: rest =>
      match readText rest with
      | none => none
      | some (name, rest) =>
        match skip rest with
        | ':' :: rest =>
          match readValue fuel rest with
          | none => none
          | some (value, rest) =>
            match skip rest with
            | ',' :: rest =>
              (readMembers fuel rest).map fun (members, rest) => ((name, value) :: members, rest)
            | '\x7d' :: rest => some ([(name, value)], rest)
            | _ => none
        | _ => none
    | _ => none

end

/-- Read a text that is one value. -/
def read (source : String) : Option Json :=
  match readValue (source.toList.length + 1) source.toList with
  | some (value, rest) => if (skip rest).isEmpty then some value else none
  | none => none

end LinearEnclosure.Json
