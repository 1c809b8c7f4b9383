/-
# Intervals as text

An interval is read from `[lo;hi]`, where the brackets may be missing, a comma may stand
for the semicolon, and blanks may stand anywhere. A single number is widened by one unit
in the last place to both sides. Bounds are rounded outward in dual mode, so the result
encloses the written numbers, and reversed bounds are refused rather than exchanged.
-/

import LinearEnclosure.Interval.Basic

namespace LinearEnclosure.Interval

/-- Split a text at semicolons and commas. There is always a first field. -/
def fields : List Char → List Char × List (List Char)
  | [] => ([], [])
  | c :: rest =>
    let (first, others) := fields rest
    if c == ';' || c == ',' then ([], first :: others) else (c :: first, others)

/-- The text between brackets, or the whole text where there is none. Brackets must come
in pairs. -/
def unbracket : List Char → Option (List Char)
  | '[' :: rest => if rest.getLast? = some ']' then some rest.dropLast else none
  | text => if text.getLast? = some ']' then none else some text

variable {β : Type} [Endpoint β]

/-- Read an interval. -/
def read (context : Context) (text : String) : Except IntervalError (Interval β) := do
  let compact := Text.squeeze text.toList
  let refuse (fault : Fault) : Except IntervalError (Interval β) :=
    .error (.unreadable (String.ofList compact) fault)
  if compact.isEmpty then .error (.unreadable text .emptyInput)
  else
    match unbracket compact with
    | none => refuse .unbalancedBrackets
    | some inner =>
      match fields inner with
      | (value, []) =>
        if value.isEmpty then refuse .missingValue
        else do
          let epsilon := Endpoint.epsilon context.precision
          let lo ← Endpoint.read context.lower context.precision value
          let hi ← Endpoint.read context.upper context.precision value
          make? (Endpoint.sub context.lower context.precision lo epsilon)
            (Endpoint.add context.upper context.precision hi epsilon)
      | (lower, [upper]) =>
        if lower.isEmpty || upper.isEmpty then refuse .missingBound
        else do
          let lo ← Endpoint.read context.lower context.precision lower
          let hi ← Endpoint.read context.upper context.precision upper
          make? lo hi
      | (_, others) => refuse (.fieldCount (others.length + 1))

/-- The endpoints in scientific notation, rounded outward in dual mode. -/
def formatEndpoints (context : Context) (x : Interval β) : List Char × List Char :=
  (Endpoint.scientific context.lower context.outDigits x.lo,
    Endpoint.scientific context.upper context.outDigits x.hi)

/-- Two endpoints between brackets. -/
def bracket (lo hi : List Char) : List Char :=
  '[' :: lo ++ ';' :: hi ++ [']']

/-- The interval in scientific notation, in the form that `read` accepts. -/
def format (context : Context) (x : Interval β) : String :=
  let (lo, hi) := x.formatEndpoints context
  String.ofList (bracket lo hi)

/-- The interval with its endpoints in positional notation. -/
def display (x : Interval β) : String :=
  String.ofList (bracket (Endpoint.plain x.lo) (Endpoint.plain x.hi))

end LinearEnclosure.Interval
