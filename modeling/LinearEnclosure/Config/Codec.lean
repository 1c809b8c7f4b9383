/-
# Descriptions of systems as JSON

Reading accepts a record with known fields, each at most once, and checks a context as it
is read. Writing gives the fields in a fixed order and leaves out an absent context and
empty lists, so a description that is saved and read again is the same one.
-/

import LinearEnclosure.Config.Basic
import LinearEnclosure.Json.Reader
import LinearEnclosure.Json.Writer

namespace LinearEnclosure

namespace RoundingMode

/-- The word for a rounding mode. -/
def word : RoundingMode → String
  | single => "single-interval"
  | dual => "dual-interval"

def ofWord? : String → Option RoundingMode
  | "single-interval" => some single
  | "dual-interval" => some dual
  | _ => none

end RoundingMode

namespace Structure

/-- The word for a structure. -/
def word : Structure → String
  | general => "general"
  | symmetric => "symmetric"
  | tridiagonal => "tridiagonal"

def ofWord? : String → Option Structure
  | "general" => some general
  | "symmetric" => some symmetric
  | "tridiagonal" => some tridiagonal
  | _ => none

end Structure

namespace NumberKind

/-- The word for a kind of numbers. -/
def word : NumberKind → String
  | double => "double"
  | decimal => "big"
  | intervalDouble => "interval-double"
  | intervalDecimal => "interval-big"

def ofWord? : String → Option NumberKind
  | "double" => some double
  | "big" => some decimal
  | "interval-double" => some intervalDouble
  | "interval-big" => some intervalDecimal
  | _ => none

end NumberKind

/-- Read a field that may be absent, which stands for a given value. -/
def Json.orElse {α : Type} (absent : α) (read : Json → Option α) :
    Option Json → Option α
  | some value => read value
  | none => some absent

/-- Read a list of texts. -/
def Json.texts? (value : Json) : Option (List String) := do
  (← value.array?).mapM Json.text?

/-- Read a list of lists of texts. -/
def Json.textRows? (value : Json) : Option (List (List String)) := do
  (← value.array?).mapM Json.texts?

namespace Context

/-- Read a context. Its digit counts must be positive. -/
def ofJson? (value : Json) : Option Context := do
  match ← value.fields? ["precision", "out_digits", "mode"] with
  | [some precision, some outDigits, mode] =>
    let precision ← precision.size?
    let outDigits ← outDigits.size?
    let mode ← Json.orElse .dual (fun value => value.word?.bind RoundingMode.ofWord?) mode
    (validate ⟨precision, outDigits, mode⟩).toOption
  | _ => none

def toJson (context : Context) : Json :=
  .object [(some "precision", .ofNat context.precision),
    (some "out_digits", .ofNat context.outDigits),
    (some "mode", .text context.mode.word)]

/-- Read a context from a text. -/
def parse? (source : String) : Option Context :=
  (Json.read source).bind ofJson?

/-- Write a context on one line. -/
def print (context : Context) : String :=
  String.ofList context.toJson.compact

end Context

namespace SystemConfig

/-- Read a description. Only the right-hand side must be present, and only the context may
be null. -/
def ofJson? (value : Json) : Option SystemConfig := do
  match ← value.fields?
      ["structure", "arithmetic", "context", "matrix", "sub", "diag", "sup", "rhs"] with
  | [layout, numbers, context, matrix, sub, diag, sup, some rhs] =>
    let layout ← Json.orElse .general (fun value => value.word?.bind Structure.ofWord?) layout
    let numbers ← Json.orElse .double (fun value => value.word?.bind NumberKind.ofWord?) numbers
    let context ← Json.orElse none readContext context
    let matrix ← Json.orElse [] Json.textRows? matrix
    let sub ← Json.orElse [] Json.texts? sub
    let diag ← Json.orElse [] Json.texts? diag
    let sup ← Json.orElse [] Json.texts? sup
    let rhs ← rhs.texts?
    some ⟨layout, numbers, context, matrix, sub, diag, sup, rhs⟩
  | _ => none
where
  /-- Null stands for no context. -/
  readContext : Json → Option (Option Context)
    | .null => some none
    | value => (Context.ofJson? value).map some

/-- A list of texts. -/
def textsToJson (texts : List String) : Json :=
  .array (texts.map .text)

/-- A member of a record, unless its list is empty. -/
def unlessEmpty {α : Type} (name : String) (write : List α → Json) :
    List α → List (Option String × Json)
  | [] => []
  | items => [(some name, write items)]

def toJson (config : SystemConfig) : Json :=
  .object <|
    [(some "structure", .text config.layout.word),
      (some "arithmetic", .text config.numbers.word)] ++
    (match config.context with
      | some context => [(some "context", context.toJson)]
      | none => []) ++
    unlessEmpty "matrix" (fun rows => .array (rows.map textsToJson)) config.matrix ++
    unlessEmpty "sub" textsToJson config.sub ++
    unlessEmpty "diag" textsToJson config.diag ++
    unlessEmpty "sup" textsToJson config.sup ++
    [(some "rhs", textsToJson config.rhs)]

/-- Read a description from a text. -/
def parse? (source : String) : Option SystemConfig :=
  (Json.read source).bind ofJson?

/-- Write a description in the indented layout. -/
def print (config : SystemConfig) : String :=
  String.ofList (config.toJson.indented 0)

end SystemConfig

end LinearEnclosure
