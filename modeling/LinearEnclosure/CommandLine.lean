/-
# The command line

A call names a description, and may override parts of it and save the result of the
overriding. Everything about a call is decided here except the files themselves: `Files`
says what reading and writing them would answer, and a `Session` says what is printed,
what is saved, and with which code the call ends.

Flags are written `--flag value` or `--flag=value`. A flag may be given once, and a value
does not begin with a dash unless it is nothing but a dash.
-/

import LinearEnclosure.Config.Codec
import LinearEnclosure.Report

namespace LinearEnclosure.CommandLine

-- Powers are those of the core library.
attribute [local instance (high)] instPowNat

/-- What can be given on the command line. -/
inductive Flag
  | config
  | layout
  | numbers
  | mode
  | precision
  | outDigits
  | save
  deriving DecidableEq, Repr

/-- The flag with a long name. -/
def Flag.ofName? : String → Option Flag
  | "config" => some config
  | "structure" => some layout
  | "arithmetic" => some numbers
  | "mode" => some mode
  | "precision" => some precision
  | "out-digits" => some outDigits
  | "save" => some save
  | _ => none

/-- The flag with a short name. -/
def Flag.ofLetter? : Char → Option Flag
  | 'c' => some config
  | _ => none

/-- What a single argument is. -/
inductive Token
  /-- A flag with a value, or one whose value is the next argument. -/
  | flag (flag : Flag) (value : Option String)
  /-- Two dashes, behind which nothing is a flag. -/
  | terminator
  | other
  deriving DecidableEq, Repr

/-- The value behind the sign of equality, if there is one. -/
private def assigned : List Char → Option String
  | '=' :: value => some (String.ofList value)
  | _ => none

def Token.ofArgument (argument : String) : Token :=
  match argument.toList with
  | ['-', '-'] => terminator
  | '-' :: '-' :: text =>
    let name := text.takeWhile (· != '=')
    match Flag.ofName? (String.ofList name) with
    | some known => flag known (assigned (text.dropWhile (· != '=')))
    | none => other
  | '-' :: letter :: text =>
    match Flag.ofLetter? letter with
    | some known =>
      flag known (if text.isEmpty then none else some ((assigned text).getD (String.ofList text)))
    | none => other
  | _ => other

/-- Whether an argument can be the value of the flag before it. -/
def isValue (argument : String) : Bool :=
  argument == "-" || argument.toList.head? != some '-'

/-- The flags of a call with their values, in order. -/
def flags : List String → Option (List (Flag × String))
  | [] => some []
  | argument :: rest =>
    match Token.ofArgument argument with
    | .flag flag (some value) => (flags rest).map ((flag, value) :: ·)
    | .flag flag none =>
      match rest with
      | value :: rest => if isValue value then (flags rest).map ((flag, value) :: ·) else none
      | [] => none
    | .terminator => if rest.isEmpty then some [] else none
    | .other => none

/-- A natural number of at most 64 bits; a plus may stand in front. -/
def size? (value : String) : Option Nat :=
  let digits := match value.toList with
    | '+' :: digits => digits
    | digits => digits
  let size := Nat.ofDigitChars 10 digits 0
  if !digits.isEmpty && digits.all Char.isDigit && size < 2 ^ (64 : Nat) then some size else none

/-- A path is not empty. -/
def path? (value : String) : Option String :=
  if value.isEmpty then none else some value

/-- The word for a rounding mode is a short one here. -/
def mode? : String → Option RoundingMode
  | "single" => some .single
  | "dual" => some .dual
  | _ => none

/-- A call. -/
structure Arguments where
  config : String
  layout : Option Structure
  numbers : Option NumberKind
  mode : Option RoundingMode
  precision : Option Nat
  outDigits : Option Nat
  save : Option String
  deriving DecidableEq, Repr

/-- The value of a flag that is given at most once. -/
def value? {α : Type} (given : List (Flag × String)) (flag : Flag) (read : String → Option α) :
    Option (Option α) :=
  match given.filter (·.1 == flag) with
  | [] => some none
  | [(_, value)] => (read value).map some
  | _ => none

/-- Read a call. Of all flags only the description is required. -/
def Arguments.parse? (arguments : List String) : Option Arguments := do
  let given ← flags arguments
  let config ← value? given .config path?
  let layout ← value? given .layout Structure.ofWord?
  let numbers ← value? given .numbers NumberKind.ofWord?
  let mode ← value? given .mode mode?
  let precision ← value? given .precision size?
  let outDigits ← value? given .outDigits size?
  let save ← value? given .save path?
  some ⟨← config, layout, numbers, mode, precision, outDigits, save⟩

/-- Override parts of a description. The context is touched only where the call names a
part of it; it is then the given one, or else the usual one for the overridden numbers. -/
def Arguments.override (arguments : Arguments) (config : SystemConfig) :
    Except IntervalError SystemConfig := do
  let config := { config with
    layout := arguments.layout.getD config.layout
    numbers := arguments.numbers.getD config.numbers }
  if arguments.mode.isNone && arguments.precision.isNone && arguments.outDigits.isNone then
    pure config
  else
    let context := config.context.getD config.numbers.initial
    let context := context.withMode (arguments.mode.getD context.mode)
    let context ← match arguments.precision with
      | some precision => context.withPrecision precision
      | none => pure context
    let context ← match arguments.outDigits with
      | some outDigits => context.withOutDigits outDigits
      | none => pure context
    pure { config with context := some context }

/-- Why a call ends without a report. -/
inductive Failure
  | usage
  | unreadableFile (reason : String)
  | malformedFile
  | badOverride (error : IntervalError)
  | unwritableFile (reason : String)
  | solver (error : SolverError)
  deriving DecidableEq, Repr

namespace Failure

def message : Failure → String
  | usage => "usage: --config FILE [--structure WORD] [--arithmetic WORD] [--mode WORD] " ++
    "[--precision DIGITS] [--out-digits DIGITS] [--save FILE]"
  | unreadableFile reason => "Failed to read config file: " ++ reason
  | malformedFile => "Failed to parse JSON"
  | badOverride error => error.message
  | unwritableFile reason => "Failed to write config file: " ++ reason
  | solver error => error.message

def code : Failure → Nat
  | usage => 2
  | solver error => error.code
  | _ => 1

end Failure

/-- What files answer: the text at a path, and whether a path can be written. A refusal
gives its reason. -/
structure Files where
  read : String → Except String String
  write : String → Except String Unit

/-- What a call comes to: the file that it saves, and its report. -/
structure Session where
  saved : Option (String × String)
  result : Except Failure Report

namespace Session

/-- What is printed on the standard output. -/
def output (session : Session) : String :=
  match session.result with
  | .ok report => report.text
  | .error _ => ""

/-- The line on the standard error output, without its line break. -/
def complaint? (session : Session) : Option String :=
  match session.result with
  | .ok _ => none
  | .error .usage => some (Failure.message .usage)
  | .error failure => some ("Error: " ++ failure.message)

def code (session : Session) : Nat :=
  match session.result with
  | .ok report => report.status.code
  | .error failure => failure.code

end Session

/-- The overridden description of a call, given what reading its file answers. -/
def prepare (arguments : Arguments) (contents : Except String String) :
    Except Failure SystemConfig := do
  let source ← contents.mapError .unreadableFile
  match SystemConfig.parse? source with
  | some config => (arguments.override config).mapError .badOverride
  | none => .error .malformedFile

/-- The report of an overridden description. -/
def solve (config : SystemConfig) : Except Failure Report :=
  config.run.mapError .solver

/-- Carry out a call. The description is saved before it is solved. -/
def execute (files : Files) (arguments : List String) : Session :=
  match Arguments.parse? arguments with
  | none => ⟨none, .error .usage⟩
  | some call =>
    match prepare call (files.read call.config) with
    | .error failure => ⟨none, .error failure⟩
    | .ok config =>
      match call.save with
      | none => ⟨none, solve config⟩
      | some path =>
        match files.write path with
        | .error reason => ⟨none, .error (.unwritableFile reason)⟩
        | .ok () => ⟨some (path, config.print), solve config⟩

end LinearEnclosure.CommandLine
