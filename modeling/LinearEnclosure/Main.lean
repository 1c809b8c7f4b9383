/-
# The program

Reads the description that a call names, saves the overridden one where this is asked
for, and prints the report or the reason why there is none. The exit code is that of the
session.
-/

import LinearEnclosure.CommandLine

open LinearEnclosure.CommandLine

/-- The reason for which a file cannot be used. -/
def fileReason : IO.Error → String
  | .noFileOrDirectory .. => "No such file or directory (os error 2)"
  | error => toString error

/-- Try to use a file. -/
def attemptFile {α : Type} (action : IO α) : IO (Except String α) := do
  try
    return .ok (← action)
  catch error =>
    return .error (fileReason error)

/-- Find out what the files of a call answer, saving the description on the way. -/
def filesOf (call : Arguments) : IO Files := do
  let contents ← attemptFile (IO.FS.readFile call.config)
  let written ← match prepare call contents, call.save with
    | .ok config, some path => attemptFile (IO.FS.writeFile path config.print)
    | _, _ => pure (.ok ())
  return ⟨fun _ => contents, fun _ => written⟩

def main (arguments : List String) : IO UInt32 := do
  let files ← match Arguments.parse? arguments with
    | some call => filesOf call
    | none => pure ⟨fun _ => .ok "", fun _ => .ok ()⟩
  let session := execute files arguments
  IO.print session.output
  if let some complaint := session.complaint? then
    IO.eprintln complaint
  return UInt32.ofNat session.code
