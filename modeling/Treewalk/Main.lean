import Treewalk.CommandLine.Command
import Std.Time.DateTime.Timestamp

/-!
# The command at work

Reads the surroundings of the command, runs it, and writes what it says.
-/

namespace Treewalk

/-- Writes texts to the two streams. -/
def emit (emissions : List Emission) : IO Unit := do
  for emission in emissions do
    let (stream, text) ←
      match emission with
      | .out text => pure (← IO.getStdout, text)
      | .err text => pure (← IO.getStderr, text)
    stream.putStr text
    stream.flush

/-- Why a file could not be read. A path that goes through a file cannot be opened; a directory can
be opened and not read, and then the error has no path. -/
def readFault : IO.Error → ReadFault
  | .noFileOrDirectory _ _ _ => .missing
  | .inappropriateType (some _) _ _ => .notDirectory
  | .inappropriateType none _ _ => .isDirectory
  | .permissionDenied _ _ _ => .other "Permission denied"
  | error => .other (toString error)

/-- The content of a file. -/
def readFile (path : String) : IO (Except ReadFault (List UInt8)) := do
  try
    return .ok (← IO.FS.readBinFile path).toList
  catch error => return .error (readFault error)

/-- What cut a command short, in one line. -/
def Escape.message : Escape → String
  | .decoding fault => fault.message
  | .source fault => fault.message
  | .halt _ => "internal error"

/-- The prompt, line by line. -/
partial def converse (options : PromptOptions) (prompt : Prompt) : IO UInt32 := do
  emit (Prompt.cue options.interactive)
  let line ← (← IO.getStdin).getLine
  if line.isEmpty then return 0
  let (said, prompt, ending) := prompt.step options.verbose (.line line)
  emit said
  match ending with
  | .continues => converse options prompt
  | .leaves => return 0
  | .escapes escape =>
    emit [.err (escape.message ++ "\n")]
    return 1

/-- Writes what a command did. -/
def conclude (outcome : Outcome) : IO UInt32 := do
  emit outcome.emissions
  match outcome.ending with
  | .ok code => return code.number.toUInt32
  | .error escape =>
    emit [.err (escape.message ++ "\n")]
    return 1

/-- The surroundings of the command, given what reading its script gives. -/
def lookAround (script : Option String) : IO Surroundings := do
  let directory := toString (← IO.currentDir)
  let content ←
    match script with
    | some path => readFile path
    | none => pure (.error .missing)
  let now ← Std.Time.Timestamp.now
  return {
    directory
    read := fun _ => content
    existing := (script.map (Path.absolute directory)).toList
    terminal := ⟨← (← IO.getStderr).isTty, (← IO.getEnv "NO_COLOR").isSome⟩
    interactive := ← (← IO.getStdin).isTty
    inputs := []
    time := ⟨fun _ => Float.ofInt now.toNanosecondsSinceUnixEpoch.val / 1e9⟩ }

end Treewalk

open Treewalk in
/-- Runs the command. -/
def main (words : List String) : IO UInt32 := do
  match Plan.ofWords words with
  | .stop said code => conclude ⟨[said], .ok code⟩
  | .show options script => conclude ((← lookAround script).showScript options script)
  | .run options script => conclude ((← lookAround script).runScript options script)
  | .prompt options =>
    let around ← lookAround none
    converse ⟨around.interactive, options.verbose⟩ (around.prompt options)
