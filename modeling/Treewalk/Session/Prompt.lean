import Treewalk.Session.Basic
import Treewalk.Diagnostic.Report
import Treewalk.Text.Blank
import Treewalk.Text.Utf8

/-!
# The prompt

At the prompt each line is run on its own in one session. Blank lines are skipped, and `exit` or
the end of the input ends the prompt. A statement may lack its final semicolon, which is then added
on a line of its own, so that a comment at the end of the line does not hide it. An error, or a
stack that is exhausted, only abandons the line.

## Main definitions

* `Input` — a line, or an interrupt while a line was awaited
* `needsTerminator` — whether a line lacks its final semicolon
* `Prompt.step` — what one input does
* `Prompt.run` — what a list of inputs does
-/

namespace Treewalk

/-- A text for one of the two streams of a command. -/
inductive Emission where
  | out (text : String)
  | err (text : String)
deriving DecidableEq, Repr

/-- What was written to standard output. -/
def Emission.stdout (emissions : List Emission) : String :=
  String.join (emissions.map fun | .out text => text | .err _ => "")

/-- What was written to standard error. -/
def Emission.stderr (emissions : List Emission) : String :=
  String.join (emissions.map fun | .out _ => "" | .err text => text)

/-- Something that ends a command without an exit code of its own. -/
inductive Escape where
  | halt (halt : Halt)
  | source (fault : SourceFault)
  | decoding (fault : Text.DecodeFault)

/-- What comes from the user: a line, or an interrupt while a line was awaited. -/
inductive Input where
  | line (text : String)
  | interrupt
deriving DecidableEq, Repr

/-- The lines of a text, each with the line feed that ends it. -/
def inputLines : List Char → List (List Char)
  | [] => []
  | c :: rest =>
    if c = '\n' then ['\n'] :: inputLines rest
    else
      match inputLines rest with
      | [] => [[c]]
      | line :: lines => (c :: line) :: lines

/-- The inputs when some of the attempts to read a line are interrupted. The attempts are counted,
and `attempt` is the next one. -/
def inputsFrom (interrupts : List Nat) (attempt : Nat) (lines : List String) : List Input :=
  if h : attempt ∈ interrupts then
    .interrupt :: inputsFrom (interrupts.erase attempt) (attempt + 1) lines
  else
    match lines with
    | [] => []
    | line :: rest => .line line :: inputsFrom interrupts (attempt + 1) rest
termination_by interrupts.length + lines.length
decreasing_by
  · have := List.length_erase_of_mem h
    have := List.length_pos_of_mem h
    omega
  · simp

/-- The inputs that a text gives when some attempts to read a line are interrupted. -/
def inputs (interrupts : List Nat) (text : String) : List Input :=
  inputsFrom interrupts 1 ((inputLines text.toList).map String.ofList)

/-- The path of the texts entered at the prompt. -/
def promptPath : String := "<repl>"

/-- Whether the last token before the end is neither a semicolon nor a closing brace. -/
def Scan.lacksTerminator (s : Scan) : Bool :=
  match s.tokens.getLast? with
  | none => false
  | some token =>
    match token.kind with
    | .semicolon | .rightBrace => false
    | _ => true

/-- Whether a line lacks its final semicolon. -/
def needsTerminator (line : String) : Bool := (scan 1 line).lacksTerminator

/-- A line with its final semicolon. -/
def terminated (line : String) : String :=
  if needsTerminator line then line ++ "\n;" else line

/-- The options of a prompt. -/
structure PromptOptions where
  interactive : Bool
  verbose : Bool
deriving DecidableEq, Repr

/-- The log of a run, when it is shown. -/
def logEmissions (verbose : Bool) (events : List Event) : List Emission :=
  if verbose then events.map fun event => .err (event.text ++ "\n") else []

/-- What is said when the stack is exhausted. -/
def stackMessage : String := "Fatal error: maximum recursion depth exceeded.\n"

/-- A session with the reporter for its diagnostics. -/
structure Prompt where
  session : Session
  reporter : Reporter

/-- How an input ends: the prompt goes on, or it is left, or something cuts it short. -/
inductive PromptEnding where
  | continues
  | leaves
  | escapes (escape : Escape)

namespace Prompt

/-- Runs a line that is not blank and reports its diagnostics. -/
def runLine (prompt : Prompt) (verbose : Bool) (line : String) :
    List Emission × Prompt × PromptEnding :=
  let checked : List Event := [.scanned promptPath (scan 1 line).errors.length]
  let run := prompt.session.run (terminated line) promptPath
  let session := run.session
  let shown := logEmissions verbose (checked ++ run.log) ++ [.out run.output]
  match run.result with
  | .error .stackExhausted =>
    (shown ++ [.err stackMessage], { prompt with session }, .continues)
  | .error halt => (shown, { prompt with session }, .escapes (.halt halt))
  | .ok diagnostics =>
    match prompt.reporter.report session.registry diagnostics false with
    | (.ok text, reporter) => (shown ++ [.err text], ⟨session, reporter⟩, .continues)
    | (.error fault, reporter) => (shown, ⟨session, reporter⟩, .escapes (.source fault))

/-- What one input does. -/
def step (prompt : Prompt) (verbose : Bool) : Input → List Emission × Prompt × PromptEnding
  | .interrupt => ([.out "\nUse 'exit' to quit.\n"], prompt, .continues)
  | .line text =>
    let line := String.ofList (Text.trim text.toList)
    if line = "exit" then ([], prompt, .leaves)
    else if line = "" then ([], prompt, .continues)
    else prompt.runLine verbose line

/-- What is shown before each input. -/
def cue (interactive : Bool) : List Emission := if interactive then [.out "> "] else []

/-- What a list of inputs does; after the last one the input ends. -/
def run (prompt : Prompt) (options : PromptOptions) :
    List Input → List Emission × Prompt × Option Escape
  | [] => (cue options.interactive, prompt, none)
  | input :: rest =>
    match prompt.step options.verbose input with
    | (shown, prompt, .leaves) => (cue options.interactive ++ shown, prompt, none)
    | (shown, prompt, .escapes escape) => (cue options.interactive ++ shown, prompt, some escape)
    | (shown, prompt, .continues) =>
      let (later, prompt, ending) := prompt.run options rest
      (cue options.interactive ++ shown ++ later, prompt, ending)

end Prompt

end Treewalk
