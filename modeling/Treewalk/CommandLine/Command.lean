import Treewalk.CommandLine.Options
import Treewalk.CommandLine.Directory
import Treewalk.Session.Prompt
import Treewalk.Tree.Display

/-!
# The command

The command runs a script, or shows its tokens or its tree, or opens the prompt when there is no
script. What it does depends only on its words and its surroundings.

## Main definitions

* `Plan.ofWords` — what the words of a command line ask for
* `Surroundings` — what the command finds around it
* `Surroundings.runScript`, `Surroundings.showScript` — the work on a script
* `Surroundings.command` — the whole command
-/

namespace Treewalk

/-- The lines that show how the command is used. -/
def usageText : String :=
  "usage: lako [-h] [--color \x7bnever,always,auto\x7d] [--max-errors N]\n" ++
  "            [--error-format \x7bhuman,json\x7d] [--tokens] [--ast] [-v]\n" ++
  "            [script]\n"

/-- What the command says about itself. -/
def helpText : String :=
  usageText ++ "\n" ++
  "Run a Lako script, or start an interactive prompt when no script is given.\n\n" ++
  "positional arguments:\n" ++
  "  script                path of the script to run\n\n" ++
  "options:\n" ++
  "  -h, --help            show this help message and exit\n" ++
  "  --color \x7bnever,always,auto\x7d\n" ++
  "                        when to colour diagnostics (default: auto)\n" ++
  "  --max-errors N        stop reporting after N errors (default: 20)\n" ++
  "  --error-format \x7bhuman,json\x7d\n" ++
  "                        diagnostic output format (default: human)\n" ++
  "  --tokens              print the token stream and exit\n" ++
  "  --ast                 print the syntax tree and exit\n" ++
  "  -v, --verbose         log debug output to stderr\n"

/-- What the words of a command line ask for. -/
inductive Plan where
  | stop (said : Emission) (code : ExitCode)
  | show (options : Options) (script : String)
  | run (options : Options) (script : String)
  | prompt (options : Options)

/-- What accepted options ask for. -/
def Plan.ofOptions (options : Options) : Plan :=
  if options.maxErrors < 1 then
    .stop (.err "Error: --max-errors must be at least 1\n") .usage
  else
    match options.script, options.tokens || options.tree with
    | some script, true => .show options script
    | none, true => .stop (.err "Error: --tokens and --ast need a script\n") .usage
    | some script, false => .run options script
    | none, false => .prompt options

/-- What the words of a command line ask for. -/
def Plan.ofWords (words : List String) : Plan :=
  match Options.parse words with
  | .ok options => .ofOptions options
  | .error .help => .stop (.out helpText) .success
  | .error (.misuse misuse) =>
    .stop (.err s!"{usageText}lako: error: {misuse.message}\n") .usage

/-- What the command finds around it. -/
structure Surroundings where
  directory : String
  /-- What reading a path gives. -/
  read : String → Except ReadFault (List UInt8)
  /-- The full paths of the files that exist. -/
  existing : List String
  /-- What standard error is connected to. -/
  terminal : Terminal
  /-- Whether standard input is a terminal. -/
  interactive : Bool
  /-- What comes over standard input. -/
  inputs : List Input
  time : Clock

/-- What a command did: what it wrote, and its exit code, unless something cut it short. -/
structure Outcome where
  emissions : List Emission
  ending : Except Escape ExitCode

/-- A prompt runs to its end and then succeeds, whatever became of its lines. -/
def Prompt.outcome (prompt : Prompt) (options : PromptOptions) (inputs : List Input) : Outcome :=
  match prompt.run options inputs with
  | (emissions, _, none) => ⟨emissions, .ok .success⟩
  | (emissions, _, some escape) => ⟨emissions, .error escape⟩

namespace Surroundings

/-- The session of a command. -/
def session (s : Surroundings) : Session := .new s.directory s.time

/-- The reporter that options ask for. -/
def reporter (s : Surroundings) (options : Options) : Reporter where
  renderer := ⟨options.color, options.maxErrors, 0⟩
  format := options.errorFormat
  terminal := s.terminal
  host := ⟨s.directory, s.existing⟩

/-- The text of a script, or what the command does without it. -/
def source (s : Surroundings) (script : String) : Except Outcome String :=
  match s.read script with
  | .error fault =>
    .error ⟨[.err s!"Error: Could not read '{script}': {fault.reason}\n"], .ok .unreadable⟩
  | .ok bytes =>
    match Text.decode bytes with
    | .error fault => .error ⟨[], .error (.decoding fault)⟩
    | .ok text => .ok (String.ofList (Text.unifyNewlines text))

/-- Shows the tokens of a script, its tree, or both. -/
def showScript (s : Surroundings) (options : Options) (script : String) : Outcome :=
  match s.source script with
  | .error outcome => outcome
  | .ok text =>
    let (tokens, session) :=
      if options.tokens then
        let (scanned, session) := s.session.scan text script
        (logEmissions options.verbose [.scanned script scanned.errors.length] ++
          scanned.allTokens.map fun token => .out (token.describe ++ "\n"), session)
      else ([], s.session)
    if options.tree then
      match (session.parse text script).1 with
      | .ok findings =>
        let tree := logEmissions options.verbose (findings.events script) ++
          [.out (findings.program.text ++ "\n")]
        ⟨tokens ++ tree, .ok .success⟩
      | .error _ => ⟨tokens, .error (.halt .stackExhausted)⟩
    else ⟨tokens, .ok .success⟩

/-- Runs a script and reports its diagnostics. -/
def runScript (s : Surroundings) (options : Options) (script : String) : Outcome :=
  match s.source script with
  | .error outcome => outcome
  | .ok text =>
    let run := s.session.run text script
    let shown := logEmissions options.verbose run.log ++ [.out run.output]
    match run.result with
    | .error .stackExhausted => ⟨shown ++ [.err stackMessage], .ok .failedRun⟩
    | .error halt => ⟨shown, .error (.halt halt)⟩
    | .ok diagnostics =>
      match (s.reporter options).report run.session.registry diagnostics true with
      | (.ok report, _) => ⟨shown ++ [.err report], .ok (exitCode diagnostics)⟩
      | (.error fault, _) => ⟨shown, .error (.source fault)⟩

/-- The prompt that options ask for. -/
def prompt (s : Surroundings) (options : Options) : Prompt := ⟨s.session, s.reporter options⟩

/-- Runs the prompt to its end. -/
def runPrompt (s : Surroundings) (options : Options) : Outcome :=
  (s.prompt options).outcome ⟨s.interactive, options.verbose⟩ s.inputs

/-- The whole command. -/
def command (s : Surroundings) (words : List String) : Outcome :=
  match Plan.ofWords words with
  | .stop said code => ⟨[said], .ok code⟩
  | .show options script => s.showScript options script
  | .run options script => s.runScript options script
  | .prompt options => s.runPrompt options

end Surroundings

end Treewalk
