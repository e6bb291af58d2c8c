import Treewalk.Machine.Evaluate
import Treewalk.Grammar.Parser
import Treewalk.Tree.Binding
import Treewalk.Source.Registry

/-!
# Sessions

A session runs one source after another. The globals and the registered sources of earlier runs
stay. A source is parsed while it is scanned: the parser pulls one token after another, and the
scanner notes its errors on the way. A source with lexical or grammatical errors is not executed at
all: all its errors are reported, in the order of their lines. Otherwise its names are bound and it
is executed, and an error during execution is reported alone.

## Main definitions

* `Session` — the registered sources, the store and the uses of names that were bound
* `Findings` — what is found in a source while it is parsed
* `Session.run` — runs a source
* `exitCode` — how a run is summed up for the shell
-/

namespace Treewalk

/-- How deep expressions, statements and calls may nest while a program is executed. -/
def nestingLimit : Nat := 20000

/-- How many rounds one loop may make. -/
def roundLimit : Nat := Nat.pow 2 62

/-- Something that a session notes in its log. -/
inductive Event where
  | scanned (path : String) (errors : Nat)
  | recognised (statements errors : Nat)
  | bound (uses : Nat)
  | rejected (path : String) (diagnostics : Nat)
  | failed (path : String) (line : Int)
  | replacedBuiltin (name : String)
deriving DecidableEq, Repr

/-- The line of an event in the log. -/
def Event.text : Event → String
  | .scanned path errors => s!"lako.scanner DEBUG: scanned {path} with {errors} lexical error(s)"
  | .recognised statements errors =>
    s!"lako.parser DEBUG: parsed {statements} statement(s) with {errors} syntax error(s)"
  | .bound uses => s!"lako.resolver DEBUG: resolved {uses} local reference(s)"
  | .rejected path diagnostics =>
    s!"lako DEBUG: {path}: {diagnostics} static diagnostic(s), not executing"
  | .failed path line => s!"lako DEBUG: {path}: runtime error on line {line}"
  | .replacedBuiltin name => s!"lako.interpreter DEBUG: Overwriting builtin {name}"

/-- What is found in a source while it is parsed. -/
structure Findings where
  lexical : List LexicalError
  recognition : Grammar.Recognition

namespace Findings

/-- Parses the text of a file with a number, pulling the tokens from a scanner. -/
def ofText (file : Nat) (text : String) : Except Interruption Findings :=
  match Parser.parse (.scanning (.ofText file text) .untouched) with
  | .ok (program, parser) => .ok ⟨parser.source.errors, program, parser.errors⟩
  | .error interruption => .error interruption

/-- The program that was recognised. -/
def program (findings : Findings) : Program := findings.recognition.program

/-- The errors that keep a source from being executed, lexical ones first. -/
def errors (findings : Findings) : List Diagnostic :=
  findings.lexical.map (·.diagnostic) ++ findings.recognition.errors.map (·.diagnostic)

/-- The errors in the order of their lines; those of one line keep their order. -/
def report (findings : Findings) : List Diagnostic :=
  findings.errors.mergeSort fun a b => a.line ≤ b.line

/-- What the log says about the parsing of a source. -/
def events (findings : Findings) (path : String) : List Event :=
  [.scanned path findings.lexical.length,
    .recognised findings.program.length findings.recognition.errors.length]

end Findings

/-- What stays from one run to the next. -/
structure Session where
  /-- The directory from which relative paths start. -/
  directory : String
  registry : Registry
  store : Store
  /-- The local uses of names in the programs executed so far. -/
  locals : List LocalUse

/-- A run of a source: the session afterwards, what was printed and logged, and the diagnostics,
unless the run was cut short by something that is no error of the source. -/
structure Run where
  session : Session
  output : String
  log : List Event
  result : Except Halt (List Diagnostic)

/-- The store before the first run, with the clock as the only global. -/
def Store.initial (time : Clock) : Store where
  scopes := ⟨#[⟨.session, ⟨[("clock", .builtin 0 "clock" 0 .clock)]⟩⟩]⟩
  fields := #[]
  nextId := 1
  current := globalEnv
  printed := #[]
  time := time

/-- The printed lines as one text. -/
def Store.output (store : Store) : String :=
  String.join (store.printed.toList.map (· ++ "\n"))

/-- The run of a source that was executed, given what cut the execution short. -/
def Run.executed (session : Session) (path : String) (events : List Event) (halt : Option Halt) :
    Run :=
  let output := session.store.output
  match halt with
  | none => ⟨session, output, events, .ok []⟩
  | some (.failed error) =>
    let diagnostic := error.diagnostic
    ⟨session, output, events ++ [.failed path diagnostic.line], .ok [diagnostic]⟩
  | some halt => ⟨session, output, events, .error halt⟩

namespace Session

/-- A session in which nothing was run yet. -/
def new (directory : String) (time : Clock) : Session :=
  ⟨directory, {}, .initial time, []⟩

/-- Registers a source, and gives its number. -/
def register (session : Session) (source path : String) : Nat × Session :=
  let (file, registry) := session.registry.add session.directory path source
  (file, { session with registry })

/-- Registers and scans a source. -/
def scan (session : Session) (source path : String) : Scan × Session :=
  let (file, session) := session.register source path
  (Treewalk.scan file source, session)

/-- Registers and parses a source. -/
def parse (session : Session) (source path : String) : Except Interruption Findings × Session :=
  let (file, session) := session.register source path
  (Findings.ofText file source, session)

/-- The session after a program was executed, with the store that it left. -/
def afterExecution (session : Session) (program : Program) (store : Store) : Session :=
  { session with store, locals := session.locals ++ program.localUses }

/-- Executes a program whose names are bound, and says what cut it short, if anything did. -/
def execute (session : Session) (program : Program) : Option Halt × Session :=
  match program.exec roundLimit nestingLimit { session.store with printed := #[] } with
  | .ok _ store => (none, session.afterExecution program store)
  | .error halt store => (some halt, session.afterExecution program store)

/-- Runs a source. One that could not be parsed to its end would end the run as an exhausted stack
does. -/
def run (session : Session) (source path : String) : Run :=
  let (parsed, session) := session.parse source path
  match parsed with
  | .error _ => ⟨session, "", [], .error .stackExhausted⟩
  | .ok findings =>
    let events := findings.events path
    if findings.errors.isEmpty then
      let program := findings.program.bindNames
      let events := events ++ (runningTotals 0 program.bindingSteps).map .bound
      let (halt, session) := session.execute program
      .executed session path events halt
    else
      let diagnostics := findings.report
      ⟨session, "", events ++ [.rejected path diagnostics.length], .ok diagnostics⟩

/-- Gives a builtin function to the program as a global. -/
def defineBuiltin (session : Session) (name : String) (arity : Int) (body : BuiltinBody Value) :
    Session × List Event :=
  let store := session.store
  let builtin := .builtin store.nextId name arity body
  let scopes := store.scopes.define globalEnv.scope name builtin
  ({ session with store := { store with scopes, nextId := store.nextId + 1 } },
    if store.scopes.defines globalEnv.scope name then [.replacedBuiltin name] else [])

end Session

/-- The exit codes of the command. -/
inductive ExitCode where
  | success
  | usage
  | badSource
  | failedRun
  | unreadable
deriving DecidableEq, Repr

/-- The number of an exit code. -/
def ExitCode.number : ExitCode → Nat
  | .success => 0
  | .usage => 64
  | .badSource => 65
  | .failedRun => 70
  | .unreadable => 74

/-- How a run with some diagnostics is summed up for the shell. -/
def exitCode (diagnostics : List Diagnostic) : ExitCode :=
  if diagnostics.isEmpty then .success
  else if diagnostics.any (·.phase == .runtime) then .failedRun
  else .badSource

end Treewalk
