import Treewalk.Session.Basic
import Treewalk.Proofs.Grammar.Parsing

/-!
# Reading a source at once

What a session finds in a source while the parser pulls its tokens is what is found when the whole
text is scanned first and its tokens are recognised then. A run can be told from the source read at
once.
-/

namespace Treewalk

/-- A source, scanned and recognised. -/
structure Reading where
  scan : Scan
  recognition : Grammar.Recognition

namespace Reading

/-- Reads the text of a file with a number. -/
def ofText (file : Nat) (text : String) : Reading :=
  let scanned := Treewalk.scan file text
  ⟨scanned, recognise scanned.tokens scanned.endToken⟩

/-- What was found in the source. -/
def findings (reading : Reading) : Findings := ⟨reading.scan.errors, reading.recognition⟩

/-- The program that was recognised. -/
def program (reading : Reading) : Program := reading.recognition.program

/-- The errors that keep a source from being executed, lexical ones first. -/
def errors (reading : Reading) : List Diagnostic :=
  reading.scan.errors.map (·.diagnostic) ++ reading.recognition.errors.map (·.diagnostic)

/-- The errors in the order of their lines; those of one line keep their order. -/
def report (reading : Reading) : List Diagnostic :=
  reading.errors.mergeSort fun a b => a.line ≤ b.line

/-- What the log says about the reading of a source. -/
def events (reading : Reading) (path : String) : List Event :=
  [.scanned path reading.scan.errors.length,
    .recognised reading.program.length reading.recognition.errors.length]

end Reading

/-- Parsing a text while it is scanned finds what is found when it is scanned first: the parser
drains the scanner. -/
theorem Findings.ofText_eq (file : Nat) (text : String) :
    Findings.ofText file text = .ok (Reading.ofText file text).findings := by
  obtain ⟨p, hparse, herrors, _, hsource⟩ := Parser.exists_parse_scanning file text
  rw [ofText, hparse]
  simp only [herrors, hsource, TokenSource.errors]
  rfl

namespace Session

/-- Registers and reads a source. -/
def read (session : Session) (source path : String) : Reading × Session :=
  let (file, registry) := session.registry.add session.directory path source
  (.ofText file source, { session with registry })

theorem parse_eq (session : Session) (source path : String) :
    session.parse source path =
      (.ok (session.read source path).1.findings, (session.read source path).2) :=
  congrArg (·, (session.register source path).2) (Findings.ofText_eq _ source)

section Runs

variable {session : Session} {source path : String}

/-- A source with errors is not executed. -/
theorem run_eq_of_errors (h : (session.read source path).1.errors ≠ []) :
    session.run source path =
      { session := (session.read source path).2
        output := ""
        log := (session.read source path).1.events path ++
          [.rejected path (session.read source path).1.report.length]
        result := .ok (session.read source path).1.report } := by
  have hempty : ¬ (session.read source path).1.findings.errors.isEmpty = true :=
    fun hempty => h (List.isEmpty_iff.mp hempty)
  rw [run, parse_eq]
  simp only
  rw [if_neg hempty]
  rfl

/-- A source without errors is executed. -/
theorem run_eq_of_no_errors (h : (session.read source path).1.errors = []) :
    let program := (session.read source path).1.program.bindNames
    let execution := (session.read source path).2.execute program
    session.run source path =
      .executed execution.2 path ((session.read source path).1.events path ++
        (runningTotals 0 program.bindingSteps).map .bound) execution.1 := by
  have hempty : (session.read source path).1.findings.errors.isEmpty = true :=
    List.isEmpty_iff.mpr h
  rw [run, parse_eq]
  simp only
  rw [if_pos hempty]
  rfl

theorem run_session_of_errors (h : (session.read source path).1.errors ≠ []) :
    (session.run source path).session = (session.read source path).2 := by
  rw [run_eq_of_errors h]

theorem run_result_of_errors (h : (session.read source path).1.errors ≠ []) :
    (session.run source path).result = .ok (session.read source path).1.report := by
  rw [run_eq_of_errors h]

theorem run_session_of_no_errors (h : (session.read source path).1.errors = []) :
    (session.run source path).session =
      ((session.read source path).2.execute (session.read source path).1.program.bindNames).2 := by
  rw [run_eq_of_no_errors h]
  unfold Run.executed
  split <;> rfl

theorem run_output_of_no_errors (h : (session.read source path).1.errors = []) :
    (session.run source path).output =
      ((session.read source path).2.execute
        (session.read source path).1.program.bindNames).2.store.output := by
  rw [run_eq_of_no_errors h]
  unfold Run.executed
  split <;> rfl

/-- What a run gives back, once it is known what cut the execution short. -/
theorem run_result_of_no_errors (h : (session.read source path).1.errors = []) :
    (session.run source path).result =
      match ((session.read source path).2.execute
        (session.read source path).1.program.bindNames).1 with
      | none => .ok []
      | some (.failed error) => .ok [error.diagnostic]
      | some halt => .error halt := by
  rw [run_eq_of_no_errors h]
  generalize (session.read source path).2.execute _ = execution
  obtain ⟨halt, later⟩ := execution
  cases halt with
  | none => rfl
  | some halt =>
    cases halt with
    | returned | failed | fault | stackExhausted | loopExhausted => rfl

end Runs

end Session

end Treewalk
