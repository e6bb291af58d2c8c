import Treewalk.Proofs.Session.Outcome
import Treewalk.Proofs.Token.Passes

/-!
# Sources with errors

The errors of a source are those of a full pass over its characters and then those of a parser on
the tokens of that pass. A run finds them while its parser pulls the tokens from the scanner, since
the parser drains it. If there are any, the run reports all of them in the order of their lines and
executes nothing. If there are none, all that it can report is one error of the execution. So the
exit code tells the three cases apart.
-/

namespace Treewalk

/-! ### The order of a report -/

/-- A list is another one in the order of lines, where the diagnostics of one line keep their
order. -/
structure SortedByLine (sorted original : List Diagnostic) : Prop where
  perm : sorted.Perm original
  ordered : sorted.Pairwise fun a b => a.line ≤ b.line
  stable : ∀ line, sorted.filter (·.line = line) = original.filter (·.line = line)

theorem sortedByLine_mergeSort (diagnostics : List Diagnostic) :
    SortedByLine (diagnostics.mergeSort fun a b => a.line ≤ b.line) diagnostics := by
  have htrans : ∀ a b c : Diagnostic, decide (a.line ≤ b.line) = true →
      decide (b.line ≤ c.line) = true → decide (a.line ≤ c.line) = true := by
    intro a b c hab hbc
    rw [decide_eq_true_iff] at *
    exact Int.le_trans hab hbc
  have htotal : ∀ a b : Diagnostic,
      (decide (a.line ≤ b.line) || decide (b.line ≤ a.line)) = true := by
    intro a b
    rw [Bool.or_eq_true, decide_eq_true_iff, decide_eq_true_iff]
    exact Int.le_total _ _
  have hperm := List.mergeSort_perm diagnostics fun a b => decide (a.line ≤ b.line)
  refine ⟨hperm, ?_, fun line => ?_⟩
  · exact (List.pairwise_mergeSort htrans htotal diagnostics).imp fun h => of_decide_eq_true h
  · -- those of one line are in order already, so they are a sublist of the sorted list
    have hline : (diagnostics.filter (·.line = line)).Pairwise
        fun a b => decide (a.line ≤ b.line) = true := by
      rw [List.pairwise_filter]
      apply List.pairwise_of_forall
      intro a b ha hb
      simp_all
    have hsublist := List.sublist_mergeSort htrans htotal hline List.filter_sublist
    have hfilter := hsublist.filter (·.line = line)
    rw [List.filter_filter] at hfilter
    simp only [Bool.and_self] at hfilter
    exact (hfilter.eq_of_length (hperm.filter _).length_eq.symm).symm

/-! ### Exit codes -/

theorem LexicalError.phase_diagnostic (error : LexicalError) :
    error.diagnostic.phase = .lexical := by
  cases error <;> rfl

theorem GrammarError.phase_diagnostic (error : GrammarError) :
    error.diagnostic.phase = .grammatical := by
  cases error <;> rfl

theorem RuntimeError.phase_diagnostic (error : RuntimeError) :
    error.diagnostic.phase = .runtime := by
  cases error <;> rfl

/-- No error that keeps a source from being executed is one of the execution. -/
theorem Reading.phase_of_mem_errors {reading : Reading} {d : Diagnostic} (h : d ∈ reading.errors) :
    d.phase ≠ .runtime := by
  rcases List.mem_append.mp h with h | h
  · obtain ⟨error, _, rfl⟩ := List.mem_map.mp h
    rw [error.phase_diagnostic]
    decide
  · obtain ⟨error, _, rfl⟩ := List.mem_map.mp h
    rw [error.phase_diagnostic]
    decide

theorem exitCode_of_no_runtime {diagnostics : List Diagnostic} (hne : diagnostics ≠ [])
    (h : ∀ d ∈ diagnostics, d.phase ≠ .runtime) : exitCode diagnostics = .badSource := by
  have hempty : ¬ diagnostics.isEmpty = true := fun hempty => hne (List.isEmpty_iff.mp hempty)
  have hany : ¬ diagnostics.any (·.phase == .runtime) = true := by
    rw [List.any_eq_true]
    rintro ⟨d, hd, hphase⟩
    exact h d hd (beq_iff_eq.mp hphase)
  rw [exitCode, if_neg hempty, if_neg hany]

/-- The report on a source with errors is one on a bad source. -/
theorem Reading.exitCode_report {reading : Reading} (h : reading.errors ≠ []) :
    exitCode reading.report = .badSource := by
  have hsorted : SortedByLine reading.report reading.errors :=
    sortedByLine_mergeSort reading.errors
  refine exitCode_of_no_runtime (fun hempty => h ?_) fun d hd => ?_
  · rw [hempty] at hsorted
    exact hsorted.perm.symm.eq_nil
  · exact Reading.phase_of_mem_errors (hsorted.perm.mem_iff.mp hd)

theorem exitCode_of_runtime (error : RuntimeError) :
    exitCode [error.diagnostic] = .failedRun := by
  simp [exitCode, error.phase_diagnostic]

/-! ### Runs -/

namespace Session

variable {session : Session} {source path : String}

/-- A source with errors is not executed, and all its errors are reported. -/
theorem run_of_errors (h : (session.read source path).1.errors ≠ []) :
    (session.run source path).output = "" ∧
      (session.run source path).session.store = session.store ∧
      (session.run source path).session.locals = session.locals ∧
      (session.run source path).result = .ok (session.read source path).1.report := by
  rw [run_eq_of_errors h]
  exact ⟨rfl, rfl, rfl, rfl⟩

/-- What a run makes of the errors of its source. They are the lexical errors of a full pass and
then the errors of a parser on its tokens; the parser of the run, which pulls the tokens one by one,
finds the same and leaves the scanner drained. If there are any errors, the run reports exactly
them, sorted stably by line, prints nothing and leaves the store and the bound uses of names as they
were. If there are none, it reports nothing or one error of the execution. The exit code tells these
cases apart. -/
theorem run_static_errors (session : Session) (source path : String) :
    let run := session.run source path
    let scanner := Scanner.ofText (session.registry.add session.directory path source).1 source
    ∃ tokens drained program parser pulling,
      scanner.tokenize = (tokens, drained) ∧
      Parser.parse (.listed tokens) = .ok (program, parser) ∧
      Parser.parse (.scanning scanner .untouched) = .ok (program, pulling) ∧
      pulling.errors = parser.errors ∧ pulling.source = .scanning drained .finished ∧
      let errors := drained.errors.map (·.diagnostic) ++ parser.errors.map (·.diagnostic)
      let execution := program.bindNames.exec roundLimit nestingLimit session.start
      (errors ≠ [] → run.output = "" ∧ run.session.store = session.store ∧
        run.session.locals = session.locals ∧
        ∃ report, run.result = .ok report ∧ SortedByLine report errors) ∧
      (errors = [] → ∀ diagnostics, run.result = .ok diagnostics →
        diagnostics = [] ∨ ∃ d, diagnostics = [d] ∧ d.phase = .runtime) ∧
      ∀ diagnostics, run.result = .ok diagnostics →
        ((exitCode diagnostics).number = 65 ↔ errors ≠ []) ∧
        ((exitCode diagnostics).number = 70 ↔
          errors = [] ∧ ∃ error later, execution = .error (.failed error) later) ∧
        ((exitCode diagnostics).number = 0 ↔
          errors = [] ∧ ∃ later, execution = .ok () later) := by
  intro run scanner
  let reading := (session.read source path).1
  -- both parsers find what recognition finds on the tokens of the full pass
  have hlisted := TokenSource.gives_listed (reading.scan.tokens ++ [reading.scan.endToken])
  obtain ⟨parser, hparse, hparsed, _⟩ :=
    Parser.exists_parse_eq hlisted rfl fun token htoken => kind_ne_endOfInput htoken
  obtain ⟨pulling, hpull, hpulled, _, hdrained⟩ := Parser.exists_parse_scanning _ source
  refine ⟨_, _, _, parser, pulling, rfl, hparse, hpull, hpulled.trans hparsed.symm, hdrained, ?_⟩
  rw [hparsed]
  intro errors execution
  by_cases hnone : errors = []
  · -- what the run gives back tells how the execution ended, and with it the exit code
    obtain ⟨_, _, hresult⟩ := session.run_of_no_errors source path hnone
    refine ⟨fun hsome => absurd hnone hsome, fun _ diagnostics hok => ?_, fun diagnostics hok => ?_⟩
    · rcases cases_of_outcomeOf (hresult.symm.trans hok) with ⟨rfl, _⟩ | ⟨error, _, rfl, _⟩
      · exact .inl rfl
      · exact .inr ⟨_, rfl, error.phase_diagnostic⟩
    · rcases cases_of_outcomeOf (hresult.symm.trans hok) with
        ⟨rfl, later, hexec⟩ | ⟨error, later, rfl, hexec⟩
      · have hexecution : execution = .ok () later := hexec
        simp [exitCode, ExitCode.number, hnone, hexecution]
      · have hexecution : execution = .error (.failed error) later := hexec
        simp [exitCode_of_runtime, ExitCode.number, hnone, hexecution]
  · obtain ⟨houtput, hstore, hlocals, hresult⟩ := run_of_errors hnone
    have hsorted : SortedByLine reading.report errors := sortedByLine_mergeSort errors
    have hcode : exitCode reading.report = .badSource := Reading.exitCode_report hnone
    refine ⟨fun _ => ⟨houtput, hstore, hlocals, reading.report, hresult, hsorted⟩,
      fun hempty => absurd hempty hnone, fun diagnostics hok => ?_⟩
    obtain rfl : reading.report = diagnostics := Except.ok.inj (hresult.symm.trans hok)
    simp [hcode, ExitCode.number, hnone]

end Session

end Treewalk
