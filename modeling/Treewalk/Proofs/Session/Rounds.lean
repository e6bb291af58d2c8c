import Mathlib.Data.List.Forall2
import Treewalk.CommandLine.Command
import Treewalk.Proofs.Session.Grounding

/-!
# The rounds of the prompt

Each attempt of the prompt to read a line is a round. It ends with an interrupt, with a line that is
blank, with a line that is run, or by leaving the prompt. A line that fails costs its round only.
With or without interrupts the same lines are run, each once and in the order in which they were
entered, and the rounds that were not interrupted show the same.
-/

namespace Treewalk

/-! ### Runs -/

/-- A run of a reachable session gives back diagnostics that can be rendered, or it exhausts a
limit. -/
theorem Session.Reachable.run_concludes {session : Session} (h : session.Reachable)
    (source path : String) :
    (∃ diagnostics, (session.run source path).result = .ok diagnostics ∧
      ∀ d ∈ diagnostics, d.Renders (session.run source path).session.registry) ∨
    (session.run source path).result = .error .stackExhausted ∨
    (session.run source path).result = .error .loopExhausted := by
  have hnumbered : (session.read source path).2.registry.Numbered :=
    (session.registry.registers_add session.directory path source).numbered h.settled.numbered
  have hrenders : ∀ {d : Diagnostic}, d.Placed (session.read source path).2.registry →
      d.Renders (session.run source path).session.registry := by
    intro d hplaced
    rw [registry_run]
    exact hplaced.renders fun _ _ _ => hnumbered.id_of_find?
  by_cases herrors : (session.read source path).1.errors = []
  · have hsafe : Safe .any False
        ((session.read source path).1.program.bindNames.exec roundLimit nestingLimit)
        (fun _ _ => True) session.start :=
      h.settled.safe herrors (fun _ _ => trivial) roundLimit nestingLimit
    rw [(session.run_of_no_errors source path herrors).2.2]
    cases hexec : (session.read source path).1.program.bindNames.exec roundLimit nestingLimit
        session.start with
    | ok => exact .inl ⟨[], rfl, fun d hd => absurd hd List.not_mem_nil⟩
    | error halt later =>
      have hordinary := (hsafe.of_error hexec).2.2.ordinary
      cases halt with
      | failed error =>
        refine .inl ⟨[error.diagnostic], rfl, fun d hd => ?_⟩
        obtain rfl := List.mem_singleton.mp hd
        exact hrenders (h.grounded.placed_of_failed h.settled.numbered herrors hexec)
      | stackExhausted => exact .inr (.inl rfl)
      | loopExhausted => exact .inr (.inr rfl)
      | returned | fault => exact hordinary.elim
  · exact .inl ⟨_, run_result_of_errors herrors, fun d hd =>
      hrenders (placed_of_mem_errors h.settled.numbered (List.mem_mergeSort.mp hd))⟩

/-! ### Lines -/

/-- A line without the blanks at its ends. -/
def stripped (line : String) : String := String.ofList (Text.trim line.toList)

/-- Of the lines that are entered, those that are run: those before `exit` that are not blank. -/
def submittedLines (lines : List String) : List String :=
  ((lines.map stripped).takeWhile (· ≠ "exit")).filter (· ≠ "")

/-- The lines of a text that are run at the prompt. -/
def submitted (text : String) : List String :=
  submittedLines ((text.toList.splitOn '\n').map String.ofList)

theorem submittedLines_cons_exit {line : String} (lines : List String)
    (h : stripped line = "exit") : submittedLines (line :: lines) = [] := by
  simp [submittedLines, h]

theorem submittedLines_cons_blank {line : String} (lines : List String) (h : stripped line = "") :
    submittedLines (line :: lines) = submittedLines lines := by
  simp [submittedLines, h]

theorem submittedLines_cons {line : String} (lines : List String) (hexit : stripped line ≠ "exit")
    (hblank : stripped line ≠ "") :
    submittedLines (line :: lines) = stripped line :: submittedLines lines := by
  simp [submittedLines, hexit, hblank]

theorem submittedLines_append_blank {line : String} (lines : List String) (h : stripped line = "") :
    submittedLines (lines ++ [line]) = submittedLines lines := by
  induction lines with
  | nil => exact submittedLines_cons_blank [] h
  | cons first rest ih =>
    rw [List.cons_append]
    by_cases hexit : stripped first = "exit"
    · rw [submittedLines_cons_exit _ hexit, submittedLines_cons_exit _ hexit]
    · by_cases hblank : stripped first = ""
      · rw [submittedLines_cons_blank _ hblank, submittedLines_cons_blank _ hblank, ih]
      · rw [submittedLines_cons _ hexit hblank, submittedLines_cons _ hexit hblank, ih]

/-- A line of an input and the same line of the text, without the line feed. -/
def SameLine (line chunk : List Char) : Prop := line = chunk ∨ line = chunk ++ ['\n']

/-- The lines that are read are those that the line feeds part. Nothing is read behind the last line
feed if the text ends there. -/
theorem inputLines_splitOn (text : List Char) :
    ∃ chunks, List.Forall₂ SameLine (inputLines text) chunks ∧
      (text.splitOn '\n' = chunks ∨ text.splitOn '\n' = chunks ++ [[]]) := by
  induction text with
  | nil => exact ⟨[], .nil, .inr (List.splitOn_nil _)⟩
  | cons c rest ih =>
    obtain ⟨chunks, hsame, hchunks⟩ := ih
    rw [List.splitOn_cons_eq_if_modifyHead, inputLines]
    by_cases hc : c = '\n'
    · subst hc
      refine ⟨[] :: chunks, .cons (.inr rfl) hsame, ?_⟩
      rcases hchunks with hchunks | hchunks
      · exact .inl (by simp [hchunks])
      · exact .inr (by simp [hchunks])
    · rw [if_neg hc, if_neg (by simpa using hc)]
      generalize inputLines rest = lines at hsame ⊢
      -- the character begins the next line, or it is one of its own at the end of the text
      cases hsame with
      | nil =>
        refine ⟨[[c]], .cons (.inl rfl) .nil, .inl ?_⟩
        rcases hchunks with hchunks | hchunks
        · exact absurd hchunks (List.splitOn_ne_nil _ _)
        · rw [hchunks]
          rfl
      | @cons line chunk _ others hline hsame =>
        refine ⟨(c :: chunk) :: others, .cons ?_ hsame, ?_⟩
        · rcases hline with rfl | rfl
          · exact .inl rfl
          · exact .inr rfl
        · rcases hchunks with hchunks | hchunks
          · exact .inl (by rw [hchunks]; rfl)
          · exact .inr (by rw [hchunks]; rfl)

theorem trim_append_lineFeed (text : List Char) : Text.trim (text ++ ['\n']) = Text.trim text := by
  have hblank : Text.isBlank '\n' = true := by decide
  unfold Text.trim
  rw [List.dropWhile_append]
  by_cases hempty : (text.dropWhile Text.isBlank).isEmpty = true
  · rw [if_pos hempty, List.isEmpty_iff.mp hempty, List.dropWhile_cons_of_pos hblank]
    rfl
  · rw [if_neg hempty]
    unfold Text.dropRightWhile
    rw [List.reverse_append, List.reverse_singleton, List.singleton_append,
      List.dropWhile_cons_of_pos hblank]

theorem SameLine.stripped_eq {line chunk : List Char} (h : SameLine line chunk) :
    stripped (String.ofList line) = stripped (String.ofList chunk) := by
  rcases h with rfl | rfl
  · rfl
  · unfold stripped
    rw [String.toList_ofList, String.toList_ofList, trim_append_lineFeed]

/-- What is submitted depends only on the lines without the blanks at their ends. -/
theorem submittedLines_congr {lines chunks : List (List Char)}
    (h : List.Forall₂ SameLine lines chunks) :
    submittedLines (lines.map String.ofList) = submittedLines (chunks.map String.ofList) := by
  have hstripped : (lines.map String.ofList).map stripped =
      (chunks.map String.ofList).map stripped := by
    induction h with
    | nil => rfl
    | cons hline _ ih =>
      rw [List.map_cons, List.map_cons, List.map_cons, List.map_cons, hline.stripped_eq, ih]
  unfold submittedLines
  rw [hstripped]

/-- The lines that are read are submitted as the lines of the text. -/
theorem submittedLines_inputLines (text : String) :
    submittedLines ((inputLines text.toList).map String.ofList) = submitted text := by
  obtain ⟨chunks, hsame, hchunks⟩ := inputLines_splitOn text.toList
  rw [submittedLines_congr hsame, submitted]
  rcases hchunks with hchunks | hchunks
  · rw [hchunks]
  · rw [hchunks, List.map_append]
    exact (submittedLines_append_blank _ (by decide)).symm

/-! ### Inputs -/

/-- The lines that are entered. -/
def entered (inputs : List Input) : List String :=
  inputs.filterMap fun
    | .line text => some text
    | .interrupt => none

/-- Whether an input is a line. -/
def Input.isLine : Input → Bool
  | .line _ => true
  | .interrupt => false

theorem inputsFrom_undisturbed (attempt : Nat) (lines : List String) :
    inputsFrom [] attempt lines = lines.map .line := by
  induction lines generalizing attempt with
  | nil => simp [inputsFrom]
  | cons line rest ih =>
    rw [inputsFrom, dif_neg List.not_mem_nil]
    simp only [List.map_cons, ih]

/-- The lines are entered in their order, whatever was interrupted. -/
theorem filter_inputsFrom (interrupts : List Nat) (attempt : Nat) (lines : List String) :
    (inputsFrom interrupts attempt lines).filter Input.isLine = lines.map .line := by
  fun_induction inputsFrom interrupts attempt lines with
  | case1 interrupts attempt lines h ih => simpa [Input.isLine] using ih
  | case2 => rfl
  | case3 interrupts attempt h line rest ih =>
    rw [List.filter_cons_of_pos rfl, ih, List.map_cons]

theorem filter_inputs (interrupts : List Nat) (text : String) :
    (inputs interrupts text).filter Input.isLine = inputs [] text := by
  rw [inputs, inputs, filter_inputsFrom, inputsFrom_undisturbed]

theorem entered_filter (inputs : List Input) :
    entered (inputs.filter Input.isLine) = entered inputs := by
  induction inputs with
  | nil => rfl
  | cons input rest ih =>
    cases input with
    | line text => exact congrArg (text :: ·) ih
    | interrupt => exact ih

theorem entered_map_line (lines : List String) : entered (lines.map .line) = lines := by
  induction lines with
  | nil => rfl
  | cons line rest ih => exact congrArg (line :: ·) ih

/-- The lines of a text are submitted, whatever was interrupted. -/
theorem submittedLines_entered (interrupts : List Nat) (text : String) :
    submittedLines (entered (inputs interrupts text)) = submitted text := by
  rw [← entered_filter, filter_inputs, inputs, inputsFrom_undisturbed, entered_map_line,
    submittedLines_inputLines]

/-- Which attempts are interrupted. The attempt that finds the end of the input is none of them. -/
theorem inputsFrom_interrupt_iff (interrupts : List Nat) (attempt : Nat) (lines : List String)
    (k : Nat) :
    (inputsFrom interrupts attempt lines)[k]? = some .interrupt ↔
      k ≤ (inputsFrom interrupts attempt lines).length ∧ attempt + k ∈ interrupts := by
  fun_induction inputsFrom interrupts attempt lines generalizing k with
  | case1 interrupts attempt lines h ih =>
    cases k with
    | zero => simpa using h
    | succ k =>
      -- the interrupt that is taken out is that of an earlier attempt
      have hother : attempt + 1 + k ∈ interrupts.erase attempt ↔
          attempt + (k + 1) ∈ interrupts := by
        rw [List.mem_erase_of_ne (by omega), Nat.add_right_comm, Nat.add_assoc]
      simp only [List.getElem?_cons_succ, List.length_cons, Nat.add_le_add_iff_right]
      rw [ih, hother]
  | case2 interrupts attempt h =>
    simp only [List.getElem?_nil, List.length_nil, reduceCtorEq, false_iff]
    rintro ⟨hk, hmem⟩
    obtain rfl := Nat.le_zero.mp hk
    exact h hmem
  | case3 interrupts attempt h line rest ih =>
    cases k with
    | zero => simpa using h
    | succ k =>
      simp only [List.getElem?_cons_succ, List.length_cons, Nat.add_le_add_iff_right]
      rw [ih, Nat.add_right_comm, Nat.add_assoc]

/-! ### Turns and rounds -/

/-- Sources are run one after the other, each in the session that the one before it left. -/
def Session.runAll (session : Session) : List String → List Run × Session
  | [] => ([], session)
  | source :: rest =>
    let run := session.run source promptPath
    let later := run.session.runAll rest
    (run :: later.1, later.2)

/-- A line that was run: the line, its run, and what was said about it. -/
structure Turn where
  line : String
  run : Run
  complaint : String

namespace Turn

/-- What is shown of a turn. The log begins with the search for the final semicolon. -/
def shown (verbose : Bool) (turn : Turn) : List Emission :=
  logEmissions verbose (.scanned promptPath (scan 1 turn.line).errors.length :: turn.run.log) ++
    [.out turn.run.output, .err turn.complaint]

/-- What is said about a run: that the stack was exhausted, or the report of the diagnostics. -/
def Answered (reporter : Reporter) (turn : Turn) : Prop :=
  (turn.run.result = .error .stackExhausted ∧ turn.complaint = stackMessage) ∨
    ∃ (diagnostics : List Diagnostic) (used : Reporter),
      turn.run.result = .ok diagnostics ∧ used.Resumes reporter ∧
      (used.report turn.run.session.registry diagnostics false).1 = .ok turn.complaint

theorem Answered.of_resumes {turn : Turn} {reporter earlier : Reporter}
    (h : turn.Answered reporter) (hresumes : reporter.Resumes earlier) : turn.Answered earlier := by
  rcases h with h | ⟨diagnostics, used, hresult, hused, hreport⟩
  · exact .inl h
  · exact .inr ⟨diagnostics, used, hresult, hused.trans hresumes, hreport⟩

end Turn

/-- What an attempt to read a line comes to. -/
inductive Round where
  /-- The attempt was interrupted. -/
  | interrupted
  /-- The line was blank. -/
  | skipped
  /-- The line was run. -/
  | ran (turn : Turn)
  /-- The line was `exit`, or the input had ended. -/
  | left

namespace Round

/-- What is shown in a round. -/
def shown (options : PromptOptions) : Round → List Emission
  | .interrupted => Prompt.cue options.interactive ++ [.out "\nUse 'exit' to quit.\n"]
  | .skipped | .left => Prompt.cue options.interactive
  | .ran turn => Prompt.cue options.interactive ++ turn.shown options.verbose

/-- The turn of a round in which a line was run. -/
def turn? : Round → Option Turn
  | .ran turn => some turn
  | .interrupted | .skipped | .left => none

/-- Whether a round was not interrupted. -/
def undisturbed : Round → Bool
  | .interrupted => false
  | .skipped | .ran _ | .left => true

end Round

namespace Prompt

/-- A prompt takes a turn, and another prompt is left. -/
structure Takes (prompt : Prompt) (turn : Turn) (next : Prompt) : Prop where
  run : turn.run = prompt.session.run (terminated turn.line) promptPath
  answered : turn.Answered prompt.reporter
  session : next.session = turn.run.session
  reporter : next.reporter.Resumes prompt.reporter
  runLine : ∀ verbose, prompt.runLine verbose turn.line = (turn.shown verbose, next, .continues)

/-- A line is a turn of the prompt, unless it never comes to an end. -/
theorem exists_takes {prompt : Prompt} (h : prompt.session.Reachable) (line : String)
    (hends : (prompt.session.run (terminated line) promptPath).result ≠ .error .loopExhausted) :
    ∃ turn next, turn.line = line ∧ prompt.Takes turn next := by
  rcases h.run_concludes (terminated line) promptPath with
    ⟨diagnostics, hresult, hrenders⟩ | hresult | hresult
  · obtain ⟨text, later, hreport, hlater⟩ :=
      Reporter.report_of_renders hrenders prompt.reporter false
    refine ⟨⟨line, prompt.session.run (terminated line) promptPath, text⟩,
      ⟨(prompt.session.run (terminated line) promptPath).session, later⟩, rfl, rfl, ?_, rfl,
      hlater, fun verbose => ?_⟩
    · exact .inr ⟨diagnostics, prompt.reporter, hresult, .inl rfl, congrArg Prod.fst hreport⟩
    · simp only [runLine, hresult, hreport, Turn.shown, List.singleton_append, List.append_assoc]
  · refine ⟨⟨line, prompt.session.run (terminated line) promptPath, stackMessage⟩,
      { prompt with session := (prompt.session.run (terminated line) promptPath).session }, rfl,
      rfl, .inl ⟨hresult, rfl⟩, rfl, .inl rfl, fun verbose => ?_⟩
    simp only [runLine, hresult, Turn.shown, List.singleton_append, List.append_assoc]
  · exact absurd hresult hends

/-! ### The rounds that answer some inputs -/

/-- The rounds of a prompt that answer some inputs, and the prompt that is left. -/
inductive Plays : Prompt → List Input → List Round → Prompt → Prop where
  | ended (prompt : Prompt) : Plays prompt [] [.left] prompt
  | exited {text : String} (prompt : Prompt) (rest : List Input) (hexit : stripped text = "exit") :
    Plays prompt (.line text :: rest) [.left] prompt
  | interrupted {prompt final : Prompt} {rest : List Input} {rounds : List Round}
    (hrest : Plays prompt rest rounds final) :
    Plays prompt (.interrupt :: rest) (.interrupted :: rounds) final
  | skipped {prompt final : Prompt} {text : String} {rest : List Input} {rounds : List Round}
    (hblank : stripped text = "") (hrest : Plays prompt rest rounds final) :
    Plays prompt (.line text :: rest) (.skipped :: rounds) final
  | ran {prompt next final : Prompt} {text : String} {turn : Turn} {rest : List Input}
    {rounds : List Round} (hexit : stripped text ≠ "exit") (hblank : stripped text ≠ "")
    (hline : turn.line = stripped text) (hturn : prompt.Takes turn next)
    (hrest : Plays next rest rounds final) :
    Plays prompt (.line text :: rest) (.ran turn :: rounds) final

/-- Every input is answered: what became of a line does not keep the prompt from the next one. -/
theorem exists_plays {prompt : Prompt} (h : prompt.session.Reachable) {inputs : List Input}
    (hends : ∀ run ∈ (prompt.session.runAll
      ((submittedLines (entered inputs)).map terminated)).1,
      run.result ≠ .error .loopExhausted) :
    ∃ rounds final, prompt.Plays inputs rounds final := by
  induction inputs generalizing prompt with
  | nil => exact ⟨_, _, .ended prompt⟩
  | cons input rest ih =>
    cases input with
    | interrupt =>
      obtain ⟨rounds, final, hrest⟩ := ih h hends
      exact ⟨_, _, .interrupted hrest⟩
    | line text =>
      have hentered : entered (.line text :: rest) = text :: entered rest := rfl
      rw [hentered] at hends
      by_cases hexit : stripped text = "exit"
      · exact ⟨_, _, .exited prompt rest hexit⟩
      · by_cases hblank : stripped text = ""
        · rw [submittedLines_cons_blank _ hblank] at hends
          obtain ⟨rounds, final, hrest⟩ := ih h hends
          exact ⟨_, _, .skipped hblank hrest⟩
        · rw [submittedLines_cons _ hexit hblank] at hends
          obtain ⟨turn, next, hline, hturn⟩ :=
            exists_takes h (stripped text) (hends _ List.mem_cons_self)
          -- whatever the turn came to, it left a session in which the next line can be run
          have hsession : next.session =
              (prompt.session.run (terminated (stripped text)) promptPath).session := by
            rw [hturn.session, hturn.run, hline]
          have hnext : next.session.Reachable := by
            rw [hsession]
            exact .run _ _ h
          obtain ⟨rounds, final, hrest⟩ := ih hnext (by
            rw [hsession]
            exact fun run hrun => hends run (.tail _ hrun))
          exact ⟨_, _, .ran hexit hblank hline hturn hrest⟩

namespace Plays

variable {prompt final : Prompt} {inputs : List Input} {rounds : List Round}

/-- What the prompt shows is what the rounds show. -/
theorem run_eq (h : prompt.Plays inputs rounds final) (options : PromptOptions) :
    prompt.run options inputs = (rounds.flatMap (Round.shown options), final, none) := by
  induction h with
  | ended prompt => simp [Prompt.run, Round.shown]
  | @exited text prompt rest hexit =>
    have hstep : prompt.step options.verbose (.line text) = ([], prompt, .leaves) := if_pos hexit
    simp [Prompt.run, hstep, Round.shown]
  | @interrupted prompt final rest rounds hrest ih =>
    simp [Prompt.run, Prompt.step, ih, Round.shown]
  | @skipped prompt final text rest rounds hblank hrest ih =>
    have hexit : stripped text ≠ "exit" := by
      rw [hblank]
      decide
    have hstep : prompt.step options.verbose (.line text) = ([], prompt, .continues) :=
      (if_neg hexit).trans (if_pos hblank)
    simp [Prompt.run, hstep, ih, Round.shown]
  | @ran prompt next final text turn rest rounds hexit hblank hline hturn hrest ih =>
    have hstep : prompt.step options.verbose (.line text) =
        (turn.shown options.verbose, next, .continues) := by
      rw [← hturn.runLine options.verbose, hline]
      exact (if_neg hexit).trans (if_neg hblank)
    simp [Prompt.run, hstep, ih, Round.shown]

/-- Without the interrupts, the other rounds are played in the same way. -/
theorem undisturbed (h : prompt.Plays inputs rounds final) :
    prompt.Plays (inputs.filter Input.isLine) (rounds.filter Round.undisturbed) final := by
  induction h with
  | ended prompt => exact .ended prompt
  | exited prompt rest hexit => exact .exited prompt _ hexit
  | interrupted hrest ih => exact ih
  | skipped hblank hrest ih => exact .skipped hblank ih
  | ran hexit hblank hline hturn hrest ih => exact .ran hexit hblank hline hturn ih

/-- The lines that are run are those that are submitted. -/
theorem lines_eq (h : prompt.Plays inputs rounds final) :
    (rounds.filterMap Round.turn?).map Turn.line = submittedLines (entered inputs) := by
  induction h with
  | ended prompt => rfl
  | exited prompt rest hexit => exact (submittedLines_cons_exit (entered rest) hexit).symm
  | interrupted hrest ih => exact ih
  | @skipped _ _ _ rest _ hblank hrest ih =>
    exact ih.trans (submittedLines_cons_blank (entered rest) hblank).symm
  | @ran _ _ _ _ turn rest rounds hexit hblank hline hturn hrest ih =>
    refine Eq.trans ?_ (submittedLines_cons (entered rest) hexit hblank).symm
    rw [← ih, ← hline]
    rfl

/-- The runs are those of the lines, one after the other. -/
theorem runAll_eq (h : prompt.Plays inputs rounds final) :
    prompt.session.runAll (((rounds.filterMap Round.turn?).map Turn.line).map terminated) =
      ((rounds.filterMap Round.turn?).map Turn.run, final.session) := by
  induction h with
  | ended prompt => rfl
  | exited prompt rest hexit => rfl
  | interrupted hrest ih => exact ih
  | skipped hblank hrest ih => exact ih
  | @ran prompt next final text turn rest rounds hexit hblank hline hturn hrest ih =>
    rw [hturn.session, hturn.run] at ih
    simp only [List.filterMap_cons, Round.turn?, List.map_cons, Session.runAll, ih, hturn.run]

theorem answered (h : prompt.Plays inputs rounds final) :
    ∀ turn ∈ rounds.filterMap Round.turn?, turn.Answered prompt.reporter := by
  induction h with
  | ended prompt => exact fun turn hturn => absurd hturn List.not_mem_nil
  | exited prompt rest hexit => exact fun turn hturn => absurd hturn List.not_mem_nil
  | interrupted hrest ih => exact ih
  | skipped hblank hrest ih => exact ih
  | ran hexit hblank hline hturn hrest ih =>
    intro turn hmem
    rcases List.mem_cons.mp hmem with rfl | hmem
    · exact hturn.answered
    · exact (ih turn hmem).of_resumes hturn.reporter

/-- The rounds that are interrupted are those of the interrupts. -/
theorem interrupted_iff (h : prompt.Plays inputs rounds final) (k : Nat) :
    rounds[k]? = some .interrupted ↔ k < rounds.length ∧ inputs[k]? = some .interrupt := by
  induction h generalizing k with
  | ended | exited => cases k <;> simp
  | interrupted hrest ih => cases k <;> simp [ih]
  | skipped hblank hrest ih => cases k <;> simp [ih]
  | ran hexit hblank hline hturn hrest ih => cases k <;> simp [ih]

theorem length_le (h : prompt.Plays inputs rounds final) : rounds.length ≤ inputs.length + 1 := by
  induction h with
  | ended | exited => simp
  | interrupted hrest ih => simpa using ih
  | skipped hblank hrest ih => simpa using ih
  | ran hexit hblank hline hturn hrest ih => simpa using ih

end Plays

end Prompt

/-! ### The two streams -/

theorem Emission.stderr_append (first second : List Emission) :
    Emission.stderr (first ++ second) = Emission.stderr first ++ Emission.stderr second := by
  unfold Emission.stderr
  rw [List.map_append, String.join_append]

/-- An interrupt says nothing on standard error. -/
theorem Round.stderr_undisturbed (options : PromptOptions) (rounds : List Round) :
    Emission.stderr ((rounds.filter undisturbed).flatMap (shown options)) =
      Emission.stderr (rounds.flatMap (shown options)) := by
  induction rounds with
  | nil => rfl
  | cons round rest ih =>
    have hinterrupted : Emission.stderr (shown options .interrupted) = "" := by
      unfold shown Prompt.cue
      cases options.interactive <;> rfl
    cases round with
    | interrupted =>
      rw [List.filter_cons_of_neg (by decide), ih, List.flatMap_cons, Emission.stderr_append,
        hinterrupted, String.empty_append]
    | skipped | ran | left =>
      rw [List.filter_cons_of_pos rfl, List.flatMap_cons, List.flatMap_cons,
        Emission.stderr_append, Emission.stderr_append, ih]

/-! ### With and without interrupts -/

namespace Prompt

/-- What a prompt does with a text, when some attempts to read a line are interrupted. The attempts
are counted from one. -/
structure Account (prompt : Prompt) (options : PromptOptions) (interrupts : List Nat)
    (text : String) (rounds : List Round) (final : Prompt) : Prop where
  /-- What is shown is what the rounds show, one after the other. -/
  run : prompt.run options (inputs interrupts text) =
    (rounds.flatMap (Round.shown options), final, none)
  success : (prompt.outcome options (inputs interrupts text)).ending = .ok .success
  /-- The interrupted rounds are those of the interrupted attempts. -/
  interrupted : ∀ k, rounds[k]? = some .interrupted ↔ k < rounds.length ∧ k + 1 ∈ interrupts
  /-- The lines that are run are those of the text that are submitted, once each and in order. -/
  lines : (rounds.filterMap Round.turn?).map Turn.line = submitted text
  /-- Each line is run with its final semicolon, in the session that the line before it left. -/
  runs : prompt.session.runAll ((submitted text).map terminated) =
    ((rounds.filterMap Round.turn?).map Turn.run, final.session)
  answered : ∀ turn ∈ rounds.filterMap Round.turn?, turn.Answered prompt.reporter

theorem Plays.account {prompt final : Prompt} {interrupts : List Nat} {text : String}
    {rounds : List Round} (h : prompt.Plays (inputs interrupts text) rounds final)
    (options : PromptOptions) : prompt.Account options interrupts text rounds final := by
  have hlines := h.lines_eq
  rw [submittedLines_entered] at hlines
  refine ⟨h.run_eq options, ?_, fun k => ?_, hlines, hlines ▸ h.runAll_eq, h.answered⟩
  · rw [Prompt.outcome, h.run_eq options]
  · have hle := h.length_le
    rw [h.interrupted_iff, inputs, inputsFrom_interrupt_iff, ← inputs, Nat.add_comm 1 k]
    -- at most one round, the one that finds the end, has no input
    constructor
    · exact fun ⟨hk, _, hmem⟩ => ⟨hk, hmem⟩
    · exact fun ⟨hk, hmem⟩ => ⟨hk, by omega, hmem⟩

/-- The prompt runs each line once, interrupts or not. For every reachable session, every text and
every choice of attempts that are interrupted, the lines up to `exit` or the end are run, without
the blank ones, in order and each in the session that the one before it left. No diagnostics and no
exhausted stack keep a later line from being run, and the prompt ends with success. Without
interrupts the other rounds are all the same. So the runs are the same, what is said on standard
error is the same, and standard output lacks the notices and the cues before them only. -/
theorem runs_each_line_once {prompt : Prompt} (h : prompt.session.Reachable)
    (options : PromptOptions) (interrupts : List Nat) (text : String)
    (hends : ∀ run ∈ (prompt.session.runAll ((submitted text).map terminated)).1,
      run.result ≠ .error .loopExhausted) :
    ∃ (rounds : List Round) (final : Prompt),
      prompt.Account options interrupts text rounds final ∧
      prompt.Account options [] text (rounds.filter Round.undisturbed) final ∧
      Emission.stderr (prompt.run options (inputs interrupts text)).1 =
        Emission.stderr (prompt.run options (inputs [] text)).1 := by
  rw [← submittedLines_entered interrupts text] at hends
  obtain ⟨rounds, final, hplays⟩ := exists_plays h hends
  have hdisturbed := hplays.account options
  have hplain := hplays.undisturbed
  rw [filter_inputs] at hplain
  have hplain := hplain.account options
  refine ⟨rounds, final, hdisturbed, hplain, ?_⟩
  rw [hdisturbed.run, hplain.run]
  exact (Round.stderr_undisturbed options rounds).symm

/-! ### A prompt that is interrupted twice -/

section Interrupted

theorem submitted_printMissing :
    submitted "print b\n \nprint clock\n exit\nprint c" = ["print b", "print clock"] ∧
      terminated "print b" = "print b\n;" ∧ terminated "print clock" = "print clock\n;" := by
  refine ⟨?_, ?_, ?_⟩ <;> cbv

/-- The first line fails, and the second one is run in the session that it left. -/
theorem runAll_printMissing :
    ∃ diagnostic, ((Session.new "/" 0).runAll ["print b\n;", "print clock\n;"]).1.map Run.result =
      [.ok [diagnostic], .ok []] := by
  have hfirst : ((Session.new "/" 0).read "print b\n;" promptPath).1.errors = [] := by
    with_unfolding_all rfl
  have hsecond : ((((Session.new "/" 0).read "print b\n;" promptPath).2.execute
      ((Session.new "/" 0).read "print b\n;" promptPath).1.program.bindNames).2.read
        "print clock\n;" promptPath).1.errors = [] := by
    with_unfolding_all rfl
  simp only [Session.runAll, List.map_cons, List.map_nil, Session.run_result_of_no_errors hfirst,
    Session.run_session_of_no_errors hfirst, Session.run_result_of_no_errors hsecond]
  apply Exists.intro
  with_unfolding_all rfl

/-- Two attempts are interrupted, one before a line that fails and one between it and the next. -/
theorem runs_each_line_once_printMissing :
    let prompt : Prompt := ⟨Session.new "/" 0, { renderer := ⟨.never, 20, 0⟩, format := .human }⟩
    let text := "print b\n \nprint clock\n exit\nprint c"
    let options : PromptOptions := ⟨true, false⟩
    prompt.session.Reachable ∧ submitted text = ["print b", "print clock"] ∧
    (∃ diagnostic, (prompt.session.runAll ((submitted text).map terminated)).1.map Run.result =
      [.ok [diagnostic], .ok []]) ∧
    ∃ (rounds : List Round) (final : Prompt),
      prompt.Account options [1, 3] text rounds final ∧
      prompt.Account options [] text (rounds.filter Round.undisturbed) final ∧
      Emission.stderr (prompt.run options (inputs [1, 3] text)).1 =
        Emission.stderr (prompt.run options (inputs [] text)).1 := by
  intro prompt text options
  obtain ⟨hsubmitted, hfirst, hsecond⟩ := submitted_printMissing
  have hsources : (submitted text).map terminated = ["print b\n;", "print clock\n;"] := by
    rw [hsubmitted, List.map_cons, List.map_cons, List.map_nil, hfirst, hsecond]
  obtain ⟨diagnostic, hresults⟩ := runAll_printMissing
  rw [← hsources] at hresults
  refine ⟨.new "/" 0, hsubmitted, ⟨diagnostic, hresults⟩,
    runs_each_line_once (.new "/" 0) options [1, 3] text fun run hrun hends => ?_⟩
  have hmem := List.mem_map_of_mem (f := Run.result) hrun
  rw [hresults, hends] at hmem
  simp at hmem

end Interrupted

end Prompt

end Treewalk
