import Treewalk.Proofs.Diagnostic.Coloring
import Treewalk.Proofs.Grammar.Legibility
import Treewalk.Proofs.Session.Registrations

/-!
# Colours in the reports of a session

What a session says is quoted from its sources, from their paths and from the names of its builtin
functions. If none of them has escape characters, then a report with colours differs from the report
without them by commands for styles only. The diagnostics of a report may come from any runs of the
session, in any order and any number of times: all their places are known to the registry, so that
both reports are made.
-/

namespace Treewalk

/-- Registering a text without escape characters keeps a registry legible. -/
theorem Registry.Adds.legible {r next : Registry} {directory : String} {s : Submission}
    {number : Nat} (h : r.Adds directory s number next) (hr : r.Legible)
    (hkey : Unescaped (key directory s.path)) (hcontent : Unescaped s.content) : next.Legible := by
  cases h with
  | known => exact hr
  | new =>
    intro file hfile
    rcases Array.mem_push.mp hfile with hfile | rfl
    · exact hr file hfile
    · exact ⟨hkey, hcontent⟩

/-! ### Readings -/

namespace Reading

variable {text : String}

/-- The errors of a text without escape characters have none. -/
theorem legible_of_mem_errors {file : Nat} (h : Unescaped text) {d : Diagnostic}
    (hd : d ∈ (Reading.ofText file text).errors) : d.Legible := by
  rcases List.mem_append.mp hd with hd | hd
  · obtain ⟨error, herror, rfl⟩ := List.mem_map.mp hd
    obtain ⟨item, hitem, hfound⟩ := List.mem_filterMap.mp herror
    have hlegible := legible_scan file h item hitem
    cases item with
    | token => cases hfound
    | error found =>
      obtain rfl := Option.some.inj hfound
      exact LexicalError.legible_diagnostic hlegible
  · obtain ⟨error, herror, rfl⟩ := List.mem_map.mp hd
    have hending : Unescaped (Treewalk.scan file text).endToken.lexeme := by
      rw [(endToken_scan file text).2.1]
      decide
    exact legible_of_mem_recognise (fun _ => unescaped_of_mem_scan h) hending herror

end Reading

/-! ### Runs -/

/-- What is known of code without escape characters. -/
def Known.legible : Known := ⟨.legible, fun _ => True⟩

/-- The diagnostics of a run; a run that exhausts a limit has none. -/
def Run.diagnostics (run : Run) : List Diagnostic := run.result.toOption.getD []

namespace Session

section Runs

variable {session : Session} {source path : String}

/-- Without escape characters in its source and in the store, a run quotes none. -/
theorem Settled.safe_legible (h : session.Settled) (hsound : session.store.Sound .legible)
    (hsource : Unescaped source) (herrors : (session.read source path).1.errors = []) :
    Safe .legible False ((session.read source path).1.program.bindNames.exec roundLimit
      nestingLimit) (fun _ _ => True) session.start :=
  h.safe_of_ready hsound
    (ready_of_allOver herrors (allOver_legible_scan hsource) fun _ _ => trivial) _ _

/-- A run of a source without escape characters leaves none in the store. -/
theorem Settled.sound_run (h : session.Settled) (hsound : session.store.Sound .legible)
    (hsource : Unescaped source) : (session.run source path).session.store.Sound .legible := by
  by_cases herrors : (session.read source path).1.errors = []
  · rw [run_session_of_no_errors herrors]
    exact ((session.read source path).2.execute_of_safe
      (h.safe_legible hsound hsource herrors)).2.2.1
  · -- a source with errors is not executed
    rw [run_session_of_errors herrors]
    exact hsound

/-- A diagnostic of a run is an error of its source, or the error that cut its execution short. -/
theorem cases_of_mem_run {d : Diagnostic} (h : d ∈ (session.run source path).diagnostics) :
    d ∈ (session.read source path).1.errors ∨
      ∃ error later, d = error.diagnostic ∧ (session.read source path).1.errors = [] ∧
        (session.read source path).1.program.bindNames.exec roundLimit nestingLimit
          session.start = .error (.failed error) later := by
  by_cases herrors : (session.read source path).1.errors = []
  · obtain ⟨_, _, houtcome⟩ := session.run_of_no_errors source path herrors
    unfold Run.diagnostics at h
    cases hresult : (session.run source path).result with
    | error halt =>
      rw [hresult] at h
      cases h
    | ok diagnostics =>
      rw [hresult] at h
      rcases cases_of_outcomeOf (houtcome.symm.trans hresult) with
        ⟨rfl, _⟩ | ⟨error, later, rfl, hexec⟩
      · cases h
      · exact .inr ⟨error, later, List.mem_singleton.mp h, herrors, hexec⟩
  · unfold Run.diagnostics at h
    rw [run_result_of_errors herrors] at h
    exact .inl (List.mem_mergeSort.mp h)

/-- The diagnostics of a run of a source without escape characters have none. -/
theorem Settled.legible_of_mem_run (h : session.Settled) (hsound : session.store.Sound .legible)
    (hsource : Unescaped source) {d : Diagnostic}
    (hd : d ∈ (session.run source path).diagnostics) : d.Legible := by
  rcases cases_of_mem_run hd with hd | ⟨error, later, rfl, herrors, hexec⟩
  · exact Reading.legible_of_mem_errors hsource hd
  · obtain ⟨_, _, hhalt⟩ := (h.safe_legible hsound hsource herrors).of_error hexec
    exact RuntimeError.legible_diagnostic hhalt

/-- The diagnostics of a run are placed in the registry that the run leaves. -/
theorem Reachable.placed_of_mem_run (h : session.Reachable) {d : Diagnostic}
    (hd : d ∈ (session.run source path).diagnostics) :
    d.Placed (session.run source path).session.registry := by
  rw [registry_run]
  rcases cases_of_mem_run hd with hd | ⟨error, later, rfl, herrors, hexec⟩
  · exact placed_of_mem_errors h.settled.numbered hd
  · exact h.grounded.placed_of_failed h.settled.numbered herrors hexec

end Runs

/-! ### Sessions without escape characters -/

/-- The sessions whose sources, paths and names of builtin functions have no escape characters, each
with all the diagnostics of its runs. The path of a source is the one under which it is kept. -/
inductive Gathers : Session → List Diagnostic → Prop where
  | new (directory : String) (time : Clock) : Gathers (.new directory time) []
  | run {session : Session} {gathered : List Diagnostic} {source path : String}
    (hsource : Unescaped source) (hpath : Unescaped (Registry.key session.directory path))
    (h : Gathers session gathered) :
    Gathers (session.run source path).session (gathered ++ (session.run source path).diagnostics)
  | defineBuiltin {session : Session} {gathered : List Diagnostic} {name : String}
    (hname : Unescaped name) (arity : Int) (body : BuiltinBody Value)
    (hbody : ∀ value, body = .constant value → session.store.Provides value)
    (h : Gathers session gathered) : Gathers (session.defineBuiltin name arity body).1 gathered
  | tick {session : Session} {gathered : List Diagnostic} (time : Clock)
    (h : Gathers session gathered) :
    Gathers { session with store := { session.store with time } } gathered

namespace Gathers

variable {session : Session} {gathered : List Diagnostic}

theorem reachable (h : session.Gathers gathered) : session.Reachable := by
  induction h with
  | new directory time => exact .new directory time
  | run _ _ _ ih => exact .run _ _ ih
  | defineBuiltin _ arity body hbody _ ih => exact .defineBuiltin _ arity body hbody ih
  | tick time _ ih => exact .tick time ih

/-- Nothing that such a session knows or has said has escape characters. -/
theorem legible (h : session.Gathers gathered) :
    session.registry.Legible ∧ session.store.Sound .legible ∧ ∀ d ∈ gathered, d.Legible := by
  induction h with
  | new directory time =>
    have hclock : Unescaped "clock" := by decide
    refine ⟨fun file hfile => ?_, Store.sound_initial hclock time, fun d hd => ?_⟩
    · exact absurd hfile (Array.not_mem_empty file)
    · exact absurd hd List.not_mem_nil
  | @run session _ source path hsource hpath h ih =>
    obtain ⟨hregistry, hstore, hgathered⟩ := ih
    have hsettled := h.reachable.settled
    refine ⟨?_, hsettled.sound_run hstore hsource, List.forall_mem_append.mpr ⟨hgathered, ?_⟩⟩
    · rw [registry_run]
      exact (session.registry.adds_add session.directory ⟨path, source⟩).legible hregistry hpath
        hsource
    · exact fun d hd => hsettled.legible_of_mem_run hstore hsource hd
  | defineBuiltin hname arity body hbody _ ih =>
    obtain ⟨hregistry, hstore, hgathered⟩ := ih
    exact ⟨hregistry, sound_defineBuiltin hstore hname hbody, hgathered⟩
  | tick time _ ih =>
    obtain ⟨hregistry, hstore, hgathered⟩ := ih
    exact ⟨hregistry, hstore.of_eq rfl rfl, hgathered⟩

/-- What was said in any run is placed in the registry of now. -/
theorem placed (h : session.Gathers gathered) : ∀ d ∈ gathered, d.Placed session.registry := by
  induction h with
  | new => exact fun d hd => absurd hd List.not_mem_nil
  | @run session _ source path _ _ h ih =>
    refine List.forall_mem_append.mpr ⟨fun d hd => ?_, fun d hd => h.reachable.placed_of_mem_run hd⟩
    rw [registry_run]
    exact (ih d hd).mono (session.extends_read source path)
  | defineBuiltin _ _ _ _ _ ih => exact ih
  | tick _ _ ih => exact ih

theorem renders (h : session.Gathers gathered) {d : Diagnostic} (hd : d ∈ gathered) :
    d.Renders session.registry :=
  (h.placed d hd).renders fun _ _ _ hfile => h.reachable.settled.numbered.id_of_find? hfile

/-- Colours only add commands. Diagnostics of a session whose sources, paths and names of builtin
functions have no escape characters are reported with and without colours, whatever the limit, and
with or without a summary. Deleting the commands of the report with colours gives the other one, and
each of its commands opens a style that the next command closes. -/
theorem report_colors (h : session.Gathers gathered) {diagnostics : List Diagnostic}
    (hdiagnostics : diagnostics ⊆ gathered) (maxErrors : Int) (count : Nat) (terminal : Terminal)
    (host : Host) (closing : Bool) :
    ∃ plain colored : String,
      (Reporter.report ⟨⟨.never, maxErrors, count⟩, .human, terminal, host⟩ session.registry
        diagnostics closing).1 = .ok plain ∧
      (Reporter.report ⟨⟨.always, maxErrors, count⟩, .human, terminal, host⟩ session.registry
        diagnostics closing).1 = .ok colored ∧
      Ansi.visible colored = plain ∧
      Ansi.closesStyles false (Ansi.pieces colored.toList) = true := by
  obtain ⟨hregistry, _, hlegible⟩ := h.legible
  -- that all places are known gives the report without colours, and this one gives the other
  obtain ⟨plain, later, hreport, _⟩ := Reporter.report_of_renders
    (fun d hd => h.renders (hdiagnostics hd))
    ⟨⟨.never, maxErrors, count⟩, .human, terminal, host⟩ closing
  have hplain := congrArg Prod.fst hreport
  obtain ⟨colored, hcolored, htinted⟩ := Reporter.tinted_report hregistry
    (fun d hd => hlegible d (hdiagnostics hd)) maxErrors count terminal host closing hplain
  exact ⟨plain, colored, hplain, hcolored, htinted.visible_eq, htinted.closesStyles_pieces⟩

/-- The diagnostics of two runs, the later one first: a string in the wrong place, and a call of a
builtin function with too many arguments. -/
theorem report_colors_twoRuns :
    let first := (Session.new "/home" 0).run "print a \"b\";" "lib/a.lako"
    let defined := (first.session.defineBuiltin "zero" 0 (.constant (.bool false))).1
    let second := defined.run "print zero(1);" "<b>"
    first.diagnostics.length = 1 ∧ second.diagnostics.length = 1 ∧
    ∀ closing : Bool, ∃ plain colored : String,
      (Reporter.report ⟨⟨.never, 5, 0⟩, .human, {}, {}⟩ second.session.registry
        (second.diagnostics ++ first.diagnostics) closing).1 = .ok plain ∧
      (Reporter.report ⟨⟨.always, 5, 0⟩, .human, {}, {}⟩ second.session.registry
        (second.diagnostics ++ first.diagnostics) closing).1 = .ok colored ∧
      Ansi.visible colored = plain ∧
      Ansi.closesStyles false (Ansi.pieces colored.toList) = true := by
  intro first defined second
  have hfirst : first.session.Gathers first.diagnostics :=
    .run (by decide) (Registry.unescaped_key (by decide) (by decide)) (.new "/home" 0)
  have hdefined : defined.Gathers first.diagnostics := by
    refine .defineBuiltin (by decide) 0 _ (fun value hvalue => ?_) hfirst
    obtain rfl := BuiltinBody.constant.inj hvalue
    exact .literal (.bool false)
  have hsecond : second.session.Gathers (first.diagnostics ++ second.diagnostics) :=
    .run (by decide) (show Unescaped "<b>" by decide) hdefined
  refine ⟨by decide +kernel, by decide +kernel, fun closing => ?_⟩
  exact hsecond.report_colors (by grind) 5 0 {} {} closing

end Gathers

end Session

end Treewalk
