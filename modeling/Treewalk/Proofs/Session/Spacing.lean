import Treewalk.Proofs.Session.Pieces
import Treewalk.Proofs.Session.Rejection
import Treewalk.Proofs.Token.Spelling

/-!
# Spacing does not matter

Two sources without errors that have the same lexemes differ in blanks, line ends and comments only.
Their programs are the same up to places, and so are their executions: from one session they print
the same, leave the same, and end the same way. A runtime error of one is a runtime error of the
other, whose diagnostic differs in its line and its labels only.
-/

namespace Treewalk

/-! ### Texts with the same lexemes -/

/-- A token without its place is what its lexeme spells. -/
theorem Token.move_nowhere_of_mem_scan {file : Int} {text : String} {t : Token}
    (h : t ∈ (scan file text).tokens) :
    some (t.move .nowhere) =
      (spelledKind? t.lexeme).map fun kind => ⟨kind, t.lexeme, 0, 0, .ofLength 0 0 0⟩ := by
  rw [spelledKind?_lexeme h]
  rfl

/-- Texts with the same lexemes have the same tokens, up to places. -/
theorem scan_move_nowhere {file file' : Int} {text text' : String}
    (h : (scan file text).tokens.map Token.lexeme = (scan file' text').tokens.map Token.lexeme) :
    (scan file text).tokens.map (Token.move .nowhere) =
      (scan file' text').tokens.map (Token.move .nowhere) := by
  let spelled (lexeme : String) : Option Token :=
    (spelledKind? lexeme).map fun kind => ⟨kind, lexeme, 0, 0, .ofLength 0 0 0⟩
  have hspelled : ∀ (file : Int) (text : String),
      ((scan file text).tokens.map (Token.move .nowhere)).map some =
        ((scan file text).tokens.map Token.lexeme).map spelled := by
    intro file text
    rw [List.map_map, List.map_map]
    exact List.map_congr_left fun t ht => Token.move_nowhere_of_mem_scan ht
  apply List.map_injective_iff.mpr fun _ _ => Option.some.inj
  rw [hspelled, hspelled, h]

/-- Texts without errors that have the same lexemes have one program, up to places. -/
theorem Reading.program_move_nowhere {file file' : Nat} {text text' : String}
    (herrors : (Reading.ofText file text).errors = [])
    (herrors' : (Reading.ofText file' text').errors = [])
    (h : (Treewalk.scan file text).tokens.map Token.lexeme =
      (Treewalk.scan file' text').tokens.map Token.lexeme) :
    (Reading.ofText file text).program.move .nowhere =
      (Reading.ofText file' text').program.move .nowhere := by
  have hfirst := (derivesProgram herrors).move .nowhere
  have hsecond := (derivesProgram herrors').move .nowhere
  rw [scan_move_nowhere h] at hfirst
  exact hfirst.eq hsecond

/-! ### Runs -/

/-- What two runs give back when they end the same way: with success, with one runtime error each
whose diagnostics differ in places only, or at the same limit. -/
inductive EndsElsewhere : Except Halt (List Diagnostic) → Except Halt (List Diagnostic) → Prop where
  | success : EndsElsewhere (.ok []) (.ok [])
  | failed {d d' : Diagnostic} (hphase : d.phase = .runtime) (h : d.unplaced = d'.unplaced) :
    EndsElsewhere (.ok [d]) (.ok [d'])
  | stackExhausted : EndsElsewhere (.error .stackExhausted) (.error .stackExhausted)
  | loopExhausted : EndsElsewhere (.error .loopExhausted) (.error .loopExhausted)

/-- Diagnostics that are equal once moved differ in places only. -/
theorem Diagnostic.unplaced_eq_of_move_eq {m : Move} {d d' : Diagnostic}
    (h : d.move m = d'.move m) : d.unplaced = d'.unplaced := by
  change (d.move m).unplaced = (d'.move m).unplaced
  rw [h]

theorem Halt.eq_stackExhausted_of_move {m : Move} {halt : Halt}
    (h : halt.move m = .stackExhausted) : halt = .stackExhausted := by
  cases halt with
  | stackExhausted => rfl
  | returned | failed | fault | loopExhausted => cases h

theorem Halt.eq_loopExhausted_of_move {m : Move} {halt : Halt}
    (h : halt.move m = .loopExhausted) : halt = .loopExhausted := by
  cases halt with
  | loopExhausted => rfl
  | returned | failed | fault | stackExhausted => cases h

/-- Executions with the same outcome up to places end the same way, if the first one ends as
programs do. -/
theorem endsElsewhere_of_outcome_eq {m : Move} {r r' : EStateM.Result Halt Store Unit}
    (hordinary : (∃ diagnostics, outcomeOf r = .ok diagnostics) ∨
      outcomeOf r = .error .stackExhausted ∨ outcomeOf r = .error .loopExhausted)
    (h : m.outcome (outcomeOf r) = m.outcome (outcomeOf r')) :
    EndsElsewhere (outcomeOf r) (outcomeOf r') := by
  cases hother : outcomeOf r' with
  | ok diagnostics' =>
    rw [hother] at h
    obtain ⟨diagnostics, hok⟩ | hcut | hcut := hordinary
    · rw [hok] at h ⊢
      have hmoved : diagnostics.map (Diagnostic.move m) = diagnostics'.map (Diagnostic.move m) :=
        Except.ok.inj h
      obtain ⟨rfl, _⟩ | ⟨error, _, rfl, _⟩ := cases_of_outcomeOf hok
      · rw [List.map_eq_nil_iff.mp hmoved.symm]
        exact .success
      · obtain ⟨d', rfl, hd'⟩ := List.map_eq_singleton_iff.mp hmoved.symm
        exact .failed error.phase_diagnostic (Diagnostic.unplaced_eq_of_move_eq hd'.symm)
    · rw [hcut] at h
      cases h
    · rw [hcut] at h
      cases h
  | error halt' =>
    rw [hother] at h
    obtain ⟨diagnostics, hok⟩ | hcut | hcut := hordinary
    · rw [hok] at h
      cases h
    · rw [hcut] at h ⊢
      rw [Halt.eq_stackExhausted_of_move (Except.error.inj h).symm]
      exact .stackExhausted
    · rw [hcut] at h ⊢
      rw [Halt.eq_loopExhausted_of_move (Except.error.inj h).symm]
      exact .loopExhausted

namespace Session

/-- Sources with the same lexemes run alike, whatever their paths and whatever time it is, as long
as the program does not look at the clock: they print the same, leave the same up to places, and
end the same way. Since lexemes determine the kinds of their tokens, the sources differ in blanks,
line ends and comments only. -/
theorem Reachable.run_respaced {session : Session} (h : session.Reachable)
    (source source' path path' : String) (time : Clock)
    (herrors : (session.read source path).1.errors = [])
    (herrors' : (session.read source' path').1.errors = [])
    (hlexemes : (session.read source path).1.scan.tokens.map Token.lexeme =
      (session.read source' path').1.scan.tokens.map Token.lexeme)
    (hclock : (session.read source path).1.program.bindNames.IgnoresClock session.start) :
    let first := session.run source path
    let second := (session.atTime time).run source' path'
    second.output = first.output ∧
      second.session.store.Agrees .nowhere first.session.store ∧
      EndsElsewhere first.result second.result := by
  intro first second
  obtain ⟨hstore, houtput, hresult⟩ := session.run_of_no_errors source path herrors
  obtain ⟨hstoreSecond, houtputSecond, hresultSecond⟩ :=
    (session.atTime time).run_of_no_errors source' path' herrors'
  -- the bound programs are one program, up to places
  have hprogram : (session.read source' path').1.program.bindNames.move .nowhere =
      (session.read source path).1.program.bindNames.move .nowhere := by
    rw [← Program.bindNames_move, ← Program.bindNames_move]
    exact congrArg Program.bindNames (Reading.program_move_nowhere herrors herrors' hlexemes).symm
  obtain ⟨later, hlate⟩ : ∃ later, (session.read source path).1.program.bindNames.exec roundLimit
      nestingLimit (session.atTime time).start = resultAt later
        ((session.read source path).1.program.bindNames.exec roundLimit nestingLimit
          session.start) := hclock time
  have hmoved := Program.result_eq_of_move_eq hprogram
    (rfl : (session.atTime time).start.move .nowhere #[] = _) roundLimit nestingLimit
  rw [hlate] at hmoved
  obtain ⟨hagrees, houtcome, hprinted⟩ := agree_of_result_eq hmoved
  rw [storeOf_resultAt] at hagrees hprinted
  rw [outcomeOf_resultAt] at houtcome
  rw [Array.empty_append] at hprinted
  refine ⟨?_, ?_, ?_⟩
  · rw [houtputSecond, houtput]
    exact Store.output_eq hprinted
  · rw [hstoreSecond, hstore]
    exact hagrees.atTime _
  · have hordinary := (h.run_ends_ordinarily source path).1
    rw [hresult] at hordinary ⊢
    rw [hresultSecond]
    exact endsElsewhere_of_outcome_eq hordinary houtcome.symm

end Session

/-! ### A comment and two line ends -/

section Respaced

/-- The clock is printed, and then a variable that does not exist. -/
def printClock : Program :=
  [.print (.variable ⟨"clock", ⟨1, 7, some (.ofLength 1 6 5)⟩, .global⟩),
    .print (.variable ⟨"b", ⟨1, 20, some (.ofLength 1 19 1)⟩, .global⟩)]

theorem reading_printClock :
    (Reading.ofText 1 "print clock; print b;").errors = [] ∧
      (Reading.ofText 1 "print clock; print b;").program = printClock ∧
      (Treewalk.scan (1 : Nat) "print clock; print b;").tokens.map Token.lexeme =
        ["print", "clock", ";", "print", "b", ";"] := by
  refine ⟨?_, ?_, ?_⟩ <;> cbv

theorem reading_printClock_respaced :
    (Reading.ofText 1 "print clock; // twice\n\tprint\nb ;").errors = [] ∧
      (Treewalk.scan (1 : Nat) "print clock; // twice\n\tprint\nb ;").tokens.map Token.lexeme =
        ["print", "clock", ";", "print", "b", ";"] := by
  constructor <;> cbv

theorem run_respaced_printClock :
    let session := Session.new "/" 0
    let source := "print clock; print b;"
    let source' := "print clock; // twice\n\tprint\nb ;"
    let first := session.run source "<a>"
    let second := (session.atTime 1).run source' "<b>"
    (session.Reachable ∧ (session.read source "<a>").1.errors = [] ∧
      (session.read source' "<b>").1.errors = [] ∧
      (session.read source "<a>").1.scan.tokens.map Token.lexeme =
        (session.read source' "<b>").1.scan.tokens.map Token.lexeme ∧
      (session.read source "<a>").1.program.bindNames.IgnoresClock session.start) ∧
    (∃ diagnostic, first.result = .ok [diagnostic]) ∧
    second.output = first.output ∧
      second.session.store.Agrees .nowhere first.session.store ∧
      EndsElsewhere first.result second.result := by
  intro session source source' first second
  have hreachable : session.Reachable := .new "/" 0
  have herrors : (session.read source "<a>").1.errors = [] := reading_printClock.1
  have herrors' : (session.read source' "<b>").1.errors = [] := reading_printClock_respaced.1
  have hprogram : (session.read source "<a>").1.program = printClock := reading_printClock.2.1
  have hlexemes : (session.read source "<a>").1.scan.tokens.map Token.lexeme =
      (session.read source' "<b>").1.scan.tokens.map Token.lexeme :=
    reading_printClock.2.2.trans reading_printClock_respaced.2.symm
  have hclock : (session.read source "<a>").1.program.bindNames.IgnoresClock session.start := by
    rw [hprogram]
    exact fun time => ⟨time, rfl⟩
  have hfailed : ∃ diagnostic, first.result = .ok [diagnostic] := by
    rw [(session.run_of_no_errors source "<a>" herrors).2.2, hprogram]
    exact ⟨_, rfl⟩
  exact ⟨⟨hreachable, herrors, herrors', hlexemes, hclock⟩, hfailed,
    hreachable.run_respaced source source' "<a>" "<b>" 1 herrors herrors' hlexemes hclock⟩

end Respaced

end Treewalk
