import Treewalk.Proofs.Machine.Naturality
import Treewalk.Proofs.Session.Outcome
import Treewalk.Proofs.Token.Join

/-!
# Running a source in pieces

Two sources without errors can be run one after the other, or joined by a line feed and run at once.
The joined source has the statements of the first and then those of the second; only their places
differ. So if the first source succeeds, the two runs print what the one run prints, end as it ends
and leave what it leaves, up to places. If the first source is cut short, the one run is cut short
in the same way, at the same offsets and on the same lines, and the second source is not executed.
-/

namespace Treewalk

open Grammar (DerivesStmt DerivesProgram)

/-! ### Forgetting places -/

/-- Forgets all places. -/
def Move.nowhere : Move where
  line _ _ := 0
  column _ := 0
  span _ := .ofLength 0 0 0

/-- Forgets which file a place is in. -/
def Move.anyFile : Move where
  line line _ := line
  column := id
  span s := { s with file := 0 }

theorem Token.move_nowhere (t : Token) (m : Move) :
    (t.move m).move .nowhere = t.move .nowhere := rfl

theorem Token.move_anyFile (t : Token) (file : Int) :
    (t.move (.shift file 0 0)).move .anyFile = t.move .anyFile := by
  simp [Token.move, Move.shift, Move.anyFile]

/-! ### Programs of joined texts -/

theorem Grammar.DerivesProgram.append {ts rs : List Token} {program rest : Program}
    (h : DerivesProgram ts program) (hrest : DerivesProgram rs rest) :
    DerivesProgram (ts ++ rs) (program ++ rest) := by
  induction program generalizing ts with
  | nil =>
    cases h
    exact hrest
  | cons s program ih =>
    cases h with
    | consDeclaration hfirst htail =>
      rw [List.append_assoc]
      exact .consDeclaration hfirst (ih htail)

/-- A move that undoes another one on tokens undoes it on programs. -/
theorem Grammar.DerivesProgram.move_move {ts : List Token} {program : Program}
    (h : DerivesProgram ts program) {m m' : Move}
    (hundoes : ∀ t : Token, (t.move m').move m = t.move m) :
    (program.move m').move m = program.move m := by
  have htokens : (ts.map (Token.move m')).map (Token.move m) = ts.map (Token.move m) := by
    rw [List.map_map]
    exact List.map_congr_left fun t _ => hundoes t
  have hmoved := (h.move m').move m
  rw [htokens] at hmoved
  exact hmoved.eq (h.move m)

namespace Reading

variable {own own' : Nat} {text text' : String}

theorem scan_errors (h : (Reading.ofText own text).errors = []) :
    (Treewalk.scan own text).errors = [] :=
  List.map_eq_nil_iff.mp (List.append_eq_nil_iff.mp h).1

/-- The number of its file does not matter for what a text spells. -/
theorem refile (file : Nat) (h : (Reading.ofText own text).errors = []) :
    (Reading.ofText file text).errors = [] ∧
      (Reading.ofText file text).program =
        (Reading.ofText own text).program.move (.shift file 0 0) := by
  obtain ⟨herrors, htokens⟩ := scan_refile file (scan_errors h)
  exact of_derivesProgram htokens herrors ((derivesProgram h).move _)

/-- The program of two joined texts has the statements of the first and then those of the second,
further down. -/
theorem join (file : Nat) (h : (Reading.ofText own text).errors = [])
    (h' : (Reading.ofText own' text').errors = []) :
    (Reading.ofText file (text ++ "\n" ++ text')).errors = [] ∧
      (Reading.ofText file (text ++ "\n" ++ text')).program =
        (Reading.ofText own text).program.move (.shift file 0 0) ++
          (Reading.ofText own' text').program.move (.after file (Treewalk.scan own text)) := by
  obtain ⟨herrors, htokens⟩ := scan_join file own own' (scan_errors h) (scan_errors h')
  exact of_derivesProgram htokens herrors
    (((derivesProgram h).move _).append ((derivesProgram h').move _))

/-- With its names bound, the program of two joined texts is that of the first and then that of the
second, up to places. -/
theorem bindNames_join (file : Nat) (h : (Reading.ofText own text).errors = [])
    (h' : (Reading.ofText own' text').errors = []) :
    ∃ program rest,
      (Reading.ofText file (text ++ "\n" ++ text')).program.bindNames = program ++ rest ∧
      program.move .anyFile = (Reading.ofText own text).program.bindNames.move .anyFile ∧
      program.move .nowhere = (Reading.ofText own text).program.bindNames.move .nowhere ∧
      rest.move .nowhere = (Reading.ofText own' text').program.bindNames.move .nowhere := by
  refine ⟨((Reading.ofText own text).program.move (.shift file 0 0)).bindNames,
    ((Reading.ofText own' text').program.move (.after file (Treewalk.scan own text))).bindNames,
    ?_, ?_, ?_, ?_⟩
  · rw [(join file h h').2, Program.bindNames_append]
  · rw [← Program.bindNames_move, ← Program.bindNames_move,
      (derivesProgram h).move_move fun t => t.move_anyFile _]
  · rw [← Program.bindNames_move, ← Program.bindNames_move,
      (derivesProgram h).move_move fun t => t.move_nowhere _]
  · rw [← Program.bindNames_move, ← Program.bindNames_move,
      (derivesProgram h').move_move fun t => t.move_nowhere _]

end Reading

/-! ### Executions -/

theorem Move.result_eq_ok {m : Move} {earlier : Array String}
    {r : EStateM.Result Halt Store Unit} {later : Store}
    (h : m.result earlier id r = .ok () later) :
    ∃ store, r = .ok () store ∧ store.move m earlier = later := by
  cases r with
  | ok value store => exact ⟨store, rfl, (EStateM.Result.ok.inj h).2⟩
  | error halt store => cases h

theorem Move.result_eq_error {m : Move} {earlier : Array String}
    {r : EStateM.Result Halt Store Unit} {halt : Halt} {later : Store}
    (h : m.result earlier id r = .error halt later) :
    ∃ own store, r = .error own store ∧ own.move m = halt ∧ store.move m earlier = later := by
  cases r with
  | ok value store => cases h
  | error own store =>
    exact ⟨own, store, rfl, (EStateM.Result.error.inj h).1, (EStateM.Result.error.inj h).2⟩

theorem Program.exec_append (program rest : Program) (rounds depth : Nat) :
    (program ++ rest).exec rounds depth =
      (do program.exec rounds depth; rest.exec rounds depth) :=
  List.forM_append

/-- Programs that differ in places only give the same result, up to places. They start from stores
that differ in places only, and may have printed different lines before. -/
theorem Program.result_eq_of_move_eq {m : Move} {program program' : Program}
    (h : program.move m = program'.move m) {earlier earlier' : Array String} {store store' : Store}
    (hstore : store.move m earlier = store'.move m earlier') (rounds depth : Nat) :
    m.result earlier id (program.exec rounds depth store) =
      m.result earlier' id (program'.exec rounds depth store') := by
  rw [← Program.exec_move, ← Program.exec_move, h, hstore]

/-- A program that goes on with another one once its first part succeeds. What the first part
printed comes first. -/
theorem Program.result_append_of_ok {m : Move} {program program' rest rest' : Program}
    (hprogram : program'.move m = program.move m) (hrest : rest'.move m = rest.move m)
    {rounds depth : Nat} {store later : Store}
    (h : program.exec rounds depth store = .ok () later) :
    m.result #[] id ((program' ++ rest').exec rounds depth store) =
      m.result later.printed id (rest.exec rounds depth { later with printed := #[] }) := by
  have hfirst := result_eq_of_move_eq hprogram (rfl : store.move m #[] = _) rounds depth
  rw [h] at hfirst
  obtain ⟨later', hlater', hmove⟩ := Move.result_eq_ok hfirst
  rw [exec_append, bind_of_ok hlater']
  apply result_eq_of_move_eq hrest
  rw [hmove]
  simp [Store.move]

/-- A program whose first part is cut short does no more than that part. -/
theorem Program.exec_append_of_error {program : Program} {rounds depth : Nat} {store later : Store}
    {halt : Halt} (h : program.exec rounds depth store = .error halt later) (rest : Program) :
    (program ++ rest).exec rounds depth store = program.exec rounds depth store := by
  rw [exec_append, bind_of_error h, h]

/-! ### Outcomes without places -/

/-- A label elsewhere. -/
def Label.move (m : Move) (label : Label) : Label := { label with span := m.span label.span }

/-- A diagnostic elsewhere. -/
def Diagnostic.move (m : Move) (d : Diagnostic) : Diagnostic :=
  { d with line := m.row d.line d.primarySpan?, labels := d.labels.map (Label.move m) }

theorem Diagnostic.atSite_move (m : Move) (phase : Phase) (code message : String) (site : Site)
    (caption help : Option String) (data : List (String × Json)) :
    Diagnostic.atSite phase code message (m.site site) caption help data =
      (Diagnostic.atSite phase code message site caption help data).move m := by
  obtain ⟨line, span⟩ := site
  cases span <;> rfl

theorem RuntimeError.diagnostic_move (m : Move) (error : RuntimeError) :
    (error.move m).diagnostic = error.diagnostic.move m := by
  cases error with
  | wrongArity expected got site callee declaredAt =>
    obtain ⟨line, span⟩ := site
    cases span <;> cases declaredAt <;> rfl
  | undefinedVariable | binaryOperands | unaryOperand | invalidSuperclass | notAnInstance
  | divisionByZero | notCallable | undefinedProperty =>
    simp only [RuntimeError.move, RuntimeError.diagnostic, Diagnostic.atSite_move]

/-- What a run gives back, if its code stands elsewhere. -/
def Move.outcome (m : Move) : Except Halt (List Diagnostic) → Except Halt (List Diagnostic)
  | .ok diagnostics => .ok (diagnostics.map (Diagnostic.move m))
  | .error halt => .error (halt.move m)

theorem outcomeOf_move (m : Move) (earlier : Array String) (r : EStateM.Result Halt Store Unit) :
    outcomeOf (m.result earlier id r) = m.outcome (outcomeOf r) := by
  cases r with
  | ok => rfl
  | error halt store =>
    cases halt with
    | failed error =>
      simp only [Move.result, Halt.move, outcomeOf, Halt.outcome, Move.outcome,
        RuntimeError.diagnostic_move, List.map_cons, List.map_nil]
    | returned | fault | stackExhausted | loopExhausted => rfl

/-! ### Stores without places -/

/-- Stores that hold the same, up to places: the same scopes with the same values, the same fields
of objects, and the same environment in force. -/
structure Store.Agrees (m : Move) (store store' : Store) : Prop where
  scopes : store.scopes.move m = store'.scopes.move m
  fields : store.fields.map (Table.map (Value.move m)) =
    store'.fields.map (Table.map (Value.move m))
  nextId : store.nextId = store'.nextId
  current : store.current = store'.current

theorem Store.Agrees.of_move_eq {m : Move} {store store' : Store} {earlier earlier' : Array String}
    (h : store.move m earlier = store'.move m earlier') : store.Agrees m store' where
  scopes := congrArg Store.scopes h
  fields := congrArg Store.fields h
  nextId := show (store.move m earlier).nextId = (store'.move m earlier').nextId by rw [h]
  current := show (store.move m earlier).current = (store'.move m earlier').current by rw [h]

/-- Executions with the same result, up to places, leave the same, give back the same and print the
same after the earlier lines. -/
theorem agree_of_result_eq {m : Move} {earlier : Array String}
    {r r' : EStateM.Result Halt Store Unit} (h : m.result #[] id r = m.result earlier id r') :
    (storeOf r).Agrees m (storeOf r') ∧ m.outcome (outcomeOf r) = m.outcome (outcomeOf r') ∧
      (storeOf r).printed = earlier ++ (storeOf r').printed := by
  have hstore : (storeOf r).move m #[] = (storeOf r').move m earlier := by
    rw [← storeOf_move, ← storeOf_move, h]
  have hprinted : #[] ++ (storeOf r).printed = earlier ++ (storeOf r').printed :=
    congrArg Store.printed hstore
  rw [Array.empty_append] at hprinted
  refine ⟨.of_move_eq hstore, ?_, hprinted⟩
  rw [← outcomeOf_move, ← outcomeOf_move, h]

theorem Store.output_eq {store store' : Store} (h : store.printed = store'.printed) :
    store.output = store'.output := by
  unfold Store.output
  rw [h]

theorem Store.output_append {store first second : Store}
    (h : store.printed = first.printed ++ second.printed) :
    store.output = first.output ++ second.output := by
  unfold Store.output
  rw [h, Array.toList_append, List.map_append, String.join_append]

/-! ### The clock -/

/-- A store at another time. -/
def Store.atTime (store : Store) (time : Clock) : Store := { store with time }

theorem Store.Agrees.atTime {m : Move} {store store' : Store} (h : store.Agrees m store')
    (time : Clock) : store.Agrees m (store'.atTime time) :=
  ⟨h.scopes, h.fields, h.nextId, h.current⟩

/-- A result at another time. -/
def resultAt {α : Type} (time : Clock) : EStateM.Result Halt Store α → EStateM.Result Halt Store α
  | .ok value store => .ok value (store.atTime time)
  | .error halt store => .error halt (store.atTime time)

theorem outcomeOf_resultAt (time : Clock) (r : EStateM.Result Halt Store Unit) :
    outcomeOf (resultAt time r) = outcomeOf r := by
  cases r <;> rfl

theorem storeOf_resultAt (time : Clock) (r : EStateM.Result Halt Store Unit) :
    storeOf (resultAt time r) = (storeOf r).atTime time := by
  cases r <;> rfl

/-- The execution of a program from a store does not depend on the time. Only what the clock shows
afterwards may do so. -/
def Program.IgnoresClock (program : Program) (store : Store) : Prop :=
  ∀ time, ∃ later, program.exec roundLimit nestingLimit (store.atTime time) =
    resultAt later (program.exec roundLimit nestingLimit store)

namespace Session

/-- A session at another time. -/
def atTime (session : Session) (time : Clock) : Session :=
  { session with store := session.store.atTime time }

/-! ### Two runs and one -/

section Join

variable {session : Session} {source source' path path' path'' : String} {time time' : Clock}

/-- The whole is read without errors if the pieces are, whatever sessions read them, and it is the
first piece and then the second, up to places. -/
theorem read_join {other : Session} (another : Session) (path'' : String)
    (h : (session.read source path).1.errors = [])
    (h' : (other.read source' path').1.errors = []) :
    (another.read (source ++ "\n" ++ source') path'').1.errors = [] ∧
      ∃ program rest,
        (another.read (source ++ "\n" ++ source') path'').1.program.bindNames = program ++ rest ∧
        program.move .anyFile = (session.read source path).1.program.bindNames.move .anyFile ∧
        program.move .nowhere = (session.read source path).1.program.bindNames.move .nowhere ∧
        rest.move .nowhere = (other.read source' path').1.program.bindNames.move .nowhere :=
  ⟨(Reading.join _ h h').1, Reading.bindNames_join _ h h'⟩

/-- If the first piece succeeds, the whole prints, gives back and leaves what the two pieces do, up
to places. -/
theorem run_join_of_success (h : (session.read source path).1.errors = [])
    (h' : ((session.run source path).session.read source' path').1.errors = [])
    (hclock : (session.read source path).1.program.bindNames.IgnoresClock session.start)
    (hsuccess : (session.run source path).result = .ok [])
    (hclock' :
      ((session.run source path).session.read source' path').1.program.bindNames.IgnoresClock
        (session.run source path).session.start) :
    let first := session.run source path
    let second := (first.session.atTime time).run source' path'
    let whole := (session.atTime time').run (source ++ "\n" ++ source') path''
    whole.output = first.output ++ second.output ∧
      Move.nowhere.outcome whole.result = Move.nowhere.outcome second.result ∧
      whole.session.store.Agrees .nowhere second.session.store := by
  intro first second whole
  obtain ⟨hread, program, rest, hprogram, _, hnowhere, hrest⟩ :=
    read_join (session.atTime time') path'' h h'
  obtain ⟨hstore, houtput, hresult⟩ := session.run_of_no_errors source path h
  obtain ⟨hstoreSecond, houtputSecond, hresultSecond⟩ :=
    (first.session.atTime time).run_of_no_errors source' path' h'
  obtain ⟨hstoreWhole, houtputWhole, hresultWhole⟩ :=
    (session.atTime time').run_of_no_errors (source ++ "\n" ++ source') path'' hread
  -- in the whole, the second piece starts where the first one ends
  obtain ⟨middle, hlate⟩ := hclock time'
  rw [eq_ok_of_outcomeOf (hresult.symm.trans hsuccess), ← hstore] at hlate
  -- both executions of the second piece are the same but for the time
  let r := (first.session.read source' path').1.program.bindNames.exec roundLimit nestingLimit
    first.session.start
  obtain ⟨later, hsecond⟩ : ∃ later, ((first.session.atTime time).read source'
      path').1.program.bindNames.exec roundLimit nestingLimit (first.session.atTime time).start =
        resultAt later r := hclock' time
  obtain ⟨last, hrestLate⟩ : ∃ last, (first.session.read source' path').1.program.bindNames.exec
      roundLimit nestingLimit { first.session.store.atTime middle with printed := #[] } =
        resultAt last r := hclock' middle
  have hmoved := Program.result_append_of_ok hnowhere hrest hlate
  rw [hrestLate, ← hprogram] at hmoved
  obtain ⟨hagrees, houtcome, hprinted⟩ := agree_of_result_eq hmoved
  rw [storeOf_resultAt] at hagrees hprinted
  rw [outcomeOf_resultAt] at houtcome
  rw [hsecond, storeOf_resultAt] at hstoreSecond houtputSecond
  rw [hsecond, outcomeOf_resultAt] at hresultSecond
  refine ⟨?_, ?_, ?_⟩
  · rw [houtputWhole, houtput, houtputSecond, ← hstore]
    exact Store.output_append hprinted
  · rw [hresultWhole, hresultSecond]
    exact houtcome
  · rw [hstoreWhole, hstoreSecond]
    exact hagrees.atTime _

/-- If the first piece is cut short, so is the whole, in the same way but for the numbers of files,
and the statements of the second piece are not executed. -/
theorem run_join_of_cut (h : (session.read source path).1.errors = [])
    (h' : ((session.run source path).session.read source' path').1.errors = [])
    (hclock : (session.read source path).1.program.bindNames.IgnoresClock session.start)
    (hcut : (session.run source path).result ≠ .ok []) :
    let first := session.run source path
    let whole := (session.atTime time').run (source ++ "\n" ++ source') path''
    whole.output = first.output ∧
      Move.anyFile.outcome whole.result = Move.anyFile.outcome first.result ∧
      whole.session.store.Agrees .anyFile first.session.store ∧
      ∃ program rest,
        ((session.atTime time').read (source ++ "\n" ++ source') path'').1.program.bindNames =
          program ++ rest ∧
        program.move .anyFile = (session.read source path).1.program.bindNames.move .anyFile ∧
        (program ++ rest).exec roundLimit nestingLimit (session.atTime time').start =
          program.exec roundLimit nestingLimit (session.atTime time').start := by
  intro first whole
  obtain ⟨hread, program, rest, hprogram, hanyFile, _, _⟩ :=
    read_join (session.atTime time') path'' h h'
  obtain ⟨hstore, houtput, hresult⟩ := session.run_of_no_errors source path h
  obtain ⟨hstoreWhole, houtputWhole, hresultWhole⟩ :=
    (session.atTime time').run_of_no_errors (source ++ "\n" ++ source') path'' hread
  obtain ⟨halt, hexec⟩ := eq_error_of_outcomeOf (fun hok => hcut (hresult.trans hok))
  obtain ⟨later, hlate⟩ : ∃ later, (session.read source path).1.program.bindNames.exec roundLimit
      nestingLimit (session.atTime time').start = resultAt later
        ((session.read source path).1.program.bindNames.exec roundLimit nestingLimit
          session.start) := hclock time'
  have hmoved := Program.result_eq_of_move_eq hanyFile
    (rfl : (session.atTime time').start.move .anyFile #[] = _) roundLimit nestingLimit
  rw [hlate] at hmoved
  obtain ⟨hagrees, houtcome, hprinted⟩ := agree_of_result_eq hmoved
  rw [storeOf_resultAt] at hagrees hprinted
  rw [outcomeOf_resultAt] at houtcome
  rw [Array.empty_append] at hprinted
  -- the first part of the whole is cut short as well, so the rest is not executed
  rw [hexec] at hmoved
  obtain ⟨_, _, hcutWhole, _⟩ := Move.result_eq_error hmoved
  have hunexecuted := Program.exec_append_of_error hcutWhole rest
  rw [hprogram, hunexecuted] at hstoreWhole houtputWhole hresultWhole
  refine ⟨?_, ?_, ?_, program, rest, hprogram, hanyFile, hunexecuted⟩
  · rw [houtputWhole, houtput]
    exact Store.output_eq hprinted
  · rw [hresultWhole, hresult]
    exact houtcome
  · rw [hstoreWhole, hstore]
    exact hagrees.atTime _

/-- Running a source in pieces is running it as a whole. Time may pass between the runs, as long as
it does not matter. If the first piece succeeds, the whole prints, gives back and leaves what the
two pieces do, up to places. If the first piece is cut short, so is the whole, in the same way but
for the numbers of files, and the statements of the second piece are not executed. -/
theorem run_join (session : Session) (source source' path path' path'' : String)
    (time time' : Clock) (h : (session.read source path).1.errors = [])
    (h' : (session.read source' path').1.errors = [])
    (hclock : (session.read source path).1.program.bindNames.IgnoresClock session.start) :
    let first := session.run source path
    let second := (first.session.atTime time).run source' path'
    let whole := (session.atTime time').run (source ++ "\n" ++ source') path''
    (first.result = .ok [] →
      (first.session.read source' path').1.program.bindNames.IgnoresClock first.session.start →
      whole.output = first.output ++ second.output ∧
        Move.nowhere.outcome whole.result = Move.nowhere.outcome second.result ∧
        whole.session.store.Agrees .nowhere second.session.store) ∧
    (first.result ≠ .ok [] →
      whole.output = first.output ∧
        Move.anyFile.outcome whole.result = Move.anyFile.outcome first.result ∧
        whole.session.store.Agrees .anyFile first.session.store ∧
        ∃ program rest,
          ((session.atTime time').read (source ++ "\n" ++ source') path'').1.program.bindNames =
            program ++ rest ∧
          program.move .anyFile = (session.read source path).1.program.bindNames.move .anyFile ∧
          (program ++ rest).exec roundLimit nestingLimit (session.atTime time').start =
            program.exec roundLimit nestingLimit (session.atTime time').start) := by
  intro first second whole
  have hread' : (first.session.read source' path').1.errors = [] := (Reading.refile _ h').1
  exact ⟨run_join_of_success h hread' hclock, run_join_of_cut h hread' hclock⟩

end Join

end Session

/-! ### A failure in the second piece -/

section LateFailure

/-- A variable is declared and printed. -/
def printDeclared : Program :=
  [.declare "a" none, .print (.variable ⟨"a", ⟨1, 14, some (.ofLength 1 13 1)⟩, .global⟩)]

/-- The variable is printed again, and then one that does not exist. -/
def printUndeclared : Program :=
  [.print (.variable ⟨"a", ⟨1, 7, some (.ofLength 1 6 1)⟩, .global⟩),
    .print (.variable ⟨"b", ⟨1, 16, some (.ofLength 1 15 1)⟩, .global⟩)]

theorem reading_printDeclared :
    (Reading.ofText 1 "var a; print a;").errors = [] ∧
      (Reading.ofText 1 "var a; print a;").program = printDeclared := by
  constructor <;> cbv

theorem reading_printUndeclared :
    (Reading.ofText 1 "print a; print b;").errors = [] ∧
      (Reading.ofText 1 "print a; print b;").program = printUndeclared := by
  constructor <;> cbv

theorem run_join_printUndeclared :
    let session := Session.new "/" 0
    let source := "var a; print a;"
    let source' := "print a; print b;"
    let first := session.run source "<a>"
    let second := (first.session.atTime 1).run source' "<b>"
    let whole := (session.atTime 2).run (source ++ "\n" ++ source') "<c>"
    ((session.read source "<a>").1.errors = [] ∧ (session.read source' "<b>").1.errors = [] ∧
      (session.read source "<a>").1.program.bindNames.IgnoresClock session.start) ∧
    (first.result = .ok [] ∧
      (first.session.read source' "<b>").1.program.bindNames.IgnoresClock first.session.start) ∧
    whole.output = first.output ++ second.output ∧
      Move.nowhere.outcome whole.result = Move.nowhere.outcome second.result ∧
      whole.session.store.Agrees .nowhere second.session.store := by
  intro session source source' first second whole
  have h : (session.read source "<a>").1.errors = [] := reading_printDeclared.1
  have h' : (session.read source' "<b>").1.errors = [] := reading_printUndeclared.1
  have hprogram : (session.read source "<a>").1.program = printDeclared := reading_printDeclared.2
  have hprogram' : ∃ file : Nat, (first.session.read source' "<b>").1.program =
      printUndeclared.move (.shift file 0 0) := by
    refine ⟨(first.session.registry.add first.session.directory "<b>" source').1, ?_⟩
    rw [← reading_printUndeclared.2]
    exact (Reading.refile _ reading_printUndeclared.1).2
  obtain ⟨hstore, _, hresult⟩ := session.run_of_no_errors source "<a>" h
  have hclock : (session.read source "<a>").1.program.bindNames.IgnoresClock session.start := by
    rw [hprogram]
    exact fun time => ⟨time, rfl⟩
  have hsuccess : first.result = .ok [] := by
    rw [hresult, hprogram]
    rfl
  have hclock' : (first.session.read source' "<b>").1.program.bindNames.IgnoresClock
      first.session.start := by
    obtain ⟨file, hfile⟩ := hprogram'
    rw [hfile, Session.start, hstore, hprogram]
    exact fun time => ⟨time, rfl⟩
  exact ⟨⟨h, h', hclock⟩, ⟨hsuccess, hclock'⟩,
    (session.run_join source source' "<a>" "<b>" "<c>" 1 2 h h' hclock).1 hsuccess hclock'⟩

end LateFailure

end Treewalk
