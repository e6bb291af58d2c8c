import Treewalk.Proofs.Diagnostic.Rendering
import Treewalk.Proofs.Grammar.Boundaries
import Treewalk.Proofs.Grammar.Moved
import Treewalk.Proofs.Machine.Naturality
import Treewalk.Proofs.Session.Outcome
import Treewalk.Proofs.Token.Lines

/-!
# Places in registered texts

The code of a session comes from its registered texts. That no other place can occur in a store, or
in an error, is shown without looking into them: evaluation and derivations respect moves, so a move
that keeps the places of the registry keeps the store of every reachable session, and whatever error
a program causes there. One such move displaces all places that are not in the registry, and what it
keeps has none of them.
-/

namespace Treewalk

/-! ### Moves that keep a registry -/

/-- A move that leaves the places of a registry where they are. -/
structure Move.Keeps (m : Move) (r : Registry) : Prop where
  line : ∀ (line : Nat) (span : Option Span), r.Grounds line span → m.line line span = line
  column : ∀ column, m.column column = column
  span : ∀ s, r.Covers s → m.span s = s

theorem Move.Keeps.mono {m : Move} {r later : Registry} (h : m.Keeps later)
    (hextends : r.Extends later) : m.Keeps r where
  line line span hgrounds := h.line line span (hgrounds.mono hextends)
  column := h.column
  span s hcovers := h.span s (hcovers.mono hextends)

/-- A place that belongs to no registered text goes elsewhere, and all others stay. -/
noncomputable def Move.displace (r : Registry) : Move :=
  open Classical in
  { line := fun line span => if r.Grounds line span then line else line + 1
    column := id
    span := fun s => if r.Covers s then s else .ofLength (s.file + 1) 0 0 }

theorem Move.keeps_displace (r : Registry) : (displace r).Keeps r where
  line _ _ hgrounds := if_pos hgrounds
  column _ := rfl
  span _ hcovers := if_pos hcovers

theorem Registry.not_grounds_zero (r : Registry) (span : Option Span) : ¬ r.Grounds 0 span := by
  rintro ⟨s, file, _, _, _, _, hline⟩
  have := file.one_le_line_positionOf s.start.toNat
  omega

/-- A site that stays where it is belongs to a registered text. -/
theorem Move.grounds_of_displace_site {r : Registry} {site : Site}
    (h : (displace r).site site = site) : r.Grounds site.line site.span := by
  have hrow : (displace r).row site.line site.span = site.line := congrArg Site.line h
  have hstays : ∀ line : Nat, (displace r).line line site.span = line →
      r.Grounds line site.span := by
    intro line hline
    by_cases hgrounds : r.Grounds line site.span
    · exact hgrounds
    · simp [displace, hgrounds] at hline
  cases hline : site.line with
  | ofNat line =>
    rw [hline] at hrow
    exact hstays line (Int.ofNat.inj hrow)
  | negSucc line =>
    rw [hline] at hrow
    have hzero : (displace r).line 0 site.span = 0 := by
      simp only [row] at hrow
      omega
    exact absurd (hstays 0 hzero) (r.not_grounds_zero _)

theorem Move.covers_of_displace_span {r : Registry} {s : Span} (h : (displace r).span s = s) :
    r.Covers s := by
  by_cases hcovers : r.Covers s
  · exact hcovers
  · simp only [displace, if_neg hcovers] at h
    have hfile : s.file + 1 = s.file := congrArg Span.file h
    omega

/-! ### Readings -/

/-- The tokens of a registered text stand on the lines where their spans begin. -/
theorem Registry.grounds_of_placed {r : Registry} {file : Int} {f : SourceFile}
    (hfile : r.find? file = some f) {t : Token} (ht : (ScanItem.token t).Placed file f.chars) :
    r.Grounds t.line (some t.span) := by
  obtain ⟨hwithin, hline⟩ := ht
  refine ⟨t.span, f, rfl, hwithin.file ▸ hfile, hwithin.start, hwithin.stop, ?_⟩
  rw [hline, f.lineAt_eq]

/-- The program of a registered text stays where it is. -/
theorem Reading.program_move_eq {m : Move} {r : Registry} (h : m.Keeps r) {file : Nat}
    {f : SourceFile} (hfile : r.find? file = some f)
    (herrors : (Reading.ofText file f.content).errors = []) :
    (Reading.ofText file f.content).program.move m = (Reading.ofText file f.content).program := by
  have htokens : (Treewalk.scan file f.content).tokens.map (Token.move m) =
      (Treewalk.scan file f.content).tokens := by
    refine (List.map_congr_left fun t ht => ?_).trans (List.map_id _)
    have hgrounds := Registry.grounds_of_placed hfile
      ((placed_scan file f.content).1 _ (mem_filterMap_token?_iff.mp ht))
    simp only [Token.move, h.line _ _ hgrounds, h.column, h.span _ hgrounds.covers]
    rfl
  have hmoved := (derivesProgram herrors).move m
  rw [htokens] at hmoved
  exact hmoved.eq (derivesProgram herrors)

/-- The problems that the grammar has with a registered text are noticed at its tokens. -/
theorem Reading.grounds_of_mem {r : Registry} {file : Nat} {f : SourceFile}
    (hfile : r.find? file = some f) {error : GrammarError}
    (herror : error ∈ (Reading.ofText file f.content).recognition.errors) :
    r.Grounds error.site.line error.site.span := by
  have hsite : error.site = error.found.site := by cases error <;> rfl
  obtain ⟨hitems, hend⟩ := placed_scan file f.content
  rw [hsite]
  rcases (Grammar.noticed_program _ _ error herror).named with hfound | ⟨t, ht, hfound⟩
  · rw [hfound]
    exact Registry.grounds_of_placed hfile hend
  · rw [hfound]
    exact Registry.grounds_of_placed hfile (hitems _ (mem_filterMap_token?_iff.mp ht))

/-! ### Registered files -/

namespace Registry

theorem Numbered.find?_id {r : Registry} (h : r.Numbered) {file : SourceFile}
    (hfile : file ∈ r.files) : r.find? file.id = some file := by
  obtain ⟨i, hi⟩ := Array.mem_iff_getElem?.mp hfile
  have hid := h i file hi
  have hindex : (file.id : Int).toNat - 1 = i := by omega
  rw [find?, if_pos (by omega), hindex, hi]

theorem Numbered.id_of_find? {r : Registry} (h : r.Numbered) {id : Int} {file : SourceFile}
    (hfile : r.find? id = some file) : (file.id : Int) = id := by
  unfold find? at hfile
  by_cases hid : 1 ≤ id
  · rw [if_pos hid] at hfile
    have hnumber := h _ _ hfile
    omega
  · rw [if_neg hid] at hfile
    cases hfile

/-- A text that was registered is found under its number. -/
theorem Numbered.find?_add {r : Registry} (h : r.Numbered) (directory path content : String) :
    ∃ file, (r.add directory path content).2.find? (r.add directory path content).1 = some file ∧
      file.content = content := by
  have hregisters := r.registers_add directory path content
  obtain ⟨file, hfile, hid, hcontent⟩ := hregisters.found
  refine ⟨file, ?_, hcontent⟩
  rw [← hid]
  exact (hregisters.numbered h).find?_id hfile

end Registry

/-! ### Sessions -/

namespace Session

/-- The code of a session comes from its registered texts: a move that keeps these keeps the
store. -/
def Grounded (session : Session) : Prop :=
  ∀ m : Move, m.Keeps session.registry → session.store.move m #[] = session.store

section Runs

variable {session : Session} {source path : String} {m : Move}

theorem registry_execute (session : Session) (program : Program) :
    (session.execute program).2.registry = session.registry := by
  unfold execute
  cases program.exec roundLimit nestingLimit { session.store with printed := #[] } <;> rfl

theorem registry_run (session : Session) (source path : String) :
    (session.run source path).session.registry = (session.read source path).2.registry := by
  by_cases herrors : (session.read source path).1.errors = []
  · rw [run_session_of_no_errors herrors, registry_execute]
  · rw [run_session_of_errors herrors]

theorem extends_read (session : Session) (source path : String) :
    session.registry.Extends (session.read source path).2.registry :=
  session.registry.extends_add session.directory path source

/-- A reading is that of a text in the registry that it leaves. -/
theorem exists_reading_eq (hnumbered : session.registry.Numbered) (source path : String) :
    ∃ (id : Nat) (file : SourceFile), (session.read source path).2.registry.find? id = some file ∧
      (session.read source path).1 = Reading.ofText id file.content := by
  obtain ⟨file, hfile, hcontent⟩ := hnumbered.find?_add session.directory path source
  refine ⟨_, file, hfile, ?_⟩
  rw [hcontent]
  rfl

/-- An execution in a grounded session has no places but those of the registry. -/
theorem Grounded.exec_move (h : session.Grounded) (hnumbered : session.registry.Numbered)
    (herrors : (session.read source path).1.errors = [])
    (hm : m.Keeps (session.read source path).2.registry) :
    let r := (session.read source path).1.program.bindNames.exec roundLimit nestingLimit
      session.start
    m.result #[] id r = r := by
  intro r
  have hstore := h m (hm.mono (session.extends_read source path))
  have hstart : session.start.move m #[] = session.start := by
    have hmove : session.start.move m #[] =
        { session.store.move m #[] with printed := #[] } := rfl
    rw [hmove, hstore]
    rfl
  have hprogram : (session.read source path).1.program.bindNames.move m =
      (session.read source path).1.program.bindNames := by
    obtain ⟨id, file, hfile, hreading⟩ := exists_reading_eq hnumbered source path
    rw [hreading] at herrors ⊢
    rw [← Program.bindNames_move, Reading.program_move_eq hm hfile herrors]
  have hexec := Program.exec_move m #[] roundLimit nestingLimit
    (session.read source path).1.program.bindNames session.start
  rw [hprogram, hstart] at hexec
  exact hexec.symm

/-- A run leaves a session grounded, however it ends. -/
theorem Grounded.run (h : session.Grounded) (hnumbered : session.registry.Numbered)
    (source path : String) : (session.run source path).session.Grounded := by
  intro m hm
  rw [registry_run] at hm
  by_cases herrors : (session.read source path).1.errors = []
  · obtain ⟨hstore, _, _⟩ := session.run_of_no_errors source path herrors
    rw [hstore, ← storeOf_move, h.exec_move hnumbered herrors hm]
  · rw [run_session_of_errors herrors]
    exact h m (hm.mono (session.extends_read source path))

end Runs

theorem grounded_new (directory : String) (time : Clock) :
    (Session.new directory time).Grounded := by
  intro m hm
  simp [Session.new, Store.initial, Store.move, Scopes.move, Scope.move, ScopeOrigin.move,
    Table.map, Value.move, BuiltinBody.move, BuiltinBody.clock]

/-- A value that the store of a grounded session provides has no places but those of the
registry. -/
theorem Grounded.provides {session : Session} (h : session.Grounded) {m : Move}
    (hm : m.Keeps session.registry) {value : Value} (hvalue : session.store.Provides value) :
    value.move m = value := by
  have hstore := h m hm
  cases hvalue with
  | literal literal => exact Value.ofLiteral_move m literal
  | @bound id name value hfound =>
    have hscopes : session.store.scopes.move m = session.store.scopes :=
      congrArg Store.scopes hstore
    have hmoved := session.store.scopes.bindings_move m id
    rw [hscopes] at hmoved
    have hmapped := congrArg (Table.find? · name) hmoved
    simp only [Table.find?_map, hfound, Option.map_some] at hmapped
    exact (Option.some.inj hmapped).symm
  | @field table name value htable hfound =>
    have hfields : session.store.fields.map (Table.map (Value.move m)) = session.store.fields :=
      congrArg Store.fields hstore
    obtain ⟨i, hi⟩ := Array.mem_iff_getElem?.mp htable
    have htables := congrArg (·[i]?) hfields
    simp only [Array.getElem?_map, hi, Option.map_some, Option.some.injEq] at htables
    have hmapped := congrArg (Table.find? · name) htables
    simp only [Table.find?_map, hfound, Option.map_some] at hmapped
    exact Option.some.inj hmapped

theorem Grounded.defineBuiltin {session : Session} (h : session.Grounded) (name : String)
    (arity : Int) (body : BuiltinBody Value)
    (hbody : ∀ value, body = .constant value → session.store.Provides value) :
    (session.defineBuiltin name arity body).1.Grounded := by
  intro m hm
  have hm : m.Keeps session.registry := hm
  have hstore := h m hm
  have hvalue : (Value.builtin session.store.nextId name arity body).move m =
      .builtin session.store.nextId name arity body := by
    cases body with
    | computed => rfl
    | constant value =>
      have hconstant := h.provides hm (hbody value rfl)
      simp only [Value.move, BuiltinBody.move, hconstant]
  have hscopes : session.store.scopes.move m = session.store.scopes := congrArg Store.scopes hstore
  have hfields : session.store.fields.map (Table.map (Value.move m)) = session.store.fields :=
    congrArg Store.fields hstore
  have hdefined := session.store.scopes.define_move m globalEnv.scope name
    (.builtin session.store.nextId name arity body)
  rw [hscopes, hvalue] at hdefined
  simp only [Session.defineBuiltin, Store.move, ← hdefined, hfields, Array.empty_append]

/-- Reachable sessions are grounded. -/
theorem Reachable.grounded {session : Session} (h : session.Reachable) : session.Grounded := by
  induction h with
  | new directory time => exact grounded_new directory time
  | run source path h ih => exact ih.run h.settled.numbered source path
  | defineBuiltin name arity body hbody _ ih => exact ih.defineBuiltin name arity body hbody
  | tick time _ ih =>
    intro m hm
    exact congrArg ({ · with time }) (ih m hm)

end Session

/-! ### Diagnostics -/

theorem LexicalError.placed_diagnostic {r : Registry} {file : Int} {f : SourceFile}
    (hfile : r.find? file = some f) {error : LexicalError}
    (h : (ScanItem.error error).Placed file f.chars) : error.diagnostic.Placed r := by
  cases error with
  | unexpectedCharacter site character =>
    obtain ⟨s, hspan, hwithin, hline⟩ := h
    unfold LexicalError.diagnostic
    refine Diagnostic.placed_atSite (by decide) ⟨s, f, hspan, ?_, hwithin.start, hwithin.stop, ?_⟩
    · rw [hwithin.file, hfile]
    · rw [hline, f.lineAt_eq]
  | unterminatedString site =>
    obtain ⟨s, hspan, hwithin, hline⟩ := h
    obtain ⟨line, span⟩ := site
    subst hspan
    have hown : r.find? s.file = some f := by rw [hwithin.file, hfile]
    have hle := s.start_le_stop
    have hstart := hwithin.start
    have hstop : 0 ≤ s.stop := by omega
    refine ⟨fun label hlabel => ?_, _, f, f.positionOf s.stop.toNat, rfl, hown, ?_, ?_⟩
    · obtain rfl := List.mem_singleton.mp hlabel
      exact ⟨f, hown, hwithin.start, hwithin.stop⟩
    · have hcode : (LexicalError.unterminatedString ⟨line, some s⟩).diagnostic.code =
          unterminatedCode := rfl
      rw [Diagnostic.lineOffset, if_pos hcode]
      exact f.position_of_le hstop hwithin.stop
    · exact hline.trans (f.lineAt_eq _)

theorem RuntimeError.site_move (m : Move) (error : RuntimeError) :
    (error.move m).site = m.site error.site := by
  cases error <;> rfl

theorem RuntimeError.declaration?_move (m : Move) (error : RuntimeError) :
    (error.move m).declaration? = error.declaration?.map m.span := by
  cases error <;> rfl

/-- A runtime error that stays where it is has a placed diagnostic. -/
theorem RuntimeError.placed_of_displace {r : Registry} {error : RuntimeError}
    (h : error.move (.displace r) = error) : error.diagnostic.Placed r := by
  apply RuntimeError.placed_diagnostic
  · apply Move.grounds_of_displace_site
    rw [← site_move, h]
  · intro span hspan
    have hmap : error.declaration?.map (Move.displace r).span = error.declaration? := by
      rw [← declaration?_move, h]
    rw [Option.mem_def] at hspan
    rw [hspan, Option.map_some, Option.some.injEq] at hmap
    exact Move.covers_of_displace_span hmap

namespace Session

variable {session : Session} {source path : String}

/-- The errors of a source are placed in the registry in which it was read. -/
theorem placed_of_mem_errors (hnumbered : session.registry.Numbered) {d : Diagnostic}
    (hd : d ∈ (session.read source path).1.errors) :
    d.Placed (session.read source path).2.registry := by
  obtain ⟨file, hfile, hcontent⟩ := hnumbered.find?_add session.directory path source
  rcases List.mem_append.mp hd with hd | hd
  · obtain ⟨error, herror, rfl⟩ := List.mem_map.mp hd
    obtain ⟨item, hitem, hfound⟩ := List.mem_filterMap.mp herror
    obtain ⟨hplaced, _⟩ := placed_scan (session.registry.add session.directory path source).1 source
    have hchars : file.chars = source.toList := by rw [SourceFile.chars, hcontent]
    have hitem := hplaced item hitem
    rw [← hchars] at hitem
    cases item with
    | token => cases hfound
    | error found =>
      obtain rfl := Option.some.inj hfound
      exact LexicalError.placed_diagnostic hfile hitem
  · obtain ⟨error, herror, rfl⟩ := List.mem_map.mp hd
    obtain ⟨id, file, hfile, hreading⟩ := exists_reading_eq hnumbered source path
    rw [hreading] at herror
    exact GrammarError.placed_diagnostic (Reading.grounds_of_mem hfile herror)

/-- The error of an execution is placed in the registry in which its program was read. -/
theorem Grounded.placed_of_failed (h : session.Grounded) (hnumbered : session.registry.Numbered)
    (herrors : (session.read source path).1.errors = [])
    {error : RuntimeError} {later : Store}
    (hexec : (session.read source path).1.program.bindNames.exec roundLimit nestingLimit
      session.start = .error (.failed error) later) :
    error.diagnostic.Placed (session.read source path).2.registry := by
  have hresult := h.exec_move hnumbered herrors
    (Move.keeps_displace (session.read source path).2.registry)
  rw [hexec] at hresult
  have hhalt := (EStateM.Result.error.inj hresult).1
  exact RuntimeError.placed_of_displace (Halt.failed.inj hhalt)

/-- Every diagnostic that a run of a reachable session gives back points into registered texts and
can be rendered, with the sources registered then or at any later time. It has exactly one primary
label, all its labels lie inside registered texts, which may be those of earlier runs, and it names
the line of the primary label. -/
theorem Reachable.run_diagnostics_placed (h : session.Reachable) {diagnostics : List Diagnostic}
    (hresult : (session.run source path).result = .ok diagnostics) {d : Diagnostic}
    (hd : d ∈ diagnostics) {later : Registry}
    (hlater : (session.run source path).session.registry.Extends later) :
    d.Placed later ∧ d.Renders later := by
  have hnumbered := h.settled.numbered
  have hnumbered' : (session.read source path).2.registry.Numbered :=
    (session.registry.registers_add session.directory path source).numbered hnumbered
  rw [registry_run] at hlater
  have hplaced : d.Placed (session.read source path).2.registry := by
    by_cases herrors : (session.read source path).1.errors = []
    · obtain ⟨_, _, houtcome⟩ := session.run_of_no_errors source path herrors
      rcases cases_of_outcomeOf (houtcome.symm.trans hresult) with
        ⟨rfl, _⟩ | ⟨error, _, rfl, hexec⟩
      · exact absurd hd List.not_mem_nil
      · obtain rfl := List.mem_singleton.mp hd
        exact h.grounded.placed_of_failed hnumbered herrors hexec
    · rw [run_result_of_errors herrors] at hresult
      obtain rfl := Except.ok.inj hresult
      exact placed_of_mem_errors hnumbered (List.mem_mergeSort.mp hd)
  refine ⟨hplaced.mono hlater, (hplaced.mono hlater).renders fun label hlabel file hfile => ?_⟩
  -- the text of a label has the number that the label names
  obtain ⟨own, hown, _⟩ := hplaced.covered label hlabel
  rw [hlater _ _ hown] at hfile
  obtain rfl := Option.some.inj hfile
  exact hnumbered'.id_of_find? hown

end Session

/-! ### An error in the code of an earlier run -/

section EarlierCode

/-- The function. -/
def dangling : Program :=
  [.function (.mk "f" []
    [.returning (some (.variable ⟨"g", ⟨1, 18, some (.ofLength 1 17 1)⟩, .global⟩))]
    ⟨1, 5, some (.ofLength 1 4 1)⟩)]

theorem reading_dangling :
    (Reading.ofText 1 "fun f() \x7b return g; \x7d").errors = [] ∧
      (Reading.ofText 1 "fun f() \x7b return g; \x7d").program = dangling := by
  constructor <;> with_unfolding_all rfl

theorem reading_danglingCall :
    (Reading.ofText 2 "print f();").errors = [] ∧
      (Reading.ofText 2 "print f();").program =
        [.print (.call (.variable ⟨"f", ⟨1, 7, some (.ofLength 2 6 1)⟩, .global⟩) []
          ⟨1, 9, some (.ofLength 2 8 1)⟩)] := by
  constructor <;> with_unfolding_all rfl

theorem run_diagnostics_placed_earlierCode :
    let first := (Session.new "/" 0).run "fun f() \x7b return g; \x7d" "<a>"
    let second := first.session.run "print f();" "<b>"
    ∃ d label, first.session.Reachable ∧ second.result = .ok [d] ∧ d.labels = [label] ∧
      label.span.file = 1 ∧ d.Placed second.session.registry ∧
      d.Renders second.session.registry := by
  intro first second
  have hreachable : first.session.Reachable := .run _ _ (.new "/" 0)
  have h : ((Session.new "/" 0).read "fun f() \x7b return g; \x7d" "<a>").1.errors = [] :=
    reading_dangling.1
  have hprogram : ((Session.new "/" 0).read "fun f() \x7b return g; \x7d" "<a>").1.program =
      dangling := reading_dangling.2
  obtain ⟨hstore, _, _⟩ := (Session.new "/" 0).run_of_no_errors _ _ h
  have hregistry := (Session.new "/" 0).registry_run "fun f() \x7b return g; \x7d" "<a>"
  have hnumber : (first.session.registry.add first.session.directory "<b>" "print f();").1 = 2 := by
    rw [hregistry]
    rfl
  have hreading : (first.session.read "print f();" "<b>").1 = Reading.ofText 2 "print f();" := by
    rw [← hnumber]
    rfl
  have h' : (first.session.read "print f();" "<b>").1.errors = [] := by
    rw [hreading]
    exact reading_danglingCall.1
  obtain ⟨_, _, hresult⟩ := first.session.run_of_no_errors _ _ h'
  rw [hreading, reading_danglingCall.2, Session.start, hstore, hprogram] at hresult
  refine ⟨_, _, hreachable, hresult.trans rfl, rfl, rfl, ?_⟩
  exact hreachable.run_diagnostics_placed (hresult.trans rfl) List.mem_cons_self (.refl _)

end EarlierCode

end Treewalk
