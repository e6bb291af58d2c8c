import Treewalk.Proofs.Grammar.StatementCompleteness
import Treewalk.Proofs.Session.Reading
import Treewalk.Proofs.Binding.Uses
import Treewalk.Proofs.Machine.Moment

/-!
# Reachable sessions

A session is reachable if it comes from a new one by running sources and defining builtin
functions. Every program that it ran is that of a registered source, and the number of a source
determines its text. The store of a reachable session is sound, and nothing but the globals is in
force between runs, whether or not the runs succeeded.
-/

namespace Treewalk

open Grammar (DerivesProgram)

/-! ### Sources by number -/

namespace Registry

/-- Every text has its own number, counted from one. -/
def Numbered (r : Registry) : Prop :=
  ∀ (i : Nat) (file : SourceFile), r.files[i]? = some file → file.id = i + 1

theorem Numbered.append {r : Registry} (h : r.Numbered) (path content : String) :
    (r.append path content).2.Numbered := by
  intro i file hfile
  simp only [Registry.append, Array.getElem?_push] at hfile
  split at hfile
  · rename_i hi
    obtain rfl := Option.some.inj hfile
    exact congrArg (· + 1) hi.symm
  · exact h i file hfile

/-- Two texts with one number are one text. -/
theorem Numbered.eq_of_id_eq {r : Registry} (h : r.Numbered) {a b : SourceFile} (ha : a ∈ r.files)
    (hb : b ∈ r.files) (hid : a.id = b.id) : a = b := by
  obtain ⟨i, hi⟩ := Array.mem_iff_getElem?.mp ha
  obtain ⟨j, hj⟩ := Array.mem_iff_getElem?.mp hb
  have hij : i = j := by
    have := h i a hi
    have := h j b hj
    omega
  subst hij
  exact Option.some.inj (hi.symm.trans hj)

/-- What registering a text gives: the registry has a text with that number and content, keeps all
it had, and numbers them as before. -/
structure Registers (r : Registry) (content : String) (id : Nat) (later : Registry) : Prop where
  found : ∃ file ∈ later.files, file.id = id ∧ file.content = content
  kept : ∀ file ∈ r.files, file ∈ later.files
  numbered : r.Numbered → later.Numbered

theorem registers_append (r : Registry) (path content : String) :
    r.Registers content (r.append path content).1 (r.append path content).2 := by
  refine ⟨⟨_, Array.mem_push_self, rfl, rfl⟩, fun file hfile => ?_, fun h => h.append path content⟩
  exact Array.mem_push_of_mem _ hfile

theorem registers_add (r : Registry) (directory path content : String) :
    r.Registers content (r.add directory path content).1 (r.add directory path content).2 := by
  unfold Registry.add
  by_cases hpseudo : Path.isPseudo path = true
  · rw [if_pos hpseudo]
    exact r.registers_append _ content
  · rw [if_neg hpseudo]
    cases hlatest : r.latest? (key directory path) with
    | none => exact r.registers_append _ content
    | some file =>
      have hmem : file ∈ r.files := by
        have := List.mem_of_find?_eq_some hlatest
        simpa using this
      simp only
      by_cases hcontent : file.content = content
      · rw [if_pos hcontent]
        exact ⟨⟨file, hmem, rfl, hcontent⟩, fun _ hfile => hfile, fun h => h⟩
      · rw [if_neg hcontent]
        exact r.registers_append _ content

end Registry

/-! ### Programs without errors -/

/-- The reading of a registered text. -/
def SourceFile.reading (file : SourceFile) : Reading := .ofText file.id file.content

namespace Reading

variable {file : Nat} {text : String}

/-- A reading without errors is one of a program of the grammar. -/
theorem derivesProgram (h : (Reading.ofText file text).errors = []) :
    DerivesProgram (Treewalk.scan file text).tokens (Reading.ofText file text).program := by
  have herrors : (recognise (Treewalk.scan file text).tokens
      (Treewalk.scan file text).endToken).errors = [] := by
    have := (List.append_eq_nil_iff.mp h).2
    exact List.map_eq_nil_iff.mp this
  exact Grammar.derivesProgram_of_recognise_eq (by
    rw [← herrors]
    rfl)

/-- A text whose tokens spell a program is read without errors. -/
theorem of_derivesProgram {tokens : List Token} {program : Program}
    (htokens : (Treewalk.scan file text).tokens = tokens)
    (herrors : (Treewalk.scan file text).errors = []) (h : DerivesProgram tokens program) :
    (Reading.ofText file text).errors = [] ∧ (Reading.ofText file text).program = program := by
  subst htokens
  have hrecognised := h.recognise_eq (Treewalk.scan file text).endToken
  unfold Reading.errors Reading.program Reading.ofText
  simp only
  rw [hrecognised, herrors]
  exact ⟨rfl, rfl⟩

/-- Every construct of a program without errors is in its place. -/
theorem legal (h : (Reading.ofText file text).errors = []) :
    Stmt.AllLegal {} (Reading.ofText file text).program :=
  (derivesProgram h).legal (namesOnly_scan file text)

/-- The uses of names in a program without errors have anchors of their own. -/
theorem nodup_anchors (h : (Reading.ofText file text).errors = []) :
    ((Reading.ofText file text).program.resolutions.map Resolution.anchor).Nodup :=
  (derivesProgram h).nodup_anchors (nodup_anchors_scan file text)

/-- Every use of a name lies in the text that was read. -/
theorem file_of_mem_resolutions (h : (Reading.ofText file text).errors = []) {r : Resolution}
    (hr : r ∈ (Reading.ofText file text).program.resolutions) :
    r.anchor.span.map (·.file) = some (file : Int) := by
  obtain ⟨token, htoken, hanchor⟩ := (derivesProgram h).mem_anchors hr
  rw [← hanchor]
  exact congrArg some (file_of_mem_scan htoken)

end Reading

/-! ### Sessions -/

/-- A value that a builtin function may give: a constant, or one that the store holds. -/
inductive Store.Provides (store : Store) : Value → Prop where
  | literal (literal : Literal) : Provides store (.ofLiteral literal)
  | bound {id : ScopeId} {name : String} {value : Value}
    (h : (store.scopes.bindings id).find? name = some value) : Provides store value
  | field {table : Table Value} {name : String} {value : Value} (htable : table ∈ store.fields)
    (h : table.find? name = some value) : Provides store value

namespace Session

/-- The sessions that come from a new one by running sources and defining builtin functions, while
the clock goes on. -/
inductive Reachable : Session → Prop where
  | new (directory : String) (time : Clock) : Reachable (.new directory time)
  | run {session : Session} (source path : String) (h : Reachable session) :
    Reachable (session.run source path).session
  | defineBuiltin {session : Session} (name : String) (arity : Int) (body : BuiltinBody Value)
    (hbody : ∀ value, body = .constant value → session.store.Provides value)
    (h : Reachable session) : Reachable (session.defineBuiltin name arity body).1
  | tick {session : Session} (time : Clock) (h : Reachable session) :
    Reachable { session with store := { session.store with time } }

/-- The resolutions of a session: those of every registered source that has no errors, and so was
run. -/
def Resolves (session : Session) (r : Resolution) : Prop :=
  ∃ file ∈ session.registry.files, file.reading.errors = [] ∧
    r ∈ file.reading.program.resolutions

/-- What holds of a session between runs. The store is sound for any resolutions that include those
of the session. -/
structure Settled (session : Session) : Prop where
  numbered : session.registry.Numbered
  current : session.store.current = globalEnv
  sound : ∀ known : Resolution → Prop, (∀ r, session.Resolves r → known r) →
    session.store.Sound ⟨.any, known⟩

/-- A node has one resolution in a session. -/
theorem Resolves.eq_of_node_eq {session : Session} (hnumbered : session.registry.Numbered)
    {r r' : Resolution} (h : session.Resolves r) (h' : session.Resolves r')
    (hnode : r.node = r'.node) : r = r' := by
  obtain ⟨file, hfile, herrors, hr⟩ := h
  obtain ⟨file', hfile', herrors', hr'⟩ := h'
  have hanchor : r.anchor = r'.anchor := by rw [Resolution.anchor, Resolution.anchor, hnode]
  -- the anchors name the source, and the number of a source determines it
  have hid : file.id = file'.id := by
    have hnumber := Reading.file_of_mem_resolutions herrors hr
    have hnumber' := Reading.file_of_mem_resolutions herrors' hr'
    rw [hanchor, hnumber'] at hnumber
    exact (Int.ofNat.inj (Option.some.inj hnumber)).symm
  obtain rfl := hnumbered.eq_of_id_eq hfile hfile' hid
  exact List.inj_on_of_nodup_map (Reading.nodup_anchors herrors) hr hr' hanchor

/-! ### Runs -/

section Runs

variable {session : Session} {source path : String}

/-- The reading of a source is that of a registered text. -/
theorem exists_file_read (session : Session) (source path : String) :
    ∃ file ∈ (session.read source path).2.registry.files,
      file.reading = (session.read source path).1 := by
  have hregisters := session.registry.registers_add session.directory path source
  obtain ⟨file, hfile, hid, hcontent⟩ := hregisters.found
  refine ⟨file, hfile, ?_⟩
  rw [SourceFile.reading, hid, hcontent]
  rfl

theorem Resolves.read {r : Resolution} (h : session.Resolves r) :
    (session.read source path).2.Resolves r := by
  obtain ⟨file, hfile, hrest⟩ := h
  have hregisters := session.registry.registers_add session.directory path source
  exact ⟨file, hregisters.kept file hfile, hrest⟩

theorem Settled.read (h : session.Settled) : (session.read source path).2.Settled := by
  have hregisters := session.registry.registers_add session.directory path source
  refine ⟨hregisters.numbered h.numbered, h.current, fun known hknown => ?_⟩
  exact h.sound known fun r hr => hknown r hr.read

/-- Between runs, the environment in force is what the empty layout describes. -/
theorem Settled.matches (h : session.Settled) :
    session.store.scopes.Matches [] session.store.current.chain := by
  rw [h.current]
  exact .session

/-- The program of a source without errors is ready, over any vocabulary of its tokens. -/
theorem ready_of_allOver {known : Known} (herrors : (session.read source path).1.errors = [])
    (hover : Grammar.AllOver known.toVocabulary (session.read source path).1.scan.tokens)
    (hknown : ∀ r, (session.read source path).2.Resolves r → known.resolution r) :
    Stmt.AllReady known {} [] (session.read source path).1.program.bindNames := by
  obtain ⟨file, hfile, hreading⟩ := session.exists_file_read source path
  refine Stmt.ready_bindAll _ (Reading.legal herrors) ((Reading.derivesProgram herrors).over hover)
    fun r hr => hknown r ?_
  rw [← hreading] at herrors hr
  exact ⟨file, hfile, herrors, hr⟩

theorem ready_read {known : Resolution → Prop}
    (herrors : (session.read source path).1.errors = [])
    (hknown : ∀ r, (session.read source path).2.Resolves r → known r) :
    Stmt.AllReady ⟨.any, known⟩ {} [] (session.read source path).1.program.bindNames :=
  ready_of_allOver herrors (fun _ _ => ⟨fun _ => trivial, fun _ _ => trivial, trivial⟩) hknown

/-- A ready program runs safely between runs, whatever the limits. -/
theorem Settled.safe_of_ready (h : session.Settled) {known : Known}
    (hsound : session.store.Sound known) {program : Program}
    (hready : Stmt.AllReady known {} [] program) (rounds depth : Nat) :
    Safe known False (program.exec rounds depth) (fun _ _ => True)
      { session.store with printed := #[] } := by
  have hstart : Store.Sound known { session.store with printed := #[] } := hsound.of_eq rfl rfl
  have hexec := (evalSafe_and_execSafe known rounds depth).2
  exact (safe_execAll hexec {} hstart h.matches .session (fun scope hscope => absurd hscope nofun)
    hready).returnsMono fun hplace => hplace rfl

/-- A program runs safely in a settled session, whatever the limits. -/
theorem Settled.safe (h : session.Settled) {known : Resolution → Prop}
    (herrors : (session.read source path).1.errors = [])
    (hknown : ∀ r, (session.read source path).2.Resolves r → known r) (rounds depth : Nat) :
    Safe ⟨.any, known⟩ False ((session.read source path).1.program.bindNames.exec rounds depth)
      (fun _ _ => True) { session.store with printed := #[] } :=
  h.safe_of_ready (h.sound known fun r hr => hknown r hr.read) (ready_read herrors hknown)
    rounds depth

end Runs

/-- What executing a program safely does to a session. -/
theorem execute_of_safe (session : Session) {program : Program} {known : Known}
    (h : Safe known False (program.exec roundLimit nestingLimit) (fun _ _ => True)
      { session.store with printed := #[] }) :
    (session.execute program).2.registry = session.registry ∧
      (session.execute program).2.store.current = session.store.current ∧
      (session.execute program).2.store.Sound known ∧
      ∀ halt, (session.execute program).1 = some halt →
        halt.Safe known False (session.execute program).2.store := by
  unfold execute
  cases hresult : program.exec roundLimit nestingLimit { session.store with printed := #[] } with
  | ok value later =>
    obtain ⟨hevolves, hsound, _⟩ := h.of_ok hresult
    refine ⟨rfl, hevolves.current, hsound, fun halt hhalt => ?_⟩
    cases hhalt
  | error halt later =>
    obtain ⟨hevolves, hsound, hhalt⟩ := h.of_error hresult
    refine ⟨rfl, hevolves.current, hsound, fun found hfound => ?_⟩
    obtain rfl := Option.some.inj hfound
    exact hhalt

end Session

/-! ### Reachable sessions are settled -/

/-- The clock is the only value of the store before the first run. -/
theorem Store.eq_clock_of_initial {time : Clock} {id : ScopeId} {name : String} {value : Value}
    (hfound : ((Store.initial time).scopes.bindings id).find? name = some value) :
    value = .builtin 0 "clock" 0 .clock := by
  cases id with
  | zero =>
    simp only [Store.initial, Scopes.bindings, List.getElem?_toArray, List.getElem?_cons_zero,
      Table.find?, Table.findIn] at hfound
    split at hfound
    · exact (Option.some.inj hfound).symm
    · cases hfound
  | succ id =>
    have hnone : (Store.initial time).scopes.cells[id + 1]? = none :=
      Array.getElem?_eq_none (Nat.le_add_left 1 id)
    simp only [Scopes.bindings, hnone, Table.find?, Table.findIn] at hfound
    cases hfound

/-- The store before the first run is sound. -/
theorem Store.sound_initial {known : Known} (hclock : known.word "clock") (time : Clock) :
    (Store.initial time).Sound known := by
  have horigin : ∀ id origin, (Store.initial time).scopes.origin? id = some origin →
      origin = .session := by
    intro id origin horigin
    cases id with
    | zero => exact (Option.some.inj horigin).symm
    | succ id =>
      have hnone : (Store.initial time).scopes.cells[id + 1]? = none :=
        Array.getElem?_eq_none (Nat.le_add_left 1 id)
      rw [Scopes.origin?, hnone] at horigin
      cases horigin
  constructor
  case session => rfl
  case values =>
    intro id name value hfound
    rw [Store.eq_clock_of_initial hfound]
    exact .computed 0 hclock 0 _
  case superclass =>
    intro id value h
    cases horigin id _ h
  case receiver =>
    intro id value h
    cases horigin id _ h
  case fields => exact fun table htable => absurd htable (Array.not_mem_empty table)

theorem Store.Provides.sound {store : Store} {value : Value} {known : Known}
    (h : store.Provides value) (hsound : store.Sound known) : value.Sound known store.scopes := by
  cases h with
  | literal literal => exact Value.sound_ofLiteral literal
  | bound h => exact hsound.values _ _ _ h
  | field htable h => exact hsound.fields _ htable _ _ h

namespace Session

theorem settled_new (directory : String) (time : Clock) : (Session.new directory time).Settled :=
  ⟨fun i file hfile => by simp [Session.new] at hfile, rfl,
    fun known _ => Store.sound_initial trivial time⟩

/-- A run leaves a session settled, however it ends. -/
theorem Settled.run {session : Session} (h : session.Settled) (source path : String) :
    (session.run source path).session.Settled := by
  by_cases herrors : (session.read source path).1.errors = []
  · rw [run_session_of_no_errors herrors]
    have hread : (session.read source path).2.Settled := h.read
    -- whatever is known beyond the resolutions of the session, the run keeps the store sound for it
    have hexecute := fun (known : Resolution → Prop)
        (hknown : ∀ r, (session.read source path).2.Resolves r → known r) =>
      (session.read source path).2.execute_of_safe
        (h.safe herrors hknown roundLimit nestingLimit)
    obtain ⟨hregistry, hcurrent, _⟩ := hexecute (fun _ => True) fun _ _ => trivial
    refine ⟨hregistry ▸ hread.numbered, hcurrent.trans h.current, fun known hknown => ?_⟩
    refine (hexecute known fun r hr => hknown r ?_).2.2.1
    unfold Resolves
    rw [hregistry]
    exact hr
  · rw [run_session_of_errors herrors]
    exact h.read

/-- A builtin function may be defined at any time between runs, if its name is known. -/
theorem sound_defineBuiltin {session : Session} {known : Known}
    (hsound : session.store.Sound known) {name : String} (hname : known.word name)
    {arity : Int} {body : BuiltinBody Value}
    (hbody : ∀ value, body = .constant value → session.store.Provides value) :
    (session.defineBuiltin name arity body).1.store.Sound known := by
  have hbuiltin : (Value.builtin session.store.nextId name arity body).Sound known
      session.store.scopes := by
    cases body with
    | constant value => exact .constant _ hname arity ((hbody value rfl).sound hsound)
    | computed answer => exact .computed _ hname arity answer
  -- the globals hold neither receivers nor superclasses
  have hadmits : session.store.scopes.Admits globalEnv.scope name
      (.builtin session.store.nextId name arity body) := by
    have hsession : session.store.scopes.origin? globalEnv.scope = some .session := hsound.session
    constructor
    · intro horigin
      rw [hsession] at horigin
      cases horigin
    · intro horigin
      rw [hsession] at horigin
      cases horigin
  have hdefined := hsound.define (hbuiltin.mono (Scopes.grows_define _ _ _ _)) hadmits
  exact hdefined.of_eq rfl rfl

theorem Settled.defineBuiltin {session : Session} (h : session.Settled) (name : String)
    (arity : Int) (body : BuiltinBody Value)
    (hbody : ∀ value, body = .constant value → session.store.Provides value) :
    (session.defineBuiltin name arity body).1.Settled :=
  ⟨h.numbered, h.current, fun known hknown =>
    sound_defineBuiltin (h.sound known hknown) trivial hbody⟩

theorem Settled.tick {session : Session} (h : session.Settled) (time : Clock) :
    Settled { session with store := { session.store with time } } :=
  ⟨h.numbered, h.current, fun known hknown => (h.sound known hknown).of_eq rfl rfl⟩

/-- Every reachable session is settled. -/
theorem Reachable.settled {session : Session} (h : session.Reachable) : session.Settled := by
  induction h with
  | new directory time => exact settled_new directory time
  | run source path _ ih => exact ih.run source path
  | defineBuiltin name arity body hbody _ ih => exact ih.defineBuiltin name arity body hbody
  | tick time _ ih => exact ih.tick time

end Session

end Treewalk
