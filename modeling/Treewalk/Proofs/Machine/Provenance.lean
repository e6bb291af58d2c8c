import Treewalk.Proofs.Machine.History
import Treewalk.Proofs.Machine.Operators

/-!
# Where environments and values come from

The history of a store explains its environments and its values. An environment in which code runs
is that of the session, or was opened inside another one by a block or by a call of a function, or
by the call of a method that was bound to a receiver. A function value closes over the environment
of its statement, or is a bound method.

A computation is traced if it leads to a later store that is explained again, however it ends. The
operations on the store are traced as long as the names that get values are ones that can be
written.
-/

namespace Treewalk

/-! ### What a history explains -/

/-- What opens a scope inside a function: a block or a call. -/
def ScopeOrigin.IsLocal : ScopeOrigin → Prop
  | .block _ | .call _ => True
  | .session | .receiver | .superclass => False

/-- A scope that a block or a call opened. -/
def Scopes.Local (scopes : Scopes) (id : ScopeId) : Prop :=
  ∃ origin, scopes.origin? id = some origin ∧ origin.IsLocal

theorem Scopes.Local.ne_receiver {scopes : Scopes} {id : ScopeId} (h : scopes.Local id) :
    scopes.origin? id ≠ some .receiver := by
  obtain ⟨origin, horigin, hlocal⟩ := h
  rw [horigin]
  intro hreceiver
  obtain rfl := Option.some.inj hreceiver
  exact hlocal

/-- An environment in which code runs: that of the session, or one that a block or a call of a
function opened inside another, or that of a call of a method. -/
inductive Env.Arises (store : Store) : Env → Prop where
  | session : Arises store globalEnv
  | nested {env inner : Env} {origin : ScopeOrigin} (h : Arises store env)
    (horigin : origin.IsLocal) (hopened : store.Opened env origin inner) : Arises store inner
  | method {outer inner : Env} {superclass : Option Class} {method bound : Closure}
    {receiver : Value} (h : Arises store outer)
    (hcalls : store.Calls outer superclass method receiver bound inner) : Arises store inner

/-- The names that a function declares and assigns are ones that a program can write. -/
def FunctionDecl.Proper (f : FunctionDecl) : Prop :=
  ∃ place method layout, f.Ready .any place method layout

/-- A function value: a function that closes over the environment of its statement, or a method that
was bound to a receiver. -/
inductive Closure.Arises (store : Store) (closure : Closure) : Prop where
  | function (henv : closure.env.Arises store) (hplain : closure.initializer = false)
    (hproper : closure.declaration.Proper)
  | method {outer : Env} {superclass : Option Class} {method : Closure} {receiver : Value}
    (houter : outer.Arises store) (hbinds : store.Binds outer superclass method receiver closure)
    (hproper : closure.declaration.Proper)

/-- Every method that a class finds was declared in a class, under the name that it is found by. -/
def Class.Arises (store : Store) (cls : Class) : Prop :=
  ∀ name method, cls.findMethod? name = some method → method.declaration.name = name ∧
    method.declaration.Proper ∧
    ∃ outer superclass, outer.Arises store ∧ store.Declares outer superclass method

/-- A value whose functions and classes the history explains. -/
inductive Value.Arises (store : Store) : Value → Prop where
  | nil : Arises store .nil
  | bool (value : Bool) : Arises store (.bool value)
  | number (value : Float) : Arises store (.number value)
  | string (value : String) : Arises store (.string value)
  | function {closure : Closure} (h : closure.Arises store) : Arises store (.function closure)
  | constant (id : Nat) (name : String) (arity : Int) {value : Value} (h : Arises store value) :
    Arises store (.builtin id name arity (.constant value))
  | computed (id : Nat) (name : String) (arity : Int)
    (answer : Float → List (Option Literal) → Answer) :
    Arises store (.builtin id name arity (.computed answer))
  | class {cls : Class} (h : cls.Arises store) : Arises store (.class cls)
  | object {inst : Instance} (h : inst.cls.Arises store) : Arises store (.object inst)

/-- A store that its history explains: the environment in force and every value in it arise. -/
structure Store.Explained (store : Store) : Prop where
  occurs : store.Occurs
  current : store.current.Arises store
  values : ∀ id name value, (store.scopes.bindings id).find? name = some value →
    value.Arises store
  fields : ∀ table ∈ store.fields, ∀ name value, table.find? name = some value →
    value.Arises store

section Explanations

variable {store later : Store} {env : Env}

theorem Env.Arises.mono (h : env.Arises store) (hlater : store.Later later) :
    env.Arises later := by
  induction h with
  | session => exact .session
  | nested _ horigin hopened ih => exact .nested ih horigin (hopened.mono hlater)
  | method _ hcalls ih => exact .method ih (hcalls.mono hlater)

theorem Closure.Arises.mono {closure : Closure} (h : closure.Arises store)
    (hlater : store.Later later) : closure.Arises later := by
  cases h with
  | function henv hplain hproper => exact .function (henv.mono hlater) hplain hproper
  | method houter hbinds hproper =>
    exact .method (houter.mono hlater) (hbinds.mono hlater) hproper

theorem Class.Arises.mono {cls : Class} (h : cls.Arises store) (hlater : store.Later later) :
    cls.Arises later := by
  intro name method hmethod
  obtain ⟨hname, hproper, outer, superclass, houter, hdeclares⟩ := h name method hmethod
  exact ⟨hname, hproper, outer, superclass, houter.mono hlater, hdeclares.mono hlater⟩

/-- What a history explains, a longer one does. -/
theorem Value.Arises.mono {value : Value} (h : value.Arises store) (hlater : store.Later later) :
    value.Arises later := by
  induction h with
  | nil | bool | number | string => constructor
  | function h => exact .function (h.mono hlater)
  | constant id name arity _ ih => exact .constant id name arity ih
  | computed id name arity answer => exact .computed id name arity answer
  | «class» h => exact .class (h.mono hlater)
  | object h => exact .object (h.mono hlater)

theorem Value.arises_ofLiteral (literal : Literal) : (Value.ofLiteral literal).Arises store := by
  cases literal <;> constructor

/-- Code runs neither in the scope of a receiver nor in that of a superclass, but inside them. -/
theorem Env.Arises.origin (h : env.Arises store)
    (hsession : store.scopes.origin? 0 = some .session) :
    ∃ origin, store.scopes.origin? env.scope = some origin ∧
      (origin = .session ∨ origin.IsLocal) := by
  cases h with
  | session => exact ⟨.session, hsession, .inl rfl⟩
  | nested _ horigin hopened => exact ⟨_, hopened.scope.2, .inr horigin⟩
  | method _ hcalls => exact ⟨_, hcalls.opened.scope.2, .inr trivial⟩

/-- An environment with a receiver in it belongs to a call of a method: inside that call there are
only blocks and calls of functions. -/
theorem Env.Arises.method_or_plain (h : env.Arises store)
    (hsession : store.scopes.origin? 0 = some .session) :
    (∀ id ∈ env.chain, store.scopes.origin? id ≠ some .receiver) ∨
      ∃ outer superclass method receiver bound inner nested, outer.Arises store ∧
        store.Calls outer superclass method receiver bound inner ∧
        env.chain = nested ++ inner.chain ∧ ∀ id ∈ nested, store.scopes.Local id := by
  induction h with
  | session =>
    left
    intro id hid hreceiver
    obtain rfl := List.mem_singleton.mp hid
    cases hsession.symm.trans hreceiver
  | @nested env inner origin _ horigin hopened ih =>
    obtain ⟨henclosing, hscope⟩ := hopened.scope
    have hchain : inner.chain = inner.scope :: env.chain := by rw [Env.chain, henclosing]
    rcases ih with hplain | ⟨outer, superclass, method, receiver, bound, call, nested, houter,
      hcalls, hnested, hlocal⟩
    · left
      rw [hchain]
      have hlocal : store.scopes.Local inner.scope := ⟨origin, hscope, horigin⟩
      exact List.forall_mem_cons.mpr ⟨hlocal.ne_receiver, hplain⟩
    · right
      refine ⟨outer, superclass, method, receiver, bound, call, inner.scope :: nested, houter,
        hcalls, ?_, List.forall_mem_cons.mpr ⟨⟨origin, hscope, horigin⟩, hlocal⟩⟩
      rw [hchain, hnested, List.cons_append]
  | @method outer inner superclass method bound receiver houter hcalls _ =>
    right
    exact ⟨outer, superclass, method, receiver, bound, inner, [], houter, hcalls, rfl,
      fun id hid => absurd hid List.not_mem_nil⟩

/-- A later store is explained if its new values and its environment are. -/
theorem Store.Explained.extend (h : store.Explained) (hlater : store.Later later)
    (hcurrent : later.current.Arises later)
    (hvalues : ∀ id name value, (later.scopes.bindings id).find? name = some value →
      (store.scopes.bindings id).find? name = some value ∨ value.Arises later)
    (hfields : ∀ table ∈ later.fields, ∀ name value, table.find? name = some value →
      (∃ old ∈ store.fields, old.find? name = some value) ∨ value.Arises later) :
    later.Explained := by
  refine ⟨h.occurs.mono hlater, hcurrent, fun id name value hvalue => ?_,
    fun table htable name value hvalue => ?_⟩
  · rcases hvalues id name value hvalue with hold | hnew
    · exact (h.values id name value hold).mono hlater
    · exact hnew
  · rcases hfields table htable name value hvalue with ⟨old, hold, hfound⟩ | hnew
    · exact (h.fields old hold name value hfound).mono hlater
    · exact hnew

/-- Nothing new needs no explanation. -/
theorem Store.Explained.of_eq (h : store.Explained) (hlater : store.Later later)
    (hscopes : later.scopes = store.scopes) (hfields : later.fields = store.fields)
    (hcurrent : later.current.Arises later) : later.Explained := by
  refine h.extend hlater hcurrent (fun id name value hvalue => .inl ?_)
    (fun table htable name value hvalue => .inl ⟨table, hfields ▸ htable, hvalue⟩)
  rwa [hscopes] at hvalue

end Explanations

/-! ### Traced computations -/

/-- What may cut a traced computation short. Unknown operators are those of no program. -/
def Halt.Arises (store : Store) : Halt → Prop
  | .returned value => value.Arises store
  | .fault (.unknownOperator _) => False
  | .fault _ | .failed _ | .stackExhausted | .loopExhausted => True

/-- From a store, a computation leads to a later store that is explained, and establishes `post`
unless it is cut short. -/
def Traced {α : Type} (x : EvalM α) (post : α → Store → Prop) (store : Store) : Prop :=
  match x store with
  | .ok value later => store.Later later ∧ later.Explained ∧ post value later
  | .error halt later => store.Later later ∧ later.Explained ∧ halt.Arises later

section Combinations

variable {α β : Type} {store : Store}

theorem Traced.of_ok {x : EvalM α} {post : α → Store → Prop} {value : α} {later : Store}
    (hx : Traced x post store) (h : x store = .ok value later) :
    store.Later later ∧ later.Explained ∧ post value later := by
  unfold Traced at hx
  rwa [h] at hx

theorem Traced.of_error {x : EvalM α} {post : α → Store → Prop} {halt : Halt} {later : Store}
    (hx : Traced x post store) (h : x store = .error halt later) :
    store.Later later ∧ later.Explained ∧ halt.Arises later := by
  unfold Traced at hx
  rwa [h] at hx

theorem traced_of_ok {x : EvalM α} {post : α → Store → Prop} {value : α} {later : Store}
    (h : x store = .ok value later) (hlater : store.Later later) (hexplained : later.Explained)
    (hpost : post value later) : Traced x post store := by
  unfold Traced
  rw [h]
  exact ⟨hlater, hexplained, hpost⟩

theorem traced_of_error {x : EvalM α} {post : α → Store → Prop} {halt : Halt} {later : Store}
    (h : x store = .error halt later) (hlater : store.Later later)
    (hexplained : later.Explained) (hhalt : halt.Arises later) : Traced x post store := by
  unfold Traced
  rw [h]
  exact ⟨hlater, hexplained, hhalt⟩

theorem Traced.pure {value : α} {post : α → Store → Prop} (h : store.Explained)
    (hpost : post value store) : Traced (Pure.pure value) post store :=
  traced_of_ok rfl (.refl store) h hpost

theorem Traced.throw {halt : Halt} {post : α → Store → Prop} (h : store.Explained)
    (hhalt : halt.Arises store) : Traced (MonadExcept.throw halt) post store :=
  traced_of_error rfl (.refl store) h hhalt

theorem Traced.fail {error : RuntimeError} {post : α → Store → Prop} (h : store.Explained) :
    Traced (Treewalk.fail error) post store :=
  .throw h trivial

/-- Computations in sequence: the second starts from what the first establishes. -/
theorem Traced.bind {x : EvalM α} {f : α → EvalM β} {middle : α → Store → Prop}
    {post : β → Store → Prop} (hx : Traced x middle store)
    (hf : ∀ value later, store.Later later → later.Explained → middle value later →
      Traced (f value) post later) : Traced (x >>= f) post store := by
  cases hresult : x store with
  | error halt later =>
    obtain ⟨hlater, hexplained, hhalt⟩ := hx.of_error hresult
    exact traced_of_error (bind_of_error hresult) hlater hexplained hhalt
  | ok value later =>
    obtain ⟨hlater, hexplained, hmiddle⟩ := hx.of_ok hresult
    have hnext := hf value later hlater hexplained hmiddle
    cases hresult' : f value later with
    | ok value' last =>
      obtain ⟨hlater', hexplained', hpost⟩ := hnext.of_ok hresult'
      exact traced_of_ok ((bind_of_ok hresult).trans hresult') (hlater.trans hlater')
        hexplained' hpost
    | error halt last =>
      obtain ⟨hlater', hexplained', hhalt⟩ := hnext.of_error hresult'
      exact traced_of_error ((bind_of_ok hresult).trans hresult') (hlater.trans hlater')
        hexplained' hhalt

theorem Traced.getBind {f : Store → EvalM β} {post : β → Store → Prop}
    (h : Traced (f store) post store) : Traced (get >>= f) post store :=
  h

/-- What a computation establishes may be weakened. -/
theorem Traced.mono {x : EvalM α} {post post' : α → Store → Prop} (hx : Traced x post store)
    (himp : ∀ value later, store.Later later → post value later → post' value later) :
    Traced x post' store := by
  cases hresult : x store with
  | ok value later =>
    obtain ⟨hlater, hexplained, hpost⟩ := hx.of_ok hresult
    exact traced_of_ok hresult hlater hexplained (himp value later hlater hpost)
  | error halt later =>
    obtain ⟨hlater, hexplained, hhalt⟩ := hx.of_error hresult
    exact traced_of_error hresult hlater hexplained hhalt

/-- What is explained stays so in another environment, if that arises too. -/
theorem Store.Explained.enter (h : store.Explained) {env : Env} (henv : env.Arises store) :
    Store.Explained { store with current := env } := by
  have hlater : store.Later { store with current := env } := .single (.enter env)
  exact h.of_eq hlater rfl rfl (henv.mono hlater)

theorem Halt.Arises.mono {halt : Halt} {later : Store} (h : halt.Arises store)
    (hlater : store.Later later) : halt.Arises later := by
  cases halt with
  | returned value => exact Value.Arises.mono h hlater
  | fault fault =>
    cases fault with
    | unknownOperator symbol => exact h
    | reach | unboundSuper | superNotAClass => trivial
  | failed | stackExhausted | loopExhausted => trivial

/-- A computation in another environment is traced if it is so there. -/
theorem Traced.within {env : Env} {x : EvalM α} (h : store.Explained)
    (hx : Traced x (fun _ _ => True) { store with current := env }) :
    Traced (Treewalk.within env x) (fun _ _ => True) store := by
  have hentered : store.Later { store with current := env } := .single (.enter env)
  -- the environment from before arises in every later store
  have hleave : ∀ {later : Store}, Store.Later { store with current := env } later →
      later.Explained → store.Later { later with current := store.current } ∧
        Store.Explained { later with current := store.current } := by
    intro later hlater hexplained
    refine ⟨(hentered.trans hlater).trans (.single (.enter _)), hexplained.enter ?_⟩
    exact h.current.mono (hentered.trans hlater)
  cases hresult : x { store with current := env } with
  | ok value later =>
    obtain ⟨hlater, hexplained, _⟩ := hx.of_ok hresult
    obtain ⟨hlater', hexplained'⟩ := hleave hlater hexplained
    exact traced_of_ok (within_of_ok hresult) hlater' hexplained' trivial
  | error halt later =>
    obtain ⟨hlater, hexplained, hhalt⟩ := hx.of_error hresult
    obtain ⟨hlater', hexplained'⟩ := hleave hlater hexplained
    exact traced_of_error (within_of_error hresult) hlater' hexplained'
      (hhalt.mono (.single (.enter _)))

/-- A caught `return` gives a value that arises. -/
theorem Traced.catchReturn {x : EvalM Unit} {post : Unit → Store → Prop}
    (hx : Traced x post store) :
    Traced (Treewalk.catchReturn x)
      (fun returned later => ∀ value ∈ returned, value.Arises later) store := by
  cases hresult : x store with
  | ok value later =>
    obtain ⟨hlater, hexplained, _⟩ := hx.of_ok hresult
    have hcaught : Treewalk.catchReturn x store = .ok none later := by
      rw [Treewalk.catchReturn, hresult]
    exact traced_of_ok hcaught hlater hexplained fun value hvalue => absurd hvalue (by simp)
  | error halt later =>
    obtain ⟨hlater, hexplained, hhalt⟩ := hx.of_error hresult
    cases halt with
    | returned value =>
      have hcaught : Treewalk.catchReturn x store = .ok (some value) later := by
        rw [Treewalk.catchReturn, hresult]
      refine traced_of_ok hcaught hlater hexplained fun found hfound => ?_
      obtain rfl := Option.some.inj hfound
      exact hhalt
    | fault fault =>
      exact traced_of_error (by rw [Treewalk.catchReturn, hresult]) hlater hexplained hhalt
    | failed error =>
      exact traced_of_error (by rw [Treewalk.catchReturn, hresult]) hlater hexplained hhalt
    | stackExhausted =>
      exact traced_of_error (by rw [Treewalk.catchReturn, hresult]) hlater hexplained hhalt
    | loopExhausted =>
      exact traced_of_error (by rw [Treewalk.catchReturn, hresult]) hlater hexplained hhalt

/-- A loop is traced if its condition and its body are, from every explained store. -/
theorem Traced.whileTrue {limit : Nat} {condition : EvalM Bool} {body : EvalM Unit}
    (h : store.Explained)
    (hcondition : ∀ store : Store, store.Explained → Traced condition (fun _ _ => True) store)
    (hbody : ∀ store : Store, store.Explained → Traced body (fun _ _ => True) store) :
    Traced (Treewalk.whileTrue limit condition body) (fun _ _ => True) store := by
  induction limit generalizing store with
  | zero => exact Traced.throw h trivial
  | succ limit ih =>
    rw [Treewalk.whileTrue]
    refine (hcondition store h).bind fun goesOn later _ h _ => ?_
    cases goesOn with
    | false => exact Traced.pure h trivial
    | true => exact (hbody later h).bind fun _ last _ h _ => ih h

end Combinations

/-! ### Operations on the store -/

section Operations

variable {store : Store}

theorem traced_freshId (h : store.Explained) : Traced freshId (fun _ _ => True) store := by
  have hlater : store.Later { store with nextId := store.nextId + 1 } := .single .number
  exact traced_of_ok rfl hlater (h.of_eq hlater rfl rfl (h.current.mono hlater)) trivial

theorem traced_readClock (h : store.Explained) : Traced readClock (fun _ _ => True) store := by
  have hlater : store.Later { store with time := store.time.later } := .single (.tick _)
  exact traced_of_ok rfl hlater (h.of_eq hlater rfl rfl (h.current.mono hlater)) trivial

theorem traced_printLine (h : store.Explained) (line : String) :
    Traced (printLine line) (fun _ _ => True) store := by
  have hlater : store.Later { store with printed := store.printed.push line } :=
    .single (.print line)
  exact traced_of_ok rfl hlater (h.of_eq hlater rfl rfl (h.current.mono hlater)) trivial

theorem traced_openScope (h : store.Explained) (env : Env) (origin : ScopeOrigin) :
    Traced (openScope env origin) (fun inner later => openScope env origin store = .ok inner later)
      store := by
  have hlater : store.Later { store with scopes := (store.scopes.add origin).2 } :=
    .single (.openScope origin)
  refine traced_of_ok (openScope_eq env origin store) hlater ?_ rfl
  refine h.extend hlater (h.current.mono hlater) (fun id name value hvalue => .inl ?_)
    fun table htable name value hvalue => .inl ⟨table, htable, hvalue⟩
  rwa [Scopes.bindings_add] at hvalue

/-- A value that arises may be given to a name that a program can write. -/
theorem traced_defineAt (h : store.Explained) (id : ScopeId) {name : String} {value : Value}
    (hname : IsName name) (hvalue : value.Arises store) :
    Traced (defineAt id name value) (fun _ _ => True) store := by
  have hlater : store.Later { store with scopes := store.scopes.define id name value } :=
    .single (.define id name value fun _ => .inl hname)
  refine traced_of_ok rfl hlater ?_ trivial
  refine h.extend hlater (h.current.mono hlater) (fun key other found hfound => ?_)
    fun table htable name value hvalue => .inl ⟨table, htable, hvalue⟩
  rcases Scopes.find?_bindings_define hfound with ⟨_, _, rfl⟩ | hold
  · exact .inr (hvalue.mono hlater)
  · exact .inl hold

theorem traced_defineHere (h : store.Explained) {name : String} {value : Value}
    (hname : IsName name) (hvalue : value.Arises store) :
    Traced (defineHere name value) (fun _ _ => True) store :=
  Traced.getBind (traced_defineAt h _ hname hvalue)

/-- A field of an instance is among the fields of the store. -/
theorem Store.exists_of_fieldsOf {store : Store} {inst : Instance} {name : String} {value : Value}
    (h : (store.fieldsOf inst).find? name = some value) :
    ∃ table ∈ store.fields, table.find? name = some value := by
  unfold Store.fieldsOf at h
  rw [Array.getD_eq_getD_getElem?] at h
  cases hget : store.fields[inst.id]? with
  | none =>
    rw [hget] at h
    cases h
  | some table =>
    rw [hget] at h
    exact ⟨table, Array.mem_of_getElem? hget, h⟩

/-- The fields after one was set hold the new value and what they held before. -/
theorem Store.field_of_setField {fields : Array (Table Value)} {id : Nat} {name key : String}
    {value found : Value} {table : Table Value}
    (htable : table ∈ fields.modify id fun table => table.insert name value)
    (hfound : table.find? key = some found) :
    (∃ old ∈ fields, old.find? key = some found) ∨ found = value := by
  obtain ⟨i, hi⟩ := Array.mem_iff_getElem?.mp htable
  rw [Array.getElem?_modify] at hi
  by_cases hid : id = i
  · rw [if_pos hid] at hi
    obtain ⟨old, hold, rfl⟩ := Option.map_eq_some_iff.mp hi
    rw [Table.find?_insert] at hfound
    by_cases hkey : name = key
    · rw [if_pos hkey] at hfound
      exact .inr (Option.some.inj hfound).symm
    · rw [if_neg hkey] at hfound
      exact .inl ⟨old, Array.mem_of_getElem? hold, hfound⟩
  · rw [if_neg hid] at hi
    exact .inl ⟨table, Array.mem_of_getElem? hi, hfound⟩

theorem traced_setField (h : store.Explained) (inst : Instance) (name : String) {value : Value}
    (hvalue : value.Arises store) : Traced (setField inst name value) (fun _ _ => True) store := by
  have hlater : store.Later { store with
      fields := store.fields.modify inst.id fun table => table.insert name value } :=
    .single (.setField inst name value)
  refine traced_of_ok rfl hlater ?_ trivial
  refine h.extend hlater (h.current.mono hlater) (fun _ _ _ hfound => .inl hfound) ?_
  intro table htable key found hfound
  rcases Store.field_of_setField htable hfound with hold | rfl
  · exact .inl hold
  · exact .inr (hvalue.mono hlater)

theorem traced_newInstance (h : store.Explained) (cls : Class) :
    Traced (newInstance cls) (fun inst _ => inst.cls = cls) store := by
  have hlater : store.Later { store with fields := store.fields.push {} } := .single .newInstance
  refine traced_of_ok rfl hlater ?_ rfl
  refine h.extend hlater (h.current.mono hlater) (fun _ _ _ hfound => .inl hfound) ?_
  intro table htable key found hfound
  rcases Array.mem_push.mp htable with htable | rfl
  · exact .inl ⟨table, htable, hfound⟩
  · cases hfound

theorem traced_newClosure (h : store.Explained) (declaration : FunctionDecl) (env : Env)
    (initializer : Bool) :
    Traced (newClosure declaration env initializer)
      (fun closure _ => closure.declaration = declaration ∧ closure.env = env ∧
        closure.initializer = initializer) store :=
  (traced_freshId h).bind fun _ _ _ h _ => Traced.pure h ⟨rfl, rfl, rfl⟩

/-- A method that was declared gives a bound method, whatever its receiver. -/
theorem traced_bindTo (h : store.Explained) {cls : Class} (hcls : cls.Arises store)
    {name : String} {method : Closure} (hmethod : cls.findMethod? name = some method)
    {receiver : Value} (hreceiver : receiver.Arises store) :
    Traced (method.bindTo receiver) (fun bound later => bound.Arises later) store := by
  obtain ⟨_, hproper, outer, superclass, houter, hdeclares⟩ := hcls name method hmethod
  have hrun := bindTo_eq method receiver store
  have hlater := Closure.later_bindTo hrun
  refine traced_of_ok hrun hlater ?_ ?_
  · refine h.extend hlater (h.current.mono hlater) (fun id key value hvalue => ?_)
      fun table htable key value hvalue => .inl ⟨table, htable, hvalue⟩
    rcases Scopes.find?_bindings_addWith hvalue with hold | rfl
    · exact .inl hold
    · exact .inr (hreceiver.mono hlater)
  · exact .method (houter.mono hlater) ⟨hdeclares, hrun, .refl _⟩ hproper

/-! ### Names -/

theorem Scopes.find?_of_getAt {scopes : Scopes} {env : Env} {hops : Nat} {name : String}
    {value : Value} (h : scopes.getAt env hops name = .ok value) :
    ∃ id, (scopes.bindings id).find? name = some value := by
  unfold getAt at h
  cases hreach : Scopes.reach env hops with
  | error fault =>
    rw [hreach] at h
    cases h
  | ok id =>
    rw [hreach] at h
    refine ⟨id, ?_⟩
    cases hfind : (scopes.bindings id).find? name with
    | none =>
      simp only [bind, Except.bind, hfind] at h
      cases h
    | some found =>
      simp only [bind, Except.bind, hfind] at h
      cases h
      rfl

theorem Scopes.exists_of_find? {scopes : Scopes} {name : String} {value : Value}
    {chain : List ScopeId} (h : scopes.find? name chain = some value) :
    ∃ id, (scopes.bindings id).find? name = some value := by
  induction chain with
  | nil => cases h
  | cons id outer ih =>
    rw [Scopes.find?] at h
    cases hfind : (scopes.bindings id).find? name with
    | none =>
      rw [hfind] at h
      exact ih h
    | some found =>
      rw [hfind] at h
      exact ⟨id, hfind.trans h⟩

/-- What is found by counting scopes is in the store. -/
theorem traced_reaching (h : store.Explained) (env : Env) (hops : Nat) (name : String) :
    Traced (reaching (store.scopes.getAt env hops name))
      (fun value later => later = store ∧ value.Arises store) store := by
  cases hgetAt : store.scopes.getAt env hops name with
  | error fault => exact Traced.throw h trivial
  | ok value =>
    obtain ⟨id, hfind⟩ := Scopes.find?_of_getAt hgetAt
    exact Traced.pure h ⟨rfl, h.values id name value hfind⟩

/-- Reading a name changes nothing. -/
theorem traced_readName (h : store.Explained) (name : String) (binding : Binding) (site : Site) :
    Traced (readName name binding site)
      (fun value later => later = store ∧ value.Arises store) store := by
  refine Traced.getBind ?_
  cases binding with
  | enclosing hops => exact traced_reaching h store.current hops name
  | global =>
    unfold Scopes.get
    cases hfind : store.scopes.find? name globalEnv.chain with
    | none => exact Traced.fail h
    | some value =>
      obtain ⟨id, hvalue⟩ := Scopes.exists_of_find? hfind
      exact Traced.pure h ⟨rfl, h.values id name value hvalue⟩

theorem traced_targetScope (h : store.Explained) (name : String) (binding : Binding)
    (site : Site) :
    Traced (targetScope name binding site) (fun _ later => later = store) store := by
  refine Traced.getBind ?_
  cases binding with
  | enclosing hops =>
    show Traced (reaching (Scopes.reach store.current hops)) _ store
    cases Scopes.reach store.current hops with
    | error fault => exact Traced.throw h trivial
    | ok id => exact Traced.pure h rfl
  | global =>
    cases store.scopes.holder? name globalEnv.chain with
    | none => exact Traced.fail h
    | some id => exact Traced.pure h rfl

theorem traced_writeName (h : store.Explained) {name : String} (binding : Binding) (site : Site)
    {value : Value} (hname : IsName name) (hvalue : value.Arises store) :
    Traced (writeName name binding site value) (fun _ _ => True) store := by
  rw [writeName_eq]
  refine (traced_targetScope h name binding site).bind fun id later _ h hlater => ?_
  subst hlater
  exact traced_defineAt h id hname hvalue

/-! ### Operators and builtin functions -/

theorem traced_applyBinary (h : store.Explained) {op : BinaryOp} (hop : op ∈ BinaryOp.known)
    (left right : Value) (site : Site) :
    Traced (applyBinary op left right site) (fun value later => value.Arises later) store := by
  have houtcome := applyBinary_outcome op left right
  generalize applyBinary op left right = run at houtcome ⊢
  cases houtcome with
  | plain literal => exact Traced.pure h (Value.arises_ofLiteral literal)
  | divisionByZero | operands => exact Traced.fail h
  | unknown symbol hsymbol => simp [hsymbol, BinaryOp.known] at hop

theorem traced_applyUnary (h : store.Explained) (op : UnaryOp) (operand : Value) (site : Site) :
    Traced (applyUnary op operand site) (fun value later => value.Arises later) store := by
  unfold applyUnary
  split
  · exact Traced.pure h (.number _)
  · exact Traced.fail h
  · exact Traced.pure h (.bool _)

end Operations

end Treewalk
