import Mathlib.Logic.Relation
import Treewalk.Session.Basic
import Treewalk.Proofs.Machine.Safety

/-!
# Histories of stores

A store changes in small steps. No step closes a scope or takes away a name, and none touches what
the scopes of receivers and superclasses hold. So what such a scope was given when it was opened, it
holds ever after.

A method has a history of its own. It is declared in a class, and closes over the environment of the
class statement, with the superclass in between if there is one. It is bound to a receiver, and the
bound method closes over the receiver besides. Then the bound method is called.
-/

namespace Treewalk

/-! ### Steps -/

/-- What the machine can do to a store. A name that has a value is given another one only if it is
a name that a program can write, or a global. -/
inductive Store.Step (store : Store) : Store → Prop where
  | enter (env : Env) : Step store { store with current := env }
  | number : Step store { store with nextId := store.nextId + 1 }
  | openScope (origin : ScopeOrigin) :
    Step store { store with scopes := (store.scopes.add origin).2 }
  | define (id : ScopeId) (name : String) (value : Value)
    (h : store.scopes.defines id name = true →
      IsName name ∨ store.scopes.origin? id = some .session) :
    Step store { store with scopes := store.scopes.define id name value }
  | newInstance : Step store { store with fields := store.fields.push {} }
  | setField (inst : Instance) (name : String) (value : Value) :
    Step store
      { store with fields := store.fields.modify inst.id fun table => table.insert name value }
  | print (line : String) : Step store { store with printed := store.printed.push line }
  | clear : Step store { store with printed := #[] }
  | tick (time : Clock) : Step store { store with time }

/-- A store that comes from another one by any number of steps. -/
def Store.Later : Store → Store → Prop := Relation.ReflTransGen Store.Step

/-- A store that comes from the one before the first run. -/
def Store.Occurs (store : Store) : Prop := ∃ time, (Store.initial time).Later store

namespace Store

variable {store later : Store}

theorem Later.single (h : store.Step later) : store.Later later := Relation.ReflTransGen.single h

theorem Later.refl (store : Store) : store.Later store := Relation.ReflTransGen.refl

theorem Later.trans {a b c : Store} (h : a.Later b) (h' : b.Later c) : a.Later c :=
  Relation.ReflTransGen.trans h h'

theorem Occurs.mono (h : store.Occurs) (hlater : store.Later later) : later.Occurs := by
  obtain ⟨time, hstore⟩ := h
  exact ⟨time, hstore.trans hlater⟩

theorem Step.grows (h : store.Step later) : store.scopes.Grows later.scopes := by
  cases h with
  | openScope origin => exact store.scopes.grows_add origin
  | define id name value _ => exact store.scopes.grows_define id name value
  | enter | number | newInstance | setField | print | clear | tick => exact .refl _

theorem Later.grows (h : store.Later later) : store.scopes.Grows later.scopes := by
  induction h with
  | refl => exact .refl _
  | tail _ hstep ih => exact ih.trans hstep.grows

/-- Outside the globals, what is no name of a program keeps its value. -/
theorem Step.kept (h : store.Step later) {id : ScopeId} {origin : ScopeOrigin} {name : String}
    {value : Value} (horigin : store.scopes.origin? id = some origin) (hlocal : origin ≠ .session)
    (hname : ¬ IsName name) (hvalue : (store.scopes.bindings id).find? name = some value) :
    (later.scopes.bindings id).find? name = some value := by
  cases h with
  | openScope origin => rwa [Scopes.bindings_add]
  | define key other new hguard =>
    by_cases hsame : key = id ∧ other = name
    · -- the name has a value already, and is neither one of a program nor a global
      obtain ⟨rfl, rfl⟩ := hsame
      have hdefines : store.scopes.defines key other = true :=
        Table.contains_eq_true_iff.mpr ⟨value, hvalue⟩
      rcases hguard hdefines with hother | hsession
      · exact absurd hother hname
      · rw [horigin] at hsession
        exact absurd (Option.some.inj hsession) hlocal
    · by_cases hkey : store.scopes.Exists key
      · rw [Scopes.bindings_define _ _ _ _ _ hkey]
        by_cases hid : key = id
        · rw [if_pos hid, Table.find?_insert, if_neg fun hother => hsame ⟨hid, hother⟩]
          exact hvalue
        · rwa [if_neg hid]
      · rwa [Scopes.define_of_not_exists hkey]
  | enter | number | newInstance | setField | print | clear | tick => exact hvalue

/-- Receivers and superclasses stay. -/
theorem Later.kept (h : store.Later later) {id : ScopeId} {origin : ScopeOrigin} {name : String}
    {value : Value} (horigin : store.scopes.origin? id = some origin) (hlocal : origin ≠ .session)
    (hname : ¬ IsName name) (hvalue : (store.scopes.bindings id).find? name = some value) :
    (later.scopes.bindings id).find? name = some value := by
  induction h with
  | refl => exact hvalue
  | tail hbefore hstep ih =>
    have hgrows : store.scopes.Grows _ := Later.grows hbefore
    exact hstep.kept (hgrows.origin _ _ horigin) hlocal hname ih

theorem Occurs.session (h : store.Occurs) : store.scopes.origin? 0 = some .session := by
  obtain ⟨time, hlater⟩ := h
  exact hlater.grows.origin _ _ rfl

end Store

theorem not_isName_this : ¬ IsName "this" := fun h => h.1 rfl

theorem not_isName_super : ¬ IsName "super" := fun h => h.2 rfl

/-! ### The life of a method -/

namespace Class

/-- The methods that a class itself declares. -/
def methods : Class → Table Closure
  | .base _ _ methods | .derived _ _ methods _ => methods

/-- The superclass of a class that has one. -/
def superclass? : Class → Option Class
  | .base _ _ _ => none
  | .derived _ _ _ superclass => some superclass

@[simp] theorem methods_make (id : Nat) (name : String) (superclass : Option Class)
    (table : Table Closure) : (make id name superclass table).methods = table := by
  cases superclass <;> rfl

@[simp] theorem superclass?_make (id : Nat) (name : String) (superclass : Option Class)
    (table : Table Closure) : (make id name superclass table).superclass? = superclass := by
  cases superclass <;> rfl

end Class

/-- What a class statement inherits from in a store: nothing, or the class for which the name of its
superclass stands there. -/
inductive Store.Inherits (store : Store) : Option Reference → Option Class → Prop where
  | nothing : Inherits store none none
  | superclass {reference : Reference} {cls : Class}
    (h : ∀ rounds depth, Expr.eval rounds (depth + 1) (.variable reference) store =
      .ok (.class cls) store) :
    Inherits store (some reference) (some cls)

/-- A class statement is executed in a store. Afterwards its name stands for the class. -/
structure Store.DeclaresClass (before : Store) (name : String) (parent : Option Reference)
    (methods : List FunctionDecl) (superclass : Option Class) (cls : Class) (after : Store) :
    Prop where
  isName : IsName name
  scope : before.scopes.Exists before.current.scope
  inherits : before.Inherits parent superclass
  executes : ∃ rounds depth,
    Stmt.exec rounds depth (.classDecl name parent methods) before = .ok () after
  bound : (after.scopes.bindings before.current.scope).find? name = some (.class cls)

/-- A method was declared in a class, whose statement stood in an environment and had a superclass,
or none. -/
inductive Store.Declares (store : Store) (outer : Env) (superclass : Option Class)
    (method : Closure) : Prop where
  | intro {before after : Store} {name key : String} {parent : Option Reference}
    {methods : List FunctionDecl} {cls : Class} (hoccurs : before.Occurs)
    (henv : before.current = outer)
    (hclass : before.DeclaresClass name parent methods superclass cls after)
    (hmember : method.declaration ∈ methods) (hmethod : cls.methods.find? key = some method)
    (hlater : after.Later store)

/-- A method that was declared in a class was then bound to a receiver. -/
inductive Store.Binds (store : Store) (outer : Env) (superclass : Option Class) (method : Closure)
    (receiver : Value) (bound : Closure) : Prop where
  | intro {before after : Store} (hdeclared : before.Declares outer superclass method)
    (hbound : method.bindTo receiver before = .ok bound after) (hlater : after.Later store)

/-- A scope was opened inside an environment. -/
inductive Store.Opened (store : Store) (env : Env) (origin : ScopeOrigin) (inner : Env) :
    Prop where
  | intro {before after : Store} (hopened : openScope env origin before = .ok inner after)
    (hlater : after.Later store)

/-- A method that was bound to a receiver was then called. -/
inductive Store.Calls (store : Store) (outer : Env) (superclass : Option Class) (method : Closure)
    (receiver : Value) (bound : Closure) (inner : Env) : Prop where
  | intro {before after : Store} (hbound : before.Binds outer superclass method receiver bound)
    (hopened : openScope bound.env (.call bound.declaration) before = .ok inner after)
    (hlater : after.Later store)

section Life

variable {store later : Store} {outer inner env : Env} {superclass : Option Class}
  {method bound : Closure} {receiver : Value} {origin : ScopeOrigin}

theorem Store.Declares.mono (h : store.Declares outer superclass method)
    (hlater : store.Later later) : later.Declares outer superclass method := by
  obtain ⟨hoccurs, henv, hclass, hmember, hmethod, hbefore⟩ := h
  exact ⟨hoccurs, henv, hclass, hmember, hmethod, hbefore.trans hlater⟩

theorem Store.Binds.mono (h : store.Binds outer superclass method receiver bound)
    (hlater : store.Later later) : later.Binds outer superclass method receiver bound := by
  obtain ⟨hdeclared, hbound, hbefore⟩ := h
  exact ⟨hdeclared, hbound, hbefore.trans hlater⟩

theorem Store.Opened.mono (h : store.Opened env origin inner) (hlater : store.Later later) :
    later.Opened env origin inner := by
  obtain ⟨hopened, hbefore⟩ := h
  exact ⟨hopened, hbefore.trans hlater⟩

theorem Store.Calls.mono (h : store.Calls outer superclass method receiver bound inner)
    (hlater : store.Later later) : later.Calls outer superclass method receiver bound inner := by
  obtain ⟨hbound, hopened, hbefore⟩ := h
  exact ⟨hbound, hopened, hbefore.trans hlater⟩

/-! ### What the scopes around a method hold -/

theorem openScope_eq (env : Env) (origin : ScopeOrigin) (store : Store) :
    openScope env origin store = .ok (env.push store.scopes.cells.size)
      { store with scopes := (store.scopes.add origin).2 } := rfl

theorem Scopes.origin?_add_self (scopes : Scopes) (origin : ScopeOrigin) :
    (scopes.add origin).2.origin? scopes.cells.size = some origin := by
  rw [origin?_add, if_pos rfl]

/-- A scope that was opened stays. -/
theorem Scopes.Exists.mono {scopes later : Scopes} {id : ScopeId} (h : scopes.Exists id)
    (hgrows : scopes.Grows later) : later.Exists id := by
  obtain ⟨cell, hcell⟩ : ∃ cell, scopes.cells[id]? = some cell := ⟨_, Array.getElem?_eq_getElem h⟩
  have horigin : scopes.origin? id = some cell.origin := by
    rw [origin?, hcell]
    rfl
  exact exists_of_origin? (hgrows.origin id _ horigin)

/-- A new scope has no names. -/
theorem Scopes.defines_add_self (scopes : Scopes) (origin : ScopeOrigin) (name : String) :
    (scopes.add origin).2.defines scopes.cells.size name = false := by
  unfold defines
  rw [bindings_add, bindings, Array.getElem?_eq_none (Nat.le_refl _)]
  rfl

/-- A scope that is opened stands just inside the environment and keeps its origin. -/
theorem Store.Opened.scope (h : store.Opened env origin inner) :
    inner.enclosing = env.chain ∧ store.scopes.origin? inner.scope = some origin := by
  obtain ⟨hopened, hlater⟩ := h
  rw [openScope_eq] at hopened
  cases hopened
  exact ⟨rfl, hlater.grows.origin _ _ (Scopes.origin?_add_self _ _)⟩

theorem Store.Calls.opened (h : store.Calls outer superclass method receiver bound inner) :
    store.Opened bound.env (.call bound.declaration) inner := by
  obtain ⟨_, hopened, hlater⟩ := h
  exact ⟨hopened, hlater⟩

theorem Store.Calls.binds (h : store.Calls outer superclass method receiver bound inner) :
    store.Binds outer superclass method receiver bound := by
  obtain ⟨hbound, hopened, hlater⟩ := h
  rw [openScope_eq] at hopened
  cases hopened
  exact hbound.mono ((Store.Later.single (.openScope _)).trans hlater)

/-- A new scope that holds one name. -/
def Scopes.addWith (scopes : Scopes) (origin : ScopeOrigin) (name : String) (value : Value) :
    Scopes :=
  (scopes.add origin).2.define scopes.cells.size name value

theorem Scopes.origin?_addWith_self (scopes : Scopes) (origin : ScopeOrigin) (name : String)
    (value : Value) :
    (scopes.addWith origin name value).origin? scopes.cells.size = some origin := by
  rw [addWith, origin?_define, origin?_add, if_pos rfl]

theorem Scopes.find?_addWith_self (scopes : Scopes) (origin : ScopeOrigin) (name : String)
    (value : Value) :
    ((scopes.addWith origin name value).bindings scopes.cells.size).find? name = some value := by
  have hexists := exists_of_origin? (scopes.origin?_add_self origin)
  rw [addWith, bindings_define _ _ _ _ _ hexists, if_pos rfl, Table.find?_insert, if_pos rfl]

theorem Scopes.find?_bindings_addWith {scopes : Scopes} {origin : ScopeOrigin} {name : String}
    {value : Value} {id : ScopeId} {key : String} {found : Value}
    (h : ((scopes.addWith origin name value).bindings id).find? key = some found) :
    (scopes.bindings id).find? key = some found ∨ found = value := by
  rcases find?_bindings_define h with ⟨_, _, rfl⟩ | hold
  · exact .inr rfl
  · rw [bindings_add] at hold
    exact .inl hold

/-- A name that no program can write may be given a value in a scope that was just opened. -/
theorem Store.later_addWith (store : Store) (origin : ScopeOrigin) (name : String)
    (value : Value) :
    store.Later { store with scopes := store.scopes.addWith origin name value } := by
  refine (Store.Later.single (.openScope origin)).trans (.single (.define _ _ _ ?_))
  intro hdefines
  exact absurd hdefines (by simp [Scopes.defines_add_self])

theorem bindTo_eq (closure : Closure) (receiver : Value) (store : Store) :
    closure.bindTo receiver store =
      .ok ⟨store.nextId, closure.declaration, closure.env.push store.scopes.cells.size,
          closure.initializer⟩
        { store with
          scopes := store.scopes.addWith .receiver "this" receiver
          nextId := store.nextId + 1 } := rfl

/-- Binding puts the receiver in a scope of its own, and numbers the new closure. -/
theorem Closure.later_bindTo {closure : Closure}
    (h : closure.bindTo receiver store = .ok bound later) : store.Later later := by
  rw [bindTo_eq] at h
  cases h
  exact (store.later_addWith .receiver "this" receiver).trans (.single .number)

theorem Store.Binds.declares (h : store.Binds outer superclass method receiver bound) :
    store.Declares outer superclass method := by
  obtain ⟨hdeclared, hbound, hlater⟩ := h
  exact hdeclared.mono ((Closure.later_bindTo hbound).trans hlater)

/-- A bound method has the body of the method. -/
theorem Store.Binds.declaration (h : store.Binds outer superclass method receiver bound) :
    bound.declaration = method.declaration := by
  obtain ⟨_, hbound, _⟩ := h
  rw [bindTo_eq] at hbound
  cases hbound
  rfl

theorem Store.Binds.initializer (h : store.Binds outer superclass method receiver bound) :
    bound.initializer = method.initializer := by
  obtain ⟨_, hbound, _⟩ := h
  rw [bindTo_eq] at hbound
  cases hbound
  rfl

/-- A bound method closes over the receiver, just inside what the method closes over. -/
theorem Store.Binds.scope (h : store.Binds outer superclass method receiver bound) :
    bound.env.enclosing = method.env.chain ∧
      store.scopes.origin? bound.env.scope = some .receiver ∧
      (store.scopes.bindings bound.env.scope).find? "this" = some receiver := by
  obtain ⟨_, hbound, hlater⟩ := h
  rw [bindTo_eq] at hbound
  cases hbound
  rename_i before _
  have horigin := before.scopes.origin?_addWith_self .receiver "this" receiver
  have hthis := before.scopes.find?_addWith_self .receiver "this" receiver
  exact ⟨rfl, hlater.grows.origin _ _ horigin,
    hlater.kept horigin ScopeOrigin.noConfusion not_isName_this hthis⟩

end Life

/-! ### Classes -/

/-- The environment over which the methods of a class close: that of its statement, with the
superclass in between if there is one. -/
inductive Store.ClassEnv (store : Store) (outer : Env) : Option Class → Env → Prop where
  | plain : ClassEnv store outer none outer
  | superclass {cls : Class} {env : Env} (henclosing : env.enclosing = outer.chain)
    (horigin : store.scopes.origin? env.scope = some .superclass)
    (hsuper : (store.scopes.bindings env.scope).find? "super" = some (.class cls)) :
    ClassEnv store outer (some cls) env

theorem Store.ClassEnv.mono {store later : Store} {outer env : Env} {superclass : Option Class}
    (h : store.ClassEnv outer superclass env) (hlater : store.Later later) :
    later.ClassEnv outer superclass env := by
  cases h with
  | plain => exact .plain
  | superclass henclosing horigin hsuper =>
    refine .superclass henclosing (hlater.grows.origin _ _ horigin) ?_
    exact hlater.kept horigin ScopeOrigin.noConfusion not_isName_super hsuper

/-- What declaring a class does: the name gets the class, whose methods close over an environment.
Nothing else changes but that the superclass is put in a scope of its own. -/
structure Store.ClassMade (before : Store) (name : String) (parent : Option Class)
    (declarations : List FunctionDecl) (env : Env) (cls : Class) (after : Store) : Prop where
  superclass : cls.superclass? = parent
  methods : ∀ key method, cls.methods.find? key = some method →
    method.declaration ∈ declarations ∧ method.env = env ∧ method.declaration.name = key ∧
      method.initializer = (key == "init")
  bound : (after.scopes.bindings before.current.scope).find? name = some (.class cls)
  later : before.Later after
  values : ∀ id key value, (after.scopes.bindings id).find? key = some value →
    (before.scopes.bindings id).find? key = some value ∨ value = .nil ∨ value = .class cls ∨
      ∃ superclass, parent = some superclass ∧ value = .class superclass
  fields : after.fields = before.fields
  current : after.current = before.current

theorem Store.later_number (store : Store) (count : Nat) :
    store.Later { store with nextId := store.nextId + count } := by
  induction count with
  | zero => exact .refl store
  | succ count ih => exact ih.trans (.single .number)

/-- Methods are numbered in turn, and close over one environment. The one named `init` is an
initializer. -/
theorem newMethods_eq (env : Env) (methods : List FunctionDecl) (store : Store) :
    ∃ closures : List Closure,
      (methods.mapM fun method => newClosure method env (method.name == "init")) store =
        .ok closures { store with nextId := store.nextId + methods.length } ∧
      ∀ closure ∈ closures, closure.declaration ∈ methods ∧ closure.env = env ∧
        closure.initializer = (closure.declaration.name == "init") := by
  induction methods generalizing store with
  | nil => exact ⟨[], rfl, fun closure hclosure => absurd hclosure List.not_mem_nil⟩
  | cons method rest ih =>
    obtain ⟨closures, hrest, hclosures⟩ := ih { store with nextId := store.nextId + 1 }
    let first : Closure := ⟨store.nextId, method, env, method.name == "init"⟩
    have hfirst : newClosure method env (method.name == "init") store =
        .ok first { store with nextId := store.nextId + 1 } := rfl
    refine ⟨first :: closures, ?_, ?_⟩
    · rw [List.mapM_cons, bind_of_ok hfirst, bind_of_ok hrest, List.length_cons]
      simp only [Nat.add_assoc, Nat.add_comm rest.length]
      rfl
    · refine List.forall_mem_cons.mpr ⟨⟨List.mem_cons_self, rfl, rfl⟩, fun closure hclosure => ?_⟩
      obtain ⟨hmember, hclosed⟩ := hclosures closure hclosure
      exact ⟨List.mem_cons_of_mem _ hmember, hclosed⟩

/-- The last steps of a class declaration: its methods close over an environment, and its name gets
the class. -/
theorem installClass_spec (env : Env) (name : String) (parent : Option Class)
    (declarations : List FunctionDecl) {store : Store} (hname : IsName name)
    (hexists : store.scopes.Exists store.current.scope) :
    ∃ cls after, (do
        let closures ← declarations.mapM fun method =>
          newClosure method env (method.name == "init")
        let table := Table.ofList (closures.map fun closure => (closure.declaration.name, closure))
        defineHere name (.class (.make (← freshId) name parent table)) : EvalM Unit) store =
          .ok () after ∧
      store.ClassMade name parent declarations env cls after := by
  obtain ⟨closures, hclosures, hmembers⟩ := newMethods_eq env declarations store
  let cls := Class.make (store.nextId + declarations.length) name parent
    (Table.ofList (closures.map fun closure => (closure.declaration.name, closure)))
  let numbered : Store := { store with nextId := store.nextId + declarations.length + 1 }
  let after : Store := { numbered with
    scopes := store.scopes.define store.current.scope name (.class cls) }
  refine ⟨cls, after, by rw [bind_of_ok hclosures]; rfl, ?_⟩
  constructor
  case superclass => exact Class.superclass?_make _ _ _ _
  case methods =>
    intro key method hmethod
    rw [Class.methods_make] at hmethod
    obtain ⟨closure, hclosure, heq⟩ := List.mem_map.mp (Table.find?_ofList hmethod)
    obtain ⟨rfl, rfl⟩ := Prod.mk.inj heq
    obtain ⟨hmember, henv, hinitializer⟩ := hmembers closure hclosure
    exact ⟨hmember, henv, rfl, hinitializer⟩
  case bound =>
    show (Scopes.bindings (Scopes.define _ _ _ _) _).find? name = _
    rw [Scopes.bindings_define _ _ _ _ _ hexists, if_pos rfl, Table.find?_insert, if_pos rfl]
  case later =>
    have hnumbered : store.Later numbered := store.later_number (declarations.length + 1)
    exact hnumbered.trans (.single (.define _ _ _ fun _ => .inl hname))
  case values =>
    intro id key value hvalue
    rcases Scopes.find?_bindings_define hvalue with ⟨_, _, rfl⟩ | hold
    · exact .inr (.inr (.inl rfl))
    · exact .inl hold
  case fields => rfl
  case current => rfl

/-- Declaring a class never fails, and does what was said. -/
theorem declareClass_spec {name : String} (parent : Option Class)
    (declarations : List FunctionDecl) {before : Store} (hname : IsName name)
    (hexists : before.scopes.Exists before.current.scope) :
    ∃ env cls after, declareClass name parent declarations before = .ok () after ∧
      before.ClassMade name parent declarations env cls after ∧
      after.ClassEnv before.current parent env := by
  -- the name stands for nil until the class is made
  let named : Store := { before with
    scopes := before.scopes.define before.current.scope name .nil }
  have hnamed : before.Later named := .single (.define _ _ _ fun _ => .inl hname)
  have hexists' : named.scopes.Exists named.current.scope := hexists.mono hnamed.grows
  have hvalues : ∀ id key value, (named.scopes.bindings id).find? key = some value →
      (before.scopes.bindings id).find? key = some value ∨ value = .nil := by
    intro id key value hvalue
    rcases Scopes.find?_bindings_define hvalue with ⟨_, _, rfl⟩ | hold
    · exact .inr rfl
    · exact .inl hold
  cases parent with
  | none =>
    obtain ⟨cls, after, hrun, hmade⟩ :=
      installClass_spec before.current name none declarations hname hexists'
    refine ⟨before.current, cls, after, hrun, { hmade with
      later := hnamed.trans hmade.later, values := ?_ }, .plain⟩
    intro id key value hvalue
    rcases hmade.values id key value hvalue with hold | hnew
    · exact (hvalues id key value hold).imp_right .inl
    · exact .inr hnew
  | some superclass =>
    -- the superclass gets a scope of its own, inside that of the statement
    let env := before.current.push named.scopes.cells.size
    let entered : Store := { named with
      scopes := named.scopes.addWith .superclass "super" (.class superclass) }
    have hentered : named.Later entered :=
      named.later_addWith .superclass "super" (.class superclass)
    have henv : entered.ClassEnv before.current (some superclass) env :=
      .superclass rfl (named.scopes.origin?_addWith_self .superclass "super" (.class superclass))
        (named.scopes.find?_addWith_self .superclass "super" (.class superclass))
    have hexists'' : entered.scopes.Exists entered.current.scope := hexists'.mono hentered.grows
    obtain ⟨cls, after, hrun, hmade⟩ :=
      installClass_spec env name (some superclass) declarations hname hexists''
    refine ⟨env, cls, after, hrun, { hmade with
      later := (hnamed.trans hentered).trans hmade.later, values := ?_ }, henv.mono hmade.later⟩
    intro id key value hvalue
    rcases hmade.values id key value hvalue with hold | hnew
    · rcases Scopes.find?_bindings_addWith hold with hold | rfl
      · exact (hvalues id key value hold).imp_right .inl
      · exact .inr (.inr (.inr ⟨superclass, rfl, rfl⟩))
    · exact .inr hnew

/-- Executing a class statement declares the class, with what it inherits from. -/
theorem Store.Inherits.exec_iff {store after : Store} {name : String} {parent : Option Reference}
    {methods : List FunctionDecl} {superclass : Option Class}
    (h : store.Inherits parent superclass) :
    (∃ rounds depth, Stmt.exec rounds depth (.classDecl name parent methods) store = .ok () after) ↔
      declareClass name superclass methods store = .ok () after := by
  constructor
  · rintro ⟨rounds, depth, hexec⟩
    cases depth with
    | zero => cases hexec
    | succ depth =>
      cases h with
      | nothing => exact hexec
      | superclass hvalue =>
        -- one level is for the statement, and another for the name of the superclass
        cases depth with
        | zero => cases hexec
        | succ depth => exact (bind_of_ok (hvalue rounds depth)).symm.trans hexec
  · intro hdeclare
    cases h with
    | nothing => exact ⟨0, 1, hdeclare⟩
    | superclass hvalue => exact ⟨0, 2, (bind_of_ok (hvalue 0 0)).trans hdeclare⟩

/-- What is known of a method that was declared: its class was made, and its methods close over the
environment of the statement. -/
theorem Store.Declares.made {store : Store} {outer : Env} {superclass : Option Class}
    {method : Closure} (h : store.Declares outer superclass method) :
    ∃ before after name declarations env cls key,
      Store.ClassMade before name superclass declarations env cls after ∧
      store.ClassEnv outer superclass env ∧ cls.methods.find? key = some method := by
  obtain ⟨_, rfl, hclass, _, hmethod, hlater⟩ := h
  obtain ⟨env, made, after, hdeclares, hmade, henv⟩ :=
    declareClass_spec superclass _ hclass.isName hclass.scope
  -- the class that was made is the one that the name got
  obtain rfl : after = _ := by
    have := hdeclares.symm.trans (hclass.inherits.exec_iff.mp hclass.executes)
    cases this
    rfl
  obtain rfl : made = _ := by
    have := hmade.bound.symm.trans hclass.bound
    cases this
    rfl
  exact ⟨_, _, _, _, env, made, _, hmade, henv.mono hlater, hmethod⟩

/-- The methods of a class close over the environment of its statement, with the superclass in
between if there is one. -/
theorem Store.Declares.env {store : Store} {outer : Env} {superclass : Option Class}
    {method : Closure} (h : store.Declares outer superclass method) :
    store.ClassEnv outer superclass method.env := by
  obtain ⟨_, _, _, _, env, cls, key, hmade, henv, hmethod⟩ := h.made
  rw [(hmade.methods key method hmethod).2.1]
  exact henv

/-- A method is an initializer if it is named `init`, and only then. -/
theorem Store.Declares.initializer {store : Store} {outer : Env} {superclass : Option Class}
    {method : Closure} (h : store.Declares outer superclass method) :
    method.initializer = (method.declaration.name == "init") := by
  obtain ⟨_, _, _, _, _, cls, key, hmade, _, hmethod⟩ := h.made
  obtain ⟨_, _, hkey, hinitializer⟩ := hmade.methods key method hmethod
  rw [hinitializer, hkey]

end Treewalk
