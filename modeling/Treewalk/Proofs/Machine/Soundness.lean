import Treewalk.Machine.Evaluate
import Treewalk.Proofs.Binding.Ready
import Treewalk.Proofs.Machine.ScopeGrowth

/-!
# Sound stores

A store is sound when every closure in it is code that is ready in the layout of the scopes it was
made in, the names of its functions and classes are known words, and the scopes of receivers and
superclasses hold what they should. It stays sound while scopes are opened and names get values.
-/

namespace Treewalk

open Grammar (FunctionKind ClassKind Place bodyKind classKind)

/-! ### Values -/

/-- A function whose body is ready in the scopes that it closes over. An initializer closes over
the scope of its receiver. -/
def Closure.Runs (known : Known) (scopes : Scopes) (closure : Closure) : Prop :=
  ∃ (layout : Layout) (place : Place) (method : Bool),
    scopes.Matches layout closure.env.chain ∧ layout.Fits place.enclosing ∧
    closure.declaration.Ready known place method layout ∧
    (closure.initializer = true → ∃ outer, layout = ⟨.receiver, ["this"]⟩ :: outer)

/-- A method whose body is ready once a receiver is put inside the scopes that it closes over. -/
def Closure.IsMethod (known : Known) (scopes : Scopes) (closure : Closure) : Prop :=
  ∃ (layout : Layout) (place : Place),
    scopes.Matches layout closure.env.chain ∧
    Layout.Fits place.enclosing (⟨.receiver, ["this"]⟩ :: layout) ∧
    closure.declaration.Ready known place true (⟨.receiver, ["this"]⟩ :: layout)

/-- A class whose name is known. Every method that it finds is one. -/
structure Class.Sound (known : Known) (scopes : Scopes) (cls : Class) : Prop where
  word : known.word cls.name
  methods : ∀ name method, cls.findMethod? name = some method → method.IsMethod known scopes

/-- A value whose code is ready. -/
inductive Value.Sound (known : Known) (scopes : Scopes) : Value → Prop where
  | nil : Sound known scopes .nil
  | bool (value : Bool) : Sound known scopes (.bool value)
  | number (value : Float) : Sound known scopes (.number value)
  | string (value : String) : Sound known scopes (.string value)
  | function {closure : Closure} (h : closure.Runs known scopes) :
    Sound known scopes (.function closure)
  | constant (id : Nat) {name : String} (hname : known.word name) (arity : Int) {value : Value}
    (h : Sound known scopes value) : Sound known scopes (.builtin id name arity (.constant value))
  | computed (id : Nat) {name : String} (hname : known.word name) (arity : Int)
    (answer : Float → List (Option Literal) → Answer) :
    Sound known scopes (.builtin id name arity (.computed answer))
  | class {cls : Class} (h : cls.Sound known scopes) : Sound known scopes (.class cls)
  | object {inst : Instance} (h : inst.cls.Sound known scopes) : Sound known scopes (.object inst)

section Values

variable {known : Known} {scopes later : Scopes}

theorem Closure.Runs.mono {closure : Closure} (h : closure.Runs known scopes)
    (hgrows : scopes.Grows later) : closure.Runs known later := by
  obtain ⟨layout, place, method, hmatches, hrest⟩ := h
  exact ⟨layout, place, method, hmatches.mono hgrows, hrest⟩

theorem Closure.IsMethod.mono {closure : Closure} (h : closure.IsMethod known scopes)
    (hgrows : scopes.Grows later) : closure.IsMethod known later := by
  obtain ⟨layout, place, hmatches, hrest⟩ := h
  exact ⟨layout, place, hmatches.mono hgrows, hrest⟩

theorem Class.Sound.mono {cls : Class} (h : cls.Sound known scopes)
    (hgrows : scopes.Grows later) : cls.Sound known later :=
  ⟨h.word, fun name method hmethod => (h.methods name method hmethod).mono hgrows⟩

/-- A sound value stays sound while the scopes grow. -/
theorem Value.Sound.mono {value : Value} (h : value.Sound known scopes)
    (hgrows : scopes.Grows later) : value.Sound known later := by
  induction h with
  | nil | bool | number | string => constructor
  | function h => exact .function (h.mono hgrows)
  | constant id hname arity _ ih => exact .constant id hname arity ih
  | computed id hname arity answer => exact .computed id hname arity answer
  | «class» h => exact .class (h.mono hgrows)
  | object h => exact .object (h.mono hgrows)

theorem Value.sound_function_iff {closure : Closure} :
    (Value.function closure).Sound known scopes ↔ closure.Runs known scopes :=
  ⟨fun h => by cases h with | function h => exact h, .function⟩

theorem Value.sound_class_iff {cls : Class} :
    (Value.class cls).Sound known scopes ↔ cls.Sound known scopes :=
  ⟨fun h => by cases h with | «class» h => exact h, .class⟩

theorem Value.sound_object_iff {inst : Instance} :
    (Value.object inst).Sound known scopes ↔ inst.cls.Sound known scopes :=
  ⟨fun h => by cases h with | object h => exact h, .object⟩

theorem Value.sound_ofLiteral (literal : Literal) :
    (Value.ofLiteral literal).Sound known scopes := by
  cases literal <;> constructor

end Values

/-! ### Stores -/

/-- Every value in the store is sound, the scope of a superclass holds a class, and that of a
receiver holds an instance. -/
structure Store.Sound (known : Known) (store : Store) : Prop where
  session : store.scopes.origin? 0 = some .session
  values : ∀ id name value, (store.scopes.bindings id).find? name = some value →
    value.Sound known store.scopes
  superclass : ∀ id value, store.scopes.origin? id = some .superclass →
    (store.scopes.bindings id).find? "super" = some value → ∃ cls, value = .class cls
  receiver : ∀ id value, store.scopes.origin? id = some .receiver →
    (store.scopes.bindings id).find? "this" = some value → ∃ inst, value = .object inst
  fields : ∀ table ∈ store.fields, ∀ name value, table.find? name = some value →
    value.Sound known store.scopes

/-- What a computation keeps, however it ends: scopes only grow, and the environment in force is
the one from before. -/
structure Store.Evolves (store later : Store) : Prop where
  scopes : store.scopes.Grows later.scopes
  current : later.current = store.current

theorem Store.Evolves.refl (store : Store) : store.Evolves store :=
  ⟨.refl _, rfl⟩

theorem Store.Evolves.trans {a b c : Store} (h : a.Evolves b) (h' : b.Evolves c) : a.Evolves c :=
  ⟨h.scopes.trans h'.scopes, h'.current.trans h.current⟩

section Stores

variable {known : Known} {store : Store}

/-- What may be written into a scope: the scope of a superclass keeps a class under `super`, that
of a receiver an instance under `this`. -/
structure Scopes.Admits (scopes : Scopes) (id : ScopeId) (name : String) (value : Value) :
    Prop where
  superclass : scopes.origin? id = some .superclass → name = "super" → ∃ cls, value = .class cls
  receiver : scopes.origin? id = some .receiver → name = "this" → ∃ inst, value = .object inst

theorem Scopes.admits_of_isName {scopes : Scopes} {name : String} (h : IsName name)
    (id : ScopeId) (value : Value) : scopes.Admits id name value :=
  ⟨fun _ hname => absurd hname h.2, fun _ hname => absurd hname h.1⟩

/-- A value may be written where it is admitted if it is sound once it stands there. -/
theorem Store.Sound.define (h : store.Sound known) {id : ScopeId} {name : String} {value : Value}
    (hvalue : value.Sound known (store.scopes.define id name value))
    (hadmits : store.scopes.Admits id name value) :
    Store.Sound known { store with scopes := store.scopes.define id name value } := by
  have hgrows := store.scopes.grows_define id name value
  constructor
  case session => simpa using h.session
  case values =>
    intro key other found hfound
    rcases Scopes.find?_bindings_define hfound with ⟨_, _, rfl⟩ | hold
    · exact hvalue
    · exact (h.values key other found hold).mono hgrows
  -- writing changes no origin, so what is admitted is what the scope may hold
  case superclass =>
    intro key found horigin hfound
    rw [Scopes.origin?_define] at horigin
    rcases Scopes.find?_bindings_define hfound with ⟨rfl, hname, rfl⟩ | hold
    · exact hadmits.superclass horigin hname
    · exact h.superclass key found horigin hold
  case receiver =>
    intro key found horigin hfound
    rw [Scopes.origin?_define] at horigin
    rcases Scopes.find?_bindings_define hfound with ⟨rfl, hname, rfl⟩ | hold
    · exact hadmits.receiver horigin hname
    · exact h.receiver key found horigin hold
  case fields =>
    intro table htable other found hfound
    exact (h.fields table htable other found hfound).mono hgrows

/-- A scope may be opened at any time. -/
theorem Store.Sound.add (h : store.Sound known) (origin : ScopeOrigin) :
    Store.Sound known { store with scopes := (store.scopes.add origin).2 } := by
  have hgrows := store.scopes.grows_add origin
  constructor
  case session => exact hgrows.origin _ _ h.session
  case values =>
    intro key other found hfound
    rw [Scopes.bindings_add] at hfound
    exact (h.values key other found hfound).mono hgrows
  case superclass =>
    intro key found horigin hfound
    rw [Scopes.bindings_add] at hfound
    rw [Scopes.origin?_add] at horigin
    split at horigin
    · -- the new scope has no names
      rename_i hkey
      rw [hkey, Scopes.bindings, Array.getElem?_eq_none (Nat.le_refl _)] at hfound
      cases hfound
    · exact h.superclass key found horigin hfound
  case receiver =>
    intro key found horigin hfound
    rw [Scopes.bindings_add] at hfound
    rw [Scopes.origin?_add] at horigin
    split at horigin
    · rename_i hkey
      rw [hkey, Scopes.bindings, Array.getElem?_eq_none (Nat.le_refl _)] at hfound
      cases hfound
    · exact h.receiver key found horigin hfound
  case fields =>
    intro table htable other found hfound
    exact (h.fields table htable other found hfound).mono hgrows

/-- Soundness depends on the scopes and the fields only. -/
theorem Store.Sound.of_eq (h : store.Sound known) {other : Store}
    (hscopes : other.scopes = store.scopes) (hfields : other.fields = store.fields) :
    other.Sound known := by
  obtain ⟨scopes, fields, nextId, current, printed, time⟩ := other
  subst hscopes hfields
  exact ⟨h.session, h.values, h.superclass, h.receiver, h.fields⟩

theorem Store.Sound.withCurrent (h : store.Sound known) (env : Env) :
    Store.Sound known { store with current := env } :=
  h.of_eq rfl rfl

end Stores

end Treewalk
