import Treewalk.Proofs.Binding.Twins
import Treewalk.Proofs.Machine.Soundness

/-!
# Stores that are twins

Two runs that open different scopes along the way can still have the same effect. A pairing says
which scopes of the two stores are the same, and which of them are renamed; the other scopes belong
to one run only. Values are twins when they are the same but for the code of functions, which must
be twins along links to paired scopes in the environments that the functions close over. Stores are
twins when the names of paired scopes correspond and have values that are twins, the fields of
instances are twins, and everything else is equal.

A pairing only ever grows, and what is a twin stays one while it does.
-/

namespace Treewalk

theorem rel_imp {α : Type} {R S : α → α → Prop} {a b : Option α} (h : Option.Rel R a b)
    (himp : ∀ x y, R x y → S x y) : Option.Rel S a b := by
  cases h with
  | none => exact .none
  | some h => exact .some (himp _ _ h)

/-! ### Tables -/

/-- Tables that give names that correspond values that are related. -/
def Table.Twin {α : Type} (names : String → String → Prop) (R : α → α → Prop)
    (table table' : Table α) : Prop :=
  ∀ ⦃name name'⦄, names name name' → Option.Rel R (table.find? name) (table'.find? name')

namespace Table

variable {α : Type} {names : String → String → Prop} {R : α → α → Prop} {table table' : Table α}

theorem twin_empty (names : String → String → Prop) (R : α → α → Prop) :
    Table.Twin names R {} {} :=
  fun _ _ _ => .none

theorem Twin.imp {S : α → α → Prop} (h : table.Twin names R table')
    (himp : ∀ x y, R x y → S x y) : table.Twin names S table' :=
  fun _ _ hname => rel_imp (h hname) himp

/-- Giving names that correspond values that are related. Another name corresponds to another one,
so it keeps its value in both tables. -/
theorem Twin.insertBoth (h : table.Twin names R table') {name name' : String} {value value' : α}
    (hname : ∀ ⦃key key'⦄, names key key' → (name = key ↔ name' = key')) (hvalue : R value value') :
    (table.insert name value).Twin names R (table'.insert name' value') := by
  intro key key' hkey
  rw [find?_insert, find?_insert]
  by_cases heq : name = key
  · rw [if_pos heq, if_pos ((hname hkey).mp heq)]
    exact .some hvalue
  · rw [if_neg heq, if_neg fun heq' => heq ((hname hkey).mpr heq')]
    exact h hkey

theorem Twin.insert (h : table.Twin Eq R table') (name : String) {value value' : α}
    (hvalue : R value value') : (table.insert name value).Twin Eq R (table'.insert name value') :=
  h.insertBoth (fun _ _ hkey => hkey ▸ Iff.rfl) hvalue

theorem twin_refl_of_forall (hnames : ∀ ⦃name name'⦄, names name name' → name' = name)
    (h : ∀ name value, table.find? name = some value → R value value) :
    table.Twin names R table := by
  intro name name' hname
  rw [hnames hname]
  cases hfound : table.find? name with
  | none => exact .none
  | some value => exact .some (h name value hfound)

end Table

/-! ### The fields of instances -/

section Fields

variable {α : Type} {R : α → α → Prop} {absent : α} {items items' : Array α}

/-- Items that are related at every place stay so when one place changes in both. -/
theorem getD_modify_rel (habsent : R absent absent) (hsize : items'.size = items.size)
    (h : ∀ id, R (items.getD id absent) (items'.getD id absent)) {f f' : α → α}
    (hf : ∀ x x', R x x' → R (f x) (f' x')) (place id : Nat) :
    R ((items.modify place f).getD id absent) ((items'.modify place f').getD id absent) := by
  have hitems := h id
  simp only [Array.getD_eq_getD_getElem?, Array.getElem?_modify] at hitems ⊢
  by_cases hid : place = id
  · rw [if_pos hid, if_pos hid]
    -- a place that exists on one side exists on the other
    by_cases hlt : id < items.size
    · have hlt' : id < items'.size := hsize ▸ hlt
      rw [Array.getElem?_eq_getElem hlt, Array.getElem?_eq_getElem hlt'] at hitems ⊢
      exact hf _ _ hitems
    · have hlt' : ¬ id < items'.size := hsize ▸ hlt
      rw [Array.getElem?_eq_none (Nat.le_of_not_lt hlt),
        Array.getElem?_eq_none (Nat.le_of_not_lt hlt')]
      exact habsent
  · rw [if_neg hid, if_neg hid]
    exact hitems

theorem getD_push_rel (hsize : items'.size = items.size)
    (h : ∀ id, R (items.getD id absent) (items'.getD id absent)) {x x' : α} (hx : R x x')
    (id : Nat) :
    R ((items.push x).getD id absent) ((items'.push x').getD id absent) := by
  have hitems := h id
  simp only [Array.getD_eq_getD_getElem?, Array.getElem?_push] at hitems ⊢
  rw [hsize]
  by_cases hid : id = items.size
  · rw [if_pos hid, if_pos hid]
    exact hx
  · rw [if_neg hid, if_neg hid]
    exact hitems

end Fields

/-! ### Pairings -/

/-- Which scopes of two stores are the same, and whether they are renamed. -/
abbrev Pairing := ScopeId → ScopeId → Bool → Prop

namespace Pairing

/-- What was paired stays paired. -/
def Grows (P later : Pairing) : Prop := ∀ ⦃id id' marked⦄, P id id' marked → later id id' marked

/-- The pairing with one more pair. -/
def add (P : Pairing) (first second : ScopeId) (marked : Bool) : Pairing :=
  fun id id' mark => P id id' mark ∨ id = first ∧ id' = second ∧ mark = marked

/-- Linked distances along two chains lead to paired scopes, or both past the end. -/
def Aligned (P : Pairing) (links : Links) (chain chain' : List ScopeId) : Prop :=
  ∀ ⦃hops hops' marked⦄, links hops hops' marked →
    Option.Rel (P · · marked) chain[hops]? chain'[hops']?

variable {P later : Pairing} {links : Links} {chain chain' : List ScopeId}

theorem Grows.refl (P : Pairing) : P.Grows P := fun _ _ _ h => h

theorem Grows.trans {last : Pairing} (h : P.Grows later) (h' : later.Grows last) : P.Grows last :=
  fun _ _ _ hpair => h' (h hpair)

theorem grows_add (P : Pairing) (first second : ScopeId) (marked : Bool) :
    P.Grows (P.add first second marked) :=
  fun _ _ _ => .inl

theorem add_self (P : Pairing) (first second : ScopeId) (marked : Bool) :
    P.add first second marked first second marked :=
  .inr ⟨rfl, rfl, rfl⟩

theorem Aligned.mono (h : P.Aligned links chain chain') (hgrows : P.Grows later) :
    later.Aligned links chain chain' :=
  fun _ _ _ hlinks => rel_imp (h hlinks) fun _ _ hpair => hgrows hpair

/-- Two paired scopes in front of chains that are aligned. -/
theorem Aligned.enter (h : P.Aligned links chain chain') {id id' : ScopeId} {marked : Bool}
    (hpair : P id id' marked) : P.Aligned (links.enter marked) (id :: chain) (id' :: chain') := by
  intro hops hops' mark hlinks
  cases hops with
  | zero =>
    cases hops' with
    | zero =>
      obtain rfl : mark = marked := hlinks
      exact .some hpair
    | succ => exact hlinks.elim
  | succ hops =>
    cases hops' with
    | zero => exact hlinks.elim
    | succ hops' => exact h hlinks

theorem Aligned.enterFirst (h : P.Aligned links chain chain') (id : ScopeId) :
    P.Aligned links.enterFirst (id :: chain) chain' := by
  intro hops hops' marked hlinks
  cases hops with
  | zero => exact hlinks.elim
  | succ hops => exact h hlinks

theorem Aligned.enterSecond (h : P.Aligned links chain chain') (id : ScopeId) :
    P.Aligned links.enterSecond chain (id :: chain') := by
  intro hops hops' marked hlinks
  cases hops' with
  | zero => exact hlinks.elim
  | succ hops' => exact h hlinks

end Pairing

/-! ### Values -/

/-- Closures with one identity over environments that are aligned. -/
structure Closure.TwinOver (P : Pairing) (links : Links) (closure closure' : Closure) : Prop where
  id : closure'.id = closure.id
  initializer : closure'.initializer = closure.initializer
  aligned : P.Aligned links closure.env.chain closure'.env.chain

/-- Functions that are twins. An initializer finds its receiver in the innermost scope. -/
structure Closure.TwinIn (ρ : Leeway) (P : Pairing) (links : Links)
    (closure closure' : Closure) : Prop
    extends closure.TwinOver P links closure' where
  declaration : closure.declaration.Twin ρ links closure'.declaration
  receiver : closure.initializer = true → ∃ marked, links 0 0 marked

/-- Functions that are twins along some links. -/
def Closure.Twin (ρ : Leeway) (P : Pairing) (closure closure' : Closure) : Prop :=
  ∃ links, closure.TwinIn ρ P links closure'

/-- Methods that are twins: their code runs once a receiver is put inside the scopes that they close
over, which is not renamed. -/
def Closure.TwinMethods (ρ : Leeway) (P : Pairing) (closure closure' : Closure) : Prop :=
  ∃ links, closure.TwinOver P links closure' ∧
    closure.declaration.Twin ρ (links.enter false) closure'.declaration

/-- Classes that find methods that are twins. -/
structure Class.Twin (ρ : Leeway) (P : Pairing) (cls cls' : Class) : Prop where
  id : cls'.id = cls.id
  name : cls'.name = cls.name
  methods : ∀ name, Option.Rel (Closure.TwinMethods ρ P) (cls.findMethod? name)
    (cls'.findMethod? name)

/-- Values that are the same but for the code of functions. -/
inductive Value.Twin (ρ : Leeway) (P : Pairing) : Value → Value → Prop where
  | nil : Twin ρ P .nil .nil
  | bool (value : Bool) : Twin ρ P (.bool value) (.bool value)
  | number (value : Float) : Twin ρ P (.number value) (.number value)
  | string (value : String) : Twin ρ P (.string value) (.string value)
  | function {closure closure' : Closure} (h : closure.Twin ρ P closure') :
    Twin ρ P (.function closure) (.function closure')
  | constant (id : Nat) (name : String) (arity : Int) {value value' : Value}
    (h : Twin ρ P value value') :
    Twin ρ P (.builtin id name arity (.constant value))
      (.builtin id name arity (.constant value'))
  | computed (id : Nat) (name : String) (arity : Int)
    (answer : Float → List (Option Literal) → Answer) :
    Twin ρ P (.builtin id name arity (.computed answer))
      (.builtin id name arity (.computed answer))
  | class {cls cls' : Class} (h : cls.Twin ρ P cls') : Twin ρ P (.class cls) (.class cls')
  | object (id : Nat) {cls cls' : Class} (h : cls.Twin ρ P cls') :
    Twin ρ P (.object ⟨id, cls⟩) (.object ⟨id, cls'⟩)

section Values

variable {ρ : Leeway} {P later : Pairing} {links : Links}

theorem Closure.TwinOver.mono {closure closure' : Closure}
    (h : closure.TwinOver P links closure') (hgrows : P.Grows later) :
    closure.TwinOver later links closure' :=
  ⟨h.id, h.initializer, h.aligned.mono hgrows⟩

theorem Closure.Twin.mono {closure closure' : Closure} (h : closure.Twin ρ P closure')
    (hgrows : P.Grows later) : closure.Twin ρ later closure' := by
  obtain ⟨links, h⟩ := h
  exact ⟨links, h.toTwinOver.mono hgrows, h.declaration, h.receiver⟩

theorem Closure.TwinMethods.mono {closure closure' : Closure} (h : closure.TwinMethods ρ P closure')
    (hgrows : P.Grows later) : closure.TwinMethods ρ later closure' := by
  obtain ⟨links, hover, hdeclaration⟩ := h
  exact ⟨links, hover.mono hgrows, hdeclaration⟩

theorem Closure.TwinMethods.name_eq {closure closure' : Closure}
    (h : closure.TwinMethods ρ P closure') :
    closure'.declaration.name = closure.declaration.name := by
  obtain ⟨_, _, hdeclaration⟩ := h
  exact hdeclaration.name_eq

theorem Class.Twin.mono {cls cls' : Class} (h : cls.Twin ρ P cls') (hgrows : P.Grows later) :
    cls.Twin ρ later cls' :=
  ⟨h.id, h.name, fun name => rel_imp (h.methods name) fun _ _ hmethod => hmethod.mono hgrows⟩

/-- Values stay twins while the pairing grows. -/
theorem Value.Twin.mono {value value' : Value} (h : value.Twin ρ P value')
    (hgrows : P.Grows later) : value.Twin ρ later value' := by
  induction h with
  | nil | bool | number | string => constructor
  | function h => exact .function (h.mono hgrows)
  | constant id name arity _ ih => exact .constant id name arity ih
  | computed id name arity answer => exact .computed id name arity answer
  | «class» h => exact .class (h.mono hgrows)
  | object id h => exact .object id (h.mono hgrows)

theorem Value.twin_ofLiteral (ρ : Leeway) (P : Pairing) (literal : Literal) :
    (Value.ofLiteral literal).Twin ρ P (.ofLiteral literal) := by
  cases literal <;> constructor

/-! ### What cannot tell them apart -/

theorem Value.Twin.truthy_eq {value value' : Value} (h : value.Twin ρ P value') :
    value'.truthy = value.truthy := by
  cases h <;> rfl

theorem Value.Twin.literal?_eq {value value' : Value} (h : value.Twin ρ P value') :
    value'.literal? = value.literal? := by
  cases h <;> rfl

theorem Value.Twin.kind_eq {value value' : Value} (h : value.Twin ρ P value') :
    value'.kind = value.kind := by
  cases h <;> rfl

/-- Twins are printed alike. -/
theorem Value.Twin.text_eq {value value' : Value} (h : value.Twin ρ P value') :
    value'.text = value.text := by
  cases h with
  | function h =>
    obtain ⟨links, h⟩ := h
    rw [Value.text, Value.text, h.declaration.name_eq]
  | «class» h => rw [Value.text, Value.text, h.name]
  | object _ h => simp only [Value.text, h.name]
  | nil | bool | number | string | constant | computed => rfl

/-- Equality depends on content and identity, which twins share. -/
theorem Value.Twin.same_eq {a a' b b' : Value} (ha : a.Twin ρ P a') (hb : b.Twin ρ P b') :
    a'.same b' = a.same b := by
  -- functions and classes are compared by number, and twins have one number
  cases ha with
  | function ha =>
    obtain ⟨_, ha⟩ := ha
    cases hb with
    | function hb =>
      obtain ⟨_, hb⟩ := hb
      rw [Value.same, Value.same, ha.id, hb.id]
    | _ => rfl
  | «class» ha =>
    cases hb with
    | «class» hb => rw [Value.same, Value.same, ha.id, hb.id]
    | _ => rfl
  | _ => cases hb <;> rfl

/-- What calls need to know of callees that are twins. -/
structure Signature.Twin (ρ : Leeway) (signature signature' : Signature) : Prop where
  arity : signature'.arity = signature.arity
  name : signature'.name = signature.name
  declaredAt : ρ.Places signature.declaredAt signature'.declaredAt

/-- Twins take as many arguments, under one name. -/
theorem Value.Twin.signature_rel {value value' : Value} (h : value.Twin ρ P value') :
    Option.Rel (Signature.Twin ρ) value.signature? value'.signature? := by
  cases h with
  | function h =>
    obtain ⟨_, h⟩ := h
    exact .some ⟨congrArg Int.ofNat h.declaration.length_params, h.declaration.name_eq,
      h.declaration.anchor.map Anchor.span⟩
  | @«class» cls cls' h =>
    -- a class has the arity of its initializer, which is found on both sides or on neither
    have hinit := h.methods "init"
    simp only [Value.signature?]
    generalize cls.findMethod? "init" = init at hinit ⊢
    generalize cls'.findMethod? "init" = init' at hinit ⊢
    cases hinit with
    | none => exact .some ⟨rfl, h.name, .refl ρ _⟩
    | some hmethod =>
      obtain ⟨_, _, hdeclaration⟩ := hmethod
      exact .some ⟨congrArg Int.ofNat hdeclaration.length_params, h.name,
        hdeclaration.anchor.map Anchor.span⟩
  | constant | computed => exact .some ⟨rfl, rfl, .refl ρ _⟩
  | nil | bool | number | string | object => exact .none

end Values

/-! ### Stores -/

/-- Stores in which paired scopes and fields are twins and everything else is the same. The
environment in force is left out: it is said where it matters which distances are linked. -/
structure Store.Twin (ρ : Leeway) (P : Pairing) (store store' : Store) : Prop where
  opened : ∀ ⦃id id' marked⦄, P id id' marked → store.scopes.Exists id ∧ store'.scopes.Exists id'
  unique : ∀ ⦃id id' marked other other' marked'⦄, P id id' marked → P other other' marked' →
    (id = other ↔ id' = other')
  marks : ∀ ⦃id id' marked marked'⦄, P id id' marked → P id id' marked' → marked' = marked
  globals : P globalEnv.scope globalEnv.scope false
  bindings : ∀ ⦃id id' marked⦄, P id id' marked →
    (store.scopes.bindings id).Twin (ρ.Names marked) (Value.Twin ρ P) (store'.scopes.bindings id')
  fieldsSize : store'.fields.size = store.fields.size
  fields : ∀ id, (store.fields.getD id {}).Twin Eq (Value.Twin ρ P) (store'.fields.getD id {})
  nextId : store'.nextId = store.nextId
  printed : store'.printed = store.printed
  time : store'.time = store.time

theorem Scopes.Exists.add {scopes : Scopes} {id : ScopeId} (h : scopes.Exists id)
    (origin : ScopeOrigin) : (scopes.add origin).2.Exists id := by
  unfold Scopes.Exists Scopes.add at *
  rw [Array.size_push]
  exact Nat.lt_succ_of_lt h

theorem Scopes.exists_add_self (scopes : Scopes) (origin : ScopeOrigin) :
    (scopes.add origin).2.Exists scopes.cells.size := by
  unfold Scopes.Exists Scopes.add
  rw [Array.size_push]
  exact Nat.lt_succ_self _

theorem Scopes.bindings_size (scopes : Scopes) : scopes.bindings scopes.cells.size = {} := by
  rw [Scopes.bindings, Array.getElem?_eq_none (Nat.le_refl _)]

namespace Store.Twin

variable {ρ : Leeway} {P : Pairing} {store store' : Store}

theorem withCurrent (h : store.Twin ρ P store') (env env' : Env) :
    Store.Twin ρ P { store with current := env } { store' with current := env' } :=
  { h with }

/-- Giving names that correspond values that are twins in paired scopes. -/
theorem define (h : store.Twin ρ P store') {id id' : ScopeId} {marked : Bool}
    (hpair : P id id' marked) {name name' : String} (hname : ρ.Names marked name name')
    {value value' : Value} (hvalue : value.Twin ρ P value') :
    Store.Twin ρ P { store with scopes := store.scopes.define id name value }
      { store' with scopes := store'.scopes.define id' name' value' } := by
  obtain ⟨hid, hid'⟩ := h.opened hpair
  refine { h with
    opened := fun key key' mark hkeys => ?_
    bindings := fun key key' mark hkeys => ?_ }
  · simp only [Scopes.Exists, Scopes.define, Array.size_modify]
    exact h.opened hkeys
  · simp only
    rw [Scopes.bindings_define _ _ _ _ _ hid, Scopes.bindings_define _ _ _ _ _ hid']
    -- the pair that is meant is the one that is changed, or has no scope in common with it
    by_cases hkey : id = key
    · have hkey' := (h.unique hpair hkeys).mp hkey
      rw [if_pos hkey, if_pos hkey']
      subst hkey hkey'
      obtain rfl := h.marks hpair hkeys
      exact (h.bindings hkeys).insertBoth (fun _ _ hother => hname.eq_iff hother) hvalue
    · rw [if_neg hkey, if_neg fun hkey' => hkey ((h.unique hpair hkeys).mpr hkey')]
      exact h.bindings hkeys

/-- A scope that only the first store opens. -/
theorem addFirst (h : store.Twin ρ P store') (origin : ScopeOrigin) :
    Store.Twin ρ P { store with scopes := (store.scopes.add origin).2 } store' := by
  refine { h with
    opened := fun id id' marked hpair => ⟨?_, (h.opened hpair).2⟩
    bindings := fun id id' marked hpair => ?_ }
  · exact (h.opened hpair).1.add origin
  · simp only
    rw [Scopes.bindings_add]
    exact h.bindings hpair

/-- A scope that only the second store opens. -/
theorem addSecond (h : store.Twin ρ P store') (origin : ScopeOrigin) :
    Store.Twin ρ P store { store' with scopes := (store'.scopes.add origin).2 } := by
  refine { h with
    opened := fun id id' marked hpair => ⟨(h.opened hpair).1, ?_⟩
    bindings := fun id id' marked hpair => ?_ }
  · exact (h.opened hpair).2.add origin
  · simp only
    rw [Scopes.bindings_add]
    exact h.bindings hpair

/-- A scope that both stores open, which may be a renamed one. -/
theorem addBoth (h : store.Twin ρ P store') (origin origin' : ScopeOrigin) (marked : Bool) :
    Store.Twin ρ (P.add store.scopes.cells.size store'.scopes.cells.size marked)
      { store with scopes := (store.scopes.add origin).2 }
      { store' with scopes := (store'.scopes.add origin').2 } := by
  have hgrows := P.grows_add store.scopes.cells.size store'.scopes.cells.size marked
  have hvalue : ∀ value value' : Value, value.Twin ρ P value' →
      value.Twin ρ (P.add store.scopes.cells.size store'.scopes.cells.size marked) value' :=
    fun _ _ hvalue => hvalue.mono hgrows
  -- no earlier pair has a part in the new one
  have hfresh : ∀ ⦃id id' mark⦄, P id id' mark →
      id ≠ store.scopes.cells.size ∧ id' ≠ store'.scopes.cells.size :=
    fun _ _ _ hpair => ⟨Nat.ne_of_lt (h.opened hpair).1, Nat.ne_of_lt (h.opened hpair).2⟩
  refine { h with
    opened := ?_
    unique := ?_
    marks := ?_
    globals := hgrows h.globals
    bindings := ?_
    fields := fun id => (h.fields id).imp hvalue }
  · rintro id id' mark (hpair | ⟨rfl, rfl, rfl⟩)
    · exact ⟨(h.opened hpair).1.add origin, (h.opened hpair).2.add origin'⟩
    · exact ⟨store.scopes.exists_add_self origin, store'.scopes.exists_add_self origin'⟩
  · rintro id id' mark other other' mark' (hpair | ⟨rfl, rfl, rfl⟩) (hother | ⟨rfl, rfl, rfl⟩)
    · exact h.unique hpair hother
    · exact iff_of_false (hfresh hpair).1 (hfresh hpair).2
    · exact iff_of_false (hfresh hother).1.symm (hfresh hother).2.symm
    · exact iff_of_true rfl rfl
  · rintro id id' mark mark' (hpair | ⟨hid, _, hmark⟩) (hother | ⟨hid', _, hmark'⟩)
    · exact h.marks hpair hother
    · exact absurd hid' (hfresh hpair).1
    · exact absurd hid (hfresh hother).1
    · exact hmark'.trans hmark.symm
  · intro id id' mark hpair
    simp only
    rw [Scopes.bindings_add, Scopes.bindings_add]
    rcases hpair with hpair | ⟨rfl, rfl, rfl⟩
    · exact (h.bindings hpair).imp hvalue
    · rw [Scopes.bindings_size, Scopes.bindings_size]
      exact Table.twin_empty _ _

/-- Giving a field of an instance values that are twins. -/
theorem setField (h : store.Twin ρ P store') (id : Nat) (name : String) {value value' : Value}
    (hvalue : value.Twin ρ P value') :
    Store.Twin ρ P
      { store with fields := store.fields.modify id fun table => table.insert name value }
      { store' with fields := store'.fields.modify id fun table => table.insert name value' } := by
  refine { h with
    fieldsSize := ?_
    fields := fun key => ?_ }
  · simp only [Array.size_modify]
    exact h.fieldsSize
  · exact getD_modify_rel (Table.twin_empty _ _) h.fieldsSize h.fields
      (fun _ _ htable => htable.insert name hvalue) id key

/-- A new instance has no fields. -/
theorem pushFields (h : store.Twin ρ P store') :
    Store.Twin ρ P { store with fields := store.fields.push {} }
      { store' with fields := store'.fields.push {} } := by
  refine { h with
    fieldsSize := ?_
    fields := fun key => ?_ }
  · simp only [Array.size_push]
    exact congrArg (· + 1) h.fieldsSize
  · exact getD_push_rel h.fieldsSize h.fields (Table.twin_empty _ _) key

end Store.Twin

/-! ### A closed store is its own twin -/

/-- Every scope of a chain was opened. -/
def Scopes.Holds (scopes : Scopes) (chain : List ScopeId) : Prop :=
  ∀ id ∈ chain, scopes.Exists id

/-- The methods of a class close over scopes that were opened. -/
def Class.Closed (scopes : Scopes) (cls : Class) : Prop :=
  ∀ name method, cls.findMethod? name = some method → scopes.Holds method.env.chain

/-- A value mentions only scopes that were opened. -/
def Value.Closed (scopes : Scopes) : Value → Prop
  | .function closure => scopes.Holds closure.env.chain
  | .class cls => cls.Closed scopes
  | .object inst => inst.cls.Closed scopes
  | .builtin _ _ _ (.constant value) => value.Closed scopes
  | _ => True

/-- Every scope that a store mentions was opened. -/
structure Store.Closed (store : Store) : Prop where
  globals : store.scopes.Exists globalEnv.scope
  current : store.scopes.Holds store.current.chain
  values : ∀ id name value, (store.scopes.bindings id).find? name = some value →
    value.Closed store.scopes
  fields : ∀ id name value, (store.fields.getD id {}).find? name = some value →
    value.Closed store.scopes

namespace Pairing

/-- Every scope that was opened is paired with itself, and none is renamed. -/
def same (scopes : Scopes) : Pairing :=
  fun id id' marked => id' = id ∧ scopes.Exists id ∧ marked = false

/-- Along one chain, a distance leads to the same scope. -/
theorem aligned_same {scopes : Scopes} {chain : List ScopeId} (h : scopes.Holds chain) :
    (same scopes).Aligned .same chain chain := by
  rintro _ hops _ ⟨rfl, rfl⟩
  cases hget : chain[hops]? with
  | none => exact .none
  | some id => exact .some ⟨rfl, h id (List.mem_of_getElem? hget), rfl⟩

end Pairing

section Closed

variable {ρ : Leeway} {scopes : Scopes}

theorem Closure.twin_refl {closure : Closure} (h : scopes.Holds closure.env.chain) :
    closure.Twin ρ (.same scopes) closure :=
  ⟨.same, ⟨rfl, rfl, Pairing.aligned_same h⟩, closure.declaration.twin_refl Links.reflexive_same,
    fun _ => ⟨false, rfl, rfl⟩⟩

theorem Closure.twinMethods_refl {closure : Closure} (h : scopes.Holds closure.env.chain) :
    closure.TwinMethods ρ (.same scopes) closure :=
  ⟨.same, ⟨rfl, rfl, Pairing.aligned_same h⟩,
    closure.declaration.twin_refl Links.reflexive_same.enter⟩

theorem Class.Closed.twin_refl {cls : Class} (h : cls.Closed scopes) :
    cls.Twin ρ (.same scopes) cls := by
  refine ⟨rfl, rfl, fun name => ?_⟩
  cases hfound : cls.findMethod? name with
  | none => exact .none
  | some method => exact .some (Closure.twinMethods_refl (h name method hfound))

theorem Value.Closed.twin_refl {value : Value} (h : value.Closed scopes) :
    value.Twin ρ (.same scopes) value := by
  cases value with
  | nil | bool | number | string => constructor
  | function closure => exact .function (Closure.twin_refl h)
  | builtin id name arity body =>
    cases body with
    | constant value => exact .constant id name arity (Value.Closed.twin_refl h)
    | computed answer => exact .computed id name arity answer
  | «class» cls => exact .class (Class.Closed.twin_refl h)
  | object inst => exact .object inst.id (Class.Closed.twin_refl h)

/-- A closed store is its own twin, and all distances lead to the same scopes. -/
theorem Store.Closed.twin_refl {store : Store} (h : store.Closed) :
    store.Twin ρ (.same store.scopes) store where
  opened := by
    rintro id _ _ ⟨rfl, hid, _⟩
    exact ⟨hid, hid⟩
  unique := by
    rintro id _ _ other _ _ ⟨rfl, _⟩ ⟨rfl, _⟩
    exact Iff.rfl
  marks := by
    rintro id _ _ _ ⟨_, _, rfl⟩ ⟨_, _, rfl⟩
    rfl
  globals := ⟨rfl, h.globals, rfl⟩
  bindings := by
    rintro id _ _ ⟨rfl, _, rfl⟩
    exact Table.twin_refl_of_forall (fun _ _ hname => hname.eq) fun name value hfound =>
      (h.values _ name value hfound).twin_refl
  fieldsSize := rfl
  fields id := Table.twin_refl_of_forall (fun _ _ hname => hname.symm) fun name value hfound =>
    (h.fields id name value hfound).twin_refl
  nextId := rfl
  printed := rfl
  time := rfl

end Closed

/-! ### The stores of recognised programs are closed -/

section Sound

variable {known : Known} {scopes : Scopes}

/-- The scopes of a chain that matches a layout were opened. -/
theorem Scopes.Matches.holds {layout : Layout} {chain : List ScopeId}
    (h : scopes.Matches layout chain) (hsession : scopes.Exists globalEnv.scope) :
    scopes.Holds chain := by
  induction h with
  | session => exact List.forall_mem_singleton.mpr hsession
  | cons hscope _ ih =>
    exact List.forall_mem_cons.mpr ⟨Scopes.exists_of_origin? hscope.origin, ih⟩

theorem Class.Sound.closed {cls : Class} (h : cls.Sound known scopes)
    (hsession : scopes.Exists globalEnv.scope) : cls.Closed scopes := by
  intro name method hfound
  obtain ⟨layout, place, hmatches, _⟩ := h.methods name method hfound
  exact hmatches.holds hsession

theorem Value.Sound.closed {value : Value} (h : value.Sound known scopes)
    (hsession : scopes.Exists globalEnv.scope) : value.Closed scopes := by
  induction h with
  | nil | bool | number | string | computed => trivial
  | function h =>
    obtain ⟨layout, place, method, hmatches, _⟩ := h
    exact hmatches.holds hsession
  | constant _ _ _ _ ih => exact ih
  | «class» h => exact h.closed hsession
  | object h => exact h.closed hsession

theorem Store.Sound.closed {store : Store} {layout : Layout} (h : store.Sound known)
    (hmatches : store.scopes.Matches layout store.current.chain) : store.Closed := by
  have hsession : store.scopes.Exists globalEnv.scope := Scopes.exists_of_origin? h.session
  refine ⟨hsession, hmatches.holds hsession,
    fun id name value hfound => (h.values id name value hfound).closed hsession, ?_⟩
  intro id name value hfound
  rw [Array.getD_eq_getD_getElem?] at hfound
  cases hget : store.fields[id]? with
  | none =>
    rw [hget] at hfound
    cases hfound
  | some table =>
    rw [hget] at hfound
    exact (h.fields table (Array.mem_of_getElem? hget) name value hfound).closed hsession

end Sound

end Treewalk
