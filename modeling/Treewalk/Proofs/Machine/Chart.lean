import Treewalk.Proofs.Machine.Dispatch

/-!
# Charts of objects

Scopes, functions, classes and instances are known by numbers, which are given in the order of
creation. A chart says for each number what the object with it is: the scopes around a scope, the
function, builtin or class, and the class of an instance. A store is covered by a chart if every
object in it exists and is what the chart says, and if the chart leads from each scope outward to
one that was opened before it, and in the end to the globals. One chart that covers the stores of
several moments says that no object changed in between.
-/

namespace Treewalk

/-- What the objects with given numbers are: the scopes around a scope, the function, builtin or
class, and the class of an instance. -/
structure Chart where
  enclosing : ScopeId → List ScopeId
  numbered : Nat → Value
  classOf : Nat → Class

/-! ### Objects that exist -/

/-- The scope of an environment was opened, and the scopes around it are those of the chart. -/
def Env.Existing (chart : Chart) (store : Store) (env : Env) : Prop :=
  store.scopes.Exists env.scope ∧ chart.enclosing env.scope = env.enclosing

/-- A function that exists, as the chart says, and closes over an environment that exists. -/
structure Closure.Existing (chart : Chart) (store : Store) (closure : Closure) : Prop where
  number : closure.id < store.nextId
  charted : chart.numbered closure.id = .function closure
  env : closure.env.Existing chart store

/-- A class that exists, as the chart says. Its methods exist, and its superclass is an older class
that exists. -/
inductive Class.Existing (chart : Chart) (store : Store) : Class → Prop where
  | intro {cls : Class} (number : cls.id < store.nextId)
    (charted : chart.numbered cls.id = .class cls)
    (methods : ∀ name method, cls.methods.find? name = some method → method.Existing chart store)
    (older : ∀ superclass, cls.superclass? = some superclass → superclass.id < cls.id)
    (above : ∀ superclass, cls.superclass? = some superclass → superclass.Existing chart store) :
    Existing chart store cls

/-- A value that exists, as the chart says, with everything that belongs to it. -/
inductive Value.Existing (chart : Chart) (store : Store) : Value → Prop where
  | nil : Existing chart store .nil
  | bool (value : Bool) : Existing chart store (.bool value)
  | number (value : Float) : Existing chart store (.number value)
  | string (value : String) : Existing chart store (.string value)
  | function {closure : Closure} (h : closure.Existing chart store) :
    Existing chart store (.function closure)
  | builtin {id : Nat} {name : String} {arity : Int} {body : BuiltinBody Value}
    (number : id < store.nextId) (charted : chart.numbered id = .builtin id name arity body)
    (h : ∀ value, body = .constant value → Existing chart store value) :
    Existing chart store (.builtin id name arity body)
  | class {cls : Class} (h : cls.Existing chart store) : Existing chart store (.class cls)
  | object {inst : Instance} (number : inst.id < store.fields.size)
    (charted : chart.classOf inst.id = inst.cls) (h : inst.cls.Existing chart store) :
    Existing chart store (.object inst)

/-- A chart covers a store: it leads from each scope to one that was opened before it, and from
there on outward, up to the globals, and everything in the store exists as the chart says. -/
structure Chart.Covers (chart : Chart) (store : Store) : Prop where
  session : store.scopes.Exists globalEnv.scope
  outermost : chart.enclosing globalEnv.scope = []
  nested : ∀ id, id ≠ globalEnv.scope → store.scopes.Exists id →
    ∃ outer < id, chart.enclosing id = outer :: chart.enclosing outer
  current : store.current.Existing chart store
  values : ∀ id name value, (store.scopes.bindings id).find? name = some value →
    value.Existing chart store
  fields : ∀ table ∈ store.fields, ∀ name value, table.find? name = some value →
    value.Existing chart store

/-! ### Later stores and charts -/

/-- A later store keeps the scopes of an earlier one and their names, and its numbers. -/
structure Store.Extends (store later : Store) : Prop where
  scopes : store.scopes.Grows later.scopes
  numbers : store.nextId ≤ later.nextId
  instances : store.fields.size ≤ later.fields.size

theorem Store.Extends.refl (store : Store) : store.Extends store :=
  ⟨.refl _, Nat.le_refl _, Nat.le_refl _⟩

theorem Store.Extends.trans {a b c : Store} (h : a.Extends b) (h' : b.Extends c) : a.Extends c :=
  ⟨h.scopes.trans h'.scopes, Nat.le_trans h.numbers h'.numbers,
    Nat.le_trans h.instances h'.instances⟩

/-- A later chart keeps what an earlier one says of the objects of the earlier store. -/
structure Chart.Onward (chart : Chart) (store : Store) (chart' : Chart) (later : Store) :
    Prop where
  grows : store.Extends later
  enclosing : ∀ id, store.scopes.Exists id → chart'.enclosing id = chart.enclosing id
  numbered : ∀ id < store.nextId, chart'.numbered id = chart.numbered id
  classOf : ∀ id < store.fields.size, chart'.classOf id = chart.classOf id

namespace Chart.Onward

variable {chart chart' chart'' : Chart} {store later last : Store}

theorem refl (chart : Chart) (store : Store) : chart.Onward store chart store :=
  ⟨.refl store, fun _ _ => rfl, fun _ _ => rfl, fun _ _ => rfl⟩

theorem trans (h : chart.Onward store chart' later) (h' : chart'.Onward later chart'' last) :
    chart.Onward store chart'' last where
  grows := h.grows.trans h'.grows
  enclosing id hid := (h'.enclosing id (hid.mono h.grows.scopes)).trans (h.enclosing id hid)
  numbered id hid :=
    (h'.numbered id (Nat.lt_of_lt_of_le hid h.grows.numbers)).trans (h.numbered id hid)
  classOf id hid :=
    (h'.classOf id (Nat.lt_of_lt_of_le hid h.grows.instances)).trans (h.classOf id hid)

/-- What a later chart keeps of a store it keeps of the stores before it. -/
theorem before {earlier : Store} (h : chart.Onward store chart' later)
    (hearlier : earlier.Extends store) : chart.Onward earlier chart' earlier where
  grows := .refl earlier
  enclosing id hid := h.enclosing id (hid.mono hearlier.scopes)
  numbered id hid := h.numbered id (Nat.lt_of_lt_of_le hid hearlier.numbers)
  classOf id hid := h.classOf id (Nat.lt_of_lt_of_le hid hearlier.instances)

/-- The same chart, if the store grows. -/
theorem of_extends (chart : Chart) (h : store.Extends later) : chart.Onward store chart later :=
  ⟨h, fun _ _ => rfl, fun _ _ => rfl, fun _ _ => rfl⟩

end Chart.Onward

section Mono

variable {chart chart' : Chart} {store later : Store}

theorem Env.Existing.mono {env : Env} (h : env.Existing chart store)
    (honward : chart.Onward store chart' later) : env.Existing chart' later :=
  ⟨h.1.mono honward.grows.scopes, (honward.enclosing _ h.1).trans h.2⟩

theorem Closure.Existing.mono {closure : Closure} (h : closure.Existing chart store)
    (honward : chart.Onward store chart' later) : closure.Existing chart' later :=
  ⟨Nat.lt_of_lt_of_le h.number honward.grows.numbers,
    (honward.numbered _ h.number).trans h.charted, h.env.mono honward⟩

theorem Class.Existing.mono {cls : Class} (h : cls.Existing chart store)
    (honward : chart.Onward store chart' later) : cls.Existing chart' later := by
  induction h with
  | intro number charted methods older _ ih =>
    exact ⟨Nat.lt_of_lt_of_le number honward.grows.numbers,
      (honward.numbered _ number).trans charted,
      fun name method hmethod => (methods name method hmethod).mono honward, older, ih⟩

/-- An object that exists goes on to exist, unchanged. -/
theorem Value.Existing.mono {value : Value} (h : value.Existing chart store)
    (honward : chart.Onward store chart' later) : value.Existing chart' later := by
  induction h with
  | nil | bool | number | string => constructor
  | function h => exact .function (h.mono honward)
  | builtin number charted _ ih =>
    exact .builtin (Nat.lt_of_lt_of_le number honward.grows.numbers)
      ((honward.numbered _ number).trans charted) ih
  | «class» h => exact .class (h.mono honward)
  | object number charted h =>
    exact .object (Nat.lt_of_lt_of_le number honward.grows.instances)
      ((honward.classOf _ number).trans charted) (h.mono honward)

/-- A later chart covers a later store if it leads from every new scope outward, the environment in
force exists, and every value is one of the earlier store or exists. -/
theorem Chart.Covers.extend (h : chart.Covers store) (honward : chart.Onward store chart' later)
    (hnested : ∀ id, later.scopes.Exists id → ¬ store.scopes.Exists id →
      ∃ outer < id, chart'.enclosing id = outer :: chart'.enclosing outer)
    (hcurrent : later.current.Existing chart' later)
    (hvalues : ∀ id name value, (later.scopes.bindings id).find? name = some value →
      (store.scopes.bindings id).find? name = some value ∨ value.Existing chart' later)
    (hfields : ∀ table ∈ later.fields, ∀ name value, table.find? name = some value →
      (∃ old ∈ store.fields, old.find? name = some value) ∨ value.Existing chart' later) :
    chart'.Covers later where
  session := h.session.mono honward.grows.scopes
  outermost := (honward.enclosing _ h.session).trans h.outermost
  nested id hid hexists := by
    by_cases hold : store.scopes.Exists id
    · obtain ⟨outer, hlt, henclosing⟩ := h.nested id hid hold
      refine ⟨outer, hlt, ?_⟩
      rw [honward.enclosing id hold, honward.enclosing outer (Nat.lt_trans hlt hold), henclosing]
    · exact hnested id hexists hold
  current := hcurrent
  values id name value hvalue := by
    rcases hvalues id name value hvalue with hold | hnew
    · exact (h.values id name value hold).mono honward
    · exact hnew
  fields table htable name value hvalue := by
    rcases hfields table htable name value hvalue with ⟨old, hold, hfound⟩ | hnew
    · exact (h.fields old hold name value hfound).mono honward
    · exact hnew

/-- A later chart covers a later store with the same scopes and fields. -/
theorem Chart.Covers.of_eq (h : chart.Covers store) (honward : chart.Onward store chart' later)
    (hscopes : later.scopes = store.scopes) (hfields : later.fields = store.fields)
    (hcurrent : later.current.Existing chart' later) : chart'.Covers later := by
  refine h.extend honward (fun id hexists hnot => ?_) hcurrent (fun id name value hvalue => ?_)
    fun table htable name value hvalue => ?_
  · rw [hscopes] at hexists
    exact absurd hexists hnot
  · rw [hscopes] at hvalue
    exact .inl hvalue
  · rw [hfields] at htable
    exact .inl ⟨table, htable, hvalue⟩

/-- A later chart covers the earlier stores as well. -/
theorem Chart.Covers.mono (h : chart.Covers store) (honward : chart.Onward store chart' store) :
    chart'.Covers store :=
  h.of_eq honward rfl rfl (h.current.mono honward)

theorem Value.existing_ofLiteral (literal : Literal) :
    (Value.ofLiteral literal).Existing chart store := by
  cases literal <;> constructor

theorem Value.existing_class_iff {cls : Class} :
    (Value.class cls).Existing chart store ↔ cls.Existing chart store :=
  ⟨fun h => by cases h with | «class» h => exact h, .class⟩

/-- A class finds only methods that exist. -/
theorem Class.Existing.findMethod? {cls : Class} (h : cls.Existing chart store) {name : String}
    {method : Closure} (hmethod : cls.findMethod? name = some method) :
    method.Existing chart store := by
  induction h with
  | intro _ _ methods _ _ ih =>
    rcases Class.own_or_inherited hmethod with hown | ⟨superclass, habove, hinherited⟩
    · exact methods name method hown
    · exact ih superclass habove hinherited

end Mono

/-! ### Links lead to older objects -/

/-- A number above the first of a descending list can be put before it. -/
theorem pairwise_gt_cons {first second : Nat} {rest : List Nat} (hlt : second < first)
    (h : (second :: rest).Pairwise (· > ·)) : (first :: second :: rest).Pairwise (· > ·) := by
  refine List.pairwise_cons.mpr ⟨fun other hother => ?_, h⟩
  rcases List.mem_cons.mp hother with rfl | hother
  · exact hlt
  · exact Nat.lt_trans ((List.pairwise_cons.mp h).1 other hother) hlt

/-- A descending list of numbers is no longer than its first element allows. -/
theorem length_le_of_pairwise {first : Nat} {rest : List Nat}
    (h : (first :: rest).Pairwise (· > ·)) : (first :: rest).length ≤ first + 1 := by
  induction rest generalizing first with
  | nil => exact Nat.le_add_left 1 first
  | cons second rest ih =>
    obtain ⟨hfirst, hrest⟩ := List.pairwise_cons.mp h
    have hlt : first > second := hfirst second List.mem_cons_self
    have := ih hrest
    rw [List.length_cons]
    omega

/-- The chain of an environment leads outward through scopes that were opened ever earlier, and
ends in the globals. So looking up and assigning names and going outward, which all go along it,
make fewer steps than there are scopes. -/
structure Env.Rooted (scopes : Scopes) (env : Env) : Prop where
  exist : ∀ id ∈ env.chain, scopes.Exists id
  earlier : env.chain.Pairwise (· > ·)
  globals : env.chain.getLast? = some globalEnv.scope
  short : env.chain.length ≤ env.scope + 1
  find : ∀ name, scopes.find? name env.chain =
    env.chain.findSome? fun id => (scopes.bindings id).find? name
  assign : ∀ name value, (scopes.assign? name value env.chain).isSome =
    env.chain.any fun id => scopes.defines id name
  reach : ∀ hops id, Scopes.reach env hops = .ok id ↔ env.chain[hops]? = some id

/-- Going up from a class leads through ever older classes. So looking for a method, which goes
along them, makes fewer steps than there are classes. -/
structure Class.Rooted (store : Store) (cls : Class) : Prop where
  exist : ∀ above ∈ cls.lineage, above.id < store.nextId
  older : (cls.lineage.map Class.id).Pairwise (· > ·)
  short : cls.lineage.length ≤ cls.id + 1
  find : ∀ name,
    cls.findMethod? name = cls.lineage.findSome? fun above => above.methods.find? name

/-- The value of a name is the one in the innermost scope that has one. -/
theorem Scopes.find?_eq_findSome? (scopes : Scopes) (name : String) (chain : List ScopeId) :
    scopes.find? name chain = chain.findSome? fun id => (scopes.bindings id).find? name := by
  induction chain with
  | nil => rfl
  | cons id outer ih =>
    rw [Scopes.find?, List.findSome?_cons, ih]
    cases (scopes.bindings id).find? name <;> rfl

/-- A name can be assigned if some scope of the chain has a value for it. -/
theorem Scopes.isSome_assign? (scopes : Scopes) (name : String) (value : Value)
    (chain : List ScopeId) :
    (scopes.assign? name value chain).isSome = chain.any fun id => scopes.defines id name := by
  rw [Scopes.assign?, Option.isSome_map, Scopes.holder?, List.isSome_find?]

/-- The scope a number of steps outward is at that place in the chain. -/
theorem Scopes.reach_eq_ok_iff (env : Env) (hops : Nat) (id : ScopeId) :
    Scopes.reach env hops = .ok id ↔ env.chain[hops]? = some id := by
  cases hfound : env.chain[hops]? with
  | none =>
    rw [Scopes.reach_of_none hfound]
    constructor
    · intro h
      cases h
    · intro h
      cases h
  | some found =>
    rw [Scopes.reach_of_getElem? hfound]
    constructor
    · intro h
      rw [Except.ok.inj h]
    · intro h
      rw [Option.some.inj h]

theorem Chart.Covers.rooted {chart : Chart} {store : Store} (h : chart.Covers store) {env : Env}
    (henv : env.Existing chart store) : env.Rooted store.scopes := by
  obtain ⟨id, enclosing⟩ := env
  obtain ⟨hexists, hcharted⟩ := henv
  -- by strong induction on the number of the innermost scope
  induction id using Nat.strongRecOn generalizing enclosing with
  | ind id ih =>
    obtain rfl : chart.enclosing id = enclosing := hcharted
    by_cases hid : id = globalEnv.scope
    · subst hid
      rw [h.outermost]
      exact ⟨fun id hid => List.mem_singleton.mp hid ▸ h.session, List.pairwise_singleton _ _, rfl,
        Nat.le_refl _, fun name => store.scopes.find?_eq_findSome? name _,
        fun name value => store.scopes.isSome_assign? name value _, Scopes.reach_eq_ok_iff _⟩
    · obtain ⟨outer, hlt, henclosing⟩ := h.nested id hid hexists
      have hrooted := ih outer hlt (chart.enclosing outer) (Nat.lt_trans hlt hexists) rfl
      have hchain : Env.chain ⟨id, chart.enclosing id⟩ =
          id :: Env.chain ⟨outer, chart.enclosing outer⟩ := by
        rw [Env.chain, henclosing]
        rfl
      have hearlier : (id :: Env.chain ⟨outer, chart.enclosing outer⟩).Pairwise (· > ·) :=
        pairwise_gt_cons hlt hrooted.earlier
      constructor
      case exist =>
        rw [hchain]
        exact List.forall_mem_cons.mpr ⟨hexists, hrooted.exist⟩
      case earlier => rwa [hchain]
      case globals =>
        rw [hchain, ← hrooted.globals]
        rfl
      case short =>
        rw [hchain]
        exact length_le_of_pairwise hearlier
      case find => exact fun name => store.scopes.find?_eq_findSome? name _
      case assign => exact fun name value => store.scopes.isSome_assign? name value _
      case reach => exact Scopes.reach_eq_ok_iff _

theorem Class.lineage_eq (cls : Class) :
    cls.lineage = cls :: (cls.superclass?.map Class.lineage).getD [] := by
  cases cls <;> rfl

theorem Class.Existing.rooted {chart : Chart} {store : Store} {cls : Class}
    (h : cls.Existing chart store) : cls.Rooted store := by
  induction h with
  | @intro cls number _ _ older _ ih =>
    have hlineage := cls.lineage_eq
    cases habove : cls.superclass? with
    | none =>
      rw [habove] at hlineage
      have hlineage : cls.lineage = [cls] := hlineage
      refine ⟨?_, ?_, ?_, cls.findMethod?_eq_findSome?⟩
      · rw [hlineage]
        exact fun above hmem => List.mem_singleton.mp hmem ▸ number
      · rw [hlineage]
        exact List.pairwise_singleton _ _
      · rw [hlineage]
        exact Nat.le_add_left 1 _
    | some superclass =>
      rw [habove] at hlineage
      have hlineage : cls.lineage = cls :: superclass.lineage := hlineage
      have hrooted := ih superclass habove
      have holder : (cls.id :: superclass.lineage.map Class.id).Pairwise (· > ·) := by
        have holder := hrooted.older
        rw [superclass.lineage_eq, List.map_cons] at holder ⊢
        exact pairwise_gt_cons (older superclass habove) holder
      refine ⟨?_, ?_, ?_, cls.findMethod?_eq_findSome?⟩
      · rw [hlineage]
        exact List.forall_mem_cons.mpr ⟨number, hrooted.exist⟩
      · rw [hlineage]
        exact holder
      · rw [hlineage]
        have := length_le_of_pairwise holder
        simpa using this

end Treewalk
