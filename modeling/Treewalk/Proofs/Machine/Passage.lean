import Treewalk.Proofs.Machine.Chart

/-!
# Runs keep to their charts

A run that starts in a store covered by a chart ends in a store covered by a later chart, however it
ends. The later chart covers the stores of all moments in between as well, and each of these extends
those before it.

The moments of a run show in what watches do to it: a watch calls off the run at the first moment
with which it finds something wrong. So a run is looked at together with all its variants, as one
computation that depends on a watch.
-/

namespace Treewalk

/-- An expression with the store in which its evaluation begins. -/
abbrev Moment := Expr × Store

/-- The watch that lets everything pass. -/
def Watch.never : Watch := fun _ _ => none

/-- The first thing that a watch finds wrong in the course of several moments. -/
def Watch.first (watch : Watch) (moments : List Moment) : Option Fault :=
  moments.findSome? fun moment => watch moment.1 moment.2

/-- The moments of a computation, in their order: a watch calls it off at the first moment with
which it finds something wrong, and changes nothing if there is none. -/
def Follows {α : Type} (x : Watch → EvalM α) (store : Store) (moments : List Moment) : Prop :=
  ∀ watch : Watch, (watch.first moments = none ∧ x watch store = x .never store) ∨
    ∃ fault last, watch.first moments = some fault ∧ x watch store = .error (.fault fault) last

/-- The way from a store with its chart to a later one, with the moments in between: the later chart
covers the stores of all of them, and each extends those before it. -/
structure Passage (chart : Chart) (store : Store) (moments : List Moment) (chart' : Chart)
    (later : Store) : Prop where
  onward : chart.Onward store chart' later
  covers : chart'.Covers later
  between : ∀ moment ∈ moments,
    store.Extends moment.2 ∧ moment.2.Extends later ∧ chart'.Covers moment.2
  ordered : moments.Pairwise fun moment next => moment.2.Extends next.2

namespace Passage

variable {chart chart' chart'' : Chart} {store later last : Store} {moments moments' : List Moment}

/-- A step without moments. -/
theorem step (honward : chart.Onward store chart' later) (hcovers : chart'.Covers later) :
    Passage chart store [] chart' later :=
  ⟨honward, hcovers, fun _ hmem => absurd hmem List.not_mem_nil, .nil⟩

theorem trans (h : Passage chart store moments chart' later)
    (h' : Passage chart' later moments' chart'' last) :
    Passage chart store (moments ++ moments') chart'' last where
  onward := h.onward.trans h'.onward
  covers := h'.covers
  between moment hmem := by
    rcases List.mem_append.mp hmem with hmem | hmem
    · obtain ⟨hstore, hlater, hcovers⟩ := h.between moment hmem
      -- the last chart keeps what the one in between says, so it covers the earlier stores too
      exact ⟨hstore, hlater.trans h'.onward.grows, hcovers.mono (h'.onward.before hlater)⟩
    · obtain ⟨hlater, hlast, hcovers⟩ := h'.between moment hmem
      exact ⟨h.onward.grows.trans hlater, hlast, hcovers⟩
  ordered := by
    refine List.pairwise_append.mpr ⟨h.ordered, h'.ordered, fun moment hmem next hnext => ?_⟩
    exact (h.between moment hmem).2.1.trans (h'.between next hnext).1

/-- A passage that begins with a moment. -/
theorem cons (h : Passage chart store moments chart' later) (hcovers : chart.Covers store)
    (e : Expr) : Passage chart store ((e, store) :: moments) chart' later where
  onward := h.onward
  covers := h.covers
  between := by
    refine List.forall_mem_cons.mpr ⟨⟨.refl store, h.onward.grows, ?_⟩, h.between⟩
    exact hcovers.mono (h.onward.before (.refl store))
  ordered := List.pairwise_cons.mpr ⟨fun next hnext => (h.between next hnext).1, h.ordered⟩

end Passage

/-- Whatever cut a computation short, what it carries exists. -/
def Halt.Existing (chart : Chart) (store : Store) : Halt → Prop
  | .returned value => value.Existing chart store
  | .failed _ | .fault _ | .stackExhausted | .loopExhausted => True

/-- A computation that keeps to charts, and gives what `post` says. -/
inductive Charted {α : Type} (x : Watch → EvalM α) (post : Chart → α → Store → Prop)
    (chart : Chart) (store : Store) : Prop where
  | ok {value : α} {later : Store} {moments : List Moment} {chart' : Chart}
    (hresult : x .never store = .ok value later)
    (hpassage : Passage chart store moments chart' later) (hpost : post chart' value later)
    (hfollows : Follows x store moments)
  | error {halt : Halt} {later : Store} {moments : List Moment} {chart' : Chart}
    (hresult : x .never store = .error halt later)
    (hpassage : Passage chart store moments chart' later) (hhalt : halt.Existing chart' later)
    (hfollows : Follows x store moments)

/-! ### Congruence -/

theorem within_congr {α : Type} {store : Store} {env : Env} {x y : EvalM α}
    (h : x { store with current := env } = y { store with current := env }) :
    within env x store = within env y store := by
  unfold within
  rw [h]

section CatchReturn

variable {store later : Store} {x y : EvalM Unit}

theorem catchReturn_congr (h : x store = y store) : catchReturn x store = catchReturn y store := by
  unfold catchReturn
  rw [h]

theorem catchReturn_of_ok {value : Unit} (h : x store = .ok value later) :
    catchReturn x store = .ok none later := by
  unfold catchReturn
  rw [h]

theorem catchReturn_of_returned {value : Value} (h : x store = .error (.returned value) later) :
    catchReturn x store = .ok (some value) later := by
  unfold catchReturn
  rw [h]

/-- Only a `return` is caught. -/
theorem catchReturn_of_error {halt : Halt} (h : x store = .error halt later)
    (hnot : ∀ value, halt ≠ .returned value) : catchReturn x store = .error halt later := by
  unfold catchReturn
  rw [h]
  cases halt with
  | returned value => exact absurd rfl (hnot value)
  | failed | fault | stackExhausted | loopExhausted => rfl

end CatchReturn

/-! ### Moments of combinations -/

namespace Follows

variable {α β : Type} {store later : Store} {moments moments' : List Moment}

/-- An operation has no moments. -/
theorem const (x : EvalM α) (store : Store) : Follows (fun _ => x) store [] :=
  fun _ => .inl ⟨rfl, rfl⟩

theorem bind {x : Watch → EvalM α} {f : Watch → α → EvalM β} {value : α}
    (h : Follows x store moments) (hresult : x .never store = .ok value later)
    (h' : Follows (fun watch => f watch value) later moments') :
    Follows (fun watch => x watch >>= f watch) store (moments ++ moments') := by
  intro watch
  rw [Watch.first, List.findSome?_append]
  -- either the first part is called off, or it gives its value and all depends on the second
  rcases h watch with ⟨hnone, hsame⟩ | ⟨fault, last, hfirst, hcalled⟩
  · have hgoes := bind_of_ok (f := f watch) (hsame.trans hresult)
    rw [Watch.first] at hnone
    rw [hnone, Option.none_or]
    rcases h' watch with ⟨hnone', hsame'⟩ | ⟨fault, last, hfirst, hcalled⟩
    · exact .inl ⟨hnone', (hgoes.trans hsame').trans (bind_of_ok hresult).symm⟩
    · exact .inr ⟨fault, last, hfirst, hgoes.trans hcalled⟩
  · rw [Watch.first] at hfirst
    exact .inr ⟨fault, last, by rw [hfirst, Option.some_or], bind_of_error hcalled⟩

/-- What is cut short comes to no further moments. -/
theorem bind_error {x : Watch → EvalM α} {f : Watch → α → EvalM β} {halt : Halt}
    (h : Follows x store moments) (hresult : x .never store = .error halt later) :
    Follows (fun watch => x watch >>= f watch) store moments := by
  intro watch
  rcases h watch with ⟨hnone, hsame⟩ | ⟨fault, last, hfirst, hcalled⟩
  · exact .inl ⟨hnone, (bind_of_error (hsame.trans hresult)).trans (bind_of_error hresult).symm⟩
  · exact .inr ⟨fault, last, hfirst, bind_of_error hcalled⟩

theorem within {x : Watch → EvalM α} {env : Env}
    (h : Follows x { store with current := env } moments) :
    Follows (fun watch => Treewalk.within env (x watch)) store moments := by
  intro watch
  rcases h watch with ⟨hnone, hsame⟩ | ⟨fault, last, hfirst, hcalled⟩
  · exact .inl ⟨hnone, within_congr hsame⟩
  · exact .inr ⟨fault, _, hfirst, within_of_error hcalled⟩

theorem catchReturn {x : Watch → EvalM Unit} (h : Follows x store moments) :
    Follows (fun watch => Treewalk.catchReturn (x watch)) store moments := by
  intro watch
  rcases h watch with ⟨hnone, hsame⟩ | ⟨fault, last, hfirst, hcalled⟩
  · exact .inl ⟨hnone, catchReturn_congr hsame⟩
  · exact .inr ⟨fault, last, hfirst, catchReturn_of_error hcalled fun _ h => by cases h⟩

/-- Evaluation under the watch itself begins with one more moment. -/
theorem watched {eval : Watch → Expr → EvalM Value} {e : Expr}
    (h : Follows (fun watch => eval watch e) store moments) :
    Follows (fun watch => watch.over (eval watch) e) store ((e, store) :: moments) := by
  intro watch
  rw [Watch.first, List.findSome?_cons]
  cases hfound : watch e store with
  | some fault =>
    have hcalled : watch.over (eval watch) e store = .error (.fault fault) store := by
      rw [Watch.over, hfound]
    exact .inr ⟨fault, store, rfl, hcalled⟩
  | none =>
    have hpass : watch.over (eval watch) e store = eval watch e store := by
      rw [Watch.over, hfound]
    rcases h watch with ⟨hnone, hsame⟩ | ⟨fault, last, hfirst, hcalled⟩
    · exact .inl ⟨hnone, hpass.trans hsame⟩
    · exact .inr ⟨fault, last, hfirst, hpass.trans hcalled⟩

end Follows

/-! ### Combinations -/

namespace Charted

variable {α β : Type} {chart chart' : Chart} {store later : Store}

theorem of_ok {x : EvalM α} {post : Chart → α → Store → Prop} {value : α}
    (hresult : x store = .ok value later) (honward : chart.Onward store chart' later)
    (hcovers : chart'.Covers later) (hpost : post chart' value later) :
    Charted (fun _ => x) post chart store :=
  .ok hresult (.step honward hcovers) hpost (.const x store)

theorem pure {post : Chart → α → Store → Prop} {value : α} (h : chart.Covers store)
    (hpost : post chart value store) :
    Charted (fun _ => (Pure.pure value : EvalM α)) post chart store :=
  of_ok rfl (.refl chart store) h hpost

theorem throw {post : Chart → α → Store → Prop} {halt : Halt} (h : chart.Covers store)
    (hhalt : halt.Existing chart store) :
    Charted (fun _ => (MonadExcept.throw halt : EvalM α)) post chart store :=
  .error rfl (.step (.refl chart store) h) hhalt (.const _ store)

theorem fail {post : Chart → α → Store → Prop} {error : RuntimeError} (h : chart.Covers store) :
    Charted (fun _ => (Treewalk.fail error : EvalM α)) post chart store :=
  throw h trivial

theorem bind {x : Watch → EvalM α} {f : Watch → α → EvalM β}
    {post : Chart → α → Store → Prop} {post' : Chart → β → Store → Prop}
    (hx : Charted x post chart store)
    (hf : ∀ value chart' later, chart.Onward store chart' later → chart'.Covers later →
      post chart' value later → Charted (fun watch => f watch value) post' chart' later) :
    Charted (fun watch => x watch >>= f watch) post' chart store := by
  cases hx with
  | error hresult hpassage hhalt hfollows =>
    exact .error (bind_of_error hresult) hpassage hhalt (hfollows.bind_error hresult)
  | ok hresult hpassage hpost hfollows =>
    cases hf _ _ _ hpassage.onward hpassage.covers hpost with
    | ok hresult' hpassage' hpost' hfollows' =>
      exact .ok ((bind_of_ok hresult).trans hresult') (hpassage.trans hpassage') hpost'
        (hfollows.bind hresult hfollows')
    | error hresult' hpassage' hhalt hfollows' =>
      exact .error ((bind_of_ok hresult).trans hresult') (hpassage.trans hpassage') hhalt
        (hfollows.bind hresult hfollows')

theorem getBind {f : Watch → Store → EvalM β} {post : Chart → β → Store → Prop}
    (h : Charted (fun watch => f watch store) post chart store) :
    Charted (fun watch => get >>= f watch) post chart store := by
  cases h with
  | ok hresult hpassage hpost hfollows => exact .ok hresult hpassage hpost hfollows
  | error hresult hpassage hhalt hfollows => exact .error hresult hpassage hhalt hfollows

/-- A computation in another environment has the same moments. -/
theorem within {x : Watch → EvalM α} {post : Chart → α → Store → Prop} {env : Env}
    (h : chart.Covers store) (hx : Charted x post chart { store with current := env })
    (hpost : ∀ chart' value later, post chart' value later →
      post chart' value { later with current := store.current }) :
    Charted (fun watch => Treewalk.within env (x watch)) post chart store := by
  -- the way there is the same, and the environment from before exists at its end
  have hback : ∀ {moments : List Moment} {chart' : Chart} {later : Store},
      Passage chart { store with current := env } moments chart' later →
      Passage chart store moments chart' { later with current := store.current } := by
    intro moments chart' later hpassage
    have hgrows : store.Extends { later with current := store.current } :=
      ⟨hpassage.onward.grows.scopes, hpassage.onward.grows.numbers,
        hpassage.onward.grows.instances⟩
    have honward : chart.Onward store chart' { later with current := store.current } :=
      ⟨hgrows, hpassage.onward.enclosing, hpassage.onward.numbered, hpassage.onward.classOf⟩
    have hsame : later.Extends { later with current := store.current } :=
      ⟨.refl _, Nat.le_refl _, Nat.le_refl _⟩
    refine ⟨honward, ?_, fun moment hmem => ?_, hpassage.ordered⟩
    · exact hpassage.covers.of_eq (.of_extends chart' hsame) rfl rfl (h.current.mono honward)
    · obtain ⟨hstore, hlater, hcovers⟩ := hpassage.between moment hmem
      exact ⟨⟨hstore.scopes, hstore.numbers, hstore.instances⟩, hlater.trans hsame, hcovers⟩
  cases hx with
  | ok hresult hpassage hvalue hfollows =>
    exact .ok (within_of_ok hresult) (hback hpassage) (hpost _ _ _ hvalue) hfollows.within
  | @error halt later moments chart' hresult hpassage hhalt hfollows =>
    refine .error (within_of_error hresult) (hback hpassage) ?_ hfollows.within
    cases halt with
    | returned value =>
      have hsame : later.Extends { later with current := store.current } :=
        ⟨.refl _, Nat.le_refl _, Nat.le_refl _⟩
      exact Value.Existing.mono hhalt (.of_extends chart' hsame)
    | failed | fault | stackExhausted | loopExhausted => trivial

/-- A call gives what was returned, if anything was. -/
theorem catchReturn {x : Watch → EvalM Unit} {post : Chart → Unit → Store → Prop}
    (hx : Charted x post chart store) :
    Charted (fun watch => Treewalk.catchReturn (x watch))
      (fun chart' returned later => ∀ value, returned = some value → value.Existing chart' later)
      chart store := by
  cases hx with
  | ok hresult hpassage hpost hfollows =>
    refine .ok (catchReturn_of_ok hresult) hpassage (fun value hvalue => ?_) hfollows.catchReturn
    cases hvalue
  | @error halt later moments chart' hresult hpassage hhalt hfollows =>
    cases halt with
    | returned value =>
      refine .ok (catchReturn_of_returned hresult) hpassage (fun returned hreturned => ?_)
        hfollows.catchReturn
      obtain rfl := Option.some.inj hreturned
      exact hhalt
    | failed | fault | stackExhausted | loopExhausted =>
      exact .error (catchReturn_of_error hresult fun _ h => by cases h) hpassage trivial
        hfollows.catchReturn

theorem whileTrue {limit : Nat} {condition : Watch → EvalM Bool} {body : Watch → EvalM Unit}
    (h : chart.Covers store)
    (hcondition : ∀ chart store, chart.Covers store →
      Charted condition (fun _ _ _ => True) chart store)
    (hbody : ∀ chart store, chart.Covers store →
      Charted body (fun _ _ _ => True) chart store) :
    Charted (fun watch => Treewalk.whileTrue limit (condition watch) (body watch))
      (fun _ _ _ => True) chart store := by
  -- on the rounds that are left; the chart of the next round is the one this round leads to
  induction limit generalizing chart store with
  | zero => exact throw h trivial
  | succ limit ih =>
    refine (hcondition chart store h).bind fun goesOn chart later _ h _ => ?_
    cases goesOn with
    | false => exact pure h trivial
    | true => exact (hbody chart later h).bind fun _ chart last _ h _ => ih h

end Charted

/-! ### New objects on a chart -/

namespace Chart

/-- The chart with one more scope on it. -/
def withScope (chart : Chart) (id : ScopeId) (enclosing : List ScopeId) : Chart :=
  { chart with enclosing := fun other => if other = id then enclosing else chart.enclosing other }

/-- The chart with one more function, builtin or class on it. -/
def withNumber (chart : Chart) (id : Nat) (object : Value) : Chart :=
  { chart with numbered := fun other => if other = id then object else chart.numbered other }

/-- The chart with one more instance on it. -/
def withInstance (chart : Chart) (id : Nat) (cls : Class) : Chart :=
  { chart with classOf := fun other => if other = id then cls else chart.classOf other }

variable {store later : Store}

theorem onward_withScope (chart : Chart) (h : store.Extends later) (enclosing : List ScopeId) :
    chart.Onward store (chart.withScope store.scopes.cells.size enclosing) later :=
  ⟨h, fun _ hid => if_neg (Nat.ne_of_lt hid), fun _ _ => rfl, fun _ _ => rfl⟩

theorem onward_withNumber (chart : Chart) (h : store.Extends later) (object : Value) :
    chart.Onward store (chart.withNumber store.nextId object) later :=
  ⟨h, fun _ _ => rfl, fun _ hid => if_neg (Nat.ne_of_lt hid), fun _ _ => rfl⟩

theorem onward_withInstance (chart : Chart) (h : store.Extends later) (cls : Class) :
    chart.Onward store (chart.withInstance store.fields.size cls) later :=
  ⟨h, fun _ _ => rfl, fun _ _ => rfl, fun _ hid => if_neg (Nat.ne_of_lt hid)⟩

end Chart

/-! ### Operations on the store -/

section Operations

variable {chart : Chart} {store : Store}

theorem charted_readClock (h : chart.Covers store) :
    Charted (fun _ => readClock) (fun _ _ _ => True) chart store := by
  have honward : chart.Onward store chart { store with time := store.time.later } :=
    .of_extends chart ⟨.refl _, Nat.le_refl _, Nat.le_refl _⟩
  exact .of_ok rfl honward (h.of_eq honward rfl rfl (h.current.mono honward)) trivial

theorem charted_printLine (h : chart.Covers store) (line : String) :
    Charted (fun _ => printLine line) (fun _ _ _ => True) chart store := by
  have honward : chart.Onward store chart { store with printed := store.printed.push line } :=
    .of_extends chart ⟨.refl _, Nat.le_refl _, Nat.le_refl _⟩
  exact .of_ok rfl honward (h.of_eq honward rfl rfl (h.current.mono honward)) trivial

/-- A fresh number may be that of any object. -/
theorem charted_freshId (h : chart.Covers store) (object : Value) :
    Charted (fun _ => freshId)
      (fun chart' id later => id = store.nextId ∧ id < later.nextId ∧
        chart'.numbered id = object) chart store := by
  have hgrows : store.Extends { store with nextId := store.nextId + 1 } :=
    ⟨.refl _, Nat.le_succ _, Nat.le_refl _⟩
  have honward := chart.onward_withNumber hgrows object
  exact .of_ok rfl honward (h.of_eq honward rfl rfl (h.current.mono honward))
    ⟨rfl, Nat.lt_succ_self _, if_pos rfl⟩

/-- A new scope goes on the chart inside the environment in which it opens. -/
theorem charted_openScope (h : chart.Covers store) {env : Env} (henv : env.Existing chart store)
    (origin : ScopeOrigin) :
    Charted (fun _ => openScope env origin)
      (fun chart' inner later => inner.Existing chart' later) chart store := by
  have hgrows : store.Extends { store with scopes := (store.scopes.add origin).2 } :=
    ⟨Scopes.grows_add _ _, Nat.le_refl _, Nat.le_refl _⟩
  have honward := chart.onward_withScope hgrows env.chain
  have hsize : (store.scopes.add origin).2.cells.size = store.scopes.cells.size + 1 :=
    Array.size_push _
  refine .of_ok rfl honward ?_ ⟨?_, if_pos rfl⟩
  · refine h.extend honward (fun id hexists hnot => ?_) (h.current.mono honward)
      (fun id name value hvalue => .inl ?_) fun table htable name value hvalue =>
        .inl ⟨table, htable, hvalue⟩
    · -- the one new scope is enclosed by that of the environment
      have hlt : id < store.scopes.cells.size + 1 := hsize ▸ hexists
      have hid : id = store.scopes.cells.size :=
        Nat.le_antisymm (Nat.le_of_lt_succ hlt) (Nat.le_of_not_lt hnot)
      subst hid
      refine ⟨env.scope, henv.1, ?_⟩
      rw [honward.enclosing _ henv.1, henv.2]
      exact if_pos rfl
    · have hold := Scopes.bindings_add store.scopes origin id
      rwa [← hold]
  · show store.scopes.cells.size < (store.scopes.add origin).2.cells.size
    omega

theorem charted_defineAt (h : chart.Covers store) (id : ScopeId) (name : String) {value : Value}
    (hvalue : value.Existing chart store) :
    Charted (fun _ => defineAt id name value) (fun _ _ _ => True) chart store := by
  have honward : chart.Onward store chart
      { store with scopes := store.scopes.define id name value } :=
    .of_extends chart ⟨Scopes.grows_define _ _ _ _, Nat.le_refl _, Nat.le_refl _⟩
  have hsize : (store.scopes.define id name value).cells.size = store.scopes.cells.size :=
    Array.size_modify
  refine .of_ok rfl honward ?_ trivial
  refine h.extend honward (fun other hexists hnot => ?_) (h.current.mono honward)
    (fun other key found hfound => ?_) fun table htable key found hfound =>
      .inl ⟨table, htable, hfound⟩
  · exact absurd (hsize ▸ hexists : other < store.scopes.cells.size) hnot
  · -- what a scope holds now is the new value or one from before
    rcases Scopes.find?_bindings_define hfound with ⟨_, _, rfl⟩ | hold
    · exact .inr (hvalue.mono honward)
    · exact .inl hold

theorem charted_defineHere (h : chart.Covers store) (name : String) {value : Value}
    (hvalue : value.Existing chart store) :
    Charted (fun _ => defineHere name value) (fun _ _ _ => True) chart store :=
  .getBind (charted_defineAt h store.current.scope name hvalue)

theorem charted_setField (h : chart.Covers store) (inst : Instance) (name : String) {value : Value}
    (hvalue : value.Existing chart store) :
    Charted (fun _ => setField inst name value) (fun _ _ _ => True) chart store := by
  have hsize : (store.fields.modify inst.id fun table => table.insert name value).size =
      store.fields.size := Array.size_modify
  have honward : chart.Onward store chart { store with
      fields := store.fields.modify inst.id fun table => table.insert name value } :=
    .of_extends chart ⟨.refl _, Nat.le_refl _, Nat.le_of_eq hsize.symm⟩
  refine .of_ok rfl honward ?_ trivial
  refine h.extend honward (fun id hexists hnot => absurd hexists hnot) (h.current.mono honward)
    (fun _ _ _ hfound => .inl hfound) fun table htable key found hfound => ?_
  rcases Store.field_of_setField htable hfound with hold | rfl
  · exact .inl hold
  · exact .inr (hvalue.mono honward)

/-- A new instance goes on the chart with its class. -/
theorem charted_newInstance (h : chart.Covers store) {cls : Class}
    (hcls : cls.Existing chart store) :
    Charted (fun _ => newInstance cls)
      (fun chart' inst later => (Value.object inst).Existing chart' later)
      chart store := by
  have hgrows : store.Extends { store with fields := store.fields.push {} } :=
    ⟨.refl _, Nat.le_refl _, by rw [Array.size_push]; exact Nat.le_succ _⟩
  have honward := chart.onward_withInstance hgrows cls
  have hnew : store.fields.size < (store.fields.push {}).size := by
    rw [Array.size_push]
    exact Nat.lt_succ_self _
  refine .of_ok rfl honward ?_ (.object hnew (if_pos rfl) (hcls.mono honward))
  refine h.extend honward (fun id hexists hnot => absurd hexists hnot) (h.current.mono honward)
    (fun _ _ _ hfound => .inl hfound) fun table htable key found hfound => ?_
  rcases Array.mem_push.mp htable with htable | rfl
  · exact .inl ⟨table, htable, hfound⟩
  · cases hfound

/-- A new function goes on the chart. -/
theorem charted_newClosure (h : chart.Covers store) (declaration : FunctionDecl) {env : Env}
    (henv : env.Existing chart store) (initializer : Bool) :
    Charted (fun _ => newClosure declaration env initializer)
      (fun chart' closure later => closure.Existing chart' later) chart store := by
  refine (charted_freshId h (.function ⟨store.nextId, declaration, env, initializer⟩)).bind ?_
  rintro _ chart' later honward h ⟨rfl, hnumber, hcharted⟩
  exact .pure h ⟨hnumber, hcharted, henv.mono honward⟩

theorem charted_bindTo (h : chart.Covers store) {method : Closure}
    (hmethod : method.Existing chart store) {receiver : Value}
    (hreceiver : receiver.Existing chart store) :
    Charted (fun _ => method.bindTo receiver)
      (fun chart' bound later => bound.Existing chart' later) chart store := by
  refine (charted_openScope h hmethod.env .receiver).bind fun env chart later honward h henv => ?_
  refine (charted_defineAt h env.scope "this" (hreceiver.mono honward)).bind ?_
  intro _ chart last honward' h _
  exact charted_newClosure h method.declaration (henv.mono honward') method.initializer

/-- What a chain of scopes gives exists. -/
theorem Chart.Covers.getAt (h : chart.Covers store) {env : Env} {hops : Nat} {name : String}
    {value : Value} (hvalue : store.scopes.getAt env hops name = .ok value) :
    value.Existing chart store := by
  obtain ⟨id, hfound⟩ := Scopes.find?_of_getAt hvalue
  exact h.values id name value hfound

theorem charted_reaching {α : Type} {post : Chart → α → Store → Prop} (h : chart.Covers store)
    {r : Except ReachFault α} (hr : ∀ value, r = .ok value → post chart value store) :
    Charted (fun _ => reaching r) post chart store := by
  cases r with
  | ok value => exact .pure h (hr value rfl)
  | error fault => exact .throw h trivial

theorem charted_readName (h : chart.Covers store) (name : String) (binding : Binding)
    (site : Site) :
    Charted (fun _ => readName name binding site)
      (fun chart' value later => value.Existing chart' later) chart store := by
  refine .getBind ?_
  cases binding with
  | enclosing hops => exact charted_reaching h fun value hvalue => h.getAt hvalue
  | global =>
    unfold Scopes.get
    cases hfind : store.scopes.find? name globalEnv.chain with
    | none => exact .fail h
    | some value =>
      obtain ⟨id, hvalue⟩ := Scopes.exists_of_find? hfind
      exact .pure h (h.values id name value hvalue)

theorem charted_writeName (h : chart.Covers store) (name : String) (binding : Binding)
    (site : Site) {value : Value} (hvalue : value.Existing chart store) :
    Charted (fun _ => writeName name binding site value) (fun _ _ _ => True) chart store := by
  have htarget : Charted (fun _ => targetScope name binding site) (fun _ _ _ => True) chart
      store := by
    refine .getBind ?_
    cases binding with
    | enclosing hops => exact charted_reaching h fun _ _ => trivial
    | global =>
      cases store.scopes.holder? name globalEnv.chain with
      | none => exact .fail h
      | some id => exact .pure h trivial
  rw [writeName_eq]
  exact htarget.bind fun id chart later honward h _ =>
    charted_defineAt h id name (hvalue.mono honward)

end Operations

end Treewalk
