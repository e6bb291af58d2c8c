import Treewalk.Proofs.Diagnostic.Legibility
import Treewalk.Proofs.Machine.Soundness

/-!
# Safe computations

A computation is safe from a store when it keeps the store sound, leaves the environment in force
as it found it, and is cut short only by what a program of the language can cause: a runtime error
that quotes known words, an exhausted limit, or a `return` where one may stand. Safety is proved
along the structure of a computation: one rule for each way of combining computations, and one for
each operation on the store.
-/

namespace Treewalk

/-- What may cut a computation short; a `return` may do so only where `returns` holds. -/
def Halt.Safe (known : Known) (returns : Prop) (store : Store) : Halt → Prop
  | .returned value => returns ∧ value.Sound known store.scopes
  | .fault _ => False
  | .failed error => error.Quotes known.word
  | .stackExhausted | .loopExhausted => True

/-- From a store, a computation keeps the store sound and establishes `post`, or is cut short by
something that may do so. -/
def Safe {α : Type} (known : Known) (returns : Prop) (x : EvalM α)
    (post : α → Store → Prop) (store : Store) : Prop :=
  match x store with
  | .ok value later => store.Evolves later ∧ later.Sound known ∧ post value later
  | .error halt later =>
    store.Evolves later ∧ later.Sound known ∧ halt.Safe known returns later

variable {α β : Type} {known : Known} {returns : Prop} {store : Store}

/-! ### Combinations -/

theorem Safe.pure {value : α} {post : α → Store → Prop} (hsound : store.Sound known)
    (hpost : post value store) : Safe known returns (Pure.pure value) post store :=
  ⟨.refl store, hsound, hpost⟩

theorem bind_of_ok {x : EvalM α} {f : α → EvalM β} {value : α} {later : Store}
    (h : x store = .ok value later) : (x >>= f) store = f value later := by
  show EStateM.bind x f store = f value later
  unfold EStateM.bind
  rw [h]

theorem bind_of_error {x : EvalM α} {f : α → EvalM β} {halt : Halt} {later : Store}
    (h : x store = .error halt later) : (x >>= f) store = .error halt later := by
  show EStateM.bind x f store = .error halt later
  unfold EStateM.bind
  rw [h]

theorem get_bind (f : Store → EvalM β) : (get >>= f) store = f store store := rfl

/-- A sequence of computations that completes passes through a middle store. -/
theorem exists_of_bind_ok {x : EvalM α} {f : α → EvalM β} {value : β} {later : Store}
    (h : (x >>= f) store = .ok value later) :
    ∃ first middle, x store = .ok first middle ∧ f first middle = .ok value later := by
  cases hx : x store with
  | ok first middle => exact ⟨first, middle, rfl, (bind_of_ok hx).symm.trans h⟩
  | error halt middle => cases (bind_of_error hx).symm.trans h

theorem within_of_ok {env : Env} {x : EvalM α} {value : α} {later : Store}
    (h : x { store with current := env } = .ok value later) :
    within env x store = .ok value { later with current := store.current } := by
  unfold within
  rw [h]

theorem within_of_error {env : Env} {x : EvalM α} {halt : Halt} {later : Store}
    (h : x { store with current := env } = .error halt later) :
    within env x store = .error halt { later with current := store.current } := by
  unfold within
  rw [h]

/-- Computations in sequence: the second starts from what the first establishes. -/
theorem Safe.bind {x : EvalM α} {f : α → EvalM β} {middle : α → Store → Prop}
    {post : β → Store → Prop} (hx : Safe known returns x middle store)
    (hf : ∀ value later, store.Evolves later → later.Sound known → middle value later →
      Safe known returns (f value) post later) :
    Safe known returns (x >>= f) post store := by
  unfold Safe at hx ⊢
  split at hx
  · rename_i value later hresult
    obtain ⟨hevolves, hsound, hmiddle⟩ := hx
    have hnext := hf value later hevolves hsound hmiddle
    unfold Safe at hnext
    rw [bind_of_ok hresult]
    split at hnext
    -- the second computation ends one way or the other, and the growth of both adds up
    · exact ⟨hevolves.trans hnext.1, hnext.2⟩
    · exact ⟨hevolves.trans hnext.1, hnext.2⟩
  · rename_i hresult
    rw [bind_of_error hresult]
    exact hx

theorem Safe.of_ok {x : EvalM α} {post : α → Store → Prop} {value : α} {later : Store}
    (hx : Safe known returns x post store) (h : x store = .ok value later) :
    store.Evolves later ∧ later.Sound known ∧ post value later := by
  unfold Safe at hx
  rwa [h] at hx

theorem Safe.of_error {x : EvalM α} {post : α → Store → Prop} {halt : Halt} {later : Store}
    (hx : Safe known returns x post store) (h : x store = .error halt later) :
    store.Evolves later ∧ later.Sound known ∧ halt.Safe known returns later := by
  unfold Safe at hx
  rwa [h] at hx

/-- What a computation establishes may be weakened. -/
theorem Safe.mono {x : EvalM α} {post post' : α → Store → Prop}
    (hx : Safe known returns x post store)
    (himp : ∀ value later, store.Evolves later → later.Sound known → post value later →
      post' value later) : Safe known returns x post' store := by
  unfold Safe at hx ⊢
  split at hx
  · obtain ⟨hevolves, hsound, hpost⟩ := hx
    exact ⟨hevolves, hsound, himp _ _ hevolves hsound hpost⟩
  · exact hx

/-- A `return` may cut short what another one may. -/
theorem Safe.returnsMono {x : EvalM α} {post : α → Store → Prop} {returns' : Prop}
    (hx : Safe known returns x post store) (himp : returns → returns') :
    Safe known returns' x post store := by
  unfold Safe at hx ⊢
  split at hx
  · exact hx
  · rename_i halt later _
    obtain ⟨hevolves, hsound, hhalt⟩ := hx
    refine ⟨hevolves, hsound, ?_⟩
    cases halt with
    | returned => exact ⟨himp hhalt.1, hhalt.2⟩
    | fault | failed => exact hhalt
    | stackExhausted | loopExhausted => trivial

/-- A computation that no `return` cuts short may stand anywhere. -/
theorem Safe.anywhere {x : EvalM α} {post : α → Store → Prop} (hx : Safe known False x post store) :
    Safe known returns x post store :=
  hx.returnsMono False.elim

theorem Safe.getBind {f : Store → EvalM β} {post : β → Store → Prop}
    (h : Safe known returns (f store) post store) :
    Safe known returns (get >>= f) post store :=
  h

theorem Safe.fail {error : RuntimeError} {post : α → Store → Prop} (hsound : store.Sound known)
    (h : error.Quotes known.word) : Safe known returns (Treewalk.fail error) post store :=
  ⟨.refl store, hsound, h⟩

theorem Safe.throw {halt : Halt} {post : α → Store → Prop} (hsound : store.Sound known)
    (hhalt : halt.Safe known returns store) :
    Safe known returns (MonadExcept.throw halt) post store :=
  ⟨.refl store, hsound, hhalt⟩

/-- A computation in another environment is safe if it is safe there. -/
theorem Safe.within {env : Env} {x : EvalM α} {post : α → Store → Prop}
    (hx : Safe known returns x
      (fun value later => post value { later with current := store.current })
      { store with current := env }) :
    Safe known returns (Treewalk.within env x) post store := by
  unfold Safe
  cases hresult : x { store with current := env } with
  | ok value later =>
    obtain ⟨hevolves, hsound, hpost⟩ := hx.of_ok hresult
    rw [within_of_ok hresult]
    exact ⟨⟨hevolves.scopes, rfl⟩, hsound.withCurrent _, hpost⟩
  | error halt later =>
    obtain ⟨hevolves, hsound, hhalt⟩ := hx.of_error hresult
    rw [within_of_error hresult]
    refine ⟨⟨hevolves.scopes, rfl⟩, hsound.withCurrent _, ?_⟩
    cases halt with
    | returned | fault | failed | stackExhausted | loopExhausted => exact hhalt

/-- A caught `return` gives a sound value and cuts nothing short. -/
theorem Safe.catchReturn {x : EvalM Unit} {post : Unit → Store → Prop}
    (hx : Safe known True x post store) :
    Safe known returns (Treewalk.catchReturn x)
      (fun returned later => ∀ value ∈ returned, value.Sound known later.scopes) store := by
  unfold Safe Treewalk.catchReturn
  cases hresult : x store with
  | ok value later =>
    obtain ⟨hevolves, hsound, _⟩ := hx.of_ok hresult
    exact ⟨hevolves, hsound, fun value hvalue => absurd hvalue (by simp)⟩
  | error halt later =>
    obtain ⟨hevolves, hsound, hhalt⟩ := hx.of_error hresult
    cases halt with
    | returned value =>
      refine ⟨hevolves, hsound, fun found hfound => ?_⟩
      obtain rfl := Option.some.inj hfound
      exact hhalt.2
    | fault => exact hhalt.elim
    | failed | stackExhausted | loopExhausted => exact ⟨hevolves, hsound, hhalt⟩

/-- A loop is safe if its condition and its body are, from every store in which a round can
start. -/
theorem Safe.whileTrue {limit : Nat} {condition : EvalM Bool} {body : EvalM Unit}
    (start : Store → Prop) (hsound : store.Sound known) (hstart : start store)
    (hcondition : ∀ store : Store, store.Sound known → start store →
      Safe known returns condition (fun _ later => start later) store)
    (hbody : ∀ store : Store, store.Sound known → start store →
      Safe known returns body (fun _ later => start later) store) :
    Safe known returns (Treewalk.whileTrue limit condition body) (fun _ later => start later)
      store := by
  -- whatever holds when a round starts holds again after it
  induction limit generalizing store with
  | zero => exact Safe.throw hsound trivial
  | succ limit ih =>
    rw [Treewalk.whileTrue]
    refine (hcondition store hsound hstart).bind fun goesOn later _ hsound hstart => ?_
    cases goesOn with
    | false => exact Safe.pure hsound hstart
    | true =>
      refine (hbody later hsound hstart).bind fun _ later _ hsound hstart => ?_
      exact ih hsound hstart

/-! ### Operations on the store -/

theorem safe_freshId (hsound : store.Sound known) :
    Safe known returns freshId (fun _ _ => True) store :=
  ⟨⟨.refl _, rfl⟩, hsound.of_eq rfl rfl, trivial⟩

theorem safe_readClock (hsound : store.Sound known) :
    Safe known returns readClock (fun _ _ => True) store :=
  ⟨⟨.refl _, rfl⟩, hsound.of_eq rfl rfl, trivial⟩

theorem safe_printLine (hsound : store.Sound known) (line : String) :
    Safe known returns (printLine line) (fun _ _ => True) store :=
  ⟨⟨.refl _, rfl⟩, hsound.of_eq rfl rfl, trivial⟩

/-- A new scope has the origin it was opened with, and stands just inside the environment. -/
theorem safe_openScope (hsound : store.Sound known) (env : Env) (origin : ScopeOrigin) :
    Safe known returns (openScope env origin)
      (fun inner later => later.scopes.origin? inner.scope = some origin ∧
        inner.enclosing = env.chain) store := by
  refine ⟨⟨store.scopes.grows_add origin, rfl⟩, hsound.add origin, ?_, rfl⟩
  show (store.scopes.add origin).2.origin? store.scopes.cells.size = some origin
  rw [Scopes.origin?_add, if_pos rfl]

theorem safe_defineAt (hsound : store.Sound known) {id : ScopeId} {name : String} {value : Value}
    (hvalue : value.Sound known store.scopes) (hadmits : store.scopes.Admits id name value) :
    Safe known returns (defineAt id name value)
      (fun _ later => store.scopes.Exists id → later.scopes.defines id name = true) store :=
  have hgrows := store.scopes.grows_define id name value
  ⟨⟨hgrows, rfl⟩, hsound.define (hvalue.mono hgrows) hadmits,
    fun hid => Scopes.defines_define_self hid name value⟩

/-- Declaring a name in the scope in force. -/
theorem safe_defineHere (hsound : store.Sound known) {name : String} {value : Value}
    (hvalue : value.Sound known store.scopes) (hname : IsName name) :
    Safe known returns (defineHere name value)
      (fun _ later => store.scopes.Exists store.current.scope →
        later.scopes.defines store.current.scope name = true) store := by
  unfold defineHere
  refine Safe.getBind ?_
  exact safe_defineAt hsound hvalue (Scopes.admits_of_isName hname _ _)

theorem safe_setField (hsound : store.Sound known) {inst : Instance} {name : String}
    {value : Value} (hvalue : value.Sound known store.scopes) :
    Safe known returns (setField inst name value) (fun _ _ => True) store := by
  have hfields : ∀ table ∈ store.fields.modify inst.id fun table => table.insert name value,
      ∀ key found, table.find? key = some found → found.Sound known store.scopes := by
    intro table htable key found hfound
    obtain ⟨i, hi⟩ := Array.mem_iff_getElem?.mp htable
    rw [Array.getElem?_modify] at hi
    split at hi
    -- the table that changed holds the new value and what it held before
    · obtain ⟨old, hold, rfl⟩ := Option.map_eq_some_iff.mp hi
      rw [Table.find?_insert] at hfound
      split at hfound
      · obtain rfl := Option.some.inj hfound
        exact hvalue
      · exact hsound.fields old (Array.mem_of_getElem? hold) key found hfound
    · exact hsound.fields table (Array.mem_of_getElem? hi) key found hfound
  exact ⟨⟨.refl _, rfl⟩,
    ⟨hsound.session, hsound.values, hsound.superclass, hsound.receiver, hfields⟩, trivial⟩

theorem safe_newInstance (hsound : store.Sound known) (cls : Class) :
    Safe known returns (newInstance cls) (fun inst _ => inst.cls = cls) store := by
  have hfields : ∀ table ∈ store.fields.push {}, ∀ key found, table.find? key = some found →
      found.Sound known store.scopes := by
    intro table htable key found hfound
    rcases Array.mem_push.mp htable with htable | rfl
    · exact hsound.fields table htable key found hfound
    · cases hfound
  exact ⟨⟨.refl _, rfl⟩,
    ⟨hsound.session, hsound.values, hsound.superclass, hsound.receiver, hfields⟩, rfl⟩

theorem safe_newClosure (hsound : store.Sound known) (declaration : FunctionDecl) (env : Env)
    (initializer : Bool) :
    Safe known returns (newClosure declaration env initializer)
      (fun closure _ => closure.declaration = declaration ∧ closure.env = env ∧
        closure.initializer = initializer) store := by
  refine (safe_freshId hsound).bind fun id later _ hsound _ => ?_
  exact Safe.pure hsound ⟨rfl, rfl, rfl⟩

/-- A method bound to an instance runs: its receiver stands just inside the scopes that it closes
over. -/
theorem safe_bindTo (hsound : store.Sound known) {closure : Closure} {inst : Instance}
    (hmethod : closure.IsMethod known store.scopes) (hinst : inst.cls.Sound known store.scopes) :
    Safe known returns (closure.bindTo (.object inst))
      (fun bound later => bound.Runs known later.scopes ∧
        bound.declaration = closure.declaration) store := by
  obtain ⟨layout, place, hmatches, hfits, hready⟩ := hmethod
  refine (safe_openScope hsound closure.env .receiver).bind fun env later hevolves hsound henv => ?_
  obtain ⟨horigin, henclosing⟩ := henv
  have hvalue : (Value.object inst).Sound known later.scopes :=
    .object (hinst.mono hevolves.scopes)
  -- the new scope is one of a receiver, so `this` may stand in it and `super` is not asked for
  have hadmits : later.scopes.Admits env.scope "this" (.object inst) := by
    refine ⟨fun hsuperclass => ?_, fun _ _ => ⟨inst, rfl⟩⟩
    rw [horigin] at hsuperclass
    cases hsuperclass
  refine (safe_defineAt hsound hvalue hadmits).bind fun _ last hevolves' hsound' hdefines => ?_
  have hthis := hdefines (Scopes.exists_of_origin? horigin)
  refine (safe_newClosure hsound' closure.declaration env closure.initializer).mono ?_
  intro bound final hevolves'' _ hbound
  obtain ⟨hdeclaration, henv, _⟩ := hbound
  refine ⟨⟨⟨.receiver, ["this"]⟩ :: layout, place, true, ?_, hfits, hdeclaration ▸ hready,
    fun _ => ⟨layout, rfl⟩⟩, hdeclaration⟩
  have hchain : bound.env.chain = env.scope :: closure.env.chain := by
    rw [henv, Env.chain, henclosing]
  rw [hchain]
  have hgrows := (hevolves.scopes.trans hevolves'.scopes).trans hevolves''.scopes
  refine .cons ⟨?_, ?_⟩ (hmatches.mono hgrows)
  · exact (hevolves'.scopes.trans hevolves''.scopes).origin _ _ horigin
  · intro name hname
    obtain rfl := List.mem_singleton.mp hname
    exact hevolves''.scopes.names _ _ hthis

end Treewalk
