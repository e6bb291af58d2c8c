import Mathlib.Data.List.Forall2
import Treewalk.Proofs.Machine.Tracing

/-!
# `this` and `super`

Code in a class runs only in calls of methods. When it uses `this`, the receiver that it finds is
the one to which the running method was bound, however deep in blocks and functions the code stands.
When it uses `super`, it finds the superclass of the class in which the method was declared, and
just inside it that same receiver. Both follow from two views of the environment in force: binding
says where the receiver stands, and the history of the store says what it is.
-/

namespace Treewalk

open Grammar (ClassKind)

/-- Code in the body of a method: between the two there are only blocks and functions. -/
def Layout.InMethod (layout : Layout) (f : FunctionDecl) : Prop :=
  ∃ inner names outer, layout = inner ++ ⟨.call f, names⟩ :: ⟨.receiver, ["this"]⟩ :: outer ∧
    ∀ scope ∈ inner, scope.IsLocal

/-- The code in force belongs to a method that was declared in a class with a superclass, or without
one, was bound to a receiver and then called. It runs in the scope of that call, or in scopes that
blocks and functions opened inside it. -/
inductive Store.RunsMethod (store : Store) (superclass : Option Class) (method : Closure)
    (receiver : Value) : Prop where
  | intro {outer inner : Env} {bound : Closure} {nested : List ScopeId}
    (houter : outer.Arises store)
    (hcalls : store.Calls outer superclass method receiver bound inner)
    (hchain : store.current.chain = nested ++ inner.chain)
    (hnested : ∀ id ∈ nested, store.scopes.Local id)

/-- A class and the classes above it, going up. -/
def Class.lineage : Class → List Class
  | .base id name methods => [.base id name methods]
  | .derived id name methods superclass =>
    .derived id name methods superclass :: superclass.lineage

/-- The nearest method of a name, going up from a class, bound to a receiver. It is an error if no
class on the way declares one. -/
def Class.bindMethod (cls : Class) (name : String) (receiver : Value) (site : Site) :
    EvalM Value := do
  match cls.lineage.findSome? (fun above => above.methods.find? name) with
  | some method => return .function (← method.bindTo receiver)
  | none => fail (.undefinedProperty name site)

/-! ### Two views of one environment -/

/-- The first element with a property splits a list in one way. -/
theorem eq_of_append_cons_eq {α : Type} {p : α → Prop} {a a' b b' : List α} {x x' : α}
    (h : a ++ x :: b = a' ++ x' :: b') (ha : ∀ y ∈ a, ¬ p y) (hx : p x) (ha' : ∀ y ∈ a', ¬ p y)
    (hx' : p x') : a = a' ∧ x = x' ∧ b = b' := by
  induction a generalizing a' with
  | nil =>
    cases a' with
    | nil =>
      obtain ⟨hhead, htail⟩ := List.cons.inj h
      exact ⟨rfl, hhead, htail⟩
    | cons y a' =>
      obtain ⟨rfl, _⟩ := List.cons.inj h
      exact absurd hx (ha' x List.mem_cons_self)
  | cons y a ih =>
    cases a' with
    | nil =>
      obtain ⟨rfl, _⟩ := List.cons.inj h
      exact absurd hx' (ha y List.mem_cons_self)
    | cons y' a' =>
      obtain ⟨rfl, htail⟩ := List.cons.inj h
      obtain ⟨rfl, hrest⟩ := ih htail (fun z hz => ha z (List.mem_cons_of_mem y hz))
        fun z hz => ha' z (List.mem_cons_of_mem y hz)
      exact ⟨rfl, hrest⟩

/-- A chain that matches a layout splits where the layout does. -/
theorem Scopes.Matches.append {scopes : Scopes} {inner outer : Layout} {chain : List ScopeId}
    (h : scopes.Matches (inner ++ outer) chain) :
    ∃ ids rest, chain = ids ++ rest ∧ List.Forall₂ scopes.Realizes inner ids ∧
      scopes.Matches outer rest := by
  induction inner generalizing chain with
  | nil => exact ⟨[], chain, rfl, .nil, h⟩
  | cons scope inner ih =>
    cases h with
    | @cons _ id _ chain hscope h =>
      obtain ⟨ids, rest, rfl, hids, hrest⟩ := ih h
      exact ⟨id :: ids, rest, rfl, .cons hscope hids, hrest⟩

/-- A scope of the layout that a block or a call opens is realized by such a scope. -/
theorem StaticScope.IsLocal.realized {scopes : Scopes} {scope : StaticScope} {id : ScopeId}
    (h : scope.IsLocal) (hrealizes : scopes.Realizes scope id) : scopes.Local id := by
  refine ⟨scope.origin, hrealizes.origin, ?_⟩
  rcases h.origin with ⟨body, horigin⟩ | ⟨f, horigin⟩
  · rw [horigin]
    trivial
  · rw [horigin]
    trivial

theorem local_of_realizes {scopes : Scopes} {inner : Layout} {ids : List ScopeId}
    (h : List.Forall₂ scopes.Realizes inner ids) (hinner : ∀ scope ∈ inner, scope.IsLocal) :
    ∀ id ∈ ids, scopes.Local id := by
  induction h with
  | nil => exact fun id hid => absurd hid List.not_mem_nil
  | cons hscope _ ih =>
    obtain ⟨hlocal, hinner⟩ := List.forall_mem_cons.mp hinner
    exact List.forall_mem_cons.mpr ⟨hlocal.realized hscope, ih hinner⟩

/-- Scopes that realize a layout and end in a call realize one that ends in that function. -/
theorem eq_append_call_of_realizes {scopes : Scopes} {inner : Layout} {nested : List ScopeId}
    {id : ScopeId} {f : FunctionDecl} (h : List.Forall₂ scopes.Realizes inner (nested ++ [id]))
    (horigin : scopes.origin? id = some (.call f)) :
    ∃ before names, inner = before ++ [⟨.call f, names⟩] := by
  have hdrop := List.forall₂_drop_append inner nested [id] h
  obtain ⟨⟨origin, names⟩, rest, hscope, hrest, hinner⟩ := List.forall₂_cons_right_iff.mp hdrop
  obtain rfl := List.forall₂_nil_right_iff.mp hrest
  obtain rfl := Option.some.inj (hscope.origin.symm.trans horigin)
  exact ⟨inner.take nested.length, names, by rw [← hinner, List.take_append_drop]⟩

/-- The superclass of the class in which a method was declared stands just outside its receiver. -/
theorem Store.Declares.superclass {store : Store} {outer : Env} {superclass : Option Class}
    {method : Closure} (h : store.Declares outer superclass method) (houter : outer.Arises store)
    (hsession : store.scopes.origin? 0 = some .session)
    (horigin : store.scopes.origin? method.env.scope = some .superclass) :
    ∃ cls, superclass = some cls ∧
      (store.scopes.bindings method.env.scope).find? "super" = some (.class cls) := by
  have henv := h.env
  generalize method.env = env at henv horigin
  cases henv with
  | superclass _ _ hsuper => exact ⟨_, rfl, hsuper⟩
  | plain =>
    -- no class statement stands in the scope of a superclass
    obtain ⟨origin, hscope, hkind⟩ := houter.origin hsession
    obtain rfl := Option.some.inj (hscope.symm.trans horigin)
    rcases hkind with heq | hlocal
    · cases heq
    · exact hlocal.elim

/-- Inside the scope of a call of a bound method stands its receiver, and then what the method
closes over. -/
theorem Store.Calls.chain {store : Store} {outer inner : Env} {superclass : Option Class}
    {method bound : Closure} {receiver : Value}
    (h : store.Calls outer superclass method receiver bound inner) :
    inner.chain = inner.scope :: bound.env.scope :: method.env.chain := by
  rw [Env.chain, h.opened.scope.1, Env.chain, h.binds.scope.1]

/-- What the scopes around code in a class hold, and what its names are bound to. -/
structure Store.Dispatches (store : Store) (layout : Layout) (enclosing : ClassKind)
    (superclass : Option Class) (receiver : Value) (hops : Nat) : Prop where
  this : layout.names.binding "this" = .enclosing hops
  receiver : store.scopes.getAt store.current hops "this" = .ok receiver
  super : enclosing = .subclass → layout.names.binding "super" = .enclosing (hops + 1) ∧
    ∃ cls, superclass = some cls ∧
      store.scopes.getAt store.current (hops + 1) "super" = .ok (.class cls)

section Views

variable {store : Store} {layout : Layout} {enclosing : ClassKind}
  {superclass : Option Class} {method : Closure} {receiver : Value}

/-- Code in a class runs in a call of a method that was bound to an instance. -/
theorem Store.Explained.runsMethod_of_fits {known : Known} (h : store.Explained)
    (hsound : store.Sound known) (hmatches : store.scopes.Matches layout store.current.chain)
    (hfits : layout.Fits enclosing) (hclass : enclosing ≠ .none) :
    ∃ superclass method inst, store.RunsMethod superclass method (.object inst) := by
  obtain ⟨inner, outer, rfl, _⟩ := hfits.receiver hclass
  obtain ⟨ids, rest, hchain, _, hrest⟩ := hmatches.append
  cases hrest with
  | @cons _ id _ rest hreceiver _ =>
    rcases h.current.method_or_plain h.occurs.session with hplain | ⟨outer, superclass, method,
      receiver, bound, inner, nested, houter, hcalls, hcurrent, hnested⟩
    · -- the layout puts a receiver around the code
      exact absurd hreceiver.origin (hplain id (by simp [hchain]))
    · obtain ⟨_, horigin, hthis⟩ := hcalls.binds.scope
      obtain ⟨inst, rfl⟩ := hsound.receiver _ receiver horigin hthis
      exact ⟨superclass, method, inst, houter, hcalls, hcurrent, hnested⟩

/-- Code in a class that runs in a call of a method stands in the body of that method, and finds its
receiver, and the superclass of its class, where its names are bound. -/
theorem Store.RunsMethod.dispatches (h : store.RunsMethod superclass method receiver)
    (hsession : store.scopes.origin? 0 = some .session)
    (hmatches : store.scopes.Matches layout store.current.chain) (hfits : layout.Fits enclosing)
    (hclass : enclosing ≠ .none) :
    layout.InMethod method.declaration ∧
      ∃ hops, store.Dispatches layout enclosing superclass receiver hops := by
  obtain ⟨hstatement, hcalls, hchain, hnested⟩ := h
  rename_i around call bound nested
  obtain ⟨inner, outer, rfl, hinner, hthis, hsuper⟩ := hfits.receiver hclass
  obtain ⟨ids, rest, hids, hrealizes, hrest⟩ := hmatches.append
  have hcall : store.scopes.Local call.scope := ⟨_, hcalls.opened.scope.2, trivial⟩
  have hbefore : ∀ id ∈ nested ++ [call.scope], store.scopes.Local id :=
    List.forall_mem_append.mpr ⟨hnested, List.forall_mem_singleton.mpr hcall⟩
  have hscopes : store.current.chain =
      (nested ++ [call.scope]) ++ bound.env.scope :: method.env.chain := by
    rw [hchain, hcalls.chain, List.append_assoc, List.singleton_append]
  cases hrest with
  | @cons _ id _ rest hreceiver hrest =>
    -- the layout and the history put the first receiver of the chain in the same place
    obtain ⟨rfl, rfl, rfl⟩ := eq_of_append_cons_eq (hids.symm.trans hscopes)
      (fun id hid => (local_of_realizes hrealizes hinner id hid).ne_receiver) hreceiver.origin
      (fun id hid => (hbefore id hid).ne_receiver) hcalls.binds.scope.2.1
    refine ⟨?_, inner.length, hthis, ?_, fun hsubclass => ?_⟩
    · obtain ⟨before, names, rfl⟩ := eq_append_call_of_realizes hrealizes hcalls.opened.scope.2
      refine ⟨before, names, outer, ?_, fun scope hscope => hinner scope ?_⟩
      · rw [hcalls.binds.declaration, List.append_assoc, List.singleton_append]
      · exact List.mem_append_left _ hscope
    · refine Scopes.getAt_of_getElem? ?_ hcalls.binds.scope.2.2
      rw [hscopes, hrealizes.length_eq]
      simp
    · obtain ⟨⟨rest, rfl⟩, hbinding⟩ := hsuper hsubclass
      cases hrest with
      | cons hscope _ =>
        obtain ⟨cls, hcls, hvalue⟩ :=
          hcalls.binds.declares.superclass hstatement hsession hscope.origin
        refine ⟨hbinding, cls, hcls, Scopes.getAt_of_getElem? ?_ hvalue⟩
        rw [hscopes, hrealizes.length_eq, List.getElem?_append_right (Nat.le_add_right _ 1),
          Nat.add_sub_cancel_left]
        rfl

end Views

/-! ### Evaluation -/

section Evaluation

variable {store : Store} {layout : Layout} {enclosing : ClassKind}
  {superclass : Option Class} {receiver : Value} {hops : Nat}

/-- `this` gives the receiver and changes nothing. -/
theorem Store.Dispatches.eval_this (h : store.Dispatches layout enclosing superclass receiver hops)
    (anchor : Anchor) (rounds depth : Nat) :
    Expr.eval rounds (depth + 1) (.this anchor (layout.names.binding "this")) store =
      .ok receiver store := by
  rw [h.this]
  show reaching (store.scopes.getAt store.current hops "this") store = _
  rw [h.receiver]
  rfl

/-- The method that a class finds is the nearest one, going up. -/
theorem Class.findMethod?_eq_findSome? (cls : Class) (name : String) :
    cls.findMethod? name = cls.lineage.findSome? fun above => above.methods.find? name := by
  induction cls with
  | base id cname table => rw [findMethod?, lineage, List.findSome?_singleton, methods]
  | derived id cname table superclass ih =>
    rw [findMethod?, ih, lineage, List.findSome?_cons, methods]
    cases table.find? name <;> rfl

/-- `super` gives the nearest method going up from the superclass, bound to the receiver. -/
theorem Store.Dispatches.eval_super
    (h : store.Dispatches layout .subclass superclass receiver hops) :
    ∃ cls, superclass = some cls ∧
      ∀ (method : String) (anchor : Anchor) (rounds depth : Nat),
        Expr.eval rounds (depth + 1) (.super method anchor (layout.names.binding "super")) store =
          cls.bindMethod method receiver anchor.site store := by
  obtain ⟨hbinding, cls, hcls, hfound⟩ := h.super rfl
  refine ⟨cls, hcls, fun method anchor rounds depth => ?_⟩
  have hsuper : reaching (store.scopes.getAt store.current (hops + 1) "super") store =
      .ok (.class cls) store := by
    rw [hfound]
    rfl
  have hthis : reaching (store.scopes.getAt store.current (hops + 1 - 1) "this") store =
      .ok receiver store := by
    rw [Nat.add_sub_cancel, h.receiver]
    rfl
  have hget : (get : EvalM Store) store = .ok store store := rfl
  rw [hbinding, Class.bindMethod, ← cls.findMethod?_eq_findSome? method]
  show superMethod method (.enclosing (hops + 1)) anchor.site store = _
  exact (bind_of_ok hget).trans ((bind_of_ok hsuper).trans (bind_of_ok hthis))

end Evaluation

section Moments

variable {store : Store} {known : Known} {anchor : Anchor} {binding : Binding}

/-- Where `this` is evaluated, a method runs whose body it stands in, and its value is the receiver
of that method. -/
theorem Store.Explained.dispatch_this (h : store.Explained)
    (hready : (Expr.this anchor binding).ReadyAt known store) :
    (∃ superclass method inst, store.RunsMethod superclass method (.object inst)) ∧
      ∀ superclass method receiver, store.RunsMethod superclass method receiver →
        (∃ r, known.resolution r ∧ r.node = .this anchor binding ∧
          r.layout.InMethod method.declaration) ∧
        ∀ rounds depth, Expr.eval rounds (depth + 1) (.this anchor binding) store =
          .ok receiver store := by
  cases hready with
  | expression hsound hmatches hfits hready =>
    obtain ⟨hclass, hbinding, hknown⟩ := hready
    refine ⟨h.runsMethod_of_fits hsound hmatches hfits hclass, ?_⟩
    intro superclass method receiver hruns
    obtain ⟨hin, hops, hdispatches⟩ := hruns.dispatches hsound.session hmatches hfits hclass
    refine ⟨⟨_, hknown, rfl, hin⟩, fun rounds depth => ?_⟩
    rw [hbinding]
    exact hdispatches.eval_this anchor rounds depth

/-- Where `super` is evaluated, a method runs whose body it stands in, and its value is the nearest
method going up from the superclass of the class that declares it, bound to the receiver of that
method. -/
theorem Store.Explained.dispatch_super (h : store.Explained) {name : String}
    (hready : (Expr.super name anchor binding).ReadyAt known store) :
    (∃ superclass method inst, store.RunsMethod superclass method (.object inst)) ∧
      ∀ superclass method receiver, store.RunsMethod superclass method receiver →
        (∃ r, known.resolution r ∧ r.node = .super name anchor binding ∧
          r.layout.InMethod method.declaration) ∧
        ∃ cls, superclass = some cls ∧ ∀ rounds depth,
          Expr.eval rounds (depth + 1) (.super name anchor binding) store =
            cls.bindMethod name receiver anchor.site store := by
  cases hready with
  | expression hsound hmatches hfits hready =>
    obtain ⟨rfl, hbinding, hknown, _⟩ := hready
    have hclass : ClassKind.subclass ≠ .none := by decide
    refine ⟨h.runsMethod_of_fits hsound hmatches hfits hclass, ?_⟩
    intro superclass method receiver hruns
    obtain ⟨hin, hops, hdispatches⟩ := hruns.dispatches hsound.session hmatches hfits hclass
    obtain ⟨cls, hcls, heval⟩ := hdispatches.eval_super
    refine ⟨⟨_, hknown, rfl, hin⟩, cls, hcls, fun rounds depth => ?_⟩
    rw [hbinding]
    exact heval name anchor rounds depth

end Moments

end Treewalk
