import Treewalk.Proofs.Machine.Safety

/-!
# The moments of a run

A moment of a run is an expression together with the store in which its evaluation begins. Moments
are made visible by a watch, which looks at every expression just before it is evaluated and may
call off the run. A run comes to a moment if watching for that moment, and for no other, calls off
the run.

Ready code comes to no moment but those in which the scopes in force are the ones in which its
names were bound.
-/

namespace Treewalk

open Grammar (ClassKind Place)

/-! ### Watches -/

/-- What a watch finds wrong with an expression that is about to be evaluated in a store. -/
abbrev Watch := Expr → Store → Option Fault

/-- Evaluation that a watch may call off before it begins. -/
def Watch.over (watch : Watch) (eval : Expr → EvalM Value) (e : Expr) : EvalM Value := fun store =>
  match watch e store with
  | some fault => .error (.fault fault) store
  | none => eval e store

mutual

/-- The value of an expression, with a watch over it and everything that it evaluates. -/
def Expr.evalWatched (watch : Watch) (rounds : Nat) : (depth : Nat) → Expr → EvalM Value
  | 0, _ => throw .stackExhausted
  | depth + 1, e =>
    watch.over (Expr.evalWith (Expr.evalWatched watch rounds depth)
      (Stmt.execWatched watch rounds depth)) e
termination_by structural depth => depth

/-- The effect of a statement, with a watch over everything that it evaluates. -/
def Stmt.execWatched (watch : Watch) (rounds : Nat) : (depth : Nat) → Stmt → EvalM Unit
  | 0, _ => throw .stackExhausted
  | depth + 1, s =>
    s.execWith rounds (Expr.evalWatched watch rounds depth) (Stmt.execWatched watch rounds depth)
termination_by structural depth => depth

end

/-- The effect of a program under a watch. -/
def Program.execWatched (watch : Watch) (rounds depth : Nat) (program : Program) : EvalM Unit :=
  program.forM (Stmt.execWatched watch rounds depth)

/-- A watch that calls off nothing changes nothing. -/
theorem Program.execWatched_never (rounds depth : Nat) (program : Program) :
    program.execWatched (fun _ _ => none) rounds depth = program.exec rounds depth := by
  have hlevel : ∀ depth, Expr.evalWatched (fun _ _ => none) rounds depth = Expr.eval rounds depth ∧
      Stmt.execWatched (fun _ _ => none) rounds depth = Stmt.exec rounds depth := by
    intro depth
    induction depth with
    | zero => exact ⟨funext fun _ => rfl, funext fun _ => rfl⟩
    | succ depth ih =>
      refine ⟨funext fun e => ?_, funext fun s => ?_⟩
      · rw [Expr.evalWatched, Expr.eval, ih.1, ih.2]
        rfl
      · rw [Stmt.execWatched, Stmt.exec, ih.1, ih.2]
  unfold execWatched exec
  rw [(hlevel depth).2]

open Classical in
/-- The watch for one moment. -/
noncomputable def Watch.single (e : Expr) (store : Store) (fault : Fault) : Watch :=
  fun e' store' => if e' = e ∧ store' = store then some fault else none

/-- The watch for a moment calls off evaluation at that moment. -/
theorem Watch.over_single_self (e : Expr) (store : Store) (fault : Fault)
    (eval : Expr → EvalM Value) :
    (Watch.single e store fault).over eval e store = .error (.fault fault) store := by
  unfold Watch.over Watch.single
  rw [if_pos ⟨rfl, rfl⟩]

/-- The watch for a moment lets other expressions be evaluated. -/
theorem Watch.over_single_of_ne {e e' : Expr} (he : e' ≠ e) (store : Store) (fault : Fault)
    (eval : Expr → EvalM Value) : (Watch.single e store fault).over eval e' = eval e' := by
  funext store'
  unfold Watch.over Watch.single
  rw [if_neg fun h => he h.1]

/-- A program that is run from a store comes to evaluate an expression in another store: watching
for that moment calls off the run, whatever the watch finds wrong with it. -/
def Program.Evaluates (rounds depth : Nat) (program : Program) (start : Store) (e : Expr)
    (store : Store) : Prop :=
  ∀ fault, ∃ last,
    program.execWatched (.single e store fault) rounds depth start = .error (.fault fault) last

/-! ### Agreement -/

/-- The name that an expression itself uses, with its binding. -/
def Expr.use? : Expr → Option (String × Binding)
  | .variable reference | .assign reference _ => some (reference.name, reference.binding)
  | .this _ binding => some ("this", binding)
  | .super _ _ binding => some ("super", binding)
  | _ => none

/-- The local scopes in force are those of a resolution, from the inside out, with the globals
outside, and every name that was declared has a value. The exception is the name that is pending in
the innermost scope. -/
structure Resolution.Agrees (r : Resolution) (store : Store) : Prop where
  origins : ∃ locals, store.current.chain = locals ++ [globalEnv.scope] ∧
    locals.map store.scopes.origin? = r.layout.map fun scope => some scope.origin
  names : ∀ (i : Nat) (scope : StaticScope) (id : ScopeId), r.layout[i]? = some scope →
    store.current.chain[i]? = some id → ∀ name ∈ scope.names,
    store.scopes.defines id name = true ∨ (i = 0 ∧ r.pending = some name)

/-- A use of a name finds it as its resolution says. A local name has a value in the scope at its
distance, which is the nearest one that declares it, and there it is read and written. A global
name is declared in no local scope. -/
def Resolution.Finds (r : Resolution) (store : Store) (name : String) : Binding → Prop
  | .enclosing hops =>
    (∀ nearer < hops, ∀ scope, r.layout[nearer]? = some scope → name ∉ scope.names) ∧
    ∃ scope id value, r.layout[hops]? = some scope ∧ name ∈ scope.names ∧
      Scopes.reach store.current hops = .ok id ∧
      store.scopes.origin? id = some scope.origin ∧
      (store.scopes.bindings id).find? name = some value ∧
      store.scopes.getAt store.current hops name = .ok value ∧
      ∀ value', store.scopes.assignAt store.current hops name value' =
        .ok (store.scopes.define id name value')
  | .global => ∀ scope ∈ r.layout, name ∉ scope.names

/-- A resolution accounts for a moment: it is that of the expression, the scopes in force agree with
it, and the name is found as it says. A name that is assigned is written after the new value is
evaluated; the same holds then. -/
structure Resolution.Accounts (r : Resolution) (e : Expr) (store : Store) : Prop where
  node : r.node = e
  agrees : r.Agrees store
  finds : ∀ name binding, e.use? = some (name, binding) → r.Finds store name binding
  written : ∀ target value, e = .assign target value → ∀ rounds depth result later,
    value.eval rounds depth store = .ok result later →
    r.Agrees later ∧ r.Finds later target.name target.binding

/-! ### Agreement follows from matching scopes -/

theorem Scopes.Matches.origins {scopes : Scopes} {layout : Layout} {chain : List ScopeId}
    (h : scopes.Matches layout chain) :
    ∃ locals, chain = locals ++ [globalEnv.scope] ∧
      locals.map scopes.origin? = layout.map fun scope => some scope.origin := by
  induction h with
  | session => exact ⟨[], rfl, rfl⟩
  | @cons scope id layout chain hscope _ ih =>
    obtain ⟨locals, hchain, horigins⟩ := ih
    refine ⟨id :: locals, by rw [hchain, List.cons_append], ?_⟩
    rw [List.map_cons, List.map_cons, horigins, hscope.origin]

section Agreement

variable {store : Store} {layout : Layout} {node : Expr}

theorem Resolution.agrees_of_matches (h : store.scopes.Matches layout store.current.chain) :
    Resolution.Agrees ⟨node, layout, none⟩ store := by
  refine ⟨h.origins, fun i scope id hscope hid name hname => .inl ?_⟩
  obtain ⟨id', hid', hrealizes⟩ := h.getElem? hscope
  rw [hid] at hid'
  obtain rfl := Option.some.inj hid'
  exact hrealizes.names name hname

/-- Declaring a name changes only the names of the innermost scope. -/
theorem Layout.getElem?_declare {name : String} {i : Nat} {scope : StaticScope}
    (h : (layout.declare name)[i]? = some scope) :
    ∃ old, layout[i]? = some old ∧ scope.origin = old.origin ∧
      ∀ other ∈ scope.names, other ∈ old.names ∨ (i = 0 ∧ name = other) := by
  cases layout with
  | nil => cases h
  | cons first layout =>
    cases i with
    | zero =>
      cases h
      refine ⟨first, rfl, rfl, fun other hother => ?_⟩
      rcases List.mem_cons.mp hother with heq | hmem
      · exact .inr ⟨rfl, heq.symm⟩
      · exact .inl hmem
    | succ i => exact ⟨scope, h, rfl, fun other hother => .inl hother⟩

/-- A name that is declared before it has a value is pending. -/
theorem Resolution.agrees_of_matches_declare
    (h : store.scopes.Matches layout store.current.chain) (name : String) :
    Resolution.Agrees ⟨node, layout.declare name, some name⟩ store := by
  obtain ⟨locals, hchain, horigins⟩ := h.origins
  refine ⟨⟨locals, hchain, ?_⟩, fun i scope id hscope hid other hother => ?_⟩
  · rw [horigins]
    cases layout <;> rfl
  · obtain ⟨old, hold, _, hnames⟩ := Layout.getElem?_declare hscope
    rcases hnames other hother with hmem | ⟨hi, heq⟩
    -- names that were declared before have values; only the new one may be pending
    · have hagrees : Resolution.Agrees ⟨node, layout, none⟩ store := agrees_of_matches h
      exact .inl ((hagrees.names i old id hold hid other hmem).resolve_right nofun)
    · exact .inr ⟨hi, congrArg some heq⟩

/-- Where the scopes agree, a name that is not pending is found as binding says. -/
theorem Resolution.Agrees.finds {r : Resolution} (h : r.Agrees store) {name : String}
    (hname : r.pending ≠ some name) : r.Finds store name (r.layout.names.binding name) := by
  cases hbinding : r.layout.names.binding name with
  | global =>
    intro scope hscope
    exact StaticScopes.not_mem_of_binding_global hbinding _ (List.mem_map_of_mem hscope)
  | enclosing hops =>
    obtain ⟨scope, hscope, hdeclared⟩ := Layout.getElem?_of_binding hbinding
    refine ⟨fun nearer hnearer other hother => ?_, ?_⟩
    · refine (StaticScopes.getElem?_of_binding hbinding).2 nearer hnearer other.names ?_
      rw [Layout.names, List.getElem?_map, hother]
      rfl
    · obtain ⟨locals, hchain, horigins⟩ := h.origins
      -- the scope at that distance is local, since the chain and the layout go together
      have horigin : (locals[hops]?).map store.scopes.origin? = some (some scope.origin) := by
        rw [← List.getElem?_map, horigins, List.getElem?_map, hscope]
        rfl
      obtain ⟨id, hlocal, horigin⟩ := Option.map_eq_some_iff.mp horigin
      have hid : store.current.chain[hops]? = some id := by
        rw [hchain, List.getElem?_append_left (List.getElem?_eq_some_iff.mp hlocal).1]
        exact hlocal
      have hreach := Scopes.reach_of_getElem? hid
      have hdefines : store.scopes.defines id name = true :=
        (h.names hops scope id hscope hid name hdeclared).resolve_right fun hp => hname hp.2
      obtain ⟨value, hvalue⟩ := Table.contains_eq_true_iff.mp hdefines
      refine ⟨scope, id, value, hscope, hdeclared, hreach, horigin, hvalue, ?_, fun value' => ?_⟩
      · exact Scopes.getAt_of_reach hreach hvalue
      · rw [Scopes.assignAt, hreach]
        rfl

end Agreement

/-! ### Ready code is accounted for -/

section Moments

variable {known : Known} {store : Store} {layout : Layout}

/-- The resolution of a ready use of a name accounts for the moment in which it is evaluated. -/
theorem Expr.Ready.accounts {enclosing : ClassKind} {e : Expr}
    (hready : e.Ready known enclosing layout) (hsound : store.Sound known)
    (hmatches : store.scopes.Matches layout store.current.chain) (hfits : layout.Fits enclosing)
    (huse : e.use?.isSome) :
    known.resolution ⟨e, layout, none⟩ ∧ Resolution.Accounts ⟨e, layout, none⟩ e store := by
  have hagrees : Resolution.Agrees ⟨e, layout, none⟩ store := Resolution.agrees_of_matches hmatches
  have hfinds : ∀ name, Resolution.Finds ⟨e, layout, none⟩ store name (layout.names.binding name) :=
    fun name => hagrees.finds nofun
  cases e with
  | «variable» reference =>
    obtain ⟨hresolved, hknown⟩ := hready
    refine ⟨hknown, rfl, hagrees, ?_, nofun⟩
    rintro _ _ ⟨⟩
    rw [hresolved.binding]
    exact hfinds reference.name
  | assign target value =>
    obtain ⟨hresolved, hknown, hvalue⟩ := hready
    refine ⟨hknown, rfl, hagrees, ?_, ?_⟩
    · rintro _ _ ⟨⟩
      rw [hresolved.binding]
      exact hfinds target.name
    · rintro _ _ ⟨⟩ rounds depth result later hresult
      -- evaluating the new value keeps the environment, and scopes only grow
      have heval := (evalSafe_and_execSafe known rounds depth).1
      have hsafe := heval.expression value enclosing layout store hsound hmatches hfits hvalue
      have hevolves := (hsafe.of_ok hresult).1
      have hagrees' : Resolution.Agrees ⟨.assign target value, layout, none⟩ later :=
        Resolution.agrees_of_matches (hevolves.matches hmatches)
      rw [hresolved.binding]
      exact ⟨hagrees', hagrees'.finds nofun⟩
  | this anchor binding =>
    obtain ⟨_, hbinding, hknown⟩ := hready
    refine ⟨hknown, rfl, hagrees, ?_, nofun⟩
    rintro _ _ ⟨⟩
    rw [hbinding]
    exact hfinds "this"
  | super method anchor binding =>
    obtain ⟨_, hbinding, hknown, _⟩ := hready
    refine ⟨hknown, rfl, hagrees, ?_, nofun⟩
    rintro _ _ ⟨⟩
    rw [hbinding]
    exact hfinds "super"
  | literal | unary | binary | logical | grouping | call | get | set => cases huse

/-- The resolution of a superclass accounts for the moment in which it is evaluated. -/
theorem SuperclassReady.accounts {name : String} {parent : Reference}
    (hready : SuperclassReady known (layout.declare name) name (some parent))
    (hmatches : store.scopes.Matches layout store.current.chain) :
    known.resolution ⟨.variable parent, layout.declare name, some name⟩ ∧
      Resolution.Accounts ⟨.variable parent, layout.declare name, some name⟩ (.variable parent)
        store := by
  obtain ⟨hother, hresolved, hknown⟩ := hready
  have hagrees : Resolution.Agrees ⟨.variable parent, layout.declare name, some name⟩ store :=
    Resolution.agrees_of_matches_declare hmatches name
  refine ⟨hknown, rfl, hagrees, ?_, nofun⟩
  rintro _ _ ⟨⟩
  rw [hresolved.binding]
  exact hagrees.finds fun hpending => hother (Option.some.inj hpending).symm

/-- A known resolution accounts for a moment, if the expression uses a name. -/
def Accounted (known : Known) (e : Expr) (store : Store) : Prop :=
  e.use?.isSome → ∃ r, known.resolution r ∧ r.Accounts e store

/-- An expression is about to be evaluated where it is ready: the store is sound, and the
environment in force matches the layout around the expression. A superclass is evaluated before the
name of its class has a value. -/
inductive Expr.ReadyAt (known : Known) (store : Store) : Expr → Prop where
  | expression {e : Expr} {enclosing : ClassKind} {layout : Layout} (hsound : store.Sound known)
    (hmatches : store.scopes.Matches layout store.current.chain) (hfits : layout.Fits enclosing)
    (hready : e.Ready known enclosing layout) : ReadyAt known store e
  | superclass {parent : Reference} {name : String} {layout : Layout} (hsound : store.Sound known)
    (hmatches : store.scopes.Matches layout store.current.chain)
    (hready : SuperclassReady known (layout.declare name) name (some parent)) :
    ReadyAt known store (.variable parent)

theorem Expr.ReadyAt.accounted {e : Expr} (h : e.ReadyAt known store) :
    Accounted known e store := by
  intro huse
  cases h with
  | expression hsound hmatches hfits hready =>
    exact ⟨_, hready.accounts hsound hmatches hfits huse⟩
  | superclass _ hmatches hready => exact ⟨_, hready.accounts hmatches⟩

theorem Expr.ReadyAt.sound {e : Expr} (h : e.ReadyAt known store) : store.Sound known := by
  cases h with
  | expression hsound => exact hsound
  | superclass hsound => exact hsound

/-- A watch that lets every ready expression pass does not get in the way of safety. -/
theorem EvalSafe.over {watch : Watch} {eval : Expr → EvalM Value}
    (hwatch : ∀ e store, e.ReadyAt known store → watch e store = none)
    (heval : EvalSafe known eval) : EvalSafe known (watch.over eval) := by
  -- the watch is silent at ready expressions, and then evaluation is what it was
  have hover : ∀ {e : Expr} {store : Store} {post : Value → Store → Prop},
      e.ReadyAt known store → Safe known False (eval e) post store →
      Safe known False (watch.over eval e) post store := by
    intro e store post hready hsafe
    unfold Safe Watch.over
    rw [hwatch e store hready]
    exact hsafe
  constructor
  case expression =>
    intro e enclosing layout store hsound hmatches hfits hready
    refine hover (.expression hsound hmatches hfits hready) ?_
    exact heval.expression e enclosing layout store hsound hmatches hfits hready
  case superclass =>
    intro parent name layout store hsound hmatches hready
    refine hover (.superclass hsound hmatches hready) ?_
    exact heval.superclass parent name layout store hsound hmatches hready

/-- Ready code runs safely under such a watch. -/
theorem execSafe_watched {watch : Watch}
    (hwatch : ∀ e store, e.ReadyAt known store → watch e store = none) (rounds depth : Nat) :
    ExecSafe known (Stmt.execWatched watch rounds depth) := by
  have hlevel : EvalSafe known (Expr.evalWatched watch rounds depth) ∧
      ExecSafe known (Stmt.execWatched watch rounds depth) := by
    induction depth with
    | zero => exact ⟨evalSafe_exhausted, execSafe_exhausted⟩
    | succ depth ih => exact ⟨(ih.1.level ih.2).over hwatch, .level rounds ih.1 ih.2⟩
  exact hlevel.2

/-- At every moment of a run of ready code, the expression is evaluated where it is ready. -/
theorem Program.Evaluates.readyAt {program : Program} {rounds depth : Nat} {start : Store}
    {e : Expr} (h : program.Evaluates rounds depth start e store) (place : Place)
    (hsound : start.Sound known) (hmatches : start.scopes.Matches layout start.current.chain)
    (hfits : layout.Fits place.enclosing) (haccepts : layout.Accepts)
    (hready : Stmt.AllReady known place layout program) : e.ReadyAt known store := by
  refine Classical.byContradiction fun hnot => ?_
  -- were it not, a watch for this moment would let all ready ones pass and never call off
  have hwatch : ∀ e' store', e'.ReadyAt known store' →
      Watch.single e store .unboundSuper e' store' = none := by
    intro e' store' hreadyAt
    unfold Watch.single
    rw [if_neg]
    rintro ⟨rfl, rfl⟩
    exact hnot hreadyAt
  have hsafe := safe_execAll (execSafe_watched hwatch rounds depth) place hsound hmatches hfits
    haccepts hready
  obtain ⟨last, hlast⟩ := h .unboundSuper
  exact (hsafe.of_error hlast).2.2

/-- Every moment of a run of ready code is accounted for. -/
theorem Program.Evaluates.accounted {program : Program} {rounds depth : Nat} {start : Store}
    {e : Expr} (h : program.Evaluates rounds depth start e store) (place : Place)
    (hsound : start.Sound known) (hmatches : start.scopes.Matches layout start.current.chain)
    (hfits : layout.Fits place.enclosing) (haccepts : layout.Accepts)
    (hready : Stmt.AllReady known place layout program) : Accounted known e store :=
  (h.readyAt place hsound hmatches hfits haccepts hready).accounted

end Moments

end Treewalk
