import Treewalk.Proofs.Machine.Dispatch

/-!
# Construction and initializers

A call of a class makes an instance and gives it back, whatever the initializer of the class does.
An initializer gives back the instance to which it was bound. It reads it from the innermost scope
that it closes over, after its body has run, so this rests on the history of the store: only bound
methods are values, and what the scope of a receiver was given it holds ever after.
-/

namespace Treewalk

open Grammar (ClassKind Place)

/-! ### Bound initializers -/

/-- A method named `init` was bound to an instance. -/
def Store.Initializes (store : Store) (inst : Instance) (bound : Closure) : Prop :=
  ∃ outer superclass method, method.declaration.name = "init" ∧
    store.Binds outer superclass method (.object inst) bound

section Bound

variable {store later : Store} {inst : Instance} {bound : Closure}

theorem Store.Initializes.mono (h : store.Initializes inst bound) (hlater : store.Later later) :
    later.Initializes inst bound := by
  obtain ⟨outer, superclass, method, hname, hbinds⟩ := h
  exact ⟨outer, superclass, method, hname, hbinds.mono hlater⟩

/-- Binding keeps that a method is an initializer. -/
theorem Store.Initializes.initializer (h : store.Initializes inst bound) :
    bound.initializer = true := by
  obtain ⟨_, _, method, hname, hbinds⟩ := h
  rw [hbinds.initializer, hbinds.declares.initializer, hname]
  rfl

/-- The innermost scope of a bound initializer holds its receiver. -/
theorem Store.Initializes.this (h : store.Initializes inst bound) :
    store.scopes.getAt bound.env 0 "this" = .ok (.object inst) := by
  obtain ⟨_, _, _, _, hbinds⟩ := h
  exact Scopes.getAt_of_getElem? rfl hbinds.scope.2.2

/-- An initializer that is a value was bound to an instance. -/
theorem Closure.Arises.initializes {known : Known} {closure : Closure}
    (h : closure.Arises store) (hsound : store.Sound known) (hinit : closure.initializer = true) :
    ∃ inst, store.Initializes inst closure := by
  cases h with
  | function _ hplain _ =>
    rw [hplain] at hinit
    cases hinit
  | @method outer superclass method receiver _ hbinds _ =>
    obtain ⟨_, horigin, hthis⟩ := hbinds.scope
    obtain ⟨inst, rfl⟩ := hsound.receiver _ receiver horigin hthis
    have hname : (method.declaration.name == "init") = true := by
      rw [← hbinds.declares.initializer, ← hbinds.initializer, hinit]
    exact ⟨inst, outer, superclass, method, beq_iff_eq.mp hname, hbinds⟩

/-- What a class finds under the name `init` becomes an initializer when it is bound. -/
theorem Class.Arises.bindTo {cls : Class} {method : Closure} (hcls : cls.Arises store)
    (hmethod : cls.findMethod? "init" = some method)
    (hbound : method.bindTo (.object inst) store = .ok bound later) :
    later.Initializes inst bound := by
  obtain ⟨hname, _, outer, superclass, _, hdeclares⟩ := hcls "init" method hmethod
  exact ⟨outer, superclass, method, hname, hdeclares, hbound, .refl later⟩

end Bound

/-! ### Calls -/

section Calls

variable {store later : Store} {exec : Stmt → EvalM Unit}

/-- An initializer that completes gives what the innermost scope of its closure then holds. -/
theorem Closure.this_of_call {closure : Closure} {arguments : List Value} {value : Value}
    (hinit : closure.initializer = true)
    (h : closure.call exec arguments store = .ok value later) :
    later.scopes.getAt closure.env 0 "this" = .ok value := by
  obtain ⟨env, opened, _, h⟩ := exists_of_bind_ok h
  obtain ⟨_, entered, _, h⟩ := exists_of_bind_ok h
  obtain ⟨returned, left, _, h⟩ := exists_of_bind_ok h
  rw [if_pos hinit] at h
  change reaching (left.scopes.getAt closure.env 0 "this") left = .ok value later at h
  cases hthis : left.scopes.getAt closure.env 0 "this" with
  | error fault =>
    rw [hthis] at h
    cases h
  | ok receiver =>
    rw [hthis] at h
    cases h
    exact hthis

theorem Store.Later.size_fields (h : store.Later later) :
    store.fields.size ≤ later.fields.size := by
  induction h with
  | refl => exact Nat.le_refl _
  | tail _ hstep ih =>
    refine Nat.le_trans ih ?_
    cases hstep with
    | newInstance | setField => simp
    | enter | number | openScope | define | print | clear | tick => exact Nat.le_refl _

/-- A bound initializer gives back its receiver, if it completes. -/
theorem Store.Initializes.eq_of_call (hexec : ExecTraced exec) {inst : Instance} {bound : Closure}
    (h : store.Initializes inst bound) (hexplained : store.Explained)
    (hbound : bound.Arises store) {arguments : List Value}
    (harguments : ∀ value ∈ arguments, value.Arises store) {value : Value}
    (hcall : bound.call exec arguments store = .ok value later) : value = .object inst := by
  have hlater := ((traced_call hexec hexplained hbound harguments).of_ok hcall).1
  -- the scope of the receiver holds it still when the body has run
  have hthis := (h.mono hlater).this
  rw [Closure.this_of_call h.initializer hcall] at hthis
  exact Except.ok.inj hthis

/-- Construction gives an instance of the class that was not there before. -/
theorem Class.Arises.new_of_construct (hexec : ExecTraced exec) {cls : Class}
    (hcls : cls.Arises store) (h : store.Explained) {arguments : List Value}
    (harguments : ∀ value ∈ arguments, value.Arises store) {value : Value}
    (hrun : cls.construct exec arguments store = .ok value later) :
    ∃ inst, value = .object inst ∧ inst.cls = cls ∧ store.fields.size ≤ inst.id ∧
      inst.id < later.fields.size := by
  let inst : Instance := ⟨store.fields.size, cls⟩
  let made : Store := { store with fields := store.fields.push {} }
  have hnew : newInstance cls store = .ok inst made := rfl
  have hsize : inst.id < made.fields.size := by simp [inst, made]
  replace hrun := (bind_of_ok hnew).symm.trans hrun
  -- the instance is there as soon as it is made, and fields are never taken away
  suffices hgives : value = .object inst ∧ made.Later later by
    obtain ⟨rfl, hlater⟩ := hgives
    exact ⟨inst, rfl, rfl, Nat.le_refl _, Nat.lt_of_lt_of_le hsize hlater.size_fields⟩
  cases hinit : cls.findMethod? "init" with
  | none =>
    rw [hinit] at hrun
    obtain ⟨hvalue, hlater⟩ := EStateM.Result.ok.inj hrun
    exact ⟨hvalue.symm, hlater ▸ .refl made⟩
  | some init =>
    rw [hinit] at hrun
    obtain ⟨bound, ready, hbound, hrun⟩ := exists_of_bind_ok hrun
    obtain ⟨_, called, hcall, hgives⟩ := exists_of_bind_ok hrun
    obtain ⟨hvalue, rfl⟩ := EStateM.Result.ok.inj hgives
    obtain ⟨hlater, hmade, _⟩ := (traced_newInstance h cls).of_ok hnew
    have hcls' := hcls.mono hlater
    obtain ⟨hlater', hready, harises⟩ :=
      (traced_bindTo hmade hcls' hinit (.object hcls')).of_ok hbound
    have htraced := traced_call hexec hready harises fun argument hargument =>
      (harguments argument hargument).mono (hlater.trans hlater')
    exact ⟨hvalue.symm, hlater'.trans (htraced.of_ok hcall).1⟩

end Calls

/-! ### Calls in a run -/

/-- Evaluation is traced on ready code, whatever the limits. -/
theorem evalTraced_and_execTraced (rounds depth : Nat) :
    EvalTraced (Expr.eval rounds depth) ∧ ExecTraced (Stmt.exec rounds depth) := by
  induction depth with
  | zero =>
    exact ⟨⟨fun _ _ _ _ h _ => Traced.throw h trivial, fun _ _ h => Traced.throw h trivial⟩,
      fun _ _ _ _ h _ => Traced.throw h trivial⟩
  | succ depth ih => exact ⟨ih.1.level ih.2, .level rounds ih.1 ih.2⟩

/-- A call in a store completes: its callee and its arguments are evaluated, which leads to the
store before the call, and then the callee is called and gives a value. -/
inductive Store.Completes (store : Store) (callee : Expr) (arguments : List Expr) (anchor : Anchor)
    (target : Value) (before : Store) (value : Value) (after : Store) : Prop where
  | intro {rounds depth : Nat} {middle : Store} {values : List Value}
    (hcallee : callee.eval rounds depth store = .ok target middle)
    (harguments : arguments.mapM (Expr.eval rounds depth) middle = .ok values before)
    (hcall : (Expr.call callee arguments anchor).eval rounds (depth + 1) store = .ok value after)

section Moments

variable {store before after : Store} {known : Known} {callee : Expr}
  {arguments : List Expr} {anchor : Anchor} {target value : Value}

/-- A callee that is applied and gives a value is invoked. -/
theorem Value.invoke_of_apply {exec : Stmt → EvalM Unit} {values : List Value} {site : Site}
    (h : target.apply exec values site before = .ok value after) :
    target.invoke exec values before = .ok value after := by
  unfold Value.apply at h
  cases hsignature : target.signature? with
  | none =>
    rw [hsignature] at h
    cases h
  | some signature =>
    rw [hsignature] at h
    by_cases harity : (values.length : Int) = signature.arity
    · simp only [if_pos harity] at h
      exact h
    · simp only [if_neg harity] at h
      cases h

/-- A call that completes invokes its callee, and the history explains the callee and the
arguments. -/
theorem Store.Completes.invokes
    (hcall : store.Completes callee arguments anchor target before value after)
    (h : store.Explained)
    (hready : (Expr.call callee arguments anchor).ReadyAt .any store) :
    before.Explained ∧ target.Arises before ∧ ∃ rounds depth values,
      (∀ argument ∈ values, argument.Arises before) ∧
      target.invoke (Stmt.exec rounds depth) values before = .ok value after := by
  obtain ⟨hcallee, harguments, hcall⟩ := hcall
  rename_i rounds depth middle values
  cases hready with
  | expression _ _ _ hready =>
    obtain ⟨hcalleeReady, hargumentsReady⟩ := hready
    have heval := (evalTraced_and_execTraced rounds depth).1
    obtain ⟨_, hmiddle, htarget⟩ := (heval.expression _ _ _ _ h hcalleeReady).of_ok hcallee
    obtain ⟨hlater, hbefore, hvalues⟩ :=
      (traced_evalAll heval hmiddle hargumentsReady).of_ok harguments
    refine ⟨hbefore, htarget.mono hlater, rounds, depth, values, hvalues, ?_⟩
    have hrun := (bind_of_ok hcallee).symm.trans hcall
    exact Value.invoke_of_apply ((bind_of_ok harguments).symm.trans hrun)

/-- A call of a class gives an instance of that class that was not there before the call. -/
theorem Store.Completes.constructs {cls : Class}
    (hcall : store.Completes callee arguments anchor (.class cls) before value after)
    (h : store.Explained)
    (hready : (Expr.call callee arguments anchor).ReadyAt .any store) :
    ∃ inst, value = .object inst ∧ inst.cls = cls ∧ before.fields.size ≤ inst.id ∧
      inst.id < after.fields.size := by
  obtain ⟨hbefore, harises, rounds, depth, values, hvalues, hinvoke⟩ := hcall.invokes h hready
  have hcls := Value.arises_class_iff.mp harises
  exact hcls.new_of_construct (evalTraced_and_execTraced rounds depth).2 hbefore hvalues hinvoke

/-- A call of a bound initializer gives its receiver. -/
theorem Store.Completes.gives_receiver {inst : Instance} {bound : Closure}
    (hcall : store.Completes callee arguments anchor (.function bound) before value after)
    (h : store.Explained)
    (hready : (Expr.call callee arguments anchor).ReadyAt .any store)
    (hinit : before.Initializes inst bound) : value = .object inst := by
  obtain ⟨hbefore, harises, rounds, depth, values, hvalues, hinvoke⟩ := hcall.invokes h hready
  cases harises with
  | function hbound =>
    exact hinit.eq_of_call (evalTraced_and_execTraced rounds depth).2 hbefore hbound hvalues hinvoke

/-- The method `init` of an instance is bound to it, unless a field hides it. -/
theorem Expr.ReadyAt.get_init {object : Expr} {inst : Instance} {rounds depth : Nat}
    (hready : (Expr.get object "init" anchor).ReadyAt .any store) (h : store.Explained)
    (hobject : object.eval rounds depth store = .ok (.object inst) before)
    (hget : (Expr.get object "init" anchor).eval rounds (depth + 1) store = .ok value after) :
    (before.fieldsOf inst).find? "init" = some value ∨
      ∃ bound, value = .function bound ∧ after.Initializes inst bound := by
  cases hready with
  | expression _ _ _ hready =>
    have heval := (evalTraced_and_execTraced rounds depth).1
    obtain ⟨_, _, harises⟩ := (heval.expression object _ _ _ h hready.1).of_ok hobject
    have hcls := Value.arises_object_iff.mp harises
    replace hget := (bind_of_ok hobject).symm.trans hget
    unfold getProperty at hget
    obtain ⟨_, _, hstore, hget⟩ := exists_of_bind_ok hget
    cases hstore
    cases hfield : (before.fieldsOf inst).find? "init" with
    | some found =>
      rw [hfield] at hget
      cases hget
      exact .inl rfl
    | none =>
      right
      rw [hfield] at hget
      cases hmethod : inst.cls.findMethod? "init" with
      | none =>
        simp only [hmethod] at hget
        cases hget
      | some method =>
        simp only [hmethod] at hget
        obtain ⟨bound, _, hbound, hgives⟩ := exists_of_bind_ok hget
        cases hgives
        exact ⟨bound, rfl, hcls.bindTo hmethod hbound⟩

/-- The superclass of the class of a running method arises. -/
theorem Store.RunsMethod.arises_superclass {cls : Class} {method : Closure} {receiver : Value}
    (hruns : store.RunsMethod (some cls) method receiver) (h : store.Explained) :
    cls.Arises store := by
  obtain ⟨_, hcalls, _, _⟩ := hruns
  have henv := hcalls.binds.declares.env
  generalize method.env = env at henv
  cases henv with
  | superclass _ _ hsuper => exact Value.arises_class_iff.mp (h.values _ _ _ hsuper)

/-- The method `init` of the superclass is bound to the receiver of the running method. -/
theorem Expr.ReadyAt.super_init {binding : Binding} {rounds depth : Nat}
    (hready : (Expr.super "init" anchor binding).ReadyAt known store) (h : store.Explained)
    (hsuper : (Expr.super "init" anchor binding).eval rounds depth store = .ok value after) :
    ∃ superclass method inst bound, store.RunsMethod superclass method (.object inst) ∧
      value = .function bound ∧ after.Initializes inst bound := by
  obtain ⟨⟨superclass, running, inst, hruns⟩, hdispatch⟩ := h.dispatch_super hready
  obtain ⟨_, cls, rfl, heval⟩ := hdispatch superclass running (.object inst) hruns
  cases depth with
  | zero => cases hsuper
  | succ depth =>
    rw [heval, Class.bindMethod, ← cls.findMethod?_eq_findSome? "init"] at hsuper
    cases hmethod : cls.findMethod? "init" with
    | none =>
      rw [hmethod] at hsuper
      cases hsuper
    | some method =>
      rw [hmethod] at hsuper
      obtain ⟨bound, _, hbound, hgives⟩ := exists_of_bind_ok hsuper
      cases hgives
      exact ⟨some cls, running, inst, bound, hruns, rfl,
        (hruns.arises_superclass h).bindTo hmethod hbound⟩

/-- An initializer that an expression gives was bound to an instance. -/
theorem Expr.ReadyAt.initializes {e : Expr} {closure : Closure} {rounds depth : Nat}
    (hready : e.ReadyAt .any store) (h : store.Explained)
    (hvalue : e.eval rounds depth store = .ok (.function closure) after)
    (hinit : closure.initializer = true) : ∃ inst, after.Initializes inst closure := by
  have htraced := (evalTraced_and_execTraced rounds depth).1
  have hsafe := (evalSafe_and_execSafe .any rounds depth).1
  cases hready with
  | expression hsound hmatches hfits hready =>
    obtain ⟨_, hafter, _⟩ :=
      (hsafe.expression _ _ _ _ hsound hmatches hfits hready).of_ok hvalue
    obtain ⟨_, _, harises⟩ := (htraced.expression _ _ _ _ h hready).of_ok hvalue
    cases harises with
    | function hclosure => exact hclosure.initializes hafter hinit
  | superclass hsound =>
    -- a name is read, so the value was in the store before
    obtain ⟨_, _, rfl, hread⟩ := (htraced.name _ _ h).of_ok hvalue
    obtain ⟨_, _, _, harises⟩ := (traced_readName h _ _ _).of_ok hread
    cases harises with
    | function hclosure => exact hclosure.initializes hsound hinit

end Moments

end Treewalk
