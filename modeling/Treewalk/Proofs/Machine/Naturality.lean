import Treewalk.Proofs.Machine.Moved
import Treewalk.Proofs.Machine.TwinRuns

/-!
# Evaluation does not look at places

Moving the code of a program and of a store moves what the program does, and changes nothing else:
values and stores come out moved, lines are printed after those printed earlier, and a runtime error
names the places to which the code was moved. This is an equation, so a place shows up in what a
program does exactly as it stands in its code.

Another thing that holds of every computation and in every store is shown on the way: the
environment in force is left as it was found, since only blocks and calls change it, and both leave
theirs again however they end.
-/

namespace Treewalk

/-! ### The environment in force -/

/-- A computation that leaves the environment in force as it found it, however it ends. -/
def Restores {α : Type} (x : EvalM α) : Prop :=
  ∀ store, match x store with
    | .ok _ later => later.current = store.current
    | .error _ later => later.current = store.current

namespace Restores

variable {α β : Type} {x : EvalM α} {store later : Store}

theorem of_ok (h : Restores x) {value : α} (hresult : x store = .ok value later) :
    later.current = store.current := by
  have hstore := h store
  rwa [hresult] at hstore

theorem of_error (h : Restores x) {halt : Halt} (hresult : x store = .error halt later) :
    later.current = store.current := by
  have hstore := h store
  rwa [hresult] at hstore

theorem pure (value : α) : Restores (Pure.pure value) := fun _ => rfl

theorem throw (halt : Halt) : Restores (MonadExcept.throw halt : EvalM α) := fun _ => rfl

theorem bind {f : α → EvalM β} (hx : Restores x) (hf : ∀ value, Restores (f value)) :
    Restores (x >>= f) := by
  intro store
  cases hresult : x store with
  | error halt later =>
    rw [bind_of_error hresult]
    exact hx.of_error hresult
  | ok value later =>
    rw [bind_of_ok hresult]
    cases hnext : f value later with
    | ok _ last => exact ((hf value).of_ok hnext).trans (hx.of_ok hresult)
    | error _ last => exact ((hf value).of_error hnext).trans (hx.of_ok hresult)

theorem getBind {f : Store → EvalM β} (hf : ∀ past, Restores (f past)) : Restores (get >>= f) :=
  fun store => hf store store

/-- What happens in another environment is of no account. -/
theorem within (env : Env) (x : EvalM α) : Restores (Treewalk.within env x) := by
  intro store
  cases hresult : x { store with current := env } with
  | ok value later => rw [within_of_ok hresult]
  | error halt later => rw [within_of_error hresult]

theorem catchReturn {x : EvalM Unit} (h : Restores x) : Restores (Treewalk.catchReturn x) := by
  intro store
  have hstore := h store
  unfold Treewalk.catchReturn
  cases hresult : x store with
  | ok value later =>
    rw [hresult] at hstore
    exact hstore
  | error halt later =>
    rw [hresult] at hstore
    cases halt <;> exact hstore

end Restores

variable {α β γ δ : Type} {m : Move} {earlier : Array String}

/-- From every moved store, the second computation gives what the first one gives, moved; and the
first one restores the environment in force. -/
structure Moved (m : Move) (earlier : Array String) (φ : α → β) (x : EvalM α) (x' : EvalM β) :
    Prop where
  moves : ∀ store, x' (store.move m earlier) = m.result earlier φ (x store)
  restores : Restores x

/-! ### Combinations -/

namespace Moved

theorem pure (φ : α → β) (value : α) :
    Moved m earlier φ (Pure.pure value) (Pure.pure (φ value)) :=
  ⟨fun _ => rfl, .pure value⟩

theorem throw (φ : α → β) (halt : Halt) :
    Moved m earlier φ (MonadExcept.throw halt) (MonadExcept.throw (halt.move m)) :=
  ⟨fun _ => rfl, .throw halt⟩

theorem fail (φ : α → β) (error : RuntimeError) :
    Moved m earlier φ (Treewalk.fail error) (Treewalk.fail (error.move m)) :=
  Moved.throw φ (.failed error)

theorem bind {φ : α → β} {ψ : γ → δ} {x : EvalM α} {x' : EvalM β} {f : α → EvalM γ}
    {f' : β → EvalM δ} (hx : Moved m earlier φ x x')
    (hf : ∀ value, Moved m earlier ψ (f value) (f' (φ value))) :
    Moved m earlier ψ (x >>= f) (x' >>= f') := by
  refine ⟨fun store => ?_, hx.restores.bind fun value => (hf value).restores⟩
  have hstore := hx.moves store
  cases hresult : x store with
  | ok value later =>
    rw [hresult] at hstore
    rw [bind_of_ok hresult, bind_of_ok hstore]
    exact (hf value).moves later
  | error halt later =>
    rw [hresult] at hstore
    rw [bind_of_error hresult, bind_of_error hstore]
    rfl

theorem getBind {φ : α → β} {f : Store → EvalM α} {f' : Store → EvalM β}
    (hf : ∀ past, Moved m earlier φ (f past) (f' (past.move m earlier))) :
    Moved m earlier φ (get >>= f) (get >>= f') :=
  ⟨fun store => (hf store).moves store, .getBind fun past => (hf past).restores⟩

theorem modify {f f' : Store → Store}
    (h : ∀ store, f' (store.move m earlier) = (f store).move m earlier)
    (hcurrent : ∀ store, (f store).current = store.current) :
    Moved m earlier id (modify f) (modify f') :=
  ⟨fun store => congrArg (EStateM.Result.ok ()) (h store), hcurrent⟩

theorem within {φ : α → β} {x : EvalM α} {x' : EvalM β} (h : Moved m earlier φ x x') (env : Env) :
    Moved m earlier φ (Treewalk.within env x) (Treewalk.within env x') := by
  refine ⟨fun store => ?_, .within env x⟩
  have hstore := h.moves { store with current := env }
  rw [← Store.withCurrent_move] at hstore
  cases hresult : x { store with current := env } with
  | ok value later =>
    rw [hresult] at hstore
    rw [within_of_ok hresult, within_of_ok hstore]
    rfl
  | error halt later =>
    rw [hresult] at hstore
    rw [within_of_error hresult, within_of_error hstore]
    rfl

theorem catchReturn {x x' : EvalM Unit} (h : Moved m earlier id x x') :
    Moved m earlier (Option.map (Value.move m)) (Treewalk.catchReturn x)
      (Treewalk.catchReturn x') := by
  refine ⟨fun store => ?_, h.restores.catchReturn⟩
  have hstore := h.moves store
  unfold Treewalk.catchReturn
  cases hresult : x store with
  | ok value later =>
    rw [hresult] at hstore
    rw [hstore]
    rfl
  | error halt later =>
    rw [hresult] at hstore
    rw [hstore]
    cases halt <;> rfl

theorem ite {φ : α → β} {x y : EvalM α} {x' y' : EvalM β} (c : Prop) [Decidable c]
    (hx : Moved m earlier φ x x') (hy : Moved m earlier φ y y') :
    Moved m earlier φ (if c then x else y) (if c then x' else y') := by
  by_cases h : c
  · rw [if_pos h, if_pos h]
    exact hx
  · rw [if_neg h, if_neg h]
    exact hy

theorem whileTrue {condition condition' : EvalM Bool} {body body' : EvalM Unit}
    (hcondition : Moved m earlier id condition condition') (hbody : Moved m earlier id body body')
    (limit : Nat) :
    Moved m earlier id (Treewalk.whileTrue limit condition body)
      (Treewalk.whileTrue limit condition' body') := by
  induction limit with
  | zero => exact Moved.throw id .loopExhausted
  | succ limit ih =>
    rw [Treewalk.whileTrue, Treewalk.whileTrue]
    apply hcondition.bind
    intro goesOn
    cases goesOn with
    | false => exact Moved.pure id ()
    | true => exact hbody.bind fun _ => ih

theorem mapM {f : α → EvalM γ} {f' : β → EvalM δ} {φ : α → β} {ψ : γ → δ}
    (hf : ∀ a, Moved m earlier ψ (f a) (f' (φ a))) (items : List α) :
    Moved m earlier (List.map ψ) (items.mapM f) ((items.map φ).mapM f') := by
  induction items with
  | nil => exact Moved.pure (List.map ψ) []
  | cons item items ih =>
    rw [List.map_cons, List.mapM_cons, List.mapM_cons]
    apply (hf item).bind
    intro value
    apply ih.bind
    intro values
    exact Moved.pure (List.map ψ) (value :: values)

theorem forM {f : α → EvalM Unit} {f' : β → EvalM Unit} {φ : α → β}
    (hf : ∀ a, Moved m earlier id (f a) (f' (φ a))) (items : List α) :
    Moved m earlier id (items.forM f) ((items.map φ).forM f') := by
  induction items with
  | nil => exact Moved.pure id ()
  | cons item items ih =>
    exact (hf item).bind fun _ => ih

end Moved

/-! ### Operations on the store -/

theorem moved_freshId : Moved m earlier id freshId freshId := ⟨fun _ => rfl, fun _ => rfl⟩

theorem moved_reaching {φ : α → β} (r : Except ReachFault α) :
    Moved m earlier φ (reaching r) (reaching (r.map φ)) := by
  cases r with
  | ok value => exact Moved.pure φ value
  | error fault => exact Moved.throw φ (.fault (.reach fault))

theorem moved_openScope (env : Env) (origin : ScopeOrigin) :
    Moved m earlier id (openScope env origin) (openScope env (origin.move m)) := by
  refine ⟨fun store => ?_, fun _ => rfl⟩
  exact congrArg (fun r : ScopeId × Scopes => EStateM.Result.ok (env.push r.1)
    { store.move m earlier with scopes := r.2 }) (store.scopes.add_move m origin)

theorem moved_defineAt (scope : ScopeId) (name : String) (value : Value) :
    Moved m earlier id (defineAt scope name value) (defineAt scope name (value.move m)) := by
  refine Moved.modify (fun store => ?_) fun _ => rfl
  simp only [Store.move, Scopes.define_move]

theorem moved_defineHere (name : String) (value : Value) :
    Moved m earlier id (defineHere name value) (defineHere name (value.move m)) :=
  Moved.getBind fun past => moved_defineAt past.current.scope name value

theorem moved_readClock : Moved m earlier id readClock readClock :=
  ⟨fun _ => rfl, fun _ => rfl⟩

theorem moved_printLine (line : String) :
    Moved m earlier id (printLine line) (printLine line) := by
  refine Moved.modify (fun store => ?_) fun _ => rfl
  simp only [Store.move, Array.push_append]

theorem moved_setField (inst : Instance) (name : String) (value : Value) :
    Moved m earlier id (setField inst name value) (setField (inst.move m) name (value.move m)) := by
  refine Moved.modify (fun store => ?_) fun _ => rfl
  simp only [Store.move, Instance.move]
  rw [map_modify store.fields (Table.map (Value.move m))]
  exact fun table => Table.insert_map _ _ _ _

theorem moved_newInstance (cls : Class) :
    Moved m earlier (Instance.move m) (newInstance cls) (newInstance (cls.move m)) := by
  apply Moved.getBind
  intro past
  have hpush : Moved m earlier id
      (modify fun store => { store with fields := store.fields.push {} })
      (modify fun store => { store with fields := store.fields.push {} }) := by
    refine Moved.modify (fun store => ?_) fun _ => rfl
    simp only [Store.move, Array.map_push]
    rfl
  have hsize : (past.move m earlier).fields.size = past.fields.size := Array.size_map
  rw [hsize]
  exact hpush.bind fun _ => Moved.pure (Instance.move m) ⟨past.fields.size, cls⟩

theorem moved_readName (name : String) (binding : Binding) (site : Site) :
    Moved m earlier (Value.move m) (readName name binding site)
      (readName name binding (m.site site)) := by
  apply Moved.getBind
  intro past
  cases binding with
  | enclosing hops =>
    simp only [Store.scopes_move, Store.current_move, Scopes.getAt_move]
    exact moved_reaching _
  | global =>
    simp only [Store.scopes_move, Scopes.get, Scopes.find?_move]
    cases past.scopes.find? name globalEnv.chain with
    | none => exact Moved.fail _ (.undefinedVariable name site)
    | some value => exact Moved.pure (Value.move m) value

theorem moved_targetScope (name : String) (binding : Binding) (site : Site) :
    Moved m earlier id (targetScope name binding site)
      (targetScope name binding (m.site site)) := by
  apply Moved.getBind
  intro past
  cases binding with
  | enclosing hops =>
    simp only [Store.current_move]
    cases Scopes.reach past.current hops with
    | ok scope => exact Moved.pure id scope
    | error fault => exact Moved.throw id (.fault (.reach fault))
  | global =>
    simp only [Store.scopes_move, Scopes.holder?_move]
    cases past.scopes.holder? name globalEnv.chain with
    | none => exact Moved.fail _ (.undefinedVariable name site)
    | some scope => exact Moved.pure id scope

theorem moved_writeName (name : String) (binding : Binding) (site : Site) (value : Value) :
    Moved m earlier id (writeName name binding site value)
      (writeName name binding (m.site site) (value.move m)) := by
  rw [writeName_eq, writeName_eq]
  exact (moved_targetScope name binding site).bind fun scope => moved_defineAt scope name value

theorem moved_newClosure (declaration : FunctionDecl) (env : Env) (initializer : Bool) :
    Moved m earlier (Closure.move m) (newClosure declaration env initializer)
      (newClosure (declaration.move m) env initializer) :=
  moved_freshId.bind fun id => Moved.pure (Closure.move m) ⟨id, declaration, env, initializer⟩

theorem moved_bindTo (closure : Closure) (receiver : Value) :
    Moved m earlier (Closure.move m) (closure.bindTo receiver)
      ((closure.move m).bindTo (receiver.move m)) := by
  apply (moved_openScope closure.env .receiver).bind
  intro env
  apply (moved_defineAt env.scope "this" receiver).bind
  intro _
  exact moved_newClosure closure.declaration env closure.initializer

theorem moved_getProperty (inst : Instance) (name : String) (site : Site) :
    Moved m earlier (Value.move m) (getProperty inst name site)
      (getProperty (inst.move m) name (m.site site)) := by
  apply Moved.getBind
  intro past
  simp only [Store.fieldsOf_move, Table.find?_map]
  cases (past.fieldsOf inst).find? name with
  | some value => exact Moved.pure (Value.move m) value
  | none =>
    simp only [Option.map_none, Instance.move, Class.findMethod?_move]
    cases inst.cls.findMethod? name with
    | none => exact Moved.fail _ (.undefinedProperty name site)
    | some method =>
      apply (moved_bindTo method (.object inst)).bind
      exact fun bound => Moved.pure (Value.move m) (.function bound)

/-! ### Operators -/

theorem moved_literal (literal : Literal) :
    Moved m earlier (Value.move m) (pure (.ofLiteral literal)) (pure (.ofLiteral literal)) := by
  have hliteral : Moved m earlier (Value.move m) (pure (.ofLiteral literal))
      (pure ((Value.ofLiteral literal).move m)) := Moved.pure (Value.move m) (.ofLiteral literal)
  rwa [Value.ofLiteral_move] at hliteral

theorem moved_applyBinary (op : BinaryOp) (left right : Value) (site : Site) :
    Moved m earlier (Value.move m) (applyBinary op left right site)
      (applyBinary op (left.move m) (right.move m) (m.site site)) := by
  rw [applyBinary_congr (by cases left <;> rfl) (by cases right <;> rfl) (Value.same_move ..)]
  have houtcome := applyBinary_outcome op left right
  generalize applyBinary op left right = run at houtcome ⊢
  cases houtcome with
  | plain literal => exact moved_literal literal
  | divisionByZero => exact Moved.fail _ (.divisionByZero site)
  | operands => exact Moved.fail _ (.binaryOperands op.symbol left.kind right.kind site)
  | unknown symbol => exact Moved.throw _ (.fault (.unknownOperator symbol))

theorem moved_applyUnary (op : UnaryOp) (operand : Value) (site : Site) :
    Moved m earlier (Value.move m) (applyUnary op operand site)
      (applyUnary op (operand.move m) (m.site site)) := by
  cases op with
  | negate =>
    cases operand with
    | number a => exact Moved.pure (Value.move m) (.number (-a))
    | _ => exact Moved.fail _ (.unaryOperand _ _ site)
  | not | other =>
    simp only [applyUnary, Value.truthy_move]
    exact Moved.pure (Value.move m) (.bool _)

/-! ### Calls -/

theorem moved_runBuiltin (body : BuiltinBody Value) (arguments : List Value) :
    Moved m earlier (Value.move m) (body.run arguments)
      ((body.move m).run (arguments.map (Value.move m))) := by
  cases body with
  | constant value => exact Moved.pure (Value.move m) value
  | computed answer =>
    refine moved_readClock.bind fun now => ?_
    -- both sides see the same plain values, and choose the same argument
    let R : Value → Value → Prop := fun value value' => value' = value.move m
    have hlooks : ∀ value value', R value value' → value'.literal? = value.literal? := by
      rintro value _ rfl
      exact value.literal?_move m
    have harguments : List.Forall₂ R arguments (arguments.map (Value.move m)) :=
      List.forall₂_map_right_iff.mpr (List.forall₂_same.mpr fun _ _ => rfl)
    have hanswer : R _ _ := Answer.value_rel (fun literal => (Value.ofLiteral_move m literal).symm)
      hlooks harguments (answer now)
    rw [id, hanswer]
    exact Moved.pure (Value.move m) _

theorem moved_defineParams (env : Env) (params : List String) (arguments : List Value) :
    Moved m earlier id (defineParams env params arguments)
      (defineParams env params (arguments.map (Value.move m))) := by
  induction params generalizing arguments with
  | nil => exact Moved.pure id ()
  | cons param params ih =>
    cases arguments with
    | nil => exact Moved.pure id ()
    | cons argument arguments =>
      apply (moved_defineAt env.scope param argument).bind
      exact fun _ => ih arguments

section Calls

variable {exec exec' : Stmt → EvalM Unit}
  (hexec : ∀ s : Stmt, Moved m earlier id (exec s) (exec' (s.move m)))

include hexec

theorem moved_call (closure : Closure) (arguments : List Value) :
    Moved m earlier (Value.move m) (closure.call exec arguments)
      ((closure.move m).call exec' (arguments.map (Value.move m))) := by
  simp only [Closure.call, Closure.move, FunctionDecl.params_move, FunctionDecl.body_move,
    Stmt.moveAll_eq_map]
  apply (moved_openScope closure.env (.call closure.declaration)).bind
  intro env
  apply (moved_defineParams env closure.declaration.params arguments).bind
  intro _
  apply ((Moved.forM hexec closure.declaration.body).within env).catchReturn.bind
  intro returned
  apply Moved.ite
  · apply Moved.getBind
    intro past
    simp only [Store.scopes_move, Scopes.getAt_move]
    exact moved_reaching _
  · have hvalue : (returned.map (Value.move m)).getD .nil = (returned.getD .nil).move m := by
      cases returned <;> rfl
    rw [hvalue]
    exact Moved.pure (Value.move m) (returned.getD .nil)

theorem moved_construct (cls : Class) (arguments : List Value) :
    Moved m earlier (Value.move m) (cls.construct exec arguments)
      ((cls.move m).construct exec' (arguments.map (Value.move m))) := by
  simp only [Class.construct, Class.findMethod?_move]
  apply (moved_newInstance cls).bind
  intro inst
  cases cls.findMethod? "init" with
  | none => exact Moved.pure (Value.move m) (.object inst)
  | some init =>
    apply (moved_bindTo init (.object inst)).bind
    intro bound
    apply (moved_call hexec bound arguments).bind
    exact fun _ => Moved.pure (Value.move m) (.object inst)

theorem moved_invoke (callee : Value) (arguments : List Value) :
    Moved m earlier (Value.move m) (callee.invoke exec arguments)
      ((callee.move m).invoke exec' (arguments.map (Value.move m))) := by
  cases callee with
  | function closure => exact moved_call hexec closure arguments
  | builtin _ _ _ body => exact moved_runBuiltin body arguments
  | «class» cls => exact moved_construct hexec cls arguments
  | nil | bool | number | string | object => exact Moved.pure (Value.move m) .nil

theorem moved_apply (callee : Value) (arguments : List Value) (site : Site) :
    Moved m earlier (Value.move m) (callee.apply exec arguments site)
      ((callee.move m).apply exec' (arguments.map (Value.move m)) (m.site site)) := by
  simp only [Value.apply, Value.signature?_move, Value.kind_move, List.length_map]
  cases callee.signature? with
  | none => exact Moved.fail _ (.notCallable callee.kind site)
  | some signature =>
    simp only [Option.map_some, Signature.move]
    apply Moved.ite
    · exact moved_invoke hexec callee arguments
    · exact Moved.fail _ (.wrongArity signature.arity arguments.length site (some signature.name)
        signature.declaredAt)

end Calls

/-! ### Classes -/

theorem moved_superMethod (method : String) (binding : Binding) (site : Site) :
    Moved m earlier (Value.move m) (superMethod method binding site)
      (superMethod method binding (m.site site)) := by
  cases binding with
  | global => exact Moved.throw _ (.fault .unboundSuper)
  | enclosing hops =>
    apply Moved.getBind
    intro past
    simp only [Store.scopes_move, Store.current_move, Scopes.getAt_move]
    apply (moved_reaching _).bind
    intro superclass
    apply (moved_reaching _).bind
    intro receiver
    cases superclass with
    | «class» cls =>
      simp only [Value.move, Class.findMethod?_move]
      cases cls.findMethod? method with
      | none => exact Moved.fail _ (.undefinedProperty method site)
      | some found =>
        apply (moved_bindTo found receiver).bind
        exact fun bound => Moved.pure (Value.move m) (.function bound)
    | _ => exact Moved.throw _ (.fault .superNotAClass)

theorem moved_checkSuperclass (reference : Reference) (value : Value) :
    Moved m earlier (Class.move m) (checkSuperclass reference value)
      (checkSuperclass (reference.move m) (value.move m)) := by
  cases value with
  | «class» cls => exact Moved.pure (Class.move m) cls
  | _ => exact Moved.fail _ (.invalidSuperclass reference.name _ reference.anchor.site)

/-- The methods of a class and the class itself, once it is known what the methods close over. -/
theorem moved_installClass (name : String) (superclass : Option Class)
    (methods : List FunctionDecl) (env : Env) :
    Moved m earlier id
      (do
        let closures ← methods.mapM fun method => newClosure method env (method.name == "init")
        let table := Table.ofList (closures.map fun closure => (closure.declaration.name, closure))
        defineHere name (.class (.make (← freshId) name superclass table)))
      (do
        let closures ← (methods.map (FunctionDecl.move m)).mapM fun method =>
          newClosure method env (method.name == "init")
        let table := Table.ofList (closures.map fun closure => (closure.declaration.name, closure))
        defineHere name
          (.class (.make (← freshId) name (superclass.map (Class.move m)) table))) := by
  have hmethods : Moved m earlier (List.map (Closure.move m))
      (methods.mapM fun method => newClosure method env (method.name == "init"))
      ((methods.map (FunctionDecl.move m)).mapM fun method =>
        newClosure method env (method.name == "init")) := by
    apply Moved.mapM
    intro method
    rw [FunctionDecl.name_move]
    exact moved_newClosure method env (method.name == "init")
  apply hmethods.bind
  intro closures
  apply moved_freshId.bind
  intro number
  have htable : Table.ofList ((closures.map (Closure.move m)).map fun closure =>
      (closure.declaration.name, closure)) =
      (Table.ofList (closures.map fun closure => (closure.declaration.name, closure))).map
        (Closure.move m) := by
    rw [← Table.ofList_map, List.map_map, List.map_map]
    congr 2
    funext closure
    simp only [Function.comp, Closure.move, FunctionDecl.name_move]
  simp only [htable, Class.make_move]
  exact moved_defineHere name (.class _)

theorem moved_declareClass (name : String) (superclass : Option Class)
    (methods : List FunctionDecl) :
    Moved m earlier id (declareClass name superclass methods)
      (declareClass name (superclass.map (Class.move m)) (methods.map (FunctionDecl.move m))) := by
  apply (moved_defineHere name .nil).bind
  intro _
  apply Moved.getBind
  intro past
  cases superclass with
  | none => exact moved_installClass name none methods past.current
  | some cls =>
    apply (moved_openScope past.current .superclass).bind
    intro env
    apply (moved_defineAt env.scope "super" (.class cls)).bind
    exact fun _ => moved_installClass name (some cls) methods env

/-! ### One level of evaluation -/

section Level

variable {eval eval' : Expr → EvalM Value} {exec exec' : Stmt → EvalM Unit}
  (heval : ∀ e : Expr, Moved m earlier (Value.move m) (eval e) (eval' (e.move m)))
  (hexec : ∀ s : Stmt, Moved m earlier id (exec s) (exec' (s.move m)))

include heval hexec

theorem moved_evalWith (e : Expr) :
    Moved m earlier (Value.move m) (e.evalWith eval exec) ((e.move m).evalWith eval' exec') := by
  cases e with
  | literal value => exact moved_literal value
  | «variable» reference =>
    exact moved_readName reference.name reference.binding reference.anchor.site
  | assign target value =>
    apply (heval value).bind
    intro result
    apply (moved_writeName target.name target.binding target.anchor.site result).bind
    exact fun _ => Moved.pure (Value.move m) result
  | unary op operand anchor =>
    exact (heval operand).bind fun value => moved_applyUnary op value anchor.site
  | binary op left right anchor =>
    apply (heval left).bind
    intro a
    apply (heval right).bind
    exact fun b => moved_applyBinary op a b anchor.site
  | logical op left right =>
    apply (heval left).bind
    intro value
    rw [op.decides_congr (Value.truthy_move m _)]
    apply Moved.ite
    · exact Moved.pure (Value.move m) value
    · exact heval right
  | grouping inner => exact heval inner
  | call callee arguments anchor =>
    simp only [Expr.move, Expr.evalWith, Expr.moveAll_eq_map]
    apply (heval callee).bind
    intro function
    apply (Moved.mapM heval arguments).bind
    exact fun values => moved_apply hexec function values anchor.site
  | get object name anchor =>
    apply (heval object).bind
    intro value
    cases value with
    | object inst => exact moved_getProperty inst name anchor.site
    | _ => exact Moved.fail _ (.notAnInstance _ _ anchor.site)
  | set object name value anchor =>
    apply (heval object).bind
    intro target
    cases target with
    | object inst =>
      apply (heval value).bind
      intro result
      apply (moved_setField inst name result).bind
      exact fun _ => Moved.pure (Value.move m) result
    | _ => exact Moved.fail _ (.notAnInstance _ _ anchor.site)
  | this anchor binding => exact moved_readName "this" binding anchor.site
  | super method anchor binding => exact moved_superMethod method binding anchor.site

theorem moved_execWith (rounds : Nat) (s : Stmt) :
    Moved m earlier id (s.execWith rounds eval exec) ((s.move m).execWith rounds eval' exec') := by
  have htruthy : ∀ condition : Expr, Moved m earlier id
      (do return (← eval condition).truthy) (do return (← eval' (condition.move m)).truthy) := by
    intro condition
    apply (heval condition).bind
    intro value
    rw [Value.truthy_move]
    exact Moved.pure id value.truthy
  cases s with
  | expression value => exact (heval value).bind fun _ => Moved.pure id ()
  | print value =>
    apply (heval value).bind
    intro result
    rw [Value.text_move]
    exact moved_printLine result.text
  | declare name initializer =>
    cases initializer with
    | none => exact moved_defineHere name .nil
    | some value => exact (heval value).bind fun result => moved_defineHere name result
  | block body =>
    have hbody : Moved m earlier id (body.forM exec) ((Stmt.moveAll m body).forM exec') := by
      rw [Stmt.moveAll_eq_map]
      exact Moved.forM hexec body
    apply Moved.getBind
    intro past
    apply (moved_openScope past.current (.block body)).bind
    intro env
    exact hbody.within env
  | ifThen condition body =>
    apply (heval condition).bind
    intro value
    rw [Value.truthy_move]
    exact Moved.ite _ (hexec body) (Moved.pure id ())
  | ifElse condition body alternative =>
    apply (heval condition).bind
    intro value
    rw [Value.truthy_move]
    exact Moved.ite _ (hexec body) (hexec alternative)
  | loop condition body => exact (htruthy condition).whileTrue (hexec body) rounds
  | function declaration =>
    apply Moved.getBind
    intro past
    apply (moved_newClosure declaration past.current false).bind
    intro closure
    rw [FunctionDecl.name_move]
    exact moved_defineHere declaration.name (.function closure)
  | returning value =>
    cases value with
    | none => exact Moved.throw id (.returned .nil)
    | some value => exact (heval value).bind fun result => Moved.throw id (.returned result)
  | classDecl name superclass methods =>
    simp only [Stmt.move, FunctionDecl.moveAll_eq_map]
    cases superclass with
    | none => exact moved_declareClass name none methods
    | some parent =>
      apply (heval (.variable parent)).bind
      intro value
      apply (moved_checkSuperclass parent value).bind
      exact fun cls => moved_declareClass name (some cls) methods

end Level

/-! ### Evaluation -/

/-- The evaluator respects moves, whatever its limits. -/
theorem evalMoved_and_execMoved (m : Move) (earlier : Array String) (rounds depth : Nat) :
    (∀ e : Expr, Moved m earlier (Value.move m) (e.eval rounds depth)
      ((e.move m).eval rounds depth)) ∧
    ∀ s : Stmt, Moved m earlier id (s.exec rounds depth) ((s.move m).exec rounds depth) := by
  induction depth with
  | zero => exact ⟨fun _ => Moved.throw _ .stackExhausted, fun _ => Moved.throw _ .stackExhausted⟩
  | succ depth ih =>
    obtain ⟨heval, hexec⟩ := ih
    exact ⟨moved_evalWith heval hexec, moved_execWith heval hexec rounds⟩

/-- A moved program does what the program does, moved: it starts from the moved store, and what it
prints comes after the earlier lines. -/
theorem Program.exec_move (m : Move) (earlier : Array String) (rounds depth : Nat)
    (program : Program) (store : Store) :
    (program.move m).exec rounds depth (store.move m earlier) =
      m.result earlier id (program.exec rounds depth store) := by
  unfold Program.move Program.exec
  rw [Stmt.moveAll_eq_map]
  exact (Moved.forM (evalMoved_and_execMoved m earlier rounds depth).2 program).moves store

end Treewalk
