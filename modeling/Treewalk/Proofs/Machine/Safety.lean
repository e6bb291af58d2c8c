import Treewalk.Proofs.Machine.Chains
import Treewalk.Proofs.Machine.Operators

/-!
# Evaluation is safe

Code that is ready in a layout runs safely from every sound store whose environment in force
matches that layout. The proof follows the evaluator: an operation on names finds what the layout
promises, a call runs the body of a closure in the layout of its own scopes, and a statement leaves
the environment matching the layout after it.
-/

namespace Treewalk

open Grammar (FunctionKind ClassKind Place bodyKind classKind)

variable {known : Known} {returns : Prop} {store : Store} {layout : Layout}

/-! ### Names -/

/-- A bound name stands in the scope of the layout to which it is bound. -/
theorem Layout.getElem?_of_binding {name : String} {hops : Nat}
    (h : layout.names.binding name = .enclosing hops) :
    ∃ scope, layout[hops]? = some scope ∧ name ∈ scope.names := by
  obtain ⟨⟨names, hget, hname⟩, _⟩ := StaticScopes.getElem?_of_binding h
  rw [Layout.names, List.getElem?_map] at hget
  obtain ⟨scope, hscope, rfl⟩ := Option.map_eq_some_iff.mp hget
  exact ⟨scope, hscope, hname⟩

/-- Steps outward reach the scope that the layout has there. -/
theorem Scopes.Matches.reach {scopes : Scopes} {env : Env} {hops : Nat} {scope : StaticScope}
    (h : scopes.Matches layout env.chain) (hget : layout[hops]? = some scope) :
    ∃ id, Scopes.reach env hops = .ok id ∧ scopes.Realizes scope id := by
  obtain ⟨id, hid, hrealizes⟩ := h.getElem? hget
  exact ⟨id, Scopes.reach_of_getElem? hid, hrealizes⟩

/-- A name that the layout declares has a value in the scope that realizes it. -/
theorem Scopes.Matches.getAt {scopes : Scopes} {env : Env} {hops : Nat} {scope : StaticScope}
    {name : String} (h : scopes.Matches layout env.chain) (hget : layout[hops]? = some scope)
    (hname : name ∈ scope.names) :
    ∃ id value, Scopes.reach env hops = .ok id ∧ scopes.origin? id = some scope.origin ∧
      (scopes.bindings id).find? name = some value ∧
      scopes.getAt env hops name = .ok value := by
  obtain ⟨id, hreach, hrealizes⟩ := h.reach hget
  obtain ⟨value, hvalue⟩ := Table.contains_eq_true_iff.mp (hrealizes.names name hname)
  exact ⟨id, value, hreach, hrealizes.origin, hvalue, Scopes.getAt_of_reach hreach hvalue⟩

/-- Reading a name that is bound as the layout says. -/
theorem safe_readName (hsound : store.Sound known)
    (hmatches : store.scopes.Matches layout store.current.chain) {name : String}
    {binding : Binding} (hbinding : binding = layout.names.binding name)
    (hword : binding = .global → known.word name) (site : Site) :
    Safe known returns (readName name binding site)
      (fun value later => value.Sound known later.scopes) store := by
  subst hbinding
  unfold readName
  refine Safe.getBind ?_
  split
  · rename_i hops hbinding
    obtain ⟨scope, hscope, hname⟩ := Layout.getElem?_of_binding hbinding
    obtain ⟨id, value, _, _, hvalue, hgetAt⟩ := hmatches.getAt hscope hname
    rw [hgetAt]
    exact Safe.pure hsound (hsound.values id name value hvalue)
  · unfold Scopes.get
    split
    · rename_i value hfind
      refine Safe.pure hsound ?_
      simp only [globalEnv, Env.chain, Scopes.find?] at hfind
      split at hfind
      · rename_i hvalue
        obtain rfl := Option.some.inj hfind
        exact hsound.values _ _ _ hvalue
      · cases hfind
    · exact Safe.fail hsound (hword ‹_›)

theorem safe_targetScope (hsound : store.Sound known)
    (hmatches : store.scopes.Matches layout store.current.chain) {name : String}
    {binding : Binding} (hbinding : binding = layout.names.binding name) (hword : known.word name)
    (site : Site) :
    Safe known returns (targetScope name binding site) (fun _ later => later = store) store := by
  subst hbinding
  unfold targetScope
  refine Safe.getBind ?_
  split
  · rename_i hops hbinding
    obtain ⟨scope, hscope, _⟩ := Layout.getElem?_of_binding hbinding
    obtain ⟨id, hreach, _⟩ := hmatches.reach hscope
    rw [hreach]
    exact Safe.pure hsound rfl
  · split
    · exact Safe.pure hsound rfl
    · exact Safe.fail hsound hword

theorem safe_writeName (hsound : store.Sound known)
    (hmatches : store.scopes.Matches layout store.current.chain) {target : Reference}
    (htarget : target.Resolved known layout) (site : Site) {value : Value}
    (hvalue : value.Sound known store.scopes) :
    Safe known returns (writeName target.name target.binding site value) (fun _ _ => True)
      store := by
  rw [writeName_eq]
  refine (safe_targetScope hsound hmatches htarget.binding htarget.word site).bind ?_
  intro id later _ hsound hlater
  subst hlater
  exact (safe_defineAt hsound hvalue (Scopes.admits_of_isName htarget.isName _ _)).mono
    fun _ _ _ _ _ => trivial

/-! ### Operators and builtin functions -/

theorem Value.unescaped_kind (value : Value) : Unescaped value.kind := by
  unfold kind
  split <;> decide

theorem BinaryOp.unescaped_symbol : ∀ op ∈ BinaryOp.known, Unescaped op.symbol := by
  decide

theorem safe_applyBinary (hsound : store.Sound known) {op : BinaryOp}
    (hop : op ∈ BinaryOp.known) (left right : Value) (site : Site) :
    Safe known returns (applyBinary op left right site)
      (fun value later => value.Sound known later.scopes) store := by
  have houtcome := applyBinary_outcome op left right
  generalize applyBinary op left right = run at houtcome ⊢
  cases houtcome with
  | plain literal => exact Safe.pure hsound (Value.sound_ofLiteral literal)
  | divisionByZero => exact Safe.fail hsound trivial
  | operands =>
    exact Safe.fail hsound
      ⟨BinaryOp.unescaped_symbol op hop, left.unescaped_kind, right.unescaped_kind⟩
  | unknown symbol h => simp [h, BinaryOp.known] at hop

theorem safe_applyUnary (hsound : store.Sound known) (op : UnaryOp) (operand : Value)
    (site : Site) :
    Safe known returns (applyUnary op operand site)
      (fun value later => value.Sound known later.scopes) store := by
  unfold applyUnary
  split
  · exact Safe.pure hsound (.number _)
  · exact Safe.fail hsound ⟨show Unescaped "-" by decide, operand.unescaped_kind⟩
  · exact Safe.pure hsound (.bool _)

theorem safe_runBuiltin (hsound : store.Sound known) {id : Nat} {name : String} {arity : Int}
    {body : BuiltinBody Value}
    (hbuiltin : (Value.builtin id name arity body).Sound known store.scopes)
    {arguments : List Value} (harguments : ∀ value ∈ arguments, value.Sound known store.scopes) :
    Safe known returns (body.run arguments)
      (fun value later => value.Sound known later.scopes) store := by
  cases hbuiltin with
  | constant _ _ _ hvalue => exact Safe.pure hsound hvalue
  | computed _ _ _ answer =>
    refine (safe_readClock hsound).bind fun now later hevolves hsound _ => ?_
    refine Safe.pure hsound (Answer.value_of_forall Value.sound_ofLiteral ?_ _)
    exact fun value hvalue => (harguments value hvalue).mono hevolves.scopes

/-! ### Lists of code -/

/-- An evaluator of expressions that runs every ready expression safely. A superclass is ready in
the layout in which the name of the class is declared, but runs before that name has a value. -/
structure EvalSafe (known : Known) (eval : Expr → EvalM Value) : Prop where
  expression : ∀ (e : Expr) (enclosing : ClassKind) (layout : Layout) (store : Store),
    store.Sound known → store.scopes.Matches layout store.current.chain →
    layout.Fits enclosing → e.Ready known enclosing layout →
    Safe known False (eval e) (fun value later => value.Sound known later.scopes) store
  superclass : ∀ (parent : Reference) (name : String) (layout : Layout) (store : Store),
    store.Sound known → store.scopes.Matches layout store.current.chain →
    SuperclassReady known (layout.declare name) name (some parent) →
    Safe known False (eval (.variable parent))
      (fun value later => value.Sound known later.scopes) store

/-- An executor of statements that runs every ready statement safely, and leaves the environment in
force matching the layout after it. -/
def ExecSafe (known : Known) (exec : Stmt → EvalM Unit) : Prop :=
  ∀ (s : Stmt) (place : Place) (layout : Layout) (store : Store), store.Sound known →
    store.scopes.Matches layout store.current.chain → layout.Fits place.enclosing →
    layout.Accepts → s.Ready known place layout →
    Safe known (place.function ≠ .none) (exec s)
      (fun _ later => later.scopes.Matches (s.layoutAfter layout) later.current.chain) store

/-- What matched before a computation matches after it. -/
theorem Store.Evolves.matches {later : Store} (h : store.Evolves later)
    (hmatches : store.scopes.Matches layout store.current.chain) :
    later.scopes.Matches layout later.current.chain := by
  rw [h.current]
  exact hmatches.mono h.scopes

/-- Arguments are evaluated in turn; the earlier ones stay sound. -/
theorem safe_evalAll {eval : Expr → EvalM Value} (heval : EvalSafe known eval)
    {enclosing : ClassKind} {es : List Expr} (hsound : store.Sound known)
    (hmatches : store.scopes.Matches layout store.current.chain) (hfits : layout.Fits enclosing)
    (hready : Expr.AllReady known enclosing layout es) :
    Safe known False (es.mapM eval)
      (fun values later => ∀ value ∈ values, value.Sound known later.scopes) store := by
  induction es generalizing store with
  | nil => exact Safe.pure hsound (fun value hvalue => absurd hvalue List.not_mem_nil)
  | cons e rest ih =>
    obtain ⟨he, hrest⟩ := hready
    rw [List.mapM_cons]
    refine (heval.expression e enclosing layout store hsound hmatches hfits he).bind ?_
    intro value later hevolves hsound hvalue
    refine (ih hsound (hevolves.matches hmatches) hrest).bind ?_
    intro values last hevolves' hsound' hvalues
    refine Safe.pure hsound' (List.forall_mem_cons.mpr ⟨?_, hvalues⟩)
    exact hvalue.mono hevolves'.scopes

/-- What a statement declares keeps a layout in shape. -/
theorem Stmt.Ready.after {place : Place} {s : Stmt} (hready : s.Ready known place layout)
    (hfits : layout.Fits place.enclosing) (haccepts : layout.Accepts) :
    (s.layoutAfter layout).Fits place.enclosing ∧ (s.layoutAfter layout).Accepts := by
  match s with
  | .declare name none =>
    exact ⟨hfits.declare haccepts hready, haccepts.declare hready⟩
  | .declare name (some _) => exact ⟨hfits.declare haccepts hready.1, haccepts.declare hready.1⟩
  | .function _ => exact ⟨hfits.declare haccepts hready.1, haccepts.declare hready.1⟩
  | .classDecl _ _ _ => exact ⟨hfits.declare haccepts hready.1.1, haccepts.declare hready.1.1⟩
  | .ifThen _ body | .loop _ body =>
    rw [layoutAfter, hready.2.2]
    exact ⟨hfits, haccepts⟩
  | .ifElse _ body alternative =>
    rw [layoutAfter, hready.2.1.2, hready.2.2.2]
    exact ⟨hfits, haccepts⟩
  | .expression _ | .print _ | .block _ | .returning _ => exact ⟨hfits, haccepts⟩

theorem safe_execAll {exec : Stmt → EvalM Unit} (hexec : ExecSafe known exec) (place : Place)
    {body : List Stmt} (hsound : store.Sound known)
    (hmatches : store.scopes.Matches layout store.current.chain)
    (hfits : layout.Fits place.enclosing) (haccepts : layout.Accepts)
    (hready : Stmt.AllReady known place layout body) :
    Safe known (place.function ≠ .none) (body.forM exec) (fun _ _ => True) store := by
  induction body generalizing layout store with
  | nil => exact Safe.pure hsound trivial
  | cons s rest ih =>
    obtain ⟨hs, hrest⟩ := hready
    -- the rest runs in the layout after the first statement
    obtain ⟨hfits', haccepts'⟩ := hs.after hfits haccepts
    refine (hexec s place layout store hsound hmatches hfits haccepts hs).bind ?_
    intro _ later _ hsound hmatches
    exact ih hsound hmatches hfits' haccepts' hrest

/-! ### Calls -/

/-- Every parameter gets a value in the scope of the call. -/
theorem safe_defineParams {env : Env} {origin : ScopeOrigin} {params : List String}
    {arguments : List Value} (hsound : store.Sound known)
    (horigin : store.scopes.origin? env.scope = some origin)
    (hparams : ∀ param ∈ params, IsName param)
    (harguments : ∀ value ∈ arguments, value.Sound known store.scopes)
    (hlength : arguments.length = params.length) :
    Safe known returns (defineParams env params arguments)
      (fun _ later => ∀ param ∈ params, later.scopes.defines env.scope param = true) store := by
  induction params generalizing arguments store with
  | nil =>
    unfold defineParams
    exact Safe.pure hsound (fun param hparam => absurd hparam List.not_mem_nil)
  | cons param params ih =>
    cases arguments with
    | nil => cases hlength
    | cons argument arguments =>
      obtain ⟨hparam, hparams⟩ := List.forall_mem_cons.mp hparams
      obtain ⟨hargument, harguments⟩ := List.forall_mem_cons.mp harguments
      rw [defineParams]
      have hadmits := store.scopes.admits_of_isName hparam env.scope argument
      refine (safe_defineAt hsound hargument hadmits).bind ?_
      intro _ later hevolves hsound hdefines
      have hargument := hdefines (Scopes.exists_of_origin? horigin)
      refine (ih hsound (hevolves.scopes.origin _ _ horigin) hparams
        (fun value hvalue => (harguments value hvalue).mono hevolves.scopes)
        (Nat.succ.inj hlength)).mono ?_
      intro _ last hevolves' _ hrest
      exact List.forall_mem_cons.mpr ⟨hevolves'.scopes.names _ _ hargument, hrest⟩

/-- A call of a closure that runs. -/
theorem safe_call {exec : Stmt → EvalM Unit} (hexec : ExecSafe known exec) {closure : Closure}
    {arguments : List Value} (hsound : store.Sound known)
    (hruns : closure.Runs known store.scopes)
    (harguments : ∀ value ∈ arguments, value.Sound known store.scopes)
    (harity : arguments.length = closure.declaration.params.length) :
    Safe known returns (closure.call exec arguments)
      (fun value later => value.Sound known later.scopes) store := by
  obtain ⟨layout, place, method, hmatches, hfits, hready, hinitializer⟩ := hruns
  obtain ⟨id, declaration, outer, initializer⟩ := closure
  obtain ⟨name, params, body, anchor⟩ := declaration
  obtain ⟨_, hparams, hbody⟩ := hready
  unfold Closure.call
  refine (safe_openScope hsound outer _).bind fun env later hevolves hsound henv => ?_
  obtain ⟨horigin, henclosing⟩ := henv
  refine (safe_defineParams hsound horigin hparams
    (fun value hvalue => (harguments value hvalue).mono hevolves.scopes) harity).bind ?_
  intro _ entered hevolves' hsound hdefines
  have hgrows := hevolves.scopes.trans hevolves'.scopes
  -- inside the call, the environment is that of the closure with the parameters in front
  have hinner : entered.scopes.Matches (layout.openCall (.mk name params body anchor))
      env.chain := by
    rw [Env.chain, henclosing]
    exact .cons ⟨hevolves'.scopes.origin _ _ horigin, hdefines⟩ (hmatches.mono hgrows)
  have hlocal : StaticScope.IsLocal ⟨.call (.mk name params body anchor), params⟩ :=
    ⟨.inr ⟨_, rfl⟩, hparams⟩
  have hrun : Safe known True (within env (body.forM exec)) (fun _ _ => True) entered := by
    have hall := safe_execAll hexec { place with function := bodyKind method name }
      (hsound.withCurrent env) hinner (.inner hlocal hfits) (Layout.accepts_cons hlocal) hbody
    exact Safe.within (hall.returnsMono fun _ => trivial)
  refine hrun.catchReturn.bind fun returned last hevolves'' hsound hreturned => ?_
  split
  · rename_i hinit
    -- an initializer gives back its receiver, which the innermost scope of the closure holds
    obtain ⟨outerLayout, rfl⟩ := hinitializer hinit
    refine Safe.getBind ?_
    have hmatches' := hmatches.mono (hgrows.trans hevolves''.scopes)
    have hreceiver : (⟨.receiver, ["this"]⟩ :: outerLayout : Layout)[0]? =
        some ⟨.receiver, ["this"]⟩ := rfl
    obtain ⟨id, value, _, _, hvalue, hgetAt⟩ :=
      hmatches'.getAt hreceiver (List.mem_singleton.mpr rfl)
    rw [hgetAt]
    exact Safe.pure hsound (hsound.values id _ value hvalue)
  · refine Safe.pure hsound ?_
    cases returned with
    | none => exact .nil
    | some value => exact hreturned value rfl

theorem safe_construct {exec : Stmt → EvalM Unit} (hexec : ExecSafe known exec) {cls : Class}
    {arguments : List Value} (hsound : store.Sound known) (hcls : cls.Sound known store.scopes)
    (harguments : ∀ value ∈ arguments, value.Sound known store.scopes)
    (harity : ∀ init, cls.findMethod? "init" = some init →
      arguments.length = init.declaration.params.length) :
    Safe known returns (cls.construct exec arguments)
      (fun value later => value.Sound known later.scopes) store := by
  unfold Class.construct
  refine (safe_newInstance hsound cls).bind fun inst later hevolves hsound hinst => ?_
  subst hinst
  have hinst := hcls.mono hevolves.scopes
  cases hinit : inst.cls.findMethod? "init" with
  | none => exact Safe.pure hsound (.object hinst)
  | some init =>
    have hmethod := hinst.methods "init" init hinit
    refine (safe_bindTo hsound hmethod hinst).bind fun bound last hevolves' hsound hbound => ?_
    obtain ⟨hruns, hdeclaration⟩ := hbound
    have hgrows := hevolves.scopes.trans hevolves'.scopes
    have hlength : arguments.length = bound.declaration.params.length := by
      rw [hdeclaration]
      exact harity init hinit
    refine (safe_call hexec hsound hruns
      (fun value hvalue => (harguments value hvalue).mono hgrows) hlength).bind ?_
    intro _ final hevolves'' hsound _
    exact Safe.pure hsound (.object ((hinst.mono hevolves'.scopes).mono hevolves''.scopes))

theorem Closure.Runs.word {closure : Closure} {scopes : Scopes}
    (h : closure.Runs known scopes) : known.word closure.declaration.name := by
  obtain ⟨_, ⟨_, _, _, _⟩, _, _⟩ := closure
  obtain ⟨_, _, _, _, _, ⟨hword, _⟩, _⟩ := h
  exact hword

/-- The name by which a call knows its callee. -/
theorem Value.Sound.word {value : Value} {scopes : Scopes} (h : value.Sound known scopes)
    {signature : Signature} (hsignature : value.signature? = some signature) :
    known.word signature.name := by
  cases h with
  | function h =>
    cases hsignature
    exact h.word
  | constant _ hname | computed _ hname =>
    cases hsignature
    exact hname
  | @«class» cls h =>
    simp only [Value.signature?] at hsignature
    split at hsignature
    · cases hsignature
      exact h.word
    · cases hsignature
      exact h.word
  | nil | bool | number | string | object => cases hsignature

/-- A call is made only with as many arguments as the callee takes. -/
theorem safe_apply {exec : Stmt → EvalM Unit} (hexec : ExecSafe known exec) {callee : Value}
    {arguments : List Value} (hsound : store.Sound known)
    (hcallee : callee.Sound known store.scopes)
    (harguments : ∀ value ∈ arguments, value.Sound known store.scopes) (site : Site) :
    Safe known returns (callee.apply exec arguments site)
      (fun value later => value.Sound known later.scopes) store := by
  unfold Value.apply
  split
  · exact Safe.fail hsound callee.unescaped_kind
  · rename_i signature hsignature
    split
    · rename_i harity
      cases callee with
      | function closure =>
        -- the number of arguments was compared with that of the parameters before the call
        have hruns := Value.sound_function_iff.mp hcallee
        simp only [Value.signature?, Option.some.injEq] at hsignature
        subst hsignature
        exact safe_call hexec hsound hruns harguments (Int.ofNat.inj harity)
      | builtin => exact safe_runBuiltin hsound hcallee harguments
      | «class» cls =>
        have hcls := Value.sound_class_iff.mp hcallee
        refine safe_construct hexec hsound hcls harguments fun init hinit => ?_
        simp only [Value.signature?, hinit, Option.some.injEq] at hsignature
        subst hsignature
        exact Int.ofNat.inj harity
      | nil | bool | number | string | object => cases hsignature
    · refine Safe.fail hsound fun name hname => ?_
      obtain rfl := Option.some.inj hname
      exact hcallee.word hsignature

/-! ### Properties, `super` and classes -/

theorem safe_getProperty (hsound : store.Sound known) {inst : Instance}
    (hinst : inst.cls.Sound known store.scopes) {name : String} (hword : known.word name)
    (site : Site) :
    Safe known returns (getProperty inst name site)
      (fun value later => value.Sound known later.scopes) store := by
  unfold getProperty
  refine Safe.getBind ?_
  split
  · rename_i value hfind
    refine Safe.pure hsound ?_
    unfold Store.fieldsOf at hfind
    rw [Array.getD_eq_getD_getElem?] at hfind
    cases hget : store.fields[inst.id]? with
    | none =>
      rw [hget] at hfind
      cases hfind
    | some table =>
      rw [hget] at hfind
      exact hsound.fields table (Array.mem_of_getElem? hget) name value hfind
  · split
    · rename_i method hmethod
      refine (safe_bindTo hsound (hinst.methods name method hmethod) hinst).bind ?_
      intro bound later _ hsound hbound
      exact Safe.pure hsound (.function hbound.1)
    · exact Safe.fail hsound hword

/-- Where `super` is bound there is a class, and just inside it an instance. -/
theorem safe_superMethod (hsound : store.Sound known)
    (hmatches : store.scopes.Matches layout store.current.chain)
    (hfits : layout.Fits .subclass) {binding : Binding}
    (hbinding : binding = layout.names.binding "super") {method : String}
    (hword : known.word method) (site : Site) :
    Safe known returns (superMethod method binding site)
      (fun value later => value.Sound known later.scopes) store := by
  obtain ⟨hops, hbound, hreceiver, hsuperclass⟩ := hfits.binding_super
  rw [hbinding, hbound]
  obtain ⟨id, superclass, _, horigin, hfound, hsuper⟩ :=
    hmatches.getAt hsuperclass (List.mem_singleton.mpr rfl)
  obtain ⟨id', receiver, _, horigin', hfound', hthis⟩ :=
    hmatches.getAt hreceiver (List.mem_singleton.mpr rfl)
  -- what opened the two scopes says what they hold
  obtain ⟨cls, rfl⟩ := hsound.superclass id superclass horigin hfound
  obtain ⟨inst, rfl⟩ := hsound.receiver id' receiver horigin' hfound'
  have hcls := Value.sound_class_iff.mp (hsound.values id _ _ hfound)
  have hinst := Value.sound_object_iff.mp (hsound.values id' _ _ hfound')
  unfold superMethod
  refine Safe.getBind ?_
  simp only [hsuper, Nat.add_sub_cancel, hthis, reaching, pure_bind]
  cases hmethod : cls.findMethod? method with
  | none => exact Safe.fail hsound hword
  | some found =>
    refine (safe_bindTo hsound (hcls.methods method found hmethod) hinst).bind ?_
    intro bound later _ hsound hbound
    exact Safe.pure hsound (.function hbound.1)

theorem safe_checkSuperclass (hsound : store.Sound known) {reference : Reference}
    (hword : known.word reference.name) {value : Value} (hvalue : value.Sound known store.scopes) :
    Safe known returns (checkSuperclass reference value)
      (fun cls later => cls.Sound known later.scopes) store := by
  cases hvalue with
  | «class» hcls => exact Safe.pure hsound hcls
  | nil | bool | number | string | function | constant | computed | object =>
    exact Safe.fail hsound ⟨hword, Value.unescaped_kind _⟩

/-- The methods of a class close over the environment of its declaration. -/
theorem safe_newMethods {env : Env} {place : Place} {methods : List FunctionDecl}
    (hsound : store.Sound known) (hmatches : store.scopes.Matches layout env.chain)
    (hfits : Layout.Fits place.enclosing (⟨.receiver, ["this"]⟩ :: layout))
    (hready : FunctionDecl.AllReady known place true (⟨.receiver, ["this"]⟩ :: layout) methods) :
    Safe known returns
      (methods.mapM fun method => newClosure method env (method.name == "init"))
      (fun closures later => ∀ closure ∈ closures, closure.IsMethod known later.scopes) store := by
  induction methods generalizing store with
  | nil => exact Safe.pure hsound (fun closure hclosure => absurd hclosure List.not_mem_nil)
  | cons method rest ih =>
    obtain ⟨hmethod, hrest⟩ := hready
    rw [List.mapM_cons]
    refine (safe_newClosure hsound method env _).bind fun closure later hevolves hsound hnew => ?_
    obtain ⟨hdeclaration, henv, _⟩ := hnew
    refine (ih hsound (hmatches.mono hevolves.scopes) hrest).bind ?_
    intro closures last hevolves' hsound hclosures
    refine Safe.pure hsound (List.forall_mem_cons.mpr ⟨?_, hclosures⟩)
    refine ⟨layout, place, ?_, hfits, hdeclaration ▸ hmethod⟩
    rw [henv]
    exact hmatches.mono (hevolves.scopes.trans hevolves'.scopes)

theorem Class.findMethod?_make {id : Nat} {name : String} {superclass : Option Class}
    {table : Table Closure} {key : String} {method : Closure}
    (h : (Class.make id name superclass table).findMethod? key = some method) :
    table.find? key = some method ∨
      ∃ cls, superclass = some cls ∧ cls.findMethod? key = some method := by
  cases superclass with
  | none => exact .inl h
  | some cls =>
    simp only [make, findMethod?] at h
    split at h
    · rename_i found hfound
      exact .inl (hfound.trans h)
    · exact .inr ⟨cls, rfl, h⟩

theorem Table.find?_ofList {α : Type} {entries : List (String × α)} {key : String} {value : α}
    (h : (Table.ofList entries).find? key = some value) : (key, value) ∈ entries := by
  -- for any table to start from, since each entry is inserted into what came before it
  have hfold : ∀ (entries : List (String × α)) (table : Table α),
      (entries.foldl (fun table entry => table.insert entry.1 entry.2) table).find? key =
        some value → (key, value) ∈ entries ∨ table.find? key = some value := by
    intro entries
    induction entries with
    | nil => exact fun table h => .inr h
    | cons entry rest ih =>
      intro table h
      rcases ih _ h with hmem | hfound
      · exact .inl (List.mem_cons_of_mem _ hmem)
      · rw [find?_insert] at hfound
        split at hfound
        · rename_i hkey
          left
          obtain rfl := Option.some.inj hfound
          rw [← hkey]
          exact List.mem_cons_self
        · exact .inr hfound
  rcases hfold entries {} h with hmem | hfound
  · exact hmem
  · cases hfound

theorem Class.id_make (id : Nat) (name : String) (superclass : Option Class)
    (table : Table Closure) : (Class.make id name superclass table).id = id := by
  cases superclass <;> rfl

theorem Class.name_make (id : Nat) (name : String) (superclass : Option Class)
    (table : Table Closure) : (Class.make id name superclass table).name = name := by
  cases superclass <;> rfl

/-- A class is sound if its own methods and its superclass are. -/
theorem Class.sound_make (id : Nat) {name : String} (hname : known.word name)
    {superclass : Option Class}
    {closures : List Closure} {scopes : Scopes}
    (hclosures : ∀ closure ∈ closures, closure.IsMethod known scopes)
    (hsuperclass : ∀ cls ∈ superclass, cls.Sound known scopes) :
    (Class.make id name superclass (Table.ofList (closures.map fun closure =>
      (closure.declaration.name, closure)))).Sound known scopes := by
  refine ⟨by rwa [Class.name_make], fun key method hmethod => ?_⟩
  rcases Class.findMethod?_make hmethod with hown | ⟨cls, rfl, hfound⟩
  · obtain ⟨closure, hclosure, heq⟩ := List.mem_map.mp (Table.find?_ofList hown)
    obtain rfl := (Prod.mk.inj heq).2
    exact hclosures closure hclosure
  · exact (hsuperclass cls rfl).methods key method hfound

/-- The last steps of a class declaration: its methods close over an environment, and its name gets
the class. -/
theorem safe_installClass {env : Env} {place : Place} {name : String} {superclass : Option Class}
    {methods : List FunctionDecl} {outer : Layout} (hsound : store.Sound known)
    (hmatches : store.scopes.Matches layout env.chain)
    (houter : store.scopes.Matches outer store.current.chain)
    (hfits : Layout.Fits place.enclosing (⟨.receiver, ["this"]⟩ :: layout))
    (hname : IsName name ∧ known.word name)
    (hsuperclass : ∀ cls ∈ superclass, cls.Sound known store.scopes)
    (hready : FunctionDecl.AllReady known place true (⟨.receiver, ["this"]⟩ :: layout) methods) :
    Safe known returns
      (do
        let closures ← methods.mapM fun method => newClosure method env (method.name == "init")
        let table := Table.ofList (closures.map fun closure => (closure.declaration.name, closure))
        defineHere name (.class (.make (← freshId) name superclass table)))
      (fun _ later => later.scopes.Matches outer later.current.chain) store := by
  refine (safe_newMethods hsound hmatches hfits hready).bind ?_
  intro closures later hevolves hsound hclosures
  refine (safe_freshId hsound).bind fun id last hevolves' hsound _ => ?_
  have hgrows := hevolves.scopes.trans hevolves'.scopes
  have hcls := Class.sound_make id hname.2
    (fun closure hclosure => (hclosures closure hclosure).mono hevolves'.scopes)
    (fun cls hcls => (hsuperclass cls hcls).mono hgrows)
  refine (safe_defineHere hsound (.class hcls) hname.1).mono fun _ final hevolves'' _ _ => ?_
  exact ((hevolves.trans hevolves').trans hevolves'').matches houter

/-- Declaring a class defines its name in the scope in force. -/
theorem safe_declareClass {place : Place} {name : String} {reference : Option Reference}
    {superclass : Option Class} {methods : List FunctionDecl} (hsound : store.Sound known)
    (hmatches : store.scopes.Matches layout store.current.chain)
    (hfits : layout.Fits place.enclosing) (haccepts : layout.Accepts)
    (hname : IsName name ∧ known.word name)
    (hsuperclass : ∀ cls ∈ superclass, cls.Sound known store.scopes)
    (hsame : superclass.isSome = reference.isSome)
    (hready : FunctionDecl.AllReady known { place with enclosing := classKind reference } true
      ((layout.declare name).openClass reference) methods) :
    Safe known returns (declareClass name superclass methods)
      (fun _ later => later.scopes.Matches (layout.declare name) later.current.chain) store := by
  have hfits' : ((layout.declare name).openClass reference).Fits (classKind reference) :=
    .class reference (hfits.declare haccepts hname.1)
  have hglobals := Scopes.exists_of_origin? hsound.session
  unfold declareClass
  refine (safe_defineHere hsound .nil hname.1).bind fun _ later hevolves hsound hdefines => ?_
  -- the name has a value before the methods are made, so they may close over it
  have hdeclared : later.scopes.Matches (layout.declare name) later.current.chain := by
    rw [hevolves.current]
    exact (hmatches.mono hevolves.scopes).declare (hdefines (hmatches.exists_innermost hglobals))
  refine Safe.getBind ?_
  cases superclass with
  | none =>
    cases reference with
    | some => cases hsame
    | none => exact safe_installClass hsound hdeclared hdeclared hfits' hname nofun hready
  | some cls =>
    cases reference with
    | none => cases hsame
    | some parent =>
      have hcls := (hsuperclass cls rfl).mono hevolves.scopes
      refine (safe_openScope hsound _ .superclass).bind fun env opened hevolves' hsound henv => ?_
      obtain ⟨horigin, henclosing⟩ := henv
      have hadmits : opened.scopes.Admits env.scope "super" (.class cls) := by
        refine ⟨fun _ _ => ⟨cls, rfl⟩, fun hreceiver => ?_⟩
        rw [horigin] at hreceiver
        cases hreceiver
      refine (safe_defineAt hsound (.class (hcls.mono hevolves'.scopes)) hadmits).bind ?_
      intro _ entered hevolves'' hsound hdefines
      have hsuper := hdefines (Scopes.exists_of_origin? horigin)
      have hevolved := hevolves'.trans hevolves''
      have houter := hevolved.matches hdeclared
      have hinner : entered.scopes.Matches (⟨.superclass, ["super"]⟩ :: layout.declare name)
          env.chain := by
        rw [Env.chain, henclosing]
        refine .cons ⟨hevolves''.scopes.origin _ _ horigin, ?_⟩ (hdeclared.mono hevolved.scopes)
        exact fun other hother => List.mem_singleton.mp hother ▸ hsuper
      refine safe_installClass hsound hinner houter hfits' hname ?_ hready
      intro found hfound
      obtain rfl := Option.some.inj hfound
      exact hcls.mono hevolved.scopes

/-! ### Statements with a scope of their own, and declarations -/

/-- Declaring a name in the scope in force. The value may rely on the name being declared. -/
theorem safe_declare {name : String} {value : Value} (hsound : store.Sound known)
    (hmatches : store.scopes.Matches layout store.current.chain) (hname : IsName name)
    (hvalue : value.Sound known (store.scopes.define store.current.scope name value)) :
    Safe known returns (defineHere name value)
      (fun _ later => later.scopes.Matches (layout.declare name) later.current.chain) store := by
  have hexists := hmatches.exists_innermost (Scopes.exists_of_origin? hsound.session)
  have hgrows := store.scopes.grows_define store.current.scope name value
  refine ⟨⟨hgrows, rfl⟩, hsound.define hvalue (Scopes.admits_of_isName hname _ _), ?_⟩
  exact (hmatches.mono hgrows).declare (Scopes.defines_define_self hexists name value)

theorem safe_block {exec : Stmt → EvalM Unit} (hexec : ExecSafe known exec) (place : Place)
    {body : List Stmt} (hsound : store.Sound known)
    (hmatches : store.scopes.Matches layout store.current.chain)
    (hfits : layout.Fits place.enclosing)
    (hready : Stmt.AllReady known place (layout.openBlock body) body) :
    Safe known (place.function ≠ .none)
      (do
        let env ← openScope (← get).current (.block body)
        within env (body.forM exec))
      (fun _ later => later.scopes.Matches layout later.current.chain) store := by
  refine Safe.getBind ?_
  refine (safe_openScope hsound _ (.block body)).bind fun env later hevolves hsound henv => ?_
  obtain ⟨horigin, henclosing⟩ := henv
  have houter := hevolves.matches hmatches
  have hinner : later.scopes.Matches (layout.openBlock body) env.chain := by
    rw [Env.chain, henclosing]
    exact .cons ⟨horigin, fun name hname => absurd hname List.not_mem_nil⟩
      (hmatches.mono hevolves.scopes)
  have hlocal : StaticScope.IsLocal ⟨.block body, []⟩ :=
    ⟨.inl ⟨body, rfl⟩, fun name hname => absurd hname List.not_mem_nil⟩
  have hall := safe_execAll hexec place (hsound.withCurrent env) hinner (.inner hlocal hfits)
    (Layout.accepts_cons hlocal) hready
  refine Safe.within (hall.mono fun _ last hevolves' _ _ => ?_)
  exact houter.mono hevolves'.scopes

/-- A function closes over the scope in which it is being declared, so that its body sees its own
name. -/
theorem safe_function {place : Place} {declaration : FunctionDecl} (hsound : store.Sound known)
    (hmatches : store.scopes.Matches layout store.current.chain)
    (hfits : layout.Fits place.enclosing) (haccepts : layout.Accepts)
    (hready : (Stmt.function declaration).Ready known place layout) :
    Safe known returns
      (do
        let closure ← newClosure declaration (← get).current false
        defineHere declaration.name (.function closure))
      (fun _ later => later.scopes.Matches (layout.declare declaration.name)
        later.current.chain) store := by
  obtain ⟨hname, hbody⟩ := hready
  refine Safe.getBind ?_
  refine (safe_newClosure hsound declaration store.current false).bind ?_
  intro closure later hevolves hsound hclosure
  -- the closure is sound only once its own name is defined, for its body may use that name
  obtain ⟨hdeclaration, henv, hinitializer⟩ := hclosure
  have hmatches := hevolves.matches hmatches
  have hexists := hmatches.exists_innermost (Scopes.exists_of_origin? hsound.session)
  refine safe_declare hsound hmatches hname (.function ?_)
  refine ⟨layout.declare declaration.name, place, false, ?_, hfits.declare haccepts hname,
    hdeclaration ▸ hbody, fun h => absurd h (by simp [hinitializer])⟩
  rw [henv, ← hevolves.current]
  exact (hmatches.mono (Scopes.grows_define _ _ _ _)).declare
    (Scopes.defines_define_self hexists _ _)

/-- The name of a class does not hide its superclass, which is another name. -/
theorem Layout.binding_declare_of_ne {name other : String} (h : other ≠ name) :
    (layout.declare name).names.binding other = layout.names.binding other := by
  cases layout with
  | nil => rfl
  | cons scope layout =>
    rw [Layout.declare, Layout.names_cons, Layout.names_cons, StaticScopes.binding_cons,
      StaticScopes.binding_cons]
    simp only [List.mem_cons, h, false_or]

/-! ### One level of evaluation -/

section Levels

variable {eval : Expr → EvalM Value} {exec : Stmt → EvalM Unit}

/-- Each kind of expression runs safely if its parts do. -/
theorem EvalSafe.level (heval : EvalSafe known eval) (hexec : ExecSafe known exec) :
    EvalSafe known (Expr.evalWith eval exec) := by
  refine ⟨fun e enclosing layout store hsound hmatches hfits hready => ?_,
    fun parent name layout store hsound hmatches hready => ?_⟩
  case refine_2 =>
    obtain ⟨hother, hparent, _⟩ := hready
    have hbinding : parent.binding = layout.names.binding parent.name := by
    -- the superclass is another name than the class, which does not stand in its way
      rw [hparent.binding, Layout.binding_declare_of_ne hother]
    exact safe_readName hsound hmatches hbinding (fun _ => hparent.word) parent.anchor.site
  have hsub : ∀ (e : Expr) {store : Store}, store.Sound known →
      store.scopes.Matches layout store.current.chain → e.Ready known enclosing layout →
      Safe known False (eval e)
        (fun value later => value.Sound known later.scopes) store :=
    fun e _ hsound hmatches hready =>
      heval.expression e enclosing layout _ hsound hmatches hfits hready
  cases e with
  | literal value => exact Safe.pure hsound (Value.sound_ofLiteral value)
  | «variable» reference =>
    obtain ⟨hreference, _⟩ := hready
    exact safe_readName hsound hmatches hreference.binding (fun _ => hreference.word)
      reference.anchor.site
  | assign target value =>
    obtain ⟨htarget, _, hvalue⟩ := hready
    refine (hsub value hsound hmatches hvalue).bind fun value later hevolves hsound hvalue => ?_
    refine (safe_writeName hsound (hevolves.matches hmatches) htarget target.anchor.site
      hvalue).bind ?_
    intro _ last hevolves' hsound _
    exact Safe.pure hsound (hvalue.mono hevolves'.scopes)
  | unary op operand anchor =>
    refine (hsub operand hsound hmatches hready).bind fun value later _ hsound _ => ?_
    exact safe_applyUnary hsound op value anchor.site
  | binary op left right anchor =>
    obtain ⟨hop, hleft, hright⟩ := hready
    refine (hsub left hsound hmatches hleft).bind fun left later hevolves hsound _ => ?_
    refine (hsub right hsound (hevolves.matches hmatches) hright).bind
      fun right last _ hsound _ => ?_
    exact safe_applyBinary hsound hop left right anchor.site
  | logical op left right =>
    obtain ⟨hleft, hright⟩ := hready
    refine (hsub left hsound hmatches hleft).bind fun left later hevolves hsound hvalue => ?_
    split
    · exact Safe.pure hsound hvalue
    · exact hsub right hsound (hevolves.matches hmatches) hright
  | grouping inner => exact hsub inner hsound hmatches hready
  | call callee arguments anchor =>
    obtain ⟨hcallee, harguments⟩ := hready
    refine (hsub callee hsound hmatches hcallee).bind fun callee later hevolves hsound hvalue => ?_
    refine (safe_evalAll heval hsound (hevolves.matches hmatches) hfits harguments).bind ?_
    intro values last hevolves' hsound hvalues
    exact safe_apply hexec hsound (hvalue.mono hevolves'.scopes) hvalues anchor.site
  | get object name anchor =>
    obtain ⟨hobject, hword⟩ := hready
    refine (hsub object hsound hmatches hobject).bind fun value later _ hsound hvalue => ?_
    cases value with
    | object inst =>
      exact safe_getProperty hsound (Value.sound_object_iff.mp hvalue) hword anchor.site
    | nil | bool | number | string | function | builtin | «class» =>
      exact Safe.fail hsound ⟨by decide, Value.unescaped_kind _⟩
  | set object name value anchor =>
    obtain ⟨hobject, hright⟩ := hready
    refine (hsub object hsound hmatches hobject).bind fun object later hevolves hsound _ => ?_
    cases object with
    | object inst =>
      refine (hsub value hsound (hevolves.matches hmatches) hright).bind ?_
      intro value last _ hsound hvalue
      refine (safe_setField hsound hvalue).bind fun _ final hevolves' hsound _ => ?_
      exact Safe.pure hsound (hvalue.mono hevolves'.scopes)
    | nil | bool | number | string | function | builtin | «class» =>
      exact Safe.fail hsound ⟨by decide, Value.unescaped_kind _⟩
  | this anchor binding =>
    obtain ⟨hclass, hbinding, _⟩ := hready
    -- in a class `this` is bound to a receiver, so that no error names it
    obtain ⟨_, _, _, _, hthis, _⟩ := hfits.receiver hclass
    refine safe_readName hsound hmatches hbinding (fun hglobal => ?_) anchor.site
    cases hglobal.symm.trans (hbinding.trans hthis)
  | super method anchor binding =>
    obtain ⟨rfl, hbinding, _, hword⟩ := hready
    exact safe_superMethod hsound hmatches hfits hbinding hword anchor.site

/-- Each kind of statement runs safely if its parts do. -/
theorem ExecSafe.level (rounds : Nat) (heval : EvalSafe known eval)
    (hexec : ExecSafe known exec) : ExecSafe known (Stmt.execWith rounds eval exec) := by
  intro s place layout store hsound hmatches hfits haccepts hready
  have hsub : ∀ (e : Expr) {store : Store}, store.Sound known →
      store.scopes.Matches layout store.current.chain →
      e.Ready known place.enclosing layout →
      Safe known (place.function ≠ .none) (eval e)
        (fun value later => value.Sound known later.scopes) store :=
    fun e _ hsound hmatches hready =>
      (heval.expression e place.enclosing layout _ hsound hmatches hfits hready).anywhere
  have hbody : ∀ (s : Stmt) {store : Store}, store.Sound known →
      store.scopes.Matches layout store.current.chain → s.Ready known place layout →
      Safe known (place.function ≠ .none) (exec s)
        (fun _ later => later.scopes.Matches (s.layoutAfter layout) later.current.chain) store :=
    fun s _ hsound hmatches hready => hexec s place layout _ hsound hmatches hfits haccepts hready
  cases s with
  | expression value =>
    refine (hsub value hsound hmatches hready).bind fun _ later hevolves hsound _ => ?_
    exact Safe.pure hsound (hevolves.matches hmatches)
  | print value =>
    refine (hsub value hsound hmatches hready).bind fun value later hevolves hsound _ => ?_
    refine (safe_printLine hsound value.text).mono fun _ last hevolves' _ _ => ?_
    exact (hevolves.trans hevolves').matches hmatches
  | declare name initializer =>
    cases initializer with
    | none => exact safe_declare hsound hmatches hready .nil
    | some value =>
      obtain ⟨hname, hvalue⟩ := hready
      refine (hsub value hsound hmatches hvalue).bind ?_
      intro value later hevolves hsound hvalue
      exact safe_declare hsound (hevolves.matches hmatches) hname
        (hvalue.mono (Scopes.grows_define _ _ _ _))
  | block body => exact safe_block hexec place hsound hmatches hfits hready
  | ifThen condition body =>
    obtain ⟨hcondition, hthen, hafter⟩ := hready
    refine (hsub condition hsound hmatches hcondition).bind fun value later hevolves hsound _ => ?_
    split
    · exact hbody body hsound (hevolves.matches hmatches) hthen
    · rw [Stmt.layoutAfter, hafter]
      exact Safe.pure hsound (hevolves.matches hmatches)
  | ifElse condition body alternative =>
    obtain ⟨hcondition, ⟨hthen, hafter⟩, helse, hafter'⟩ := hready
    rw [Stmt.layoutAfter, hafter, hafter']
    refine (hsub condition hsound hmatches hcondition).bind fun value later hevolves hsound _ => ?_
    split
    · have hrun := hbody body hsound (hevolves.matches hmatches) hthen
      rwa [hafter] at hrun
    · have hrun := hbody alternative hsound (hevolves.matches hmatches) helse
      rwa [hafter'] at hrun
  | loop condition body =>
    obtain ⟨hcondition, hround, hafter⟩ := hready
    rw [Stmt.layoutAfter, hafter]
    refine Safe.whileTrue (fun store => store.scopes.Matches layout store.current.chain)
      hsound hmatches ?_ ?_
    · intro store hsound hmatches
      refine (hsub condition hsound hmatches hcondition).bind
        fun value later hevolves hsound _ => ?_
      exact Safe.pure hsound (hevolves.matches hmatches)
    · intro store hsound hmatches
      have hrun := hbody body hsound hmatches hround
      rwa [hafter] at hrun
  | function declaration => exact safe_function hsound hmatches hfits haccepts hready
  | returning value =>
    cases value with
    | none => exact Safe.throw hsound ⟨hready, .nil⟩
    | some value =>
      obtain ⟨hplace, hvalue⟩ := hready
      refine (hsub value hsound hmatches hvalue).bind fun value later _ hsound hvalue => ?_
      exact Safe.throw hsound ⟨hplace, hvalue⟩
  | classDecl name superclass methods =>
    cases superclass with
    | none =>
      obtain ⟨hname, _, hmethods⟩ := hready
      rw [Stmt.execWith]
      refine safe_declareClass hsound hmatches hfits haccepts hname ?_ rfl hmethods
      intro cls hcls
      cases hcls
    | some parent =>
      obtain ⟨hname, hparent, hmethods⟩ := hready
      refine (heval.superclass parent name layout store hsound hmatches hparent).anywhere.bind ?_
      intro value later hevolves hsound hvalue
      refine (safe_checkSuperclass hsound hparent.2.1.word hvalue).bind ?_
      intro cls last hevolves' hsound hcls
      refine safe_declareClass hsound ((hevolves.trans hevolves').matches hmatches) hfits haccepts
        hname ?_ rfl hmethods
      intro found hfound
      obtain rfl := Option.some.inj hfound
      exact hcls

end Levels

/-- A computation that gives up at once is safe. -/
theorem evalSafe_exhausted : EvalSafe known fun _ => throw .stackExhausted :=
  ⟨fun _ _ _ _ hsound _ _ _ => Safe.throw hsound trivial,
    fun _ _ _ _ hsound _ _ => Safe.throw hsound trivial⟩

theorem execSafe_exhausted : ExecSafe known fun _ => throw .stackExhausted :=
  fun _ _ _ _ hsound _ _ _ _ => Safe.throw hsound trivial

/-- Ready code runs safely, whatever the limits. -/
theorem evalSafe_and_execSafe (known : Known) (rounds depth : Nat) :
    EvalSafe known (Expr.eval rounds depth) ∧ ExecSafe known (Stmt.exec rounds depth) := by
  induction depth with
  | zero => exact ⟨evalSafe_exhausted, execSafe_exhausted⟩
  | succ depth ih => exact ⟨ih.1.level ih.2, .level rounds ih.1 ih.2⟩

end Treewalk
