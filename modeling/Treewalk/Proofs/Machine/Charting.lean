import Treewalk.Proofs.Machine.Operators
import Treewalk.Proofs.Machine.Passage

/-!
# Evaluation keeps to its charts

The proof follows the evaluator, at any number of levels. It makes no assumption on the code: even
names that are bound to the wrong scopes lead to values that exist, or to a fault. What matters is
only that values, environments and classes come from the store or are made by its operations.
-/

namespace Treewalk

/-! ### Operators -/

section Operators

variable {chart : Chart} {store : Store}

theorem charted_applyBinary (h : chart.Covers store) (op : BinaryOp) (left right : Value)
    (site : Site) :
    Charted (fun _ => applyBinary op left right site)
      (fun chart' value later => value.Existing chart' later) chart store := by
  have houtcome := applyBinary_outcome op left right
  generalize applyBinary op left right = run at houtcome ⊢
  cases houtcome with
  | plain literal => exact .pure h (Value.existing_ofLiteral literal)
  | divisionByZero | operands => exact .fail h
  | unknown => exact .throw h trivial

theorem charted_applyUnary (h : chart.Covers store) (op : UnaryOp) (operand : Value)
    (site : Site) :
    Charted (fun _ => applyUnary op operand site)
      (fun chart' value later => value.Existing chart' later) chart store := by
  unfold applyUnary
  split
  · exact .pure h (.number _)
  · exact .fail h
  · exact .pure h (.bool _)

theorem charted_runBuiltin (h : chart.Covers store) {body : BuiltinBody Value}
    (hbody : ∀ value, body = .constant value → value.Existing chart store)
    {arguments : List Value} (harguments : ∀ value ∈ arguments, value.Existing chart store) :
    Charted (fun _ => body.run arguments)
      (fun chart' value later => value.Existing chart' later) chart store := by
  cases body with
  | constant value => exact .pure h (hbody value rfl)
  | computed answer =>
    refine (charted_readClock h).bind fun chart' now later honward h _ => ?_
    refine .pure h (Answer.value_of_forall Value.existing_ofLiteral ?_ _)
    exact fun value hvalue => (harguments value hvalue).mono honward

end Operators

/-! ### Calls -/

/-- An evaluator of expressions that keeps to charts. -/
def EvalCharted (eval : Watch → Expr → EvalM Value) : Prop :=
  ∀ (e : Expr) (chart : Chart) (store : Store), chart.Covers store →
    Charted (fun watch => eval watch e)
      (fun chart' value later => value.Existing chart' later) chart store

/-- An executor of statements that keeps to charts. -/
def ExecCharted (exec : Watch → Stmt → EvalM Unit) : Prop :=
  ∀ (s : Stmt) (chart : Chart) (store : Store), chart.Covers store →
    Charted (fun watch => exec watch s) (fun _ _ _ => True) chart store

section Calls

variable {chart : Chart} {store : Store} {eval : Watch → Expr → EvalM Value}
  {exec : Watch → Stmt → EvalM Unit}

theorem charted_evalAll (heval : EvalCharted eval) (h : chart.Covers store)
    (es : List Expr) :
    Charted (fun watch => es.mapM (eval watch))
      (fun chart' values later => ∀ value ∈ values, value.Existing chart' later) chart store := by
  induction es generalizing chart store with
  | nil => exact .pure h fun value hvalue => absurd hvalue List.not_mem_nil
  | cons e rest ih =>
    simp only [List.mapM_cons]
    refine (heval e chart store h).bind fun value chart later _ h hvalue => ?_
    refine (ih h).bind fun values chart last honward h hvalues => ?_
    exact .pure h (List.forall_mem_cons.mpr ⟨hvalue.mono honward, hvalues⟩)

theorem charted_execAll (hexec : ExecCharted exec) (h : chart.Covers store)
    (body : List Stmt) :
    Charted (fun watch => body.forM (exec watch)) (fun _ _ _ => True) chart store := by
  induction body generalizing chart store with
  | nil => exact .pure h trivial
  | cons s rest ih => exact (hexec s chart store h).bind fun _ chart later _ h _ => ih h

theorem charted_defineParams (h : chart.Covers store) (env : Env) (params : List String)
    {arguments : List Value} (harguments : ∀ value ∈ arguments, value.Existing chart store) :
    Charted (fun _ => defineParams env params arguments) (fun _ _ _ => True) chart store := by
  induction params generalizing arguments chart store with
  | nil =>
    unfold defineParams
    exact .pure h trivial
  | cons param params ih =>
    cases arguments with
    | nil => exact .pure h trivial
    | cons argument arguments =>
      obtain ⟨hargument, harguments⟩ := List.forall_mem_cons.mp harguments
      rw [defineParams]
      refine (charted_defineAt h env.scope param hargument).bind ?_
      intro _ chart later honward h _
      exact ih h fun value hvalue => (harguments value hvalue).mono honward

theorem Chart.Covers.enter (h : chart.Covers store) {env : Env}
    (henv : env.Existing chart store) : chart.Covers { store with current := env } := by
  have honward : chart.Onward store chart { store with current := env } :=
    .of_extends chart ⟨.refl _, Nat.le_refl _, Nat.le_refl _⟩
  exact h.of_eq honward rfl rfl (henv.mono honward)

theorem charted_call (hexec : ExecCharted exec) (h : chart.Covers store) {closure : Closure}
    (hclosure : closure.Existing chart store) {arguments : List Value}
    (harguments : ∀ value ∈ arguments, value.Existing chart store) :
    Charted (fun watch => closure.call (exec watch) arguments)
      (fun chart' value later => value.Existing chart' later) chart store := by
  unfold Closure.call
  -- the scope of the call opens inside the environment of the function, not that of the caller
  refine (charted_openScope h hclosure.env _).bind fun env chart later honward h henv => ?_
  refine (charted_defineParams h env _ fun value hvalue =>
    (harguments value hvalue).mono honward).bind fun _ chart entered honward' h _ => ?_
  have hrun := Charted.within h
    (charted_execAll hexec (h.enter (henv.mono honward')) closure.declaration.body)
    fun _ _ _ => id
  refine hrun.catchReturn.bind fun returned chart last _ h hreturned => ?_
  by_cases hinit : closure.initializer = true
  · -- an initializer gives back what its receiver is
    simp only [if_pos hinit]
    exact .getBind (charted_reaching h fun value hvalue => h.getAt hvalue)
  · simp only [if_neg hinit]
    refine .pure h ?_
    cases returned with
    | none => exact .nil
    | some value => exact hreturned value rfl

theorem charted_construct (hexec : ExecCharted exec) (h : chart.Covers store) {cls : Class}
    (hcls : cls.Existing chart store) {arguments : List Value}
    (harguments : ∀ value ∈ arguments, value.Existing chart store) :
    Charted (fun watch => cls.construct (exec watch) arguments)
      (fun chart' value later => value.Existing chart' later) chart store := by
  unfold Class.construct
  refine (charted_newInstance h hcls).bind fun inst chart later honward h hobject => ?_
  cases hinit : cls.findMethod? "init" with
  | none => exact .pure h hobject
  | some init =>
    have hmethod := (hcls.findMethod? hinit).mono honward
    refine (charted_bindTo h hmethod hobject).bind fun bound chart last honward' h hbound => ?_
    have hsince := honward.trans honward'
    refine (charted_call hexec h hbound fun value hvalue =>
      (harguments value hvalue).mono hsince).bind fun _ chart final honward'' h _ => ?_
    exact .pure h (hobject.mono (honward'.trans honward''))

theorem charted_apply (hexec : ExecCharted exec) (h : chart.Covers store) {callee : Value}
    (hcallee : callee.Existing chart store) {arguments : List Value}
    (harguments : ∀ value ∈ arguments, value.Existing chart store) (site : Site) :
    Charted (fun watch => callee.apply (exec watch) arguments site)
      (fun chart' value later => value.Existing chart' later) chart store := by
  have hinvoke : Charted (fun watch => callee.invoke (exec watch) arguments)
      (fun chart' value later => value.Existing chart' later) chart store := by
    cases hcallee with
    | function hclosure => exact charted_call hexec h hclosure harguments
    | «class» hcls => exact charted_construct hexec h hcls harguments
    | builtin _ _ hbody => exact charted_runBuiltin h hbody harguments
    | nil | bool | number | string | object => exact .pure h .nil
  unfold Value.apply
  cases callee.signature? with
  | none => exact .fail h
  | some signature =>
    by_cases harity : (arguments.length : Int) = signature.arity
    · simp only [if_pos harity]
      exact hinvoke
    · simp only [if_neg harity]
      exact .fail h

/-! ### Properties, `super` and classes -/

theorem charted_getProperty (h : chart.Covers store) {inst : Instance}
    (hinst : (Value.object inst).Existing chart store) (name : String) (site : Site) :
    Charted (fun _ => getProperty inst name site)
      (fun chart' value later => value.Existing chart' later) chart store := by
  refine .getBind ?_
  cases hfind : (store.fieldsOf inst).find? name with
  | some value =>
    obtain ⟨table, htable, hfield⟩ := Store.exists_of_fieldsOf hfind
    exact .pure h (h.fields table htable name value hfield)
  | none =>
    cases hmethod : inst.cls.findMethod? name with
    | none => exact .fail h
    | some method =>
      have hcls : inst.cls.Existing chart store := by
        cases hinst with
        | object _ _ hcls => exact hcls
      refine (charted_bindTo h (hcls.findMethod? hmethod) hinst).bind ?_
      exact fun bound chart later _ h hbound => .pure h (.function hbound)

theorem charted_superMethod (h : chart.Covers store) (method : String) (binding : Binding)
    (site : Site) :
    Charted (fun _ => superMethod method binding site)
      (fun chart' value later => value.Existing chart' later) chart store := by
  cases binding with
  | global => exact .throw h trivial
  | enclosing hops =>
    have hread : ∀ hops name, Charted
        (fun _ => reaching (store.scopes.getAt store.current hops name))
        (fun chart' value later => chart' = chart ∧ later = store ∧ value.Existing chart store)
        chart store :=
      fun hops name => charted_reaching h fun value hvalue => ⟨rfl, rfl, h.getAt hvalue⟩
    -- both are read in the store from before, so reading must be known to leave it as it is
    refine .getBind ((hread hops "super").bind ?_)
    rintro superclass _ _ _ _ ⟨rfl, rfl, hsuperclass⟩
    refine (hread (hops - 1) "this").bind ?_
    rintro receiver _ _ _ _ ⟨rfl, rfl, hreceiver⟩
    cases superclass with
    | «class» cls =>
      have hcls := Value.existing_class_iff.mp hsuperclass
      cases hfound : cls.findMethod? method with
      | none =>
        simp only [hfound]
        exact .fail h
      | some found =>
        simp only [hfound]
        refine (charted_bindTo h (hcls.findMethod? hfound) hreceiver).bind ?_
        exact fun bound chart later _ h hbound => .pure h (.function hbound)
    | nil | bool | number | string | function | builtin | object => exact .throw h trivial

theorem charted_newMethods (h : chart.Covers store) {env : Env} (henv : env.Existing chart store)
    (methods : List FunctionDecl) :
    Charted
      (fun _ => methods.mapM fun method => newClosure method env (method.name == "init"))
      (fun chart' closures later => ∀ closure ∈ closures, closure.Existing chart' later)
      chart store := by
  induction methods generalizing chart store with
  | nil => exact .pure h fun closure hclosure => absurd hclosure List.not_mem_nil
  | cons method rest ih =>
    simp only [List.mapM_cons]
    refine (charted_newClosure h method henv _).bind fun first chart later honward h hfirst => ?_
    refine (ih h (henv.mono honward)).bind fun closures chart last honward' h hclosures => ?_
    exact .pure h (List.forall_mem_cons.mpr ⟨hfirst.mono honward', hclosures⟩)

/-- A class made of what exists, with a fresh number, exists. -/
theorem Class.existing_make {id : Nat} {name : String} {superclass : Option Class}
    {closures : List Closure} (hnumber : id < store.nextId)
    (hcharted : chart.numbered id = .class (.make id name superclass
      (Table.ofList (closures.map fun closure => (closure.declaration.name, closure)))))
    (hclosures : ∀ closure ∈ closures, closure.Existing chart store)
    (holder : ∀ cls, superclass = some cls → cls.id < id)
    (hcls : ∀ cls, superclass = some cls → cls.Existing chart store) :
    (Class.make id name superclass (Table.ofList
      (closures.map fun closure => (closure.declaration.name, closure)))).Existing chart store := by
  refine .intro ?_ ?_ ?_ ?_ ?_
  · rwa [Class.id_make]
  · rwa [Class.id_make]
  · intro key method hmethod
    rw [Class.methods_make] at hmethod
    obtain ⟨closure, hclosure, heq⟩ := List.mem_map.mp (Table.find?_ofList hmethod)
    obtain rfl := (Prod.mk.inj heq).2
    exact hclosures closure hclosure
  · rw [Class.id_make, Class.superclass?_make]
    exact holder
  · rw [Class.superclass?_make]
    exact hcls

/-- The last steps of a class declaration: its methods close over an environment, and its name gets
the class. -/
theorem charted_installClass (h : chart.Covers store) {env : Env}
    (henv : env.Existing chart store) (name : String) {superclass : Option Class}
    (hcls : ∀ cls, superclass = some cls → cls.Existing chart store)
    (methods : List FunctionDecl) :
    Charted
      (fun _ => (do
        let closures ← methods.mapM fun method => newClosure method env (method.name == "init")
        let table := Table.ofList (closures.map fun closure => (closure.declaration.name, closure))
        defineHere name (.class (.make (← freshId) name superclass table)) : EvalM Unit))
      (fun _ _ _ => True) chart store := by
  refine (charted_newMethods h henv methods).bind fun closures chart later honward h hclosures => ?_
  -- what the number of the class will stand for is known before the number is given
  let table := Table.ofList (closures.map fun closure => (closure.declaration.name, closure))
  refine (charted_freshId h (.class (.make later.nextId name superclass table))).bind ?_
  rintro _ chart last honward' h ⟨rfl, hnumber, hcharted⟩
  have hsince := honward.trans honward'
  refine charted_defineHere h name (.class (Class.existing_make hnumber hcharted
    (fun closure hclosure => (hclosures closure hclosure).mono honward') (fun cls habove => ?_)
    fun cls habove => (hcls cls habove).mono hsince))
  -- the superclass has its number from before
  cases (hcls cls habove).mono honward with
  | intro number => exact number

/-- A new class goes on the chart, above it an older one. -/
theorem charted_declareClass (h : chart.Covers store) (name : String) {superclass : Option Class}
    (hcls : ∀ cls, superclass = some cls → cls.Existing chart store)
    (methods : List FunctionDecl) :
    Charted (fun _ => declareClass name superclass methods) (fun _ _ _ => True) chart
      store := by
  -- the name stands for nil until the class is made
  refine (charted_defineHere h name .nil).bind fun _ chart named honward h _ => .getBind ?_
  cases superclass with
  | none =>
    refine charted_installClass h h.current name (fun cls hnone => ?_) methods
    cases hnone
  | some superclass =>
    -- the superclass gets a scope of its own, inside that of the statement
    have hsuper := (hcls superclass rfl).mono honward
    refine (charted_openScope h h.current .superclass).bind ?_
    intro env chart opened honward' h henv
    have hsuper := hsuper.mono honward'
    refine (charted_defineAt h env.scope "super" (.class hsuper)).bind ?_
    intro _ chart entered honward'' h _
    refine charted_installClass h (henv.mono honward'') name (fun cls hsome => ?_) methods
    cases hsome
    exact hsuper.mono honward''

end Calls

/-! ### One level of evaluation -/

section Levels

variable {eval : Watch → Expr → EvalM Value} {exec : Watch → Stmt → EvalM Unit}

/-- Each kind of expression keeps to charts if its parts do. -/
theorem EvalCharted.level (heval : EvalCharted eval) (hexec : ExecCharted exec) :
    EvalCharted fun watch => Expr.evalWith (eval watch) (exec watch) := by
  intro e chart store h
  cases e with
  | literal value => exact .pure h (Value.existing_ofLiteral value)
  | «variable» reference => exact charted_readName h _ _ _
  | assign target value =>
    refine (heval value chart store h).bind fun value chart later _ h hvalue => ?_
    -- the value exists when it is written, and goes on to exist when it is given back
    refine (charted_writeName h target.name target.binding target.anchor.site hvalue).bind ?_
    exact fun _ chart last honward h _ => .pure h (hvalue.mono honward)
  | unary op operand anchor =>
    refine (heval operand chart store h).bind fun value chart later _ h _ => ?_
    exact charted_applyUnary h op value anchor.site
  | binary op left right anchor =>
    refine (heval left chart store h).bind fun left chart later _ h _ => ?_
    refine (heval right chart later h).bind fun right chart last _ h _ => ?_
    exact charted_applyBinary h op left right anchor.site
  | logical op left right =>
    refine (heval left chart store h).bind fun left chart later _ h hvalue => ?_
    by_cases hdecides : op.decides left = true
    · simp only [if_pos hdecides]
      exact .pure h hvalue
    · simp only [if_neg hdecides]
      exact heval right chart later h
  | grouping inner => exact heval inner chart store h
  | call callee arguments anchor =>
    refine (heval callee chart store h).bind fun callee chart later _ h hvalue => ?_
    refine (charted_evalAll heval h arguments).bind fun values chart last honward h hvalues => ?_
    -- the callee was evaluated first, and the arguments may have changed the store since
    exact charted_apply hexec h (hvalue.mono honward) hvalues anchor.site
  | get object name anchor =>
    refine (heval object chart store h).bind fun value chart later _ h hvalue => ?_
    cases value with
    | object inst => exact charted_getProperty h hvalue name anchor.site
    | nil | bool | number | string | function | builtin | «class» => exact .fail h
  | set object name value anchor =>
    refine (heval object chart store h).bind fun object chart later _ h _ => ?_
    cases object with
    | object inst =>
      refine (heval value chart later h).bind fun value chart last _ h hvalue => ?_
      refine (charted_setField h inst name hvalue).bind fun _ chart final honward h _ => ?_
      exact .pure h (hvalue.mono honward)
    | nil | bool | number | string | function | builtin | «class» => exact .fail h
  | this anchor binding => exact charted_readName h _ _ _
  | super method anchor binding => exact charted_superMethod h method binding anchor.site

/-- Each kind of statement keeps to charts if its parts do. -/
theorem ExecCharted.level (rounds : Nat) (heval : EvalCharted eval)
    (hexec : ExecCharted exec) :
    ExecCharted fun watch => Stmt.execWith rounds (eval watch) (exec watch) := by
  intro s chart store h
  cases s with
  | expression value =>
    exact (heval value chart store h).bind fun _ chart later _ h _ => .pure h trivial
  | print value =>
    exact (heval value chart store h).bind fun value chart later _ h _ =>
      charted_printLine h value.text
  | declare name initializer =>
    cases initializer with
    | none => exact charted_defineHere h name .nil
    | some value =>
      exact (heval value chart store h).bind fun value chart later _ h hvalue =>
        charted_defineHere h name hvalue
  | block body =>
    refine .getBind ((charted_openScope h h.current (.block body)).bind ?_)
    intro env chart later _ h henv
    -- the block runs in its own scope and leaves the one around it in force
    exact .within h (charted_execAll hexec (h.enter henv) body) fun _ _ _ => id
  | ifThen condition body =>
    refine (heval condition chart store h).bind fun value chart later _ h _ => ?_
    by_cases htruthy : value.truthy = true
    · simp only [if_pos htruthy]
      exact hexec body chart later h
    · simp only [if_neg htruthy]
      exact .pure h trivial
  | ifElse condition body alternative =>
    refine (heval condition chart store h).bind fun value chart later _ h _ => ?_
    by_cases htruthy : value.truthy = true
    · simp only [if_pos htruthy]
      exact hexec body chart later h
    · simp only [if_neg htruthy]
      exact hexec alternative chart later h
  | loop condition body =>
    refine .whileTrue h (fun chart store h => ?_) (hexec body)
    exact (heval condition chart store h).bind fun value chart later _ h _ => .pure h trivial
  | function declaration =>
    refine .getBind ((charted_newClosure h declaration h.current false).bind ?_)
    exact fun closure chart later _ h hclosure =>
      charted_defineHere h declaration.name (.function hclosure)
  | returning value =>
    cases value with
    | none => exact .throw h .nil
    | some value =>
      exact (heval value chart store h).bind fun value chart later _ h hvalue => .throw h hvalue
  | classDecl name parent methods =>
    cases parent with
    | none =>
      show Charted (fun _ => declareClass name none methods) _ chart store
      refine charted_declareClass h name (fun cls hcls => ?_) methods
      cases hcls
    | some reference =>
      -- whatever the name of the superclass stands for exists, but it may not be a class
      refine (heval (.variable reference) chart store h).bind fun value chart later _ h hvalue => ?_
      cases value with
      | «class» cls =>
        have hcls := Value.existing_class_iff.mp hvalue
        show Charted (fun _ => declareClass name (some cls) methods) _ chart later
        refine charted_declareClass h name (fun found hfound => ?_) methods
        cases hfound
        exact hcls
      | nil | bool | number | string | function | builtin | object => exact .fail h

end Levels

/-! ### Moments -/

/-- An evaluator keeps to charts under the watch itself. -/
theorem EvalCharted.over {eval : Watch → Expr → EvalM Value} (heval : EvalCharted eval) :
    EvalCharted fun watch => watch.over (eval watch) := by
  intro e chart store h
  cases heval e chart store h with
  | ok hresult hpassage hpost hfollows =>
    exact .ok hresult (hpassage.cons h e) hpost hfollows.watched
  | error hresult hpassage hhalt hfollows =>
    exact .error hresult (hpassage.cons h e) hhalt hfollows.watched

/-- Statements keep to charts, whatever the limits. -/
theorem execCharted_watched (rounds depth : Nat) :
    ExecCharted fun watch => Stmt.execWatched watch rounds depth := by
  have hlevel : EvalCharted (fun watch => Expr.evalWatched watch rounds depth) ∧
      ExecCharted (fun watch => Stmt.execWatched watch rounds depth) := by
    -- on the levels that may be nested: each level knows that those below keep to charts
    induction depth with
    | zero => exact ⟨fun _ _ _ h => .throw h trivial, fun _ _ _ h => .throw h trivial⟩
    | succ depth ih => exact ⟨(ih.1.level ih.2).over, .level rounds ih.1 ih.2⟩
  exact hlevel.2

/-- A program keeps to charts. -/
theorem Program.charted_execWatched {chart : Chart} {store : Store} (h : chart.Covers store)
    (program : Program) (rounds depth : Nat) :
    Charted (fun watch => program.execWatched watch rounds depth) (fun _ _ _ => True) chart store :=
  charted_execAll (execCharted_watched rounds depth) h program

end Treewalk
