import Treewalk.Proofs.Machine.Provenance
import Treewalk.Proofs.Machine.Moment

/-!
# Runs keep stores explained

Running ready code leads from an explained store to another one, however the run ends. The proof
follows the evaluator: a call runs in an environment that its history explains, since the callee is
a value that arises, and declaring a class explains its methods. In contrast to safety, this does
not depend on the scopes in which the code is bound.
-/

namespace Treewalk

open Grammar (ClassKind Place bodyKind classKind)

/-! ### Calls -/

/-- An evaluator of expressions that is traced on ready expressions. Of a name it gives the value
that is read. -/
structure EvalTraced (eval : Expr → EvalM Value) : Prop where
  expression : ∀ (e : Expr) (enclosing : ClassKind) (layout : Layout) (store : Store),
    store.Explained → e.Ready .any enclosing layout →
    Traced (eval e) (fun value later => value.Arises later) store
  name : ∀ (reference : Reference) (store : Store), store.Explained →
    Traced (eval (.variable reference))
      (fun value later => later = store ∧
        readName reference.name reference.binding reference.anchor.site store = .ok value store)
      store

/-- An executor of statements that is traced on ready statements. -/
def ExecTraced (exec : Stmt → EvalM Unit) : Prop :=
  ∀ (s : Stmt) (place : Place) (layout : Layout) (store : Store), store.Explained →
    s.Ready .any place layout → Traced (exec s) (fun _ _ => True) store

section Calls

variable {store : Store} {eval : Expr → EvalM Value} {exec : Stmt → EvalM Unit}

theorem traced_evalAll (heval : EvalTraced eval) {enclosing : ClassKind} {layout : Layout}
    {es : List Expr} (h : store.Explained)
    (hready : Expr.AllReady .any enclosing layout es) :
    Traced (es.mapM eval) (fun values later => ∀ value ∈ values, value.Arises later) store := by
  induction es generalizing store with
  | nil => exact Traced.pure h (fun value hvalue => absurd hvalue List.not_mem_nil)
  | cons e rest ih =>
    obtain ⟨he, hrest⟩ := hready
    rw [List.mapM_cons]
    refine (heval.expression e enclosing layout store h he).bind fun value later _ h hvalue => ?_
    refine (ih h hrest).bind fun values last hlater h hvalues => ?_
    exact Traced.pure h (List.forall_mem_cons.mpr ⟨hvalue.mono hlater, hvalues⟩)

theorem traced_execAll (hexec : ExecTraced exec) {place : Place} {layout : Layout}
    {body : List Stmt} (h : store.Explained)
    (hready : Stmt.AllReady .any place layout body) :
    Traced (body.forM exec) (fun _ _ => True) store := by
  induction body generalizing layout store with
  | nil => exact Traced.pure h trivial
  | cons s rest ih =>
    obtain ⟨hs, hrest⟩ := hready
    exact (hexec s place layout store h hs).bind fun _ later _ h _ => ih h hrest

theorem traced_defineParams {env : Env} {params : List String} {arguments : List Value}
    (h : store.Explained) (hparams : ∀ param ∈ params, IsName param)
    (harguments : ∀ value ∈ arguments, value.Arises store) :
    Traced (defineParams env params arguments) (fun _ _ => True) store := by
  induction params generalizing arguments store with
  | nil =>
    unfold defineParams
    exact Traced.pure h trivial
  | cons param params ih =>
    cases arguments with
    | nil => exact Traced.pure h trivial
    | cons argument arguments =>
      obtain ⟨hparam, hparams⟩ := List.forall_mem_cons.mp hparams
      obtain ⟨hargument, harguments⟩ := List.forall_mem_cons.mp harguments
      rw [defineParams]
      refine (traced_defineAt h env.scope hparam hargument).bind fun _ later hlater h _ => ?_
      exact ih h hparams fun value hvalue => (harguments value hvalue).mono hlater

theorem Closure.Arises.proper {closure : Closure} (h : closure.Arises store) :
    closure.declaration.Proper := by
  cases h with
  | function _ _ hproper => exact hproper
  | method _ _ hproper => exact hproper

/-- The environment of a call arises. -/
theorem Closure.Arises.call {closure : Closure} {env : Env} {later : Store}
    (h : closure.Arises store)
    (hopened : openScope closure.env (.call closure.declaration) store = .ok env later)
    (hlater : store.Later later) : env.Arises later := by
  have hlocal : (ScopeOrigin.call closure.declaration).IsLocal := trivial
  cases h with
  | function henv _ _ => exact .nested (henv.mono hlater) hlocal ⟨hopened, .refl later⟩
  | method houter hbinds _ => exact .method (houter.mono hlater) ⟨hbinds, hopened, .refl later⟩

theorem traced_call (hexec : ExecTraced exec) {closure : Closure} {arguments : List Value}
    (h : store.Explained) (hclosure : closure.Arises store)
    (harguments : ∀ value ∈ arguments, value.Arises store) :
    Traced (closure.call exec arguments) (fun value later => value.Arises later) store := by
  obtain ⟨place, method, layout, hready⟩ := hclosure.proper
  obtain ⟨id, declaration, outer, initializer⟩ := closure
  obtain ⟨name, params, body, anchor⟩ := declaration
  obtain ⟨_, hparams, hbody⟩ := hready
  unfold Closure.call
  refine (traced_openScope h outer _).bind fun env later hlater h hopened => ?_
  have henv : env.Arises later := hclosure.call hopened hlater
  refine (traced_defineParams h hparams fun value hvalue =>
    (harguments value hvalue).mono hlater).bind fun _ entered hlater' h _ => ?_
  have hrun : Traced (within env (body.forM exec)) (fun _ _ => True) entered :=
    .within h (traced_execAll hexec (h.enter (henv.mono hlater')) hbody)
  refine hrun.catchReturn.bind fun returned last _ h hreturned => ?_
  by_cases hinit : initializer = true
  · -- an initializer gives back what its receiver is
    simp only [if_pos hinit]
    refine Traced.getBind ((traced_reaching h outer 0 "this").mono ?_)
    rintro value final _ ⟨rfl, hvalue⟩
    exact hvalue
  · simp only [if_neg hinit]
    refine Traced.pure h ?_
    cases returned with
    | none => exact .nil
    | some value => exact hreturned value rfl

theorem traced_construct (hexec : ExecTraced exec) {cls : Class} {arguments : List Value}
    (h : store.Explained) (hcls : cls.Arises store)
    (harguments : ∀ value ∈ arguments, value.Arises store) :
    Traced (cls.construct exec arguments) (fun value later => value.Arises later) store := by
  unfold Class.construct
  refine (traced_newInstance h cls).bind fun inst later hlater h hinst => ?_
  subst hinst
  have hinst := hcls.mono hlater
  cases hinit : inst.cls.findMethod? "init" with
  | none => exact Traced.pure h (.object hinst)
  | some init =>
    refine (traced_bindTo h hinst hinit (.object hinst)).bind fun bound last hlater' h hbound => ?_
    have hsince := hlater.trans hlater'
    refine (traced_call hexec h hbound fun value hvalue =>
      (harguments value hvalue).mono hsince).bind fun _ final hlater'' h _ => ?_
    exact Traced.pure h (.object (hinst.mono (hlater'.trans hlater'')))

theorem traced_apply (hexec : ExecTraced exec) {callee : Value} {arguments : List Value}
    (h : store.Explained) (hcallee : callee.Arises store)
    (harguments : ∀ value ∈ arguments, value.Arises store) (site : Site) :
    Traced (callee.apply exec arguments site) (fun value later => value.Arises later) store := by
  have hinvoke : Traced (callee.invoke exec arguments) (fun value later => value.Arises later)
      store := by
    cases hcallee with
    | function hclosure => exact traced_call hexec h hclosure harguments
    | «class» hcls => exact traced_construct hexec h hcls harguments
    | constant _ _ _ hvalue => exact Traced.pure h hvalue
    | computed _ _ _ answer =>
      refine (traced_readClock h).bind fun now later hlater h _ => ?_
      refine Traced.pure h (Answer.value_of_forall Value.arises_ofLiteral ?_ _)
      exact fun value hvalue => (harguments value hvalue).mono hlater
    | nil | bool | number | string | object => exact Traced.pure h .nil
  unfold Value.apply
  cases callee.signature? with
  | none => exact Traced.fail h
  | some signature =>
    by_cases harity : (arguments.length : Int) = signature.arity
    · simp only [if_pos harity]
      exact hinvoke
    · simp only [if_neg harity]
      exact Traced.fail h

/-! ### Properties, `super` and classes -/

theorem traced_getProperty (h : store.Explained) {inst : Instance}
    (hinst : inst.cls.Arises store) (name : String) (site : Site) :
    Traced (getProperty inst name site) (fun value later => value.Arises later) store := by
  refine Traced.getBind ?_
  cases hfind : (store.fieldsOf inst).find? name with
  | some value =>
    obtain ⟨table, htable, hfield⟩ := Store.exists_of_fieldsOf hfind
    exact Traced.pure h (h.fields table htable name value hfield)
  | none =>
    cases hmethod : inst.cls.findMethod? name with
    | none => exact Traced.fail h
    | some method =>
      refine (traced_bindTo h hinst hmethod (.object hinst)).bind fun bound later _ h hbound => ?_
      exact Traced.pure h (.function hbound)

theorem Value.arises_class_iff {cls : Class} :
    (Value.class cls).Arises store ↔ cls.Arises store :=
  ⟨fun h => by cases h with | «class» h => exact h, .class⟩

theorem Value.arises_object_iff {inst : Instance} :
    (Value.object inst).Arises store ↔ inst.cls.Arises store :=
  ⟨fun h => by cases h with | object h => exact h, .object⟩

theorem traced_superMethod (h : store.Explained) (method : String) (binding : Binding)
    (site : Site) :
    Traced (superMethod method binding site) (fun value later => value.Arises later) store := by
  cases binding with
  | global => exact Traced.throw h trivial
  | enclosing hops =>
    refine Traced.getBind ?_
    refine (traced_reaching h store.current hops "super").bind fun superclass next _ h hread => ?_
    obtain ⟨rfl, hsuperclass⟩ := hread
    refine (traced_reaching h next.current (hops - 1) "this").bind fun receiver last _ h hread => ?_
    obtain ⟨rfl, hreceiver⟩ := hread
    cases superclass with
    | «class» cls =>
      have hcls := Value.arises_class_iff.mp hsuperclass
      cases hfound : cls.findMethod? method with
      | none =>
        simp only [hfound]
        exact Traced.fail h
      | some found =>
        simp only [hfound]
        refine (traced_bindTo h hcls hfound hreceiver).bind fun bound later _ h hbound => ?_
        exact Traced.pure h (.function hbound)
    | nil | bool | number | string | function | builtin | object => exact Traced.throw h trivial

theorem FunctionDecl.AllReady.proper {place : Place} {method : Bool} {layout : Layout}
    {methods : List FunctionDecl}
    (h : FunctionDecl.AllReady .any place method layout methods) :
    ∀ f ∈ methods, f.Proper := by
  induction methods with
  | nil => exact fun f hf => absurd hf List.not_mem_nil
  | cons f rest ih => exact List.forall_mem_cons.mpr ⟨⟨place, method, layout, h.1⟩, ih h.2⟩

/-- A class finds its own methods first, and then those of its superclass. -/
theorem Class.own_or_inherited {cls : Class} {key : String} {method : Closure}
    (h : cls.findMethod? key = some method) :
    cls.methods.find? key = some method ∨
      ∃ superclass, cls.superclass? = some superclass ∧
        superclass.findMethod? key = some method := by
  cases cls with
  | base id name table => exact .inl h
  | derived id name table superclass =>
    have hmake : (Class.make id name (some superclass) table).findMethod? key = some method := h
    exact findMethod?_make hmake

/-- Executing a class statement leaves the store explained: the methods of the class are declared in
it. -/
theorem traced_declareClass (h : store.Explained) {name : String} {parent : Option Reference}
    {superclass : Option Class} {methods : List FunctionDecl} (hname : IsName name)
    (hproper : ∀ f ∈ methods, f.Proper) (hinherits : store.Inherits parent superclass)
    (hcls : ∀ cls, superclass = some cls → cls.Arises store) :
    Traced (declareClass name superclass methods) (fun _ _ => True) store := by
  obtain ⟨origin, horigin, _⟩ := h.current.origin h.occurs.session
  have hexists := Scopes.exists_of_origin? horigin
  obtain ⟨env, cls, after, hrun, hmade, _⟩ :=
    declareClass_spec superclass methods hname hexists
  have hevent : store.DeclaresClass name parent methods superclass cls after :=
    ⟨hname, hexists, hinherits, hinherits.exec_iff.mpr hrun, hmade.bound⟩
  have hclass : cls.Arises after := by
    intro key method hmethod
    -- its own methods are declared here, and those it inherits were declared before
    rcases Class.own_or_inherited hmethod with hown | ⟨inherited, hinherited, hfound⟩
    · obtain ⟨hmember, _, hkey, _⟩ := hmade.methods key method hown
      exact ⟨hkey, hproper _ hmember, store.current, superclass, h.current.mono hmade.later,
        ⟨h.occurs, rfl, hevent, hmember, hown, .refl after⟩⟩
    · rw [hmade.superclass] at hinherited
      exact (hcls inherited hinherited).mono hmade.later key method hfound
  refine traced_of_ok hrun hmade.later ?_ trivial
  refine h.extend hmade.later ?_ (fun id key value hvalue => ?_)
    fun table htable key value hvalue => .inl ⟨table, hmade.fields ▸ htable, hvalue⟩
  · rw [hmade.current]
    exact h.current.mono hmade.later
  · rcases hmade.values id key value hvalue with hold | rfl | rfl | ⟨inherited, hinherited, rfl⟩
    · exact .inl hold
    · exact .inr .nil
    · exact .inr (.class hclass)
    · exact .inr (.class ((hcls inherited hinherited).mono hmade.later))

end Calls

/-! ### One level of evaluation -/

section Levels

variable {eval : Expr → EvalM Value} {exec : Stmt → EvalM Unit}

/-- Each kind of expression is traced if its parts are. -/
theorem EvalTraced.level (heval : EvalTraced eval) (hexec : ExecTraced exec) :
    EvalTraced (Expr.evalWith eval exec) := by
  constructor
  case name =>
    -- tracing knows only that a value arises, but a class is declared with the very value it reads
    intro reference store h
    have hread := traced_readName h reference.name reference.binding reference.anchor.site
    cases hresult : readName reference.name reference.binding reference.anchor.site store with
    | ok value later =>
      obtain ⟨hlater, hexplained, rfl, _⟩ := hread.of_ok hresult
      exact traced_of_ok hresult hlater hexplained ⟨rfl, rfl⟩
    | error halt later =>
      obtain ⟨hlater, hexplained, hhalt⟩ := hread.of_error hresult
      exact traced_of_error hresult hlater hexplained hhalt
  case expression =>
    intro e enclosing layout store h hready
    have hsub := fun (e : Expr) (store : Store) (h : store.Explained)
        (hready : e.Ready .any enclosing layout) =>
      heval.expression e enclosing layout store h hready
    have hname : ∀ name binding site,
        Traced (readName name binding site) (fun value later => value.Arises later) store := by
      intro name binding site
      refine (traced_readName h name binding site).mono fun value later _ hread => ?_
      obtain ⟨rfl, hvalue⟩ := hread
      exact hvalue
    cases e with
    | literal value => exact Traced.pure h (Value.arises_ofLiteral value)
    | «variable» reference => exact hname _ _ _
    | assign target value =>
      obtain ⟨htarget, _, hvalue⟩ := hready
      refine (hsub value store h hvalue).bind fun value later _ h hvalue => ?_
      refine (traced_writeName h target.binding target.anchor.site htarget.isName hvalue).bind ?_
      intro _ last hlater h _
      exact Traced.pure h (hvalue.mono hlater)
    | unary op operand anchor =>
      refine (hsub operand store h hready).bind fun value later _ h _ => ?_
      exact traced_applyUnary h op value anchor.site
    | binary op left right anchor =>
      obtain ⟨hop, hleft, hright⟩ := hready
      refine (hsub left store h hleft).bind fun left later _ h _ => ?_
      refine (hsub right later h hright).bind fun right last _ h _ => ?_
      exact traced_applyBinary h hop left right anchor.site
    | logical op left right =>
      obtain ⟨hleft, hright⟩ := hready
      refine (hsub left store h hleft).bind fun left later _ h hvalue => ?_
      by_cases hdecides : op.decides left = true
      · simp only [if_pos hdecides]
        exact Traced.pure h hvalue
      · simp only [if_neg hdecides]
        exact hsub right later h hright
    | grouping inner => exact hsub inner store h hready
    | call callee arguments anchor =>
      obtain ⟨hcallee, harguments⟩ := hready
      refine (hsub callee store h hcallee).bind fun callee later _ h hvalue => ?_
      refine (traced_evalAll heval h harguments).bind fun values last hlater h hvalues => ?_
      exact traced_apply hexec h (hvalue.mono hlater) hvalues anchor.site
    | get object name anchor =>
      refine (hsub object store h hready.1).bind fun value later _ h hvalue => ?_
      cases value with
      | object inst =>
        exact traced_getProperty h (Value.arises_object_iff.mp hvalue) name anchor.site
      | nil | bool | number | string | function | builtin | «class» => exact Traced.fail h
    | set object name value anchor =>
      obtain ⟨hobject, hright⟩ := hready
      refine (hsub object store h hobject).bind fun object later _ h _ => ?_
      cases object with
      | object inst =>
        refine (hsub value later h hright).bind fun value last _ h hvalue => ?_
        refine (traced_setField h inst name hvalue).bind fun _ final hlater h _ => ?_
        exact Traced.pure h (hvalue.mono hlater)
      | nil | bool | number | string | function | builtin | «class» => exact Traced.fail h
    | this anchor binding => exact hname _ _ _
    | super method anchor binding => exact traced_superMethod h method binding anchor.site

/-- Each kind of statement is traced if its parts are. -/
theorem ExecTraced.level (rounds : Nat) (heval : EvalTraced eval) (hexec : ExecTraced exec) :
    ExecTraced (Stmt.execWith rounds eval exec) := by
  intro s place layout store h hready
  have hsub := fun (e : Expr) (store : Store) (h : store.Explained)
      (hready : e.Ready .any place.enclosing layout) =>
    heval.expression e place.enclosing layout store h hready
  have hbody := fun (s : Stmt) (store : Store) (h : store.Explained)
      (hready : s.Ready .any place layout) => hexec s place layout store h hready
  cases s with
  | expression value =>
    exact (hsub value store h hready).bind fun _ later _ h _ => Traced.pure h trivial
  | print value =>
    exact (hsub value store h hready).bind fun value later _ h _ => traced_printLine h value.text
  | declare name initializer =>
    cases initializer with
    | none => exact traced_defineHere h hready .nil
    | some value =>
      obtain ⟨hname, hvalue⟩ := hready
      exact (hsub value store h hvalue).bind fun value later _ h hvalue =>
        traced_defineHere h hname hvalue
  | block body =>
    refine Traced.getBind ?_
    refine (traced_openScope h store.current (.block body)).bind ?_
    intro env later hlater h' hopened
    have hlocal : (ScopeOrigin.block body).IsLocal := trivial
    have henv : env.Arises later :=
      .nested (h.current.mono hlater) hlocal ⟨hopened, .refl later⟩
    exact .within h' (traced_execAll hexec (h'.enter henv) hready)
  | ifThen condition body =>
    obtain ⟨hcondition, hthen, _⟩ := hready
    refine (hsub condition store h hcondition).bind fun value later _ h _ => ?_
    by_cases htruthy : value.truthy = true
    · simp only [if_pos htruthy]
      exact hbody body later h hthen
    · simp only [if_neg htruthy]
      exact Traced.pure h trivial
  | ifElse condition body alternative =>
    obtain ⟨hcondition, ⟨hthen, _⟩, helse, _⟩ := hready
    refine (hsub condition store h hcondition).bind fun value later _ h _ => ?_
    by_cases htruthy : value.truthy = true
    · simp only [if_pos htruthy]
      exact hbody body later h hthen
    · simp only [if_neg htruthy]
      exact hbody alternative later h helse
  | loop condition body =>
    obtain ⟨hcondition, hround, _⟩ := hready
    refine Traced.whileTrue h (fun store h => ?_) fun store h => hbody body store h hround
    exact (hsub condition store h hcondition).bind fun value later _ h _ => Traced.pure h trivial
  | function declaration =>
    obtain ⟨hname, hbody⟩ := hready
    refine Traced.getBind ?_
    refine (traced_newClosure h declaration store.current false).bind ?_
    intro closure later hlater h' hclosure
    obtain ⟨hdeclaration, henv, hplain⟩ := hclosure
    refine traced_defineHere h' hname (.function (.function ?_ hplain ?_))
    · rw [henv]
      exact h.current.mono hlater
    · rw [hdeclaration]
      exact ⟨_, _, _, hbody⟩
  | returning value =>
    cases value with
    | none => exact Traced.throw h .nil
    | some value =>
      exact (hsub value store h hready.2).bind fun value later _ h hvalue =>
        Traced.throw h hvalue
  | classDecl name parent methods =>
    obtain ⟨⟨hname, _⟩, _, hmethods⟩ := hready
    cases parent with
    | none =>
      refine traced_declareClass h hname hmethods.proper .nothing fun cls hcls => ?_
      cases hcls
    | some reference =>
      refine (heval.name reference store h).bind fun value later _ h hread => ?_
      obtain ⟨rfl, hread⟩ := hread
      cases value with
      | «class» cls =>
        have hfound := traced_readName h reference.name reference.binding reference.anchor.site
        have hcls := Value.arises_class_iff.mp (hfound.of_ok hread).2.2.2
        show Traced (declareClass name (some cls) methods) _ later
        refine traced_declareClass h hname hmethods.proper (.superclass fun _ _ => hread) ?_
        intro found hfound
        cases hfound
        exact hcls
      | nil | bool | number | string | function | builtin | object => exact Traced.fail h

end Levels

/-! ### Moments -/

/-- A watch that lets every explained store pass does not get in the way of tracing. -/
theorem EvalTraced.over {watch : Watch} {eval : Expr → EvalM Value}
    (hwatch : ∀ e store, store.Explained → watch e store = none) (heval : EvalTraced eval) :
    EvalTraced (watch.over eval) := by
  have hover : ∀ e store, store.Explained → watch.over eval e store = eval e store := by
    intro e store h
    rw [Watch.over, hwatch e store h]
  constructor
  case expression =>
    intro e enclosing layout store h hready
    have hsame := hover e store h
    unfold Traced
    rw [hsame]
    exact heval.expression e enclosing layout store h hready
  case name =>
    intro reference store h
    have hsame := hover (.variable reference) store h
    unfold Traced
    rw [hsame]
    exact heval.name reference store h

/-- Ready code is traced under such a watch, whatever the limits. -/
theorem execTraced_watched {watch : Watch}
    (hwatch : ∀ e store, store.Explained → watch e store = none) (rounds depth : Nat) :
    ExecTraced (Stmt.execWatched watch rounds depth) := by
  have hlevel : EvalTraced (Expr.evalWatched watch rounds depth) ∧
      ExecTraced (Stmt.execWatched watch rounds depth) := by
    induction depth with
    | zero =>
      exact ⟨⟨fun _ _ _ _ h _ => Traced.throw h trivial, fun _ _ h => Traced.throw h trivial⟩,
        fun _ _ _ _ h _ => Traced.throw h trivial⟩
    | succ depth ih => exact ⟨(ih.1.level ih.2).over hwatch, .level rounds ih.1 ih.2⟩
  exact hlevel.2

/-- A program leads from an explained store to one, however it ends. -/
theorem Program.traced_exec {program : Program} {place : Place} {layout : Layout} {store : Store}
    (rounds depth : Nat) (h : store.Explained)
    (hready : Stmt.AllReady .any place layout program) :
    Traced (program.exec rounds depth) (fun _ _ => True) store := by
  rw [← Program.execWatched_never]
  exact traced_execAll (execTraced_watched (fun _ _ _ => rfl) rounds depth) h hready

/-- At every moment of a run, the store is explained. -/
theorem Program.Evaluates.explained {program : Program} {rounds depth : Nat}
    {start store : Store} {e : Expr} (hmoment : program.Evaluates rounds depth start e store)
    {place : Place} {layout : Layout} (h : start.Explained)
    (hready : Stmt.AllReady .any place layout program) : store.Explained := by
  refine Classical.byContradiction fun hnot => ?_
  -- were it not, a watch for this moment would let all explained stores pass, and only an unknown
  -- operator could be the fault
  have hwatch : ∀ e' store', store'.Explained →
      Watch.single e store (.unknownOperator "") e' store' = none := by
    intro e' store' h'
    rw [Watch.single, if_neg]
    rintro ⟨_, rfl⟩
    exact hnot h'
  have htraced := traced_execAll (execTraced_watched hwatch rounds depth) h hready
  obtain ⟨last, hlast⟩ := hmoment (.unknownOperator "")
  exact (htraced.of_error hlast).2.2

end Treewalk
