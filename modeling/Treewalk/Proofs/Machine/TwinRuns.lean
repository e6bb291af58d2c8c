import Treewalk.Proofs.Machine.Operators
import Treewalk.Proofs.Machine.Tandem

/-!
# Twins run in tandem

Code that is a twin runs in tandem from twin stores, in environments that are aligned along the
links of the code. So twin stores cannot be told apart: whatever runs next prints the same lines and
ends the same way. The proof follows the evaluator, as the proof of safety does, but asks less: the
code need not be ready, since both runs meet the same flaws at the same moment.
-/

namespace Treewalk

variable {ρ : Leeway} {P : Pairing} {links : Links} {store store' : Store}

/-! ### Operators and builtin functions -/

theorem tandem_applyBinary (h : store.Twin ρ P store') (op : BinaryOp)
    {left left' right right' : Value} (hleft : left.Twin ρ P left') (hright : right.Twin ρ P right')
    {site site' : Site} (hplace : ρ.Places site site') :
    Tandem ρ P (Value.Twin ρ) (applyBinary op left right site) (applyBinary op left' right' site')
      store store' := by
  rw [applyBinary_congr (by cases hleft <;> rfl) (by cases hright <;> rfl) (hleft.same_eq hright)]
  have houtcome := applyBinary_outcome op left right
  generalize applyBinary op left right = run at houtcome ⊢
  cases houtcome with
  | plain literal => exact Tandem.pure h (Value.twin_ofLiteral ρ P literal)
  | divisionByZero => exact Tandem.fail h rfl (hplace.map RuntimeError.divisionByZero)
  | operands => exact Tandem.fail h rfl (hplace.map (RuntimeError.binaryOperands _ _ _))
  | unknown symbol => exact Tandem.throw h (.fault _)

theorem tandem_applyUnary (h : store.Twin ρ P store') (op : UnaryOp) {operand operand' : Value}
    (hoperand : operand.Twin ρ P operand') {site site' : Site} (hplace : ρ.Places site site') :
    Tandem ρ P (Value.Twin ρ) (applyUnary op operand site) (applyUnary op operand' site')
      store store' := by
  cases op with
  | negate =>
    cases hoperand with
    | number a => exact Tandem.pure h (.number _)
    | _ => exact Tandem.fail h rfl (hplace.map (RuntimeError.unaryOperand _ _))
  | not | other =>
    unfold applyUnary
    simp only [hoperand.truthy_eq]
    exact Tandem.pure h (.bool _)

/-! ### Lists of code -/

/-- An evaluator that runs expressions that are twins in tandem. -/
def EvalTandem (ρ : Leeway) (eval : Expr → EvalM Value) : Prop :=
  ∀ ⦃P : Pairing⦄ ⦃links : Links⦄ ⦃store store' : Store⦄ ⦃e e' : Expr⦄, store.Twin ρ P store' →
    P.Aligned links store.current.chain store'.current.chain → e.Twin ρ links e' →
    Tandem ρ P (Value.Twin ρ) (eval e) (eval e') store store'

/-- An executor that runs statements that are twins in tandem. -/
def ExecTandem (ρ : Leeway) (exec : Stmt → EvalM Unit) : Prop :=
  ∀ ⦃P : Pairing⦄ ⦃links : Links⦄ ⦃store store' : Store⦄ ⦃s s' : Stmt⦄, store.Twin ρ P store' →
    P.Aligned links store.current.chain store'.current.chain → s.Twin ρ links s' →
    Tandem ρ P (fun _ _ _ => True) (exec s) (exec s') store store'

section Parts

variable {eval : Expr → EvalM Value} {exec : Stmt → EvalM Unit}

theorem tandem_evalAll (heval : EvalTandem ρ eval) {es es' : List Expr} (h : store.Twin ρ P store')
    (haligned : P.Aligned links store.current.chain store'.current.chain)
    (htwin : List.Forall₂ (Expr.Twin ρ links) es es') :
    Tandem ρ P (fun later => List.Forall₂ (Value.Twin ρ later)) (es.mapM eval) (es'.mapM eval)
      store store' := by
  induction htwin generalizing P store store' with
  | nil => exact Tandem.pure h .nil
  | cons hfirst _ ih =>
    rw [List.mapM_cons, List.mapM_cons]
    refine (heval h haligned hfirst).bind fun later value value' next next' hnext hvalue => ?_
    refine (ih hnext.twin (hnext.aligned haligned)).bind ?_
    intro last values values' final final' hfinal hvalues
    exact Tandem.pure hfinal.twin (.cons (hvalue.mono hfinal.grows) hvalues)

theorem tandem_execAll (hexec : ExecTandem ρ exec) {body body' : List Stmt}
    (h : store.Twin ρ P store')
    (haligned : P.Aligned links store.current.chain store'.current.chain)
    (htwin : Stmt.AllTwin ρ links body body') :
    Tandem ρ P (fun _ _ _ => True) (body.forM exec) (body'.forM exec) store store' := by
  induction body generalizing P store store' body' with
  | nil =>
    cases htwin
    exact Tandem.pure h trivial
  | cons s rest ih =>
    cases htwin with
    | cons hfirst hrest =>
      refine (hexec h haligned hfirst).bind fun later _ _ next next' hnext _ => ?_
      exact ih hnext.twin (hnext.aligned haligned) hrest

/-! ### Calls -/

theorem tandem_defineParams (h : store.Twin ρ P store') {env env' : Env} {marked : Bool}
    (hpair : P env.scope env'.scope marked) {params params' : List String}
    (hparams : List.Forall₂ (ρ.Names marked) params params') {arguments arguments' : List Value}
    (harguments : List.Forall₂ (Value.Twin ρ P) arguments arguments') :
    Tandem ρ P (fun _ _ _ => True) (defineParams env params arguments)
      (defineParams env' params' arguments') store store' := by
  induction hparams generalizing P store store' arguments arguments' with
  | nil => exact Tandem.pure h trivial
  | cons hparam _ ih =>
    cases harguments with
    | nil => exact Tandem.pure h trivial
    | cons hargument harguments =>
      rw [defineParams, defineParams]
      refine (tandem_defineAt h hpair hparam hargument).bind fun later _ _ next next' hnext _ => ?_
      exact ih hnext.twin (hnext.grows hpair)
        (harguments.imp fun _ _ hargument => hargument.mono hnext.grows)

/-- Calls of functions that are twins. -/
theorem tandem_call (hexec : ExecTandem ρ exec) {closure closure' : Closure}
    {arguments arguments' : List Value} (h : store.Twin ρ P store')
    (hclosure : closure.Twin ρ P closure')
    (harguments : List.Forall₂ (Value.Twin ρ P) arguments arguments') :
    Tandem ρ P (Value.Twin ρ) (closure.call exec arguments) (closure'.call exec arguments')
      store store' := by
  obtain ⟨links, hclosure⟩ := hclosure
  -- the declaration says whether the scope of the call is a renamed one
  obtain ⟨marked, hparams, hbody⟩ := hclosure.declaration.body
  unfold Closure.call
  refine (tandem_openScope h closure.env closure'.env _ _ marked).bind ?_
  intro later inner inner' next next' hnext hinner
  refine (tandem_defineParams hnext.twin hinner.scope hparams
    (harguments.imp fun _ _ hargument => hargument.mono hnext.grows)).bind ?_
  intro entered _ _ start start' hstart _
  -- the body runs in the scope of the call, on both sides
  have hsince := hnext.grows.trans hstart.grows
  have haligned := (hinner.mono hstart.grows).aligned (hclosure.aligned.mono hsince)
  have hrun := tandem_execAll hexec (hstart.twin.withCurrent inner inner') haligned hbody
  refine hrun.within.catchReturn.bind ?_
  intro last returned returned' final final' hfinal hreturned
  rw [hclosure.initializer]
  by_cases hinitializer : closure.initializer = true
  · rw [if_pos hinitializer, if_pos hinitializer]
    -- an initializer gives its receiver, from the innermost scope that it closes over
    refine Tandem.getBind ?_
    obtain ⟨mark, hhere⟩ := hclosure.receiver hinitializer
    have hthis := hclosure.aligned.mono (hsince.trans hfinal.grows) hhere
    exact tandem_getAt hfinal.twin hfinal.twin (.refl last) hthis (ρ.names_this mark)
  · rw [if_neg hinitializer, if_neg hinitializer]
    refine Tandem.pure hfinal.twin ?_
    cases hreturned with
    | none => exact .nil
    | some hvalue => exact hvalue

theorem tandem_construct (hexec : ExecTandem ρ exec) {cls cls' : Class}
    {arguments arguments' : List Value} (h : store.Twin ρ P store') (hcls : cls.Twin ρ P cls')
    (harguments : List.Forall₂ (Value.Twin ρ P) arguments arguments') :
    Tandem ρ P (Value.Twin ρ) (cls.construct exec arguments) (cls'.construct exec arguments')
      store store' := by
  unfold Class.construct
  refine (tandem_newInstance h cls cls').bind fun later inst inst' next next' hnext hinst => ?_
  -- both instances have one number, since both stores have as many
  obtain ⟨id, found⟩ := inst
  obtain ⟨rfl, rfl⟩ := hinst
  have hcls := hcls.mono hnext.grows
  have hinit := hcls.methods "init"
  generalize found.findMethod? "init" = init at hinit ⊢
  generalize cls'.findMethod? "init" = init' at hinit ⊢
  cases hinit with
  | none => exact Tandem.pure hnext.twin (.object id hcls)
  | some hmethod =>
    refine (tandem_bindTo hnext.twin hmethod (.object id hcls)).bind ?_
    intro last bound bound' final final' hfinal hbound
    have harguments := harguments.imp fun _ _ hargument =>
      hargument.mono (hnext.grows.trans hfinal.grows)
    refine (tandem_call hexec hfinal.twin hbound harguments).bind ?_
    intro latest _ _ ending ending' hending _
    exact Tandem.pure hending.twin (.object id (hcls.mono (hfinal.grows.trans hending.grows)))

theorem tandem_invoke (hexec : ExecTandem ρ exec) {callee callee' : Value}
    {arguments arguments' : List Value} (h : store.Twin ρ P store')
    (hcallee : callee.Twin ρ P callee')
    (harguments : List.Forall₂ (Value.Twin ρ P) arguments arguments') :
    Tandem ρ P (Value.Twin ρ) (callee.invoke exec arguments) (callee'.invoke exec arguments')
      store store' := by
  cases hcallee with
  | function hclosure => exact tandem_call hexec h hclosure harguments
  | «class» hcls => exact tandem_construct hexec h hcls harguments
  | constant id name arity hvalue => exact Tandem.pure h hvalue
  | computed id name arity answer =>
    refine (tandem_readClock h).bind ?_
    rintro later _ now next next' hnext rfl
    refine Tandem.pure hnext.twin (Answer.value_rel (Value.twin_ofLiteral ρ later)
      (fun _ _ hvalue => hvalue.literal?_eq) ?_ (answer now))
    exact harguments.imp fun _ _ hargument => hargument.mono hnext.grows
  | nil | bool | number | string | object => exact Tandem.pure h .nil

/-- Calls of values that are twins fail alike, or run alike. -/
theorem tandem_apply (hexec : ExecTandem ρ exec) {callee callee' : Value}
    {arguments arguments' : List Value} (h : store.Twin ρ P store')
    (hcallee : callee.Twin ρ P callee')
    (harguments : List.Forall₂ (Value.Twin ρ P) arguments arguments') {site site' : Site}
    (hplace : ρ.Places site site') :
    Tandem ρ P (Value.Twin ρ) (callee.apply exec arguments site)
      (callee'.apply exec arguments' site') store store' := by
  unfold Value.apply
  have hsignature := hcallee.signature_rel
  rw [hcallee.kind_eq, ← harguments.length_eq]
  generalize callee.signature? = found at hsignature ⊢
  generalize callee'.signature? = found' at hsignature ⊢
  cases hsignature with
  | none => exact Tandem.fail h rfl (hplace.map (RuntimeError.notCallable _))
  | @some signature signature' hsame =>
    simp only [hsame.arity, hsame.name]
    by_cases harity : (arguments.length : Int) = signature.arity
    · rw [if_pos harity, if_pos harity]
      exact tandem_invoke hexec h hcallee harguments
    · rw [if_neg harity, if_neg harity]
      refine Tandem.fail h rfl fun hnone => ?_
      rw [hplace hnone, hsame.declaredAt hnone]

end Parts

/-! ### Properties and classes -/

theorem tandem_getProperty (h : store.Twin ρ P store') (id : Nat) {cls cls' : Class}
    (hcls : cls.Twin ρ P cls') (name : String) {site site' : Site}
    (hplace : ρ.Places site site') :
    Tandem ρ P (Value.Twin ρ) (getProperty ⟨id, cls⟩ name site)
      (getProperty ⟨id, cls'⟩ name site') store store' := by
  unfold getProperty
  refine Tandem.getBind ?_
  have hfield := h.fields id (rfl : name = name)
  have hmethod := hcls.methods name
  simp only [Store.fieldsOf]
  generalize (store.fields.getD id {}).find? name = field at hfield ⊢
  generalize (store'.fields.getD id {}).find? name = field' at hfield ⊢
  generalize cls.findMethod? name = method at hmethod ⊢
  generalize cls'.findMethod? name = method' at hmethod ⊢
  cases hfield with
  | some hvalue => exact Tandem.pure h hvalue
  | none =>
    cases hmethod with
    | none => exact Tandem.fail h rfl (hplace.map (RuntimeError.undefinedProperty name))
    | some hmethod =>
      refine (tandem_bindTo h hmethod (.object id hcls)).bind ?_
      intro later bound bound' next next' hnext hbound
      exact Tandem.pure hnext.twin (.function hbound)

/-- The superclass and the receiver that a use of `super` finds are twins: both of its scopes are
the same. -/
theorem Binding.TwinSuper.reach {hops hops' : Nat}
    (h : TwinSuper links (.enclosing hops) (.enclosing hops')) :
    (∃ marked, links hops hops' marked) ∧ ∃ marked, links (hops - 1) (hops' - 1) marked := by
  cases h with
  | here hlinks => exact ⟨⟨_, hlinks⟩, _, hlinks⟩
  | enclosing hlinks hthis => exact ⟨⟨_, hlinks⟩, _, hthis⟩

theorem tandem_superMethod (h : store.Twin ρ P store')
    (haligned : P.Aligned links store.current.chain store'.current.chain) (method : String)
    {binding binding' : Binding} (hbinding : binding.TwinSuper links binding')
    {site site' : Site} (hplace : ρ.Places site site') :
    Tandem ρ P (Value.Twin ρ) (superMethod method binding site)
      (superMethod method binding' site') store store' := by
  unfold superMethod
  cases binding with
  | global =>
    cases hbinding
    exact Tandem.throw h (.fault _)
  | enclosing hops =>
    obtain ⟨hops', rfl⟩ : ∃ hops', binding' = .enclosing hops' := by
      cases hbinding with
      | here => exact ⟨_, rfl⟩
      | enclosing => exact ⟨_, rfl⟩
    obtain ⟨⟨mark, hsuper⟩, mark', hthis⟩ := hbinding.reach
    refine Tandem.getBind ?_
    refine (tandem_getAt h h (.refl P) (haligned hsuper) (ρ.names_super mark)).bind ?_
    intro later superclass superclass' next next' hnext hsuperclass
    -- the receiver is looked up in the stores from before, as the superclass was
    refine (tandem_getAt hnext.twin h hnext.grows (haligned hthis) (ρ.names_this mark')).bind ?_
    intro last receiver receiver' final final' hfinal hreceiver
    cases hsuperclass with
    | @«class» cls cls' hcls =>
      have hfound := (hcls.mono hfinal.grows).methods method
      simp only
      generalize cls.findMethod? method = found at hfound ⊢
      generalize cls'.findMethod? method = found' at hfound ⊢
      cases hfound with
      | none =>
        exact Tandem.fail hfinal.twin rfl (hplace.map (RuntimeError.undefinedProperty method))
      | some hmethod =>
        refine (tandem_bindTo hfinal.twin hmethod hreceiver).bind ?_
        intro latest bound bound' ending ending' hending hbound
        exact Tandem.pure hending.twin (.function hbound)
    | nil | bool | number | string | function | constant | computed | object =>
      exact Tandem.throw hfinal.twin (.fault _)

/-- The names of a superclass are the same, or the new one stands for the old one. -/
theorem Reference.Twin.invalidSuperclass {parent parent' : Reference}
    (h : parent.Twin ρ links parent') (kind : String) :
    RuntimeError.Twin ρ (.invalidSuperclass parent.name kind parent.anchor.site)
      (.invalidSuperclass parent'.name kind parent'.anchor.site) := by
  obtain ⟨hplace, marked, hname, _⟩ := h
  cases hleeway : ρ with
  | none =>
    rw [hleeway] at hname
    obtain hname : parent'.name = parent.name := hname
    rw [hname, hplace hleeway]
    exact .placed rfl (.refl none _)
  | some σ =>
    rw [hleeway] at hname
    rcases σ.counterpart_eq_or marked parent.name with hkept | ⟨hold, hnew⟩
    · rw [hname.2, hkept]
      exact .placed rfl fun hnone => by cases hnone
    · rw [hname.2, hnew, hold]
      exact .superclass rfl kind _ _

theorem tandem_checkSuperclass (h : store.Twin ρ P store') {parent parent' : Reference}
    (hparent : parent.Twin ρ links parent') {value value' : Value}
    (hvalue : value.Twin ρ P value') :
    Tandem ρ P (Class.Twin ρ) (checkSuperclass parent value) (checkSuperclass parent' value')
      store store' := by
  cases hvalue with
  | «class» hcls => exact Tandem.pure h hcls
  | nil | bool | number | string | function | constant | computed | object =>
    exact Tandem.throw h (.failed (hparent.invalidSuperclass _))

/-- The methods of a class on both sides, made in environments that are aligned. -/
theorem tandem_newMethods {env env' : Env} {methods methods' : List FunctionDecl}
    (h : store.Twin ρ P store') (haligned : P.Aligned links env.chain env'.chain)
    (htwin : FunctionDecl.AllTwin ρ (links.enter false) methods methods') :
    Tandem ρ P (fun later => List.Forall₂ (Closure.TwinMethods ρ later))
      (methods.mapM fun method => newClosure method env (method.name == "init"))
      (methods'.mapM fun method => newClosure method env' (method.name == "init"))
      store store' := by
  induction methods generalizing P store store' methods' with
  | nil =>
    cases htwin
    exact Tandem.pure h .nil
  | cons method rest ih =>
    cases htwin with
    | @cons _ _ method' _ rest' hmethod hrest =>
      rw [List.mapM_cons, List.mapM_cons, hmethod.name_eq]
      refine (tandem_newClosure h method method' haligned (method.name == "init")).bind ?_
      intro later closure closure' next next' hnext hclosure
      obtain ⟨hover, hsame, hsame', _⟩ := hclosure
      refine (ih hnext.twin (haligned.mono hnext.grows) hrest).bind ?_
      intro last closures closures' final final' hfinal hclosures
      have hmethods : closure.TwinMethods ρ last closure' := by
        refine ⟨links, hover.mono hfinal.grows, ?_⟩
        rw [hsame, hsame']
        exact hmethod
      exact Tandem.pure hfinal.twin (.cons hmethods hclosures)

/-- Methods that are related are found under the names that they share. -/
theorem Table.twin_methods {R : Closure → Closure → Prop}
    (hname : ∀ closure closure', R closure closure' →
      closure'.declaration.name = closure.declaration.name)
    {closures closures' : List Closure} (h : List.Forall₂ R closures closures') :
    (Table.ofList (closures.map fun closure => (closure.declaration.name, closure))).Twin Eq R
      (Table.ofList (closures'.map fun closure => (closure.declaration.name, closure))) := by
  have hfold : ∀ table table' : Table Closure, table.Twin Eq R table' →
      Table.Twin Eq R
        ((closures.map fun closure => (closure.declaration.name, closure)).foldl
          (fun table entry => table.insert entry.1 entry.2) table)
        ((closures'.map fun closure => (closure.declaration.name, closure)).foldl
          (fun table entry => table.insert entry.1 entry.2) table') := by
    induction h with
    | nil => exact fun _ _ htable => htable
    | @cons closure closure' _ _ hmethod _ ih =>
      intro table table' htable
      refine ih _ _ ?_
      simp only [hname closure closure' hmethod]
      exact htable.insert closure.declaration.name hmethod
  exact hfold {} {} (Table.twin_empty _ _)

/-- Classes find related methods if their own and those of their superclasses are related. -/
theorem Class.findMethod?_make_rel {R : Closure → Closure → Prop} (id : Nat) (name : String)
    {superclass superclass' : Option Class} {table table' : Table Closure}
    (hsuperclass : Option.Rel (fun cls cls' => ∀ key, Option.Rel R (cls.findMethod? key)
      (cls'.findMethod? key)) superclass superclass')
    (htable : table.Twin Eq R table') (key : String) :
    Option.Rel R ((Class.make id name superclass table).findMethod? key)
      ((Class.make id name superclass' table').findMethod? key) := by
  have hown := htable (rfl : key = key)
  cases hsuperclass with
  | none => exact hown
  | some hmethods =>
    simp only [Class.make, Class.findMethod?]
    generalize table.find? key = own at hown ⊢
    generalize table'.find? key = own' at hown ⊢
    cases hown with
    | none => exact hmethods key
    | some hmethod => exact .some hmethod

/-- Classes are twins if their own methods and their superclasses are. -/
theorem Class.twin_make (id : Nat) (name : String) {superclass superclass' : Option Class}
    {table table' : Table Closure}
    (hsuperclass : Option.Rel (Class.Twin ρ P) superclass superclass')
    (htable : table.Twin Eq (Closure.TwinMethods ρ P) table') :
    (Class.make id name superclass table).Twin ρ P (Class.make id name superclass' table') :=
  ⟨by rw [id_make, id_make], by rw [name_make, name_make],
    findMethod?_make_rel id name (rel_imp hsuperclass fun _ _ hcls => hcls.methods) htable⟩

/-- The last steps of class declarations: the methods close over environments, and the name gets the
class. -/
theorem tandem_installClass {inner : Links} {env env' : Env} {name : String} {marked : Bool}
    {superclass superclass' : Option Class} {methods methods' : List FunctionDecl}
    (h : store.Twin ρ P store')
    (haligned : P.Aligned links store.current.chain store'.current.chain)
    (hhere : links 0 0 marked) (hname : ρ.Names marked name name)
    (hinner : P.Aligned inner env.chain env'.chain)
    (hsuperclass : Option.Rel (Class.Twin ρ P) superclass superclass')
    (hmethods : FunctionDecl.AllTwin ρ (inner.enter false) methods methods') :
    Tandem ρ P (fun _ _ _ => True)
      (do
        let closures ← methods.mapM fun method => newClosure method env (method.name == "init")
        let table := Table.ofList (closures.map fun closure => (closure.declaration.name, closure))
        defineHere name (.class (.make (← freshId) name superclass table)))
      (do
        let closures ← methods'.mapM fun method => newClosure method env' (method.name == "init")
        let table := Table.ofList (closures.map fun closure => (closure.declaration.name, closure))
        defineHere name (.class (.make (← freshId) name superclass' table)))
      store store' := by
  refine (tandem_newMethods h hinner hmethods).bind ?_
  intro later closures closures' next next' hnext hclosures
  refine (tandem_freshId hnext.twin).bind fun last id id' final final' hfinal hid => ?_
  subst hid
  have hsince := hnext.trans hfinal
  refine tandem_defineHere hfinal.twin (hsince.aligned haligned) hhere hname
    (.class (Class.twin_make id' name ?_ ?_))
  · exact rel_imp hsuperclass fun _ _ hcls => hcls.mono hsince.grows
  · exact Table.twin_methods (fun _ _ hmethod => hmethod.name_eq)
      (hclosures.imp fun _ _ hclosure => hclosure.mono hfinal.grows)

/-- Declaring classes that are twins. -/
theorem tandem_declareClass {name : String} {superclass superclass' : Option Class}
    {methods methods' : List FunctionDecl} {marked : Bool} (h : store.Twin ρ P store')
    (haligned : P.Aligned links store.current.chain store'.current.chain)
    (hhere : links 0 0 marked) (hname : ρ.Names marked name name)
    (reference : Option Reference)
    (hsuperclass : Option.Rel (Class.Twin ρ P) superclass superclass')
    (hsame : superclass.isSome = reference.isSome)
    (hmethods : FunctionDecl.AllTwin ρ (links.enterClass reference) methods methods') :
    Tandem ρ P (fun _ _ _ => True) (declareClass name superclass methods)
      (declareClass name superclass' methods') store store' := by
  unfold declareClass
  refine (tandem_defineHere h haligned hhere hname .nil).bind ?_
  intro later _ _ next next' hnext _
  have haligned := hnext.aligned haligned
  refine Tandem.getBind ?_
  cases hsuperclass with
  | none =>
    cases reference with
    | some => cases hsame
    | none => exact tandem_installClass hnext.twin haligned hhere hname haligned .none hmethods
  | @some cls cls' hcls =>
    cases reference with
    | none => cases hsame
    | some parent =>
      -- the scope that holds `super` stands between the methods and the scopes in force
      have hcls := hcls.mono hnext.grows
      refine (tandem_openScope hnext.twin next.current next'.current _ _ false).bind ?_
      intro entered env env' opened opened' hopened henv
      refine (tandem_defineAt hopened.twin henv.scope (ρ.names_super false)
        (.class (hcls.mono hopened.grows))).bind fun last _ _ final final' hfinal _ => ?_
      have hsince := hopened.trans hfinal
      have hinner := (henv.mono hfinal.grows).aligned (haligned.mono hsince.grows)
      exact tandem_installClass hfinal.twin (hsince.aligned haligned) hhere hname hinner
        (.some (hcls.mono hsince.grows)) hmethods

/-! ### One level of evaluation -/

section Levels

variable {eval : Expr → EvalM Value} {exec : Stmt → EvalM Unit}

/-- Each kind of expression runs in tandem with its twin if the parts do. -/
theorem EvalTandem.level (heval : EvalTandem ρ eval) (hexec : ExecTandem ρ exec) :
    EvalTandem ρ (Expr.evalWith eval exec) := by
  intro P links store store' e e' h haligned htwin
  cases htwin with
  | literal value => exact Tandem.pure h (Value.twin_ofLiteral ρ P value)
  | «variable» huse =>
    obtain ⟨hplace, marked, hname, hbinding⟩ := huse
    exact tandem_readName h haligned hname hbinding (hplace.map Anchor.site)
  | assign htarget hvalue =>
    refine (heval h haligned hvalue).bind fun later value value' next next' hnext hvalue => ?_
    -- the target is written after its value is evaluated, in the same environments
    obtain ⟨hplace, marked, hname, hbinding⟩ := htarget
    refine (tandem_writeName hnext.twin (hnext.aligned haligned) hname hbinding
      (hplace.map Anchor.site) hvalue).bind ?_
    exact fun last _ _ final final' hfinal _ => Tandem.pure hfinal.twin (hvalue.mono hfinal.grows)
  | unary op hplace hoperand =>
    refine (heval h haligned hoperand).bind fun later value value' next next' hnext hvalue => ?_
    exact tandem_applyUnary hnext.twin op hvalue (hplace.map Anchor.site)
  | binary op hplace hleft hright =>
    refine (heval h haligned hleft).bind fun later a a' next next' hnext ha => ?_
    refine (heval hnext.twin (hnext.aligned haligned) hright).bind ?_
    intro last b b' final final' hfinal hb
    exact tandem_applyBinary hfinal.twin op (ha.mono hfinal.grows) hb (hplace.map Anchor.site)
  | logical op hleft hright =>
    refine (heval h haligned hleft).bind fun later a a' next next' hnext ha => ?_
    simp only [op.decides_congr ha.truthy_eq]
    split
    · exact Tandem.pure hnext.twin ha
    · exact heval hnext.twin (hnext.aligned haligned) hright
  | grouping hinner => exact heval h haligned hinner
  | call hplace hcallee harguments =>
    refine (heval h haligned hcallee).bind fun later callee callee' next next' hnext hcallee => ?_
    refine (tandem_evalAll heval hnext.twin (hnext.aligned haligned) harguments).bind ?_
    intro last values values' final final' hfinal hvalues
    exact tandem_apply hexec hfinal.twin (hcallee.mono hfinal.grows) hvalues
      (hplace.map Anchor.site)
  | get name hplace hobject =>
    refine (heval h haligned hobject).bind fun later value value' next next' hnext hvalue => ?_
    cases hvalue with
    | object id hcls =>
      exact tandem_getProperty hnext.twin id hcls name (hplace.map Anchor.site)
    | nil | bool | number | string | function | constant | computed | «class» =>
      exact Tandem.fail hnext.twin rfl
        (hplace.map fun anchor => RuntimeError.notAnInstance _ _ anchor.site)
  | set name hplace hobject hvalue =>
    refine (heval h haligned hobject).bind fun later holder holder' next next' hnext hholder => ?_
    cases hholder with
    | object id hcls =>
      refine (heval hnext.twin (hnext.aligned haligned) hvalue).bind ?_
      intro last value value' final final' hfinal hvalue
      refine (tandem_setField hfinal.twin rfl name hvalue).bind ?_
      exact fun latest _ _ ending ending' hending _ =>
        Tandem.pure hending.twin (hvalue.mono hending.grows)
    | nil | bool | number | string | function | constant | computed | «class» =>
      exact Tandem.fail hnext.twin rfl
        (hplace.map fun anchor => RuntimeError.notAnInstance _ _ anchor.site)
  | this hplace hbinding =>
    exact tandem_readName h haligned (ρ.names_this _) hbinding (hplace.map Anchor.site)
  | super method hplace hbinding =>
    exact tandem_superMethod h haligned method hbinding (hplace.map Anchor.site)

/-- Each kind of statement runs in tandem with its twin if the parts do. -/
theorem ExecTandem.level (rounds : Nat) (heval : EvalTandem ρ eval) (hexec : ExecTandem ρ exec) :
    ExecTandem ρ (Stmt.execWith rounds eval exec) := by
  intro P links store store' s s' h haligned htwin
  cases htwin with
  | expression hvalue =>
    refine (heval h haligned hvalue).bind ?_
    exact fun later _ _ next next' hnext _ => Tandem.pure hnext.twin trivial
  | print hvalue =>
    refine (heval h haligned hvalue).bind fun later value value' next next' hnext hvalue => ?_
    rw [hvalue.text_eq]
    exact tandem_printLine hnext.twin value.text
  | declare hhere hname hinitializer =>
    cases hinitializer with
    | none => exact tandem_defineHere h haligned hhere hname .nil
    | some hvalue =>
      refine (heval h haligned hvalue).bind fun later value value' next next' hnext hvalue => ?_
      exact tandem_defineHere hnext.twin (hnext.aligned haligned) hhere hname hvalue
  | block marked hbody =>
    exact Tandem.inBoth marked (tandem_execAll hexec (h.enterBoth _ _ marked)
      (haligned.enterBoth _ _ marked) hbody)
  | ifThen hcondition hbody =>
    refine (heval h haligned hcondition).bind fun later value value' next next' hnext hvalue => ?_
    simp only [hvalue.truthy_eq]
    split
    · exact hexec hnext.twin (hnext.aligned haligned) hbody
    · exact Tandem.pure hnext.twin trivial
  | ifElse hcondition hbody hother =>
    refine (heval h haligned hcondition).bind fun later value value' next next' hnext hvalue => ?_
    simp only [hvalue.truthy_eq]
    split
    · exact hexec hnext.twin (hnext.aligned haligned) hbody
    · exact hexec hnext.twin (hnext.aligned haligned) hother
  | loop hcondition hbody =>
    refine Tandem.whileTrue h (fun later next next' hnext => ?_) fun later next next' hnext => ?_
    · refine (heval hnext.twin (hnext.aligned haligned) hcondition).bind ?_
      exact fun last value value' final final' hfinal hvalue =>
        Tandem.pure hfinal.twin hvalue.truthy_eq
    · exact hexec hnext.twin (hnext.aligned haligned) hbody
  | function hhere hname hdeclaration =>
    simp only [Stmt.execWith]
    refine Tandem.getBind ?_
    rw [hdeclaration.name_eq]
    refine (tandem_newClosure h _ _ haligned false).bind ?_
    intro later closure closure' next next' hnext hclosure
    obtain ⟨hover, hsame, hsame', hfunction⟩ := hclosure
    -- the function closes over the environments in force, along the links of its own code
    refine tandem_defineHere hnext.twin (hnext.aligned haligned) hhere hname
      (.function ⟨links, hover, ?_, fun hinitializer => ?_⟩)
    · rw [hsame, hsame']
      exact hdeclaration
    · rw [hfunction] at hinitializer
      cases hinitializer
  | returning hvalue =>
    cases hvalue with
    | none => exact Tandem.throw h (.returned .nil)
    | some hvalue =>
      refine (heval h haligned hvalue).bind ?_
      exact fun later _ _ next next' hnext hvalue => Tandem.throw hnext.twin (.returned hvalue)
  | classDecl hhere hname hsuperclass hmethods =>
    cases hsuperclass with
    | none => exact tandem_declareClass h haligned hhere hname none .none rfl hmethods
    | @some parent parent' hparent =>
      -- the superclass is evaluated as an expression before the class is declared
      refine (heval h haligned (.variable hparent)).bind ?_
      intro later value value' next next' hnext hvalue
      refine (tandem_checkSuperclass hnext.twin hparent hvalue).bind ?_
      intro last cls cls' final final' hfinal hcls
      exact tandem_declareClass hfinal.twin ((hnext.trans hfinal).aligned haligned) hhere hname
        (some parent) (.some hcls) rfl hmethods

end Levels

/-- Twins run in tandem, whatever the limits. -/
theorem evalTandem_and_execTandem (ρ : Leeway) (rounds depth : Nat) :
    EvalTandem ρ (Expr.eval rounds depth) ∧ ExecTandem ρ (Stmt.exec rounds depth) := by
  induction depth with
  | zero =>
    exact ⟨fun _ _ _ _ _ _ h _ _ => Tandem.throw h .stackExhausted,
      fun _ _ _ _ _ _ h _ _ => Tandem.throw h .stackExhausted⟩
  | succ depth ih => exact ⟨ih.1.level ih.2, .level rounds ih.1 ih.2⟩

end Treewalk
