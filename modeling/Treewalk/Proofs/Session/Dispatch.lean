import Treewalk.Proofs.Machine.Dispatch
import Treewalk.Proofs.Session.Reachable

/-!
# `this` and `super` in a session

Whenever a program of a session evaluates `this`, its value is the instance to which the running
method was bound. Whenever it evaluates `super`, the result is the nearest method of the name going
up from the superclass of the class in which the running method was declared, bound to that same
instance. This does not depend on the class of the instance, on how deep in functions the expression
stands, on when these functions are called, or on what became of the variables that name the
classes.
-/

namespace Treewalk

/-- The history of the store before the first run is empty. -/
theorem Store.explained_initial (time : Clock) : (Store.initial time).Explained := by
  refine ⟨⟨time, .refl _⟩, .session, fun id name value hfound => ?_, fun table htable => ?_⟩
  · rw [Store.eq_clock_of_initial hfound]
    exact .computed 0 "clock" 0 _
  · exact absurd htable (Array.not_mem_empty table)

theorem Store.Provides.arises {store : Store} {value : Value} (h : store.Provides value)
    (hexplained : store.Explained) : value.Arises store := by
  cases h with
  | literal literal => exact Value.arises_ofLiteral literal
  | bound h => exact hexplained.values _ _ _ h
  | field htable h => exact hexplained.fields _ htable _ _ h

theorem Store.Explained.clear {store : Store} (h : store.Explained) :
    Store.Explained { store with printed := #[] } := by
  have hlater : store.Later { store with printed := #[] } := .single .clear
  exact h.of_eq hlater rfl rfl (h.current.mono hlater)

namespace Session

variable {session : Session}

/-- A run leaves the store explained, however it ends. -/
theorem explained_run (h : session.store.Explained) (source path : String) :
    (session.run source path).session.store.Explained := by
  by_cases herrors : (session.read source path).1.errors = []
  · rw [run_session_of_no_errors herrors]
    -- which resolutions are known does not matter for the history
    have hready := ready_read herrors fun _ _ => trivial
    have htraced := Program.traced_exec roundLimit nestingLimit h.clear hready
    unfold execute
    cases hresult : (session.read source path).1.program.bindNames.exec roundLimit nestingLimit
        { (session.read source path).2.store with printed := #[] } with
    | ok value later => exact (htraced.of_ok hresult).2.1
    | error halt later => exact (htraced.of_error hresult).2.1
  · rw [run_session_of_errors herrors]
    exact h

/-- A builtin function is a value that arises, if the value that it gives does. -/
theorem explained_defineBuiltin (h : session.store.Explained) (name : String) (arity : Int)
    (body : BuiltinBody Value)
    (hbody : ∀ value, body = .constant value → session.store.Provides value) :
    (session.defineBuiltin name arity body).1.store.Explained := by
  let builtin := Value.builtin session.store.nextId name arity body
  let defined : Store := { session.store with
    scopes := session.store.scopes.define globalEnv.scope name builtin }
  have hbuiltin : builtin.Arises session.store := by
    cases body with
    | constant value => exact .constant _ name arity ((hbody value rfl).arises h)
    | computed answer => exact .computed _ name arity answer
  have hlater : session.store.Later { defined with nextId := defined.nextId + 1 } :=
    (Store.Later.single (.define _ name builtin fun _ => .inr h.occurs.session)).trans
      (.single .number)
  refine h.extend hlater (h.current.mono hlater) (fun id key value hfound => ?_)
    fun table htable key value hfound => .inl ⟨table, htable, hfound⟩
  rcases Scopes.find?_bindings_define hfound with ⟨_, _, rfl⟩ | hold
  · exact .inr (hbuiltin.mono hlater)
  · exact .inl hold

/-- The history of a reachable session explains its store. -/
theorem Reachable.explained (h : session.Reachable) : session.store.Explained := by
  induction h with
  | new directory time => exact Store.explained_initial time
  | run source path _ ih => exact explained_run ih source path
  | defineBuiltin name arity body hbody _ ih =>
    exact explained_defineBuiltin ih name arity body hbody
  | @tick session time _ ih =>
    have hlater : session.store.Later { session.store with time } := .single (.tick time)
    exact ih.of_eq hlater rfl rfl (ih.current.mono hlater)

/-- An expression of a program of a session stands in the body of a method: between the two there
are only blocks and functions. -/
def InMethod (session : Session) (e : Expr) (f : FunctionDecl) : Prop :=
  ∃ r, session.Resolves r ∧ r.node = e ∧ r.layout.InMethod f

/-- At every moment in which a run of a reachable session evaluates `this` or `super`, it runs the
code of a method that was bound to an instance and then called. Whatever the history of the store,
and whatever method it runs, `this` gives the receiver to which the method was bound, and `super`
gives the nearest method going up from what the superclass of the class that declares the method was
when its statement was executed, bound to that same receiver. -/
theorem Reachable.dispatch (h : session.Reachable) {source path : String}
    (herrors : (session.read source path).1.errors = []) {rounds depth : Nat} {e : Expr}
    {store : Store}
    (hmoment : (session.read source path).1.program.bindNames.Evaluates rounds depth
      { (session.read source path).2.store with printed := #[] } e store) :
    (∀ anchor binding, e = .this anchor binding →
      (∃ superclass method inst, store.RunsMethod superclass method (.object inst)) ∧
      ∀ superclass method receiver, store.RunsMethod superclass method receiver →
        (session.read source path).2.InMethod e method.declaration ∧
        ∀ rounds depth, e.eval rounds (depth + 1) store = .ok receiver store) ∧
    (∀ name anchor binding, e = .super name anchor binding →
      (∃ superclass method inst, store.RunsMethod superclass method (.object inst)) ∧
      ∀ superclass method receiver, store.RunsMethod superclass method receiver →
        (session.read source path).2.InMethod e method.declaration ∧
        ∃ cls, superclass = some cls ∧
          ∀ rounds depth, e.eval rounds (depth + 1) store =
            cls.bindMethod name receiver anchor.site store) := by
  have hsettled : (session.read source path).2.Settled := h.settled.read
  have hsound : Store.Sound ⟨.any, (session.read source path).2.Resolves⟩
      { (session.read source path).2.store with printed := #[] } :=
    (hsettled.sound _ fun _ hr => hr).of_eq rfl rfl
  have hready := hmoment.readyAt {} hsound hsettled.matches .session
    (fun scope hscope => absurd hscope (by simp)) (ready_read herrors fun _ hr => hr)
  have hexplained := hmoment.explained h.explained.clear (ready_read herrors fun _ _ => trivial)
  constructor
  · intro anchor binding he
    subst he
    exact hexplained.dispatch_this hready
  · intro name anchor binding he
    subst he
    exact hexplained.dispatch_super hready

end Session

section OverrideExample

/-- Two classes, of which the second overrides a method of the first, and a call of the method after
the first class lost its name. -/
def overrideSource : String :=
  "class A \x7b m() \x7b\x7d \x7d class B < A \x7b m() \x7b super.m; \x7d \x7d A = nil; B().m();"

/-- A token on the first line of the first source. -/
def lineToken (kind : TokenKind) (lexeme : String) (offset : Nat) : Token :=
  ⟨kind, lexeme, 1, offset + 1, .ofLength 1 offset lexeme.length⟩

/-- The method of the first class. -/
def inheritedMethod : FunctionDecl := .mk "m" [] [] (lineToken .identifier "m" 10).anchor

/-- The use of `super`, with a binding. -/
def superUse (binding : Binding) : Expr :=
  .super "m" (lineToken (.keyword .kwSuper) "super" 39).anchor binding

/-- The method of the second class. -/
def overridingMethod (binding : Binding) : FunctionDecl :=
  .mk "m" [] [.expression (superUse binding)] (lineToken .identifier "m" 33).anchor

def superclassUse : Reference := (lineToken .identifier "A" 29).reference

def forgetClass : Expr := .assign (lineToken .identifier "A" 52).reference (.literal .nil)

def newReceiver : Expr :=
  .call (.variable (lineToken .identifier "B" 61).reference) []
    (lineToken .rightParen ")" 63).anchor

def receiverMethod : Expr := .get newReceiver "m" (lineToken .identifier "m" 65).anchor

def callMethod : Expr := .call receiverMethod [] (lineToken .rightParen ")" 67).anchor

def overrideProgram (binding : Binding) : Program :=
  [.classDecl "A" none [inheritedMethod],
    .classDecl "B" (some superclassUse) [overridingMethod binding], .expression forgetClass,
    .expression callMethod]

theorem reading_override :
    (Reading.ofText 1 overrideSource).errors = [] ∧
      (Reading.ofText 1 overrideSource).program = overrideProgram .global := by
  constructor <;> with_unfolding_all rfl

/-- The first class. -/
def baseClass : Class := .base 2 "A" ⟨[("m", ⟨1, inheritedMethod, globalEnv, false⟩)]⟩

/-- The second class. -/
def derivedClass : Class :=
  .derived 4 "B" ⟨[("m", ⟨3, overridingMethod (.enclosing 2), ⟨1, [0]⟩, false⟩)]⟩ baseClass

/-- The store after the first class is declared. -/
def baseStore : Store where
  scopes := ⟨#[⟨.session, ⟨[("clock", .builtin 0 "clock" 0 .clock), ("A", .class baseClass)]⟩⟩]⟩
  fields := #[]
  nextId := 3
  current := globalEnv
  printed := #[]
  time := 0

/-- The store after both classes are declared, with what the name of the first one then stands
for. -/
def derivedStore (first : Value) : Store :=
  { baseStore with
    scopes := ⟨#[⟨.session, ⟨[("clock", .builtin 0 "clock" 0 .clock), ("A", first),
        ("B", .class derivedClass)]⟩⟩,
      ⟨.superclass, ⟨[("super", .class baseClass)]⟩⟩]⟩
    nextId := 5 }

/-- The store after the method is bound to its receiver. -/
def boundStore : Store :=
  { derivedStore .nil with
    scopes :=
      (derivedStore .nil).scopes.addWith .receiver "this" (.object ⟨0, derivedClass⟩)
    fields := #[⟨[]⟩]
    nextId := 6 }

/-- The store in which `super` is evaluated: in the call of the bound method. -/
def superStore : Store :=
  { boundStore with
    scopes := (boundStore.scopes.add (.call (overridingMethod (.enclosing 2)))).2
    current := ⟨3, [2, 1, 0]⟩ }

/-- The watch for the moment in which `super` is evaluated. -/
noncomputable def superWatch (fault : Fault) : Watch :=
  .single (superUse (.enclosing 2)) superStore fault

section Watched

variable (fault : Fault)

/-- Up to that moment, the watch changes nothing. -/
theorem evalWatched_superWatch (depth : Nat) {e : Expr} (he : e ≠ superUse (.enclosing 2)) :
    Expr.evalWatched (superWatch fault) 0 (depth + 1) e =
      e.evalWith (Expr.evalWatched (superWatch fault) 0 depth)
        (Stmt.execWatched (superWatch fault) 0 depth) :=
  Watch.over_single_of_ne he superStore fault _

theorem exec_secondClass :
    Stmt.execWatched (superWatch fault) 0 5
      (.classDecl "B" (some superclassUse) [overridingMethod (.enclosing 2)]) baseStore =
      .ok () (derivedStore (.class baseClass)) := by
  have hsuperclass : Expr.evalWatched (superWatch fault) 0 4 (.variable superclassUse) baseStore =
      .ok (.class baseClass) baseStore := by
    rw [evalWatched_superWatch fault 3 fun h => by cases h]
    rfl
  exact bind_of_ok hsuperclass

theorem exec_forgetClass :
    Stmt.execWatched (superWatch fault) 0 5 (.expression forgetClass)
      (derivedStore (.class baseClass)) = .ok () (derivedStore .nil) := by
  have hnil : Expr.evalWatched (superWatch fault) 0 3 (.literal .nil)
      (derivedStore (.class baseClass)) = .ok .nil (derivedStore (.class baseClass)) := by
    rw [evalWatched_superWatch fault 2 fun h => by cases h]
    rfl
  have hassign : Expr.evalWatched (superWatch fault) 0 4 forgetClass
      (derivedStore (.class baseClass)) = .ok .nil (derivedStore .nil) := by
    rw [evalWatched_superWatch fault 3 fun h => by cases h]
    exact bind_of_ok hnil
  exact bind_of_ok hassign

/-- The method of the second class, bound to the receiver. -/
def boundMethod : Closure := ⟨5, overridingMethod (.enclosing 2), ⟨2, [1, 0]⟩, false⟩

theorem eval_receiverMethod :
    Expr.evalWatched (superWatch fault) 0 3 receiverMethod (derivedStore .nil) =
      .ok (.function boundMethod) boundStore := by
  have hclass : Expr.evalWatched (superWatch fault) 0 1
      (.variable (lineToken .identifier "B" 61).reference) (derivedStore .nil) =
      .ok (.class derivedClass) (derivedStore .nil) := by
    rw [evalWatched_superWatch fault 0 fun h => by cases h]
    rfl
  have hnew : Expr.evalWatched (superWatch fault) 0 2 newReceiver (derivedStore .nil) =
      .ok (.object ⟨0, derivedClass⟩) { derivedStore .nil with fields := #[⟨[]⟩] } := by
    rw [evalWatched_superWatch fault 1 fun h => by cases h]
    exact bind_of_ok hclass
  rw [evalWatched_superWatch fault 2 fun h => by cases h]
  exact bind_of_ok hnew

theorem call_boundMethod :
    boundMethod.call (Stmt.execWatched (superWatch fault) 0 3) [] boundStore =
      .error (.fault fault) { superStore with current := globalEnv } := by
  have hsuper : Expr.evalWatched (superWatch fault) 0 2 (superUse (.enclosing 2)) superStore =
      .error (.fault fault) superStore := Watch.over_single_self _ superStore fault _
  have hbody : boundMethod.declaration.body.forM (Stmt.execWatched (superWatch fault) 0 3)
      superStore = .error (.fault fault) superStore :=
    bind_of_error (bind_of_error hsuper)
  have hrun : catchReturn (within ⟨3, [2, 1, 0]⟩
      (boundMethod.declaration.body.forM (Stmt.execWatched (superWatch fault) 0 3)))
      { superStore with current := globalEnv } =
      .error (.fault fault) { superStore with current := globalEnv } := by
    unfold catchReturn
    rw [within_of_error hbody]
  -- the call opens its scope inside that of the receiver, and there are no parameters
  have hopen : openScope boundMethod.env (.call boundMethod.declaration) boundStore =
      .ok ⟨3, [2, 1, 0]⟩ { superStore with current := globalEnv } := rfl
  have hparams : defineParams ⟨3, [2, 1, 0]⟩ [] [] { superStore with current := globalEnv } =
      .ok () { superStore with current := globalEnv } := rfl
  exact (bind_of_ok hopen).trans ((bind_of_ok hparams).trans (bind_of_error hrun))

theorem eval_callMethod :
    Expr.evalWatched (superWatch fault) 0 4 callMethod (derivedStore .nil) =
      .error (.fault fault) { superStore with current := globalEnv } := by
  have hnone : ([] : List Expr).mapM (Expr.evalWatched (superWatch fault) 0 3) boundStore =
      .ok [] boundStore := rfl
  rw [evalWatched_superWatch fault 3 fun h => by cases h]
  exact (bind_of_ok (eval_receiverMethod fault)).trans
    ((bind_of_ok hnone).trans (call_boundMethod fault))

end Watched

theorem evaluates_override :
    Program.Evaluates 0 5 (overrideProgram (.enclosing 2)) (.initial 0) (superUse (.enclosing 2))
      superStore := by
  intro fault
  have hbase : Stmt.execWatched (superWatch fault) 0 5 (.classDecl "A" none [inheritedMethod])
      (.initial 0) = .ok () baseStore := rfl
  have hcall : Stmt.execWatched (superWatch fault) 0 5 (.expression callMethod)
      (derivedStore .nil) = .error (.fault fault) { superStore with current := globalEnv } :=
    bind_of_error (eval_callMethod fault)
  exact ⟨_, (bind_of_ok hbase).trans ((bind_of_ok (exec_secondClass fault)).trans
    ((bind_of_ok (exec_forgetClass fault)).trans (bind_of_error hcall)))⟩

theorem dispatch_override :
    let session := Session.new "/" 0
    let reading := (session.read overrideSource "<s>").1
    let later := (session.read overrideSource "<s>").2
    session.Reachable ∧ reading.errors = [] ∧
      reading.program.bindNames.Evaluates 0 5 { later.store with printed := #[] }
        (superUse (.enclosing 2)) superStore ∧
      (∃ superclass method inst, superStore.RunsMethod superclass method (.object inst)) ∧
      ∀ superclass method receiver, superStore.RunsMethod superclass method receiver →
        later.InMethod (superUse (.enclosing 2)) method.declaration ∧
        ∃ cls, superclass = some cls ∧ ∀ rounds depth,
          (superUse (.enclosing 2)).eval rounds (depth + 1) superStore =
            cls.bindMethod "m" receiver
              (lineToken (.keyword .kwSuper) "super" 39).anchor.site superStore := by
  intro session reading later
  have hreachable : session.Reachable := .new "/" 0
  have herrors : reading.errors = [] := reading_override.1
  have hmoment : reading.program.bindNames.Evaluates 0 5 { later.store with printed := #[] }
      (superUse (.enclosing 2)) superStore := by
    have hprogram : reading.program = overrideProgram .global := reading_override.2
    rw [hprogram]
    exact evaluates_override
  obtain ⟨_, hsuper⟩ := hreachable.dispatch herrors hmoment
  exact ⟨hreachable, herrors, hmoment, hsuper "m" _ _ rfl⟩

end OverrideExample

end Treewalk
