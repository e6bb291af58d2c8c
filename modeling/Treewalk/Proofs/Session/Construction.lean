import Treewalk.Proofs.Machine.Initializers
import Treewalk.Proofs.Session.Dispatch

/-!
# Construction and initializers in a session

Whenever a program of a session calls a class and the call completes, it gives an instance of that
class which the call itself made. Whenever it calls a method named `init` that was bound to an
instance, and the call completes, it gives that instance. This does not depend on the bodies of the
initializers, on how the bound method was reached, or on how long it was kept. There are no other
initializers among the values of a session: the innermost scope of each binds `this`.
-/

namespace Treewalk

/-- Every initializer among the values of a store was bound to an instance, and the innermost scope
of its closure binds `this` to that instance. -/
def Store.BoundInitializers (store : Store) : Prop :=
  ∀ closure, store.Provides (.function closure) → closure.initializer = true →
    ∃ inst, store.Initializes inst closure ∧
      store.scopes.getAt closure.env 0 "this" = .ok (.object inst)

theorem Store.Explained.boundInitializers {store : Store} {known : Known}
    (h : store.Explained) (hsound : store.Sound known) : store.BoundInitializers := by
  intro closure hprovides hinit
  have harises := hprovides.arises h
  cases harises with
  | function hclosure =>
    obtain ⟨inst, hinitializes⟩ := hclosure.initializes hsound hinit
    exact ⟨inst, hinitializes, hinitializes.this⟩

namespace Session

variable {session : Session}

/-- In every reachable session and at every moment of its runs, each initializer that is a value is
bound. A call of a class gives a new instance of that class if it completes, and a call of a bound
initializer gives its receiver. Bound initializers come from a property `init` of their receiver, if
no field hides the method, or from `super.init` in a method that runs for their receiver. -/
theorem Reachable.initializers (h : session.Reachable) {source path : String}
    (herrors : (session.read source path).1.errors = []) {rounds depth : Nat} {e : Expr}
    {store : Store}
    (hmoment : (session.read source path).1.program.bindNames.Evaluates rounds depth
      { (session.read source path).2.store with printed := #[] } e store) :
    (session.store.BoundInitializers ∧ store.BoundInitializers ∧
      ∀ rounds depth closure later, e.eval rounds depth store = .ok (.function closure) later →
        closure.initializer = true → ∃ inst, later.Initializes inst closure ∧
          later.scopes.getAt closure.env 0 "this" = .ok (.object inst)) ∧
    (∀ callee arguments anchor, e = .call callee arguments anchor →
      ∀ target before value after,
        store.Completes callee arguments anchor target before value after →
        (∀ cls, target = .class cls → ∃ inst, value = .object inst ∧ inst.cls = cls ∧
          before.fields.size ≤ inst.id ∧ inst.id < after.fields.size) ∧
        ∀ inst bound, target = .function bound → before.Initializes inst bound →
          value = .object inst) ∧
    (∀ object anchor, e = .get object "init" anchor → ∀ rounds depth inst before value after,
      object.eval rounds depth store = .ok (.object inst) before →
      e.eval rounds (depth + 1) store = .ok value after →
      (before.fieldsOf inst).find? "init" = some value ∨
        ∃ bound, value = .function bound ∧ after.Initializes inst bound) ∧
    ∀ anchor binding, e = .super "init" anchor binding → ∀ rounds depth value after,
      e.eval rounds depth store = .ok value after →
      ∃ superclass method inst bound, store.RunsMethod superclass method (.object inst) ∧
        value = .function bound ∧ after.Initializes inst bound := by
  have hsettled : (session.read source path).2.Settled := h.settled.read
  have hsound : Store.Sound .any
      { (session.read source path).2.store with printed := #[] } :=
    (hsettled.sound _ fun _ _ => trivial).of_eq rfl rfl
  have hready := hmoment.readyAt {} hsound hsettled.matches .session
    (fun scope hscope => absurd hscope (by simp)) (ready_read herrors fun _ _ => trivial)
  have hexplained := hmoment.explained h.explained.clear (ready_read herrors fun _ _ => trivial)
  refine ⟨⟨?_, hexplained.boundInitializers hready.sound, ?_⟩, ?_, ?_, ?_⟩
  · exact h.explained.boundInitializers (h.settled.sound (fun _ => True) fun _ _ => trivial)
  · intro rounds depth closure later hvalue hinit
    obtain ⟨inst, hinitializes⟩ := hready.initializes hexplained hvalue hinit
    exact ⟨inst, hinitializes, hinitializes.this⟩
  · intro callee arguments anchor he target before value after hcall
    subst he
    constructor
    · intro cls htarget
      subst htarget
      exact hcall.constructs hexplained hready
    · intro inst bound htarget hinit
      subst htarget
      exact hcall.gives_receiver hexplained hready hinit
  · intro object anchor he rounds depth inst before value after hobject hget
    subst he
    exact hready.get_init hexplained hobject hget
  · intro anchor binding he rounds depth value after hsuper
    subst he
    exact hready.super_init hexplained hsuper

end Session

section InitializerExample

/-- A class with an initializer, which is called again for a new instance. -/
def initializerSource : String :=
  "class A \x7b init() \x7b\x7d \x7d A().init();"

def emptyInitializer : FunctionDecl := .mk "init" [] [] (lineToken .identifier "init" 10).anchor

def newInitialized : Expr :=
  .call (.variable (lineToken .identifier "A" 22).reference) []
    (lineToken .rightParen ")" 24).anchor

def initializerUse : Expr := .get newInitialized "init" (lineToken .identifier "init" 26).anchor

def callInitializer : Expr := .call initializerUse [] (lineToken .rightParen ")" 31).anchor

def initializerProgram : Program :=
  [.classDecl "A" none [emptyInitializer], .expression callInitializer]

theorem reading_initializer :
    (Reading.ofText 1 initializerSource).errors = [] ∧
      (Reading.ofText 1 initializerSource).program = initializerProgram := by
  constructor <;> with_unfolding_all rfl

/-- The class of the example. -/
def initializedClass : Class := .base 2 "A" ⟨[("init", ⟨1, emptyInitializer, globalEnv, true⟩)]⟩

/-- The store after the class is declared. -/
def initializedStore : Store where
  scopes := ⟨#[⟨.session,
    ⟨[("clock", .builtin 0 "clock" 0 .clock), ("A", .class initializedClass)]⟩⟩]⟩
  fields := #[]
  nextId := 3
  current := globalEnv
  printed := #[]
  time := 0

/-- The store after an instance is made: its initializer was bound and called. -/
def instanceStore : Store :=
  { initializedStore with
    scopes := ((initializedStore.scopes.addWith .receiver "this"
      (.object ⟨0, initializedClass⟩)).add (.call emptyInitializer)).2
    fields := #[⟨[]⟩]
    nextId := 4 }

/-- The initializer, bound once more. -/
def boundInitializer : Closure := ⟨4, emptyInitializer, ⟨3, [0]⟩, true⟩

/-- The store after the initializer is bound once more. -/
def reboundStore : Store :=
  { instanceStore with
    scopes := instanceStore.scopes.addWith .receiver "this" (.object ⟨0, initializedClass⟩)
    nextId := 5 }

/-- The store after the initializer is called once more. -/
def recalledStore : Store :=
  { reboundStore with scopes := (reboundStore.scopes.add (.call emptyInitializer)).2 }

theorem eval_newInitialized : newInitialized.eval 0 2 initializedStore =
    .ok (.object ⟨0, initializedClass⟩) instanceStore := rfl

theorem eval_initializerUse : initializerUse.eval 0 3 initializedStore =
    .ok (.function boundInitializer) reboundStore :=
  (bind_of_ok eval_newInitialized).trans rfl

theorem eval_callInitializer : callInitializer.eval 0 4 initializedStore =
    .ok (.object ⟨0, initializedClass⟩) recalledStore :=
  (bind_of_ok eval_initializerUse).trans rfl

/-- The program evaluates the call of the initializer, and before that its callee. -/
theorem evaluates_initializer :
    Program.Evaluates 0 5 initializerProgram (.initial 0) callInitializer initializedStore ∧
      Program.Evaluates 0 5 initializerProgram (.initial 0) initializerUse initializedStore := by
  have hclass : ∀ watch : Watch, Stmt.execWatched watch 0 5
      (.classDecl "A" none [emptyInitializer]) (.initial 0) = .ok () initializedStore :=
    fun _ => rfl
  constructor
  · intro fault
    have hcall := Watch.over_single_self callInitializer initializedStore fault
      (Expr.evalWith (Expr.evalWatched (.single callInitializer initializedStore fault) 0 3)
        (Stmt.execWatched (.single callInitializer initializedStore fault) 0 3))
    exact ⟨_, (bind_of_ok (hclass _)).trans (bind_of_error (bind_of_error hcall))⟩
  · intro fault
    let watch := Watch.single initializerUse initializedStore fault
    have huse : Expr.evalWatched watch 0 3 initializerUse initializedStore =
        .error (.fault fault) initializedStore := Watch.over_single_self _ _ _ _
    have hother : callInitializer ≠ initializerUse := fun h => by cases h
    have hpass := Watch.over_single_of_ne hother initializedStore fault
      (Expr.evalWith (Expr.evalWatched watch 0 3) (Stmt.execWatched watch 0 3))
    have hcall : Expr.evalWatched watch 0 4 callInitializer initializedStore =
        .error (.fault fault) initializedStore := (congrFun hpass _).trans (bind_of_error huse)
    exact ⟨_, (bind_of_ok (hclass _)).trans (bind_of_error (bind_of_error hcall))⟩

theorem initializers_calledAgain :
    let session := Session.new "/" 0
    let reading := (session.read initializerSource "<s>").1
    let later := (session.read initializerSource "<s>").2
    let inst : Instance := ⟨0, initializedClass⟩
    session.Reachable ∧ reading.errors = [] ∧
      reading.program.bindNames.Evaluates 0 5 { later.store with printed := #[] } callInitializer
        initializedStore ∧
      reboundStore.Initializes inst boundInitializer ∧
      ∃ value after, initializedStore.Completes initializerUse []
          (lineToken .rightParen ")" 31).anchor (.function boundInitializer) reboundStore value
          after ∧ value = .object inst := by
  intro session reading later inst
  have hreachable : session.Reachable := .new "/" 0
  have herrors : reading.errors = [] := reading_initializer.1
  have hprogram : reading.program = initializerProgram := reading_initializer.2
  have hmoments := evaluates_initializer
  rw [show initializerProgram = reading.program.bindNames by rw [hprogram]; rfl] at hmoments
  -- at the moment before, the method of the new instance is bound to it
  have hinitializes : reboundStore.Initializes inst boundInitializer := by
    obtain ⟨_, _, hget, _⟩ := hreachable.initializers herrors hmoments.2
    rcases hget _ _ rfl 0 2 inst _ _ _ eval_newInitialized eval_initializerUse with
      hfield | ⟨bound, hbound, hinitializes⟩
    · cases hfield
    · cases hbound
      exact hinitializes
  have hcompletes : initializedStore.Completes initializerUse []
      (lineToken .rightParen ")" 31).anchor (.function boundInitializer) reboundStore
      (.object inst) recalledStore := ⟨eval_initializerUse, rfl, eval_callInitializer⟩
  obtain ⟨_, hcalls, _⟩ := hreachable.initializers herrors hmoments.1
  obtain ⟨_, hgives⟩ := hcalls _ _ _ rfl _ _ _ _ hcompletes
  exact ⟨hreachable, herrors, hmoments.1, hinitializes, .object inst, recalledStore, hcompletes,
    hgives inst boundInitializer rfl hinitializes⟩

end InitializerExample

end Treewalk
