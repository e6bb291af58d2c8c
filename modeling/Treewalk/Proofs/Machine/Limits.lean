import Treewalk.Proofs.Machine.Computation

/-!
# Limits

Evaluation takes two limits, on nesting and on the rounds of a loop. They only cut computations
short: what comes to an end within some limits comes to the same end within wider ones.
-/

namespace Treewalk

/-- What ends a computation other than a limit. -/
def Halt.Final : Halt → Prop
  | .returned _ | .failed _ | .fault _ => True
  | .stackExhausted | .loopExhausted => False

/-- A result that no limit has cut short. -/
def Ended {α : Type} : EStateM.Result Halt Store α → Prop
  | .ok _ _ => True
  | .error halt _ => halt.Final

/-- Wherever the first computation ends, the second one ends in the same way. -/
def Refines {α : Type} (x y : EvalM α) : Prop :=
  ∀ store, Ended (x store) → y store = x store

namespace Refines

variable {α β : Type}

theorem refl (x : EvalM α) : Refines x x := fun _ _ => rfl

/-- Computations in sequence: a sequence ends only if its first part does. -/
theorem bind {x y : EvalM α} {f g : α → EvalM β} (hx : Refines x y)
    (hf : ∀ value, Refines (f value) (g value)) : Refines (x >>= f) (y >>= g) := by
  intro store hended
  cases hresult : x store with
  | ok value later =>
    have hfirst : y store = .ok value later := (hx store (by rw [hresult]; trivial)).trans hresult
    rw [bind_of_ok hresult] at hended ⊢
    rw [bind_of_ok hfirst]
    exact hf value later hended
  | error halt later =>
    rw [bind_of_error hresult] at hended ⊢
    have hfirst : y store = .error halt later := by
      rw [hx store (by rw [hresult]; exact hended), hresult]
    exact bind_of_error hfirst

theorem within (env : Env) {x y : EvalM α} (h : Refines x y) :
    Refines (Treewalk.within env x) (Treewalk.within env y) := by
  intro store hended
  unfold Treewalk.within at hended ⊢
  have hinner : Ended (x { store with current := env }) := by
    cases hresult : x { store with current := env } with
    | ok value later => trivial
    | error halt later =>
      rw [hresult] at hended
      exact hended
  rw [h _ hinner]

theorem catchReturn {x y : EvalM Unit} (h : Refines x y) :
    Refines (Treewalk.catchReturn x) (Treewalk.catchReturn y) := by
  intro store hended
  unfold Treewalk.catchReturn at hended ⊢
  have hinner : Ended (x store) := by
    cases hresult : x store with
    | ok value later => trivial
    | error halt later =>
      rw [hresult] at hended
      cases halt with
      | returned | failed | fault => trivial
      -- only a return is caught, so a limit reached inside is a limit reached
      | stackExhausted | loopExhausted => exact hended
  rw [h _ hinner]

theorem ite {x y x' y' : EvalM α} (c : Prop) [Decidable c] (hx : Refines x x')
    (hy : Refines y y') : Refines (if c then x else y) (if c then x' else y') := by
  by_cases h : c
  · rw [if_pos h, if_pos h]
    exact hx
  · rw [if_neg h, if_neg h]
    exact hy

/-- A loop that ends makes no more rounds if it may. -/
theorem whileTrue {limit limit' : Nat} (hlimit : limit ≤ limit') {condition condition' : EvalM Bool}
    {body body' : EvalM Unit} (hcondition : Refines condition condition')
    (hbody : Refines body body') :
    Refines (Treewalk.whileTrue limit condition body)
      (Treewalk.whileTrue limit' condition' body') := by
  induction limit generalizing limit' with
  | zero =>
    -- no round is left, so this result is not an end
    exact fun store hended => hended.elim
  | succ limit ih =>
    obtain ⟨limit', rfl⟩ : ∃ more, limit' = more + 1 := ⟨limit' - 1, by omega⟩
    rw [Treewalk.whileTrue, Treewalk.whileTrue]
    refine hcondition.bind fun goesOn => .ite _ ?_ (.refl _)
    exact hbody.bind fun _ => ih (by omega)

theorem mapM {f g : α → EvalM β} (h : ∀ item, Refines (f item) (g item)) (items : List α) :
    Refines (items.mapM f) (items.mapM g) := by
  induction items with
  | nil => exact .refl _
  | cons item items ih =>
    rw [List.mapM_cons, List.mapM_cons]
    exact (h item).bind fun _ => ih.bind fun _ => .refl _

theorem forM {f g : α → EvalM Unit} (h : ∀ item, Refines (f item) (g item)) (items : List α) :
    Refines (items.forM f) (items.forM g) := by
  induction items with
  | nil => exact .refl _
  | cons item items ih =>
    exact (h item).bind fun _ => ih

end Refines

/-! ### Calls -/

section Levels

variable {eval eval' : Expr → EvalM Value} {exec exec' : Stmt → EvalM Unit}

theorem refines_call (hexec : ∀ s, Refines (exec s) (exec' s)) (closure : Closure)
    (arguments : List Value) :
    Refines (closure.call exec arguments) (closure.call exec' arguments) := by
  unfold Closure.call
  refine (Refines.refl _).bind fun env => (Refines.refl _).bind fun _ => ?_
  exact (Refines.within env (.forM hexec _)).catchReturn.bind fun _ => .refl _

theorem refines_invoke (hexec : ∀ s, Refines (exec s) (exec' s)) (callee : Value)
    (arguments : List Value) :
    Refines (callee.invoke exec arguments) (callee.invoke exec' arguments) := by
  cases callee with
  | function closure => exact refines_call hexec closure arguments
  | «class» cls =>
    refine (Refines.refl _).bind fun inst => ?_
    cases cls.findMethod? "init" with
    | none => exact .refl _
    | some init =>
      refine (Refines.refl _).bind fun bound => ?_
      exact (refines_call hexec bound arguments).bind fun _ => .refl _
  | nil | bool | number | string | builtin | object => exact .refl _

theorem refines_apply (hexec : ∀ s, Refines (exec s) (exec' s)) (callee : Value)
    (arguments : List Value) (site : Site) :
    Refines (callee.apply exec arguments site) (callee.apply exec' arguments site) := by
  unfold Value.apply
  cases callee.signature? with
  | none => exact .refl _
  | some signature => exact .ite _ (refines_invoke hexec callee arguments) (.refl _)

/-! ### One level of evaluation -/

theorem refines_evalWith (heval : ∀ e, Refines (eval e) (eval' e))
    (hexec : ∀ s, Refines (exec s) (exec' s)) (e : Expr) :
    Refines (e.evalWith eval exec) (e.evalWith eval' exec') := by
  cases e with
  | literal | «variable» | this | super => exact .refl _
  | assign target value => exact (heval value).bind fun _ => .refl _
  | unary op operand anchor => exact (heval operand).bind fun _ => .refl _
  | binary op left right anchor =>
    exact (heval left).bind fun _ => (heval right).bind fun _ => .refl _
  | logical op left right => exact (heval left).bind fun _ => .ite _ (.refl _) (heval right)
  | grouping inner => exact heval inner
  | call callee arguments anchor =>
    refine (heval callee).bind fun callee => ?_
    exact (Refines.mapM heval arguments).bind fun values => refines_apply hexec callee values _
  | get object name anchor => exact (heval object).bind fun _ => .refl _
  | set object name value anchor =>
    refine (heval object).bind fun holder => ?_
    cases holder with
    | object inst => exact (heval value).bind fun _ => .refl _
    | nil | bool | number | string | function | builtin | «class» => exact .refl _

theorem refines_execWith {rounds rounds' : Nat} (hrounds : rounds ≤ rounds')
    (heval : ∀ e, Refines (eval e) (eval' e)) (hexec : ∀ s, Refines (exec s) (exec' s))
    (s : Stmt) : Refines (s.execWith rounds eval exec) (s.execWith rounds' eval' exec') := by
  cases s with
  | expression value => exact (heval value).bind fun _ => .refl _
  | print value => exact (heval value).bind fun _ => .refl _
  | declare name initializer =>
    cases initializer with
    | none => exact .refl _
    | some value => exact (heval value).bind fun _ => .refl _
  | block body =>
    refine (Refines.refl _).bind fun _ => (Refines.refl _).bind fun env => ?_
    exact .within env (.forM hexec body)
  | ifThen condition body => exact (heval condition).bind fun _ => .ite _ (hexec body) (.refl _)
  | ifElse condition body alternative =>
    exact (heval condition).bind fun _ => .ite _ (hexec body) (hexec alternative)
  | loop condition body =>
    exact .whileTrue hrounds ((heval condition).bind fun _ => .refl _) (hexec body)
  | function declaration => exact .refl _
  | returning value =>
    cases value with
    | none => exact .refl _
    | some value => exact (heval value).bind fun _ => .refl _
  | classDecl name superclass methods =>
    cases superclass with
    | none => exact .refl _
    | some parent => exact (heval (.variable parent)).bind fun _ => .refl _

end Levels

/-- What comes to an end within some limits comes to the same end within wider ones. -/
theorem refines_eval_and_exec {rounds rounds' depth depth' : Nat} (hrounds : rounds ≤ rounds')
    (hdepth : depth ≤ depth') :
    (∀ e, Refines (Expr.eval rounds depth e) (Expr.eval rounds' depth' e)) ∧
      ∀ s, Refines (Stmt.exec rounds depth s) (Stmt.exec rounds' depth' s) := by
  induction depth generalizing depth' with
  | zero => exact ⟨fun _ _ hended => hended.elim, fun _ _ hended => hended.elim⟩
  | succ depth ih =>
    -- one level uses the evaluator of the level below, for code of any shape
    obtain ⟨depth', rfl⟩ : ∃ more, depth' = more + 1 := ⟨depth' - 1, by omega⟩
    obtain ⟨heval, hexec⟩ := ih (Nat.le_of_succ_le_succ hdepth)
    exact ⟨refines_evalWith heval hexec, refines_execWith hrounds heval hexec⟩

end Treewalk
