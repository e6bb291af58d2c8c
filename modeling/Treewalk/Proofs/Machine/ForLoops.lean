import Treewalk.Proofs.Machine.Limits
import Treewalk.Proofs.Machine.TwinRuns

/-!
# For loops

A `for` loop has no tree of its own: the grammar turns it into a `while` loop inside blocks, and the
evaluator never hears of it. Its meaning can also be said directly. The loop opens one scope, in
which the initializer runs once. Then, as long as the condition holds there, the body is executed
and the increment evaluated. There is one scope for all rounds, so one binding of the loop variable,
which closures made in the body share; what cuts the body short skips the increment.

The two accounts agree. They open different scopes, since the tree has no block for a loop without
an initializer and has one around the body of a loop with an increment, but these scopes declare
nothing.
-/

namespace Treewalk

open Grammar (LoopClauses Place)

/-! ### The direct rule -/

/-- The direct rule for a loop, given its parts. -/
def forLoop (rounds : Nat) (initializer : EvalM Unit) (condition : EvalM Bool)
    (body increment : EvalM Unit) : EvalM Unit :=
  inScope (.block []) do
    initializer
    whileTrue rounds condition do
      body
      increment

section Clauses

variable (rounds depth : Nat) (scopes : StaticScopes)

/-- The initializer of a loop, if there is one. -/
def execInitializer : Option Stmt → EvalM Unit
  | some initializer => (initializer.bindNames scopes).1.exec rounds depth
  | none => pure ()

/-- Whether the condition of a loop holds; one that is left out does. -/
def evalCondition : Option Expr → EvalM Bool
  | some condition => return (← (condition.bindNames scopes).eval rounds depth).truthy
  | none => return true

/-- The increment of a loop, if there is one. -/
def evalIncrement : Option Expr → EvalM Unit
  | some increment => discard ((increment.bindNames scopes).eval rounds depth)
  | none => pure ()

end Clauses

/-- The scopes after the initializer of a loop. -/
def scopesAfter (scopes : StaticScopes) : Option Stmt → StaticScopes
  | some initializer => (initializer.bindNames scopes).2
  | none => scopes

/-- How deep evaluation may nest in each part of a loop. -/
structure LoopDepths where
  initializer : Nat
  condition : Nat
  body : Nat
  increment : Nat

/-- One limit for all parts. -/
def LoopDepths.all (depth : Nat) : LoopDepths := ⟨depth, depth, depth, depth⟩

/-- The direct rule for the clauses and the body of a loop that stands in some scopes. -/
def Grammar.LoopClauses.runAt (clauses : LoopClauses) (body : Stmt) (scopes : StaticScopes)
    (rounds : Nat) (depths : LoopDepths) : EvalM Unit :=
  let inner := scopesAfter ([] :: scopes) clauses.initializer
  forLoop rounds (execInitializer rounds depths.initializer ([] :: scopes) clauses.initializer)
    (evalCondition rounds depths.condition inner clauses.condition)
    ((body.bindNames inner).1.exec rounds depths.body)
    (evalIncrement rounds depths.increment inner clauses.increment)

/-- The direct rule with one limit for all parts. -/
def Grammar.LoopClauses.run (clauses : LoopClauses) (body : Stmt) (scopes : StaticScopes)
    (rounds depth : Nat) : EvalM Unit :=
  clauses.runAt body scopes rounds (.all depth)

/-! ### Wider limits -/

theorem Refines.inScope {α : Type} (origin : ScopeOrigin) {x y : EvalM α} (h : Refines x y) :
    Refines (Treewalk.inScope origin x) (Treewalk.inScope origin y) :=
  (Refines.refl _).bind fun _ => (Refines.refl _).bind fun env => h.within env

theorem Refines.forLoop (rounds : Nat) {initializer initializer' body body' : EvalM Unit}
    {condition condition' : EvalM Bool} {increment increment' : EvalM Unit}
    (hinitializer : Refines initializer initializer') (hcondition : Refines condition condition')
    (hbody : Refines body body') (hincrement : Refines increment increment') :
    Refines (Treewalk.forLoop rounds initializer condition body increment)
      (Treewalk.forLoop rounds initializer' condition' body' increment') := by
  refine .inScope _ (hinitializer.bind fun _ => ?_)
  exact .whileTrue (Nat.le_refl rounds) hcondition (hbody.bind fun _ => hincrement)

section Limits

variable {rounds depth depth' : Nat} (hdepth : depth ≤ depth') (scopes : StaticScopes)

include hdepth

theorem refines_execInitializer (initializer : Option Stmt) :
    Refines (execInitializer rounds depth scopes initializer)
      (execInitializer rounds depth' scopes initializer) := by
  cases initializer with
  | none => exact .refl _
  | some initializer => exact (refines_eval_and_exec (Nat.le_refl rounds) hdepth).2 _

theorem refines_evalCondition (condition : Option Expr) :
    Refines (evalCondition rounds depth scopes condition)
      (evalCondition rounds depth' scopes condition) := by
  cases condition with
  | none => exact .refl _
  | some condition =>
    exact ((refines_eval_and_exec (Nat.le_refl rounds) hdepth).1 _).bind fun _ => .refl _

theorem refines_evalIncrement (increment : Option Expr) :
    Refines (evalIncrement rounds depth scopes increment)
      (evalIncrement rounds depth' scopes increment) := by
  cases increment with
  | none => exact .refl _
  | some increment =>
    exact ((refines_eval_and_exec (Nat.le_refl rounds) hdepth).1 _).bind fun _ => .refl _

end Limits

/-- Each part may nest at least as deep. -/
structure LoopDepths.Le (depths depths' : LoopDepths) : Prop where
  initializer : depths.initializer ≤ depths'.initializer
  condition : depths.condition ≤ depths'.condition
  body : depths.body ≤ depths'.body
  increment : depths.increment ≤ depths'.increment

theorem refines_runAt {depths depths' : LoopDepths} (h : depths.Le depths') (clauses : LoopClauses)
    (body : Stmt) (scopes : StaticScopes) (rounds : Nat) :
    Refines (clauses.runAt body scopes rounds depths) (clauses.runAt body scopes rounds depths') :=
  .forLoop rounds (refines_execInitializer h.initializer _ _)
    (refines_evalCondition h.condition _ _)
    ((refines_eval_and_exec (Nat.le_refl rounds) h.body).2 _)
    (refines_evalIncrement h.increment _ _)

/-! ### The rounds of a loop -/

/-- The tree of one round. -/
def roundTree (increment : Option Expr) (body : Stmt) : Stmt :=
  match increment with
  | some increment => .block [body, .expression increment]
  | none => body

/-- The tree of a loop without its initializer. -/
def whileTree (condition increment : Option Expr) (body : Stmt) : Stmt :=
  .loop (condition.getD (.literal (.bool true))) (roundTree increment body)

/-- How deep the body is nested in the tree of a loop: the increment is in a block with it. -/
def bodyDepth (depth : Nat) : Option Expr → Nat
  | some _ => depth + 1
  | none => depth + 2

variable {ρ : Leeway} {P : Pairing} {links : Links} {store store' : Store}
  {scopes scopes' : StaticScopes}

theorem tandem_condition (h : store.Twin ρ P store')
    (haligned : P.Aligned links store.current.chain store'.current.chain)
    (hagree : scopes.Agree links scopes') (rounds depth : Nat) (condition : Option Expr) :
    Tandem ρ P (fun _ goesOn goesOn' => goesOn' = goesOn)
      (do
        let value ← ((condition.getD (.literal (.bool true))).bindNames scopes).eval rounds
          (depth + 1)
        return value.truthy)
      (evalCondition rounds (depth + 1) scopes' condition) store store' := by
  cases condition with
  | none =>
    show Tandem ρ P _ (pure true) (pure true) store store'
    exact Tandem.pure h rfl
  | some condition =>
    refine ((evalTandem_and_execTandem ρ rounds (depth + 1)).1 h haligned
      (condition.twin_bindNames hagree)).bind ?_
    exact fun later value value' next next' hnext hvalue =>
      Tandem.pure hnext.twin hvalue.truthy_eq

/-- One round: the tree puts the increment into a block with the body, in a scope that declares
nothing. -/
theorem tandem_round {place : Place} {body : Stmt} (hplain : body.Plain)
    (hlegal : body.Legal place) (h : store.Twin ρ P store')
    (haligned : P.Aligned links store.current.chain store'.current.chain)
    (hagree : scopes.Agree links scopes') (hsuper : scopes.NotHere "super") (rounds depth : Nat)
    (increment : Option Expr) :
    Tandem ρ P (fun _ _ _ => True)
      (((roundTree increment body).bindNames scopes).1.exec rounds (depth + 2))
      (do
        (body.bindNames scopes').1.exec rounds (bodyDepth depth increment)
        evalIncrement rounds depth scopes' increment) store store' := by
  cases increment with
  | none =>
    rw [evalIncrement, bind_pure_unit]
    exact (evalTandem_and_execTandem ρ rounds (depth + 2)).2 h haligned
      (body.twin_bindNames_of_plain hagree hplain hlegal)
  | some increment =>
    have hinner := hagree.enterFirst hsuper
    have hincrement : Expr.Twin ρ _ _ _ := increment.twin_bindNames hinner
    rw [← body.scopes_bindNames_of_plain ([] :: scopes) hplain hlegal] at hincrement
    refine Tandem.inFirst ?_
    refine ((evalTandem_and_execTandem ρ rounds (depth + 1)).2 (h.enterFirst _)
      (haligned.enterFirst _) (body.twin_bindNames_of_plain hinner hplain hlegal)).bind ?_
    intro later _ _ next next' hnext _
    -- as a statement the increment is evaluated at the depth of the expression itself
    have hlast := (evalTandem_and_execTandem ρ rounds (depth + 1)).2 hnext.twin
      (hnext.aligned (haligned.enterFirst _)) (.expression hincrement)
    rw [← bind_pure_unit (x := Stmt.exec rounds (depth + 1) _)] at hlast
    exact hlast

theorem tandem_whileTree {place : Place} {body : Stmt} (hplain : body.Plain)
    (hlegal : body.Legal place) (h : store.Twin ρ P store')
    (haligned : P.Aligned links store.current.chain store'.current.chain)
    (hagree : scopes.Agree links scopes') (hsuper : scopes.NotHere "super") (rounds depth : Nat)
    (condition increment : Option Expr) :
    Tandem ρ P (fun _ _ _ => True)
      (((whileTree condition increment body).bindNames scopes).1.exec rounds (depth + 3))
      (whileTrue rounds (evalCondition rounds (depth + 2) scopes' condition) do
        (body.bindNames scopes').1.exec rounds (bodyDepth depth increment)
        evalIncrement rounds depth scopes' increment) store store' := by
  refine Tandem.whileTrue h (fun later next next' hnext => ?_) fun later next next' hnext => ?_
  · exact tandem_condition hnext.twin (hnext.aligned haligned) hagree rounds (depth + 1) condition
  · exact tandem_round hplain hlegal hnext.twin (hnext.aligned haligned) hagree hsuper rounds depth
      increment

/-! ### The whole loop -/

theorem Binding.further_ne_here (binding : Binding) : binding.further ≠ .enclosing 0 := by
  cases binding <;> simp [Binding.further]

theorem StaticScopes.notHere_nil_cons (scopes : StaticScopes) (name : String) :
    NotHere ([] :: scopes) name := by
  rw [NotHere, binding_of_not_mem List.not_mem_nil]
  exact Binding.further_ne_here _

/-- No statement declares `super`. -/
theorem Stmt.notHere_super_bindNames {place : Place} (s : Stmt) (hlegal : s.Legal place)
    (h : scopes.NotHere "super") : (s.bindNames scopes).2.NotHere "super" := by
  have hdeclare : ∀ name, IsName name → (scopes.declare name).NotHere "super" := by
    intro name hname
    rw [StaticScopes.NotHere, StaticScopes.binding_declare_of_ne hname.2.symm]
    exact h
  by_cases hplain : s.Plain
  · rw [s.scopes_bindNames_of_plain scopes hplain hlegal]
    exact h
  · cases s with
    | declare name initializer =>
      cases initializer with
      | none => exact hdeclare name hlegal
      | some => exact hdeclare name hlegal.1
    | function declaration =>
      cases declaration with
      | mk name => exact hdeclare name hlegal.1
    | classDecl name => exact hdeclare name hlegal.1
    | expression | print | block | ifThen | ifElse | loop | returning =>
      exact absurd trivial hplain

/-- How deep the parts of a loop are nested in its tree. -/
def Grammar.LoopClauses.depths (clauses : LoopClauses) (depth : Nat) : LoopDepths :=
  match clauses.initializer with
  | some _ => ⟨depth + 3, depth + 2, bodyDepth depth clauses.increment, depth⟩
  | none => ⟨depth + 3, depth + 3, bodyDepth (depth + 1) clauses.increment, depth + 1⟩

/-- The tree of a loop runs in tandem with the direct rule. -/
theorem tandem_expand {place : Place} (clauses : LoopClauses) {body : Stmt}
    (hinitializer : ∀ s ∈ clauses.initializer, s.Legal place) (hplain : body.Plain)
    (hlegal : body.Legal place) (h : store.Twin ρ P store')
    (haligned : P.Aligned links store.current.chain store'.current.chain)
    (hagree : scopes.Agree links scopes') (hsuper : scopes.NotHere "super")
    (hsuper' : scopes'.NotHere "super") (rounds depth : Nat) :
    Tandem ρ P (fun _ _ _ => True)
      (((clauses.expand body).bindNames scopes).1.exec rounds (depth + 4))
      (clauses.runAt body scopes' rounds (clauses.depths depth)) store store' := by
  obtain ⟨initializer, condition, increment⟩ := clauses
  cases initializer with
  | some initializer =>
    -- the block of the tree is the scope of the loop
    obtain ⟨htwin, hshare⟩ : Stmt.Twin ρ _ _ _ ∧ _ := initializer.twin_bindNames (hagree.enter [])
    refine Tandem.inBoth false ?_
    refine ((evalTandem_and_execTandem ρ rounds (depth + 3)).2 (h.enterBoth _ _ false)
      (haligned.enterBoth _ _ false) htwin).bind fun later _ _ next next' hnext _ => ?_
    have hafter := initializer.notHere_super_bindNames (hinitializer _ rfl)
      (StaticScopes.notHere_nil_cons scopes "super")
    have hrounds := tandem_whileTree hplain hlegal hnext.twin
      (hnext.aligned (haligned.enterBoth _ _ false)) hshare.toAgree hafter rounds depth condition
      increment
    rw [← bind_pure_unit (x := Stmt.exec rounds (depth + 3) _)] at hrounds
    exact hrounds
  | none =>
    -- the tree has no block, so the scope of the loop belongs to the direct rule only
    refine Tandem.inSecond ?_
    rw [execInitializer, pure_bind]
    exact tandem_whileTree hplain hlegal (h.enterSecond _) (haligned.enterSecond _)
      (hagree.enterSecond hsuper') hsuper rounds (depth + 1) condition increment

/-! ### The same effect -/

/-- Two results of runs from one store that nothing can tell apart: they end the same way and have
printed the same lines, every scope of the store gives its names the same values, instances have the
same fields, and the environment in force is the one from before. -/
def SameEffect (store : Store) (r r' : EStateM.Result Halt Store Unit) : Prop :=
  ResultsTwin none (.same store.scopes) store store (fun _ _ _ => True) r r'

theorem ResultsTwin.ended_iff {α : Type} {post : Pairing → α → α → Prop}
    {r r' : EStateM.Result Halt Store α} (h : ResultsTwin ρ P store store' post r r') :
    Ended r ↔ Ended r' := by
  cases h with
  | ok => exact Iff.rfl
  | error _ _ hhalt => cases hhalt <;> exact Iff.rfl

/-- After the same effect, whatever runs next has the same effect. -/
theorem SameEffect.followed {x x' : EvalM Unit} (h : SameEffect store (x store) (x' store))
    (hclosed : store.Closed) (program : Program) (rounds depth : Nat) :
    SameEffect store ((do x; program.exec rounds depth) store)
      ((do x'; program.exec rounds depth) store) := by
  refine Tandem.bind h fun later _ _ next next' hnext _ => ?_
  exact tandem_execAll (evalTandem_and_execTandem none rounds depth).2 hnext.twin
    (hnext.aligned (Pairing.aligned_same hclosed.current))
    (Stmt.allTwin_refl Links.reflexive_same program)

theorem Grammar.LoopClauses.all_le_depths (clauses : LoopClauses) (depth : Nat) :
    (LoopDepths.all depth).Le (clauses.depths depth) := by
  obtain ⟨initializer, condition, increment⟩ := clauses
  cases initializer <;> cases increment <;> constructor <;>
    simp only [LoopDepths.all, LoopClauses.depths, bodyDepth] <;> omega

theorem Grammar.LoopClauses.depths_le_all (clauses : LoopClauses) (depth : Nat) :
    (clauses.depths depth).Le (.all (depth + 4)) := by
  obtain ⟨initializer, condition, increment⟩ := clauses
  cases initializer <;> cases increment <;> constructor <;>
    simp only [LoopDepths.all, LoopClauses.depths, bodyDepth] <;> omega

/-- The tree of a loop and the direct rule have the same effect: where one comes to an end, so does
the other with four more levels. -/
theorem sameEffect_expand {place : Place} (clauses : LoopClauses) {body : Stmt}
    (hinitializer : ∀ s ∈ clauses.initializer, s.Legal place) (hplain : body.Plain)
    (hlegal : body.Legal place) (hsuper : scopes.NotHere "super") (hclosed : store.Closed)
    (rounds depth : Nat) :
    (Ended (((clauses.expand body).bindNames scopes).1.exec rounds depth store) →
        SameEffect store (((clauses.expand body).bindNames scopes).1.exec rounds depth store)
          (clauses.run body scopes rounds (depth + 4) store)) ∧
      (Ended (clauses.run body scopes rounds depth store) →
        SameEffect store (((clauses.expand body).bindNames scopes).1.exec rounds (depth + 4) store)
          (clauses.run body scopes rounds depth store)) := by
  have htwin : store.Twin none (.same store.scopes) store := hclosed.twin_refl
  have htandem := tandem_expand clauses hinitializer hplain hlegal htwin
    (Pairing.aligned_same hclosed.current)
    (StaticScopes.share_refl Links.reflexive_same scopes).toAgree hsuper hsuper rounds depth
  -- the direct rule with the depths of the tree lies between that with the least and the greatest
  have hleast := refines_runAt (clauses.all_le_depths depth) clauses body scopes rounds store
  have hgreatest := refines_runAt (clauses.depths_le_all depth) clauses body scopes rounds store
  constructor
  · intro hended
    have hwider := (refines_eval_and_exec (Nat.le_refl rounds) (Nat.le_add_right depth 4)).2
      ((clauses.expand body).bindNames scopes).1 store hended
    rw [Tandem, hwider] at htandem
    have hrun := hgreatest (htandem.ended_iff.mp hended)
    rw [LoopClauses.run, hrun]
    exact htandem
  · intro hended
    rw [Tandem, hleast hended] at htandem
    exact htandem

end Treewalk
