import Treewalk.Proofs.Session.Reachable

/-!
# Scopes at run time are those of binding

Whenever a program of a session uses a name, the local scopes in force are the ones in which the
use was bound, whatever closures, methods or earlier runs it is evaluated from. So the distance
that binding recorded leads to the scope that binding chose, and the name has a value there.
-/

namespace Treewalk

namespace Session

/-- At every moment in which a run of a reachable session evaluates a use of a name, the one
resolution of that node in the session accounts for the moment. -/
theorem Reachable.scopes_agree {session : Session} (h : session.Reachable) {source path : String}
    (herrors : (session.read source path).1.errors = []) {rounds depth : Nat} {e : Expr}
    {store : Store}
    (hmoment : (session.read source path).1.program.bindNames.Evaluates rounds depth
      { (session.read source path).2.store with printed := #[] } e store)
    (huse : e.use?.isSome) :
    ∃ r, (session.read source path).2.Resolves r ∧ r.Accounts e store ∧
      ∀ r', (session.read source path).2.Resolves r' → r'.node = e → r' = r := by
  have hsettled : (session.read source path).2.Settled := h.settled.read
  have hsound : Store.Sound ⟨.any, (session.read source path).2.Resolves⟩
      { (session.read source path).2.store with printed := #[] } :=
    (hsettled.sound _ fun _ hr => hr).of_eq rfl rfl
  have hready := ready_read herrors fun _ hr => hr
  have haccounted := hmoment.accounted {} hsound hsettled.matches .session
    (fun scope hscope => absurd hscope nofun) hready
  obtain ⟨r, hr, haccounts⟩ := haccounted huse
  refine ⟨r, hr, haccounts, fun r' hr' hnode => ?_⟩
  exact hr'.eq_of_node_eq hsettled.numbered hr (hnode.trans haccounts.node.symm)

end Session

/-! ### A block with one variable -/

section BlockExample

/-- The use of the variable, with a binding. -/
def blockUse (binding : Binding) : Expr :=
  .variable ⟨"a", ⟨1, 16, some ⟨1, 15, 16, by decide⟩⟩, binding⟩

/-- The body of the block, with a binding for the use. -/
def blockBody (binding : Binding) : List Stmt :=
  [.declare "a" none, .print (blockUse binding)]

theorem reading_block :
    (Reading.ofText 1 "\x7b var a; print a; \x7d").errors = [] ∧
      (Reading.ofText 1 "\x7b var a; print a; \x7d").program = [.block (blockBody .global)] := by
  constructor <;> with_unfolding_all rfl

/-- The store in which the variable is used: inside the block, where it is nil. -/
def blockStore : Store where
  scopes := ⟨#[⟨.session, ⟨[("clock", .builtin 0 "clock" 0 .clock)]⟩⟩,
    ⟨.block (blockBody (.enclosing 0)), ⟨[("a", .nil)]⟩⟩]⟩
  fields := #[]
  nextId := 1
  current := ⟨1, [0]⟩
  printed := #[]
  time := 0

theorem evaluates_block :
    Program.Evaluates 0 3 [.block (blockBody (.enclosing 0))] (.initial 0)
      (blockUse (.enclosing 0)) blockStore := by
  intro fault
  have hover : ∀ eval, (Watch.single (blockUse (.enclosing 0)) blockStore fault).over eval
      (blockUse (.enclosing 0)) blockStore = .error (.fault fault) blockStore :=
    Watch.over_single_self _ _ _
  generalize Watch.single (blockUse (.enclosing 0)) blockStore fault = watch at hover
  have hprint : Stmt.execWatched watch 0 2 (.print (blockUse (.enclosing 0))) blockStore =
      .error (.fault fault) blockStore :=
    bind_of_error (hover (Expr.evalWith (Expr.evalWatched watch 0 0) (Stmt.execWatched watch 0 0)))
  -- the block opens its scope, and then the variable is declared in it
  let opened : Store := { blockStore with
    scopes := ((Store.initial 0).scopes.add (.block (blockBody (.enclosing 0)))).2 }
  have hdeclare : Stmt.execWatched watch 0 2 (.declare "a" none) opened = .ok () blockStore := rfl
  have hbody : (blockBody (.enclosing 0)).forM (Stmt.execWatched watch 0 2) opened =
      .error (.fault fault) blockStore :=
    (bind_of_ok hdeclare).trans (bind_of_error hprint)
  exact ⟨_, bind_of_error (within_of_error hbody)⟩

theorem scopes_agree_block :
    let session := Session.new "/" 0
    let reading := (session.read "\x7b var a; print a; \x7d" "<s>").1
    let later := (session.read "\x7b var a; print a; \x7d" "<s>").2
    session.Reachable ∧ reading.errors = [] ∧
      reading.program.bindNames.Evaluates 0 3 { later.store with printed := #[] }
        (blockUse (.enclosing 0)) blockStore ∧
      ∃ r, later.Resolves r ∧ r.Accounts (blockUse (.enclosing 0)) blockStore ∧
        ∀ r', later.Resolves r' → r'.node = blockUse (.enclosing 0) → r' = r := by
  intro session reading later
  have hreachable : session.Reachable := .new "/" 0
  have herrors : reading.errors = [] := reading_block.1
  have hmoment : reading.program.bindNames.Evaluates 0 3 { later.store with printed := #[] }
      (blockUse (.enclosing 0)) blockStore := by
    have hprogram : reading.program = [.block (blockBody .global)] := reading_block.2
    rw [hprogram]
    exact evaluates_block
  exact ⟨hreachable, herrors, hmoment, hreachable.scopes_agree herrors hmoment rfl⟩

end BlockExample

end Treewalk
