import Treewalk.Proofs.Session.Reachable

/-!
# Runs end with diagnostics

A run of a reachable session ends with a list of diagnostics, unless it exhausts the stack or a
loop. No flaw of a tree cuts it short: no missing scope or name, no `super` without a class, no
unknown operator. Nor does a `return` that no call catches. This does not depend on the limits: with
whatever limits a program is executed, a runtime error or an exhausted limit is all that can cut it
short.
-/

namespace Treewalk

/-- A runtime error or an exhausted limit. -/
def Halt.Ordinary : Halt → Prop
  | .failed _ | .stackExhausted | .loopExhausted => True
  | .returned _ | .fault _ => False

theorem Halt.Safe.ordinary {known : Known} {store : Store} {halt : Halt}
    (h : halt.Safe known False store) : halt.Ordinary := by
  cases halt with
  | returned => exact h.1
  | fault => exact h
  | failed | stackExhausted | loopExhausted => trivial

namespace Session

/-- Every run of a reachable session ends with a list of diagnostics or exhausts a limit. A program
that is executed has every construct in its place, and whatever the limits, nothing else than a
runtime error or an exhausted limit cuts it short. -/
theorem Reachable.run_ends_ordinarily {session : Session} (h : session.Reachable)
    (source path : String) :
    ((∃ diagnostics, (session.run source path).result = .ok diagnostics) ∨
      (session.run source path).result = .error .stackExhausted ∨
      (session.run source path).result = .error .loopExhausted) ∧
    ((session.read source path).1.errors = [] →
      Stmt.AllLegal {} (session.read source path).1.program ∧
      ∀ rounds depth halt later,
        (session.read source path).1.program.bindNames.exec rounds depth
          { (session.read source path).2.store with printed := #[] } = .error halt later →
        halt.Ordinary) := by
  have hsafe : (session.read source path).1.errors = [] → ∀ rounds depth,
      Safe .any False
        ((session.read source path).1.program.bindNames.exec rounds depth) (fun _ _ => True)
        { session.store with printed := #[] } :=
    fun herrors => h.settled.safe herrors fun _ _ => trivial
  refine ⟨?_, fun herrors => ⟨Reading.legal herrors, fun rounds depth halt later hresult => ?_⟩⟩
  · by_cases herrors : (session.read source path).1.errors = []
    · have hexecute := (session.read source path).2.execute_of_safe
        (hsafe herrors roundLimit nestingLimit)
      rw [run_result_of_no_errors herrors]
      cases hhalt : ((session.read source path).2.execute
          (session.read source path).1.program.bindNames).1 with
      | none => exact .inl ⟨_, rfl⟩
      | some halt =>
        have hordinary := (hexecute.2.2.2 halt hhalt).ordinary
        cases halt with
        | failed error => exact .inl ⟨_, rfl⟩
        | stackExhausted => exact .inr (.inl rfl)
        | loopExhausted => exact .inr (.inr rfl)
        | returned | fault => exact hordinary.elim
    · exact .inl ⟨_, run_result_of_errors herrors⟩
  · exact ((hsafe herrors rounds depth).of_error hresult).2.2.ordinary

/-- The first session, after a run that left a function behind. -/
theorem run_ends_ordinarily_second :
    let session := ((Session.new "/" 0).run "fun f() \x7b return g; \x7d" "<a>").session
    session.Reachable ∧
      ((∃ diagnostics, (session.run "print f();" "<b>").result = .ok diagnostics) ∨
        (session.run "print f();" "<b>").result = .error .stackExhausted ∨
        (session.run "print f();" "<b>").result = .error .loopExhausted) := by
  intro session
  have hreachable : session.Reachable := .run _ _ (.new "/" 0)
  exact ⟨hreachable, (hreachable.run_ends_ordinarily "print f();" "<b>").1⟩

end Session

end Treewalk
