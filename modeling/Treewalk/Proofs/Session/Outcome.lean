import Treewalk.Proofs.Machine.Moved
import Treewalk.Proofs.Session.LocalRenaming

/-!
# What a run comes to

A run of a source without errors is an execution of its program. What the run leaves, prints and
gives back are functions of the result of that execution.
-/

namespace Treewalk

/-- What a run gives back that was cut short. -/
def Halt.outcome : Halt → Except Halt (List Diagnostic)
  | .failed error => .ok [error.diagnostic]
  | halt => .error halt

/-- What a run gives back, given the result of its execution. -/
def outcomeOf : EStateM.Result Halt Store Unit → Except Halt (List Diagnostic)
  | .ok _ _ => .ok []
  | .error halt _ => halt.outcome

/-- The store that an execution leaves. -/
def storeOf : EStateM.Result Halt Store Unit → Store
  | .ok _ store => store
  | .error _ store => store

/-- A run that gives back no diagnostics was not cut short. -/
theorem eq_ok_of_outcomeOf {r : EStateM.Result Halt Store Unit} (h : outcomeOf r = .ok []) :
    r = .ok () (storeOf r) := by
  cases r with
  | ok => rfl
  | error halt => cases halt <;> cases h

theorem eq_error_of_outcomeOf {r : EStateM.Result Halt Store Unit} (h : outcomeOf r ≠ .ok []) :
    ∃ halt, r = .error halt (storeOf r) := by
  cases r with
  | ok => exact absurd rfl h
  | error halt => exact ⟨halt, rfl⟩

/-- A run gives back no diagnostics after a success, and one diagnostic after a runtime error. -/
theorem cases_of_outcomeOf {r : EStateM.Result Halt Store Unit} {diagnostics : List Diagnostic}
    (h : outcomeOf r = .ok diagnostics) :
    (diagnostics = [] ∧ ∃ later, r = .ok () later) ∨
      ∃ error later, diagnostics = [error.diagnostic] ∧ r = .error (.failed error) later := by
  cases r with
  | ok value later => exact .inl ⟨(Except.ok.inj h).symm, later, rfl⟩
  | error halt later =>
    cases halt with
    | failed error => exact .inr ⟨error, later, (Except.ok.inj h).symm, rfl⟩
    | returned | fault | stackExhausted | loopExhausted => cases h

theorem storeOf_move (m : Move) (earlier : Array String) (r : EStateM.Result Halt Store Unit) :
    storeOf (m.result earlier id r) = (storeOf r).move m earlier := by
  cases r <;> rfl

namespace Session

/-- The store in which a program of a session starts. -/
def start (session : Session) : Store := { session.store with printed := #[] }

/-- What a run leaves, prints and gives back, in terms of the execution of its program. -/
theorem run_of_no_errors (session : Session) (source path : String)
    (h : (session.read source path).1.errors = []) :
    let r := (session.read source path).1.program.bindNames.exec roundLimit nestingLimit
      session.start
    (session.run source path).session.store = storeOf r ∧
      (session.run source path).output = (storeOf r).output ∧
      (session.run source path).result = outcomeOf r := by
  intro r
  have hexec : (session.read source path).1.program.bindNames.exec roundLimit nestingLimit
      { (session.read source path).2.store with printed := #[] } = r := rfl
  rw [run_session_of_no_errors h, run_output_of_no_errors h, run_result_of_no_errors h, execute,
    hexec]
  cases r with
  | ok value store => exact ⟨rfl, rfl, rfl⟩
  | error halt store =>
    refine ⟨rfl, rfl, ?_⟩
    cases halt <;> rfl

end Session

end Treewalk
