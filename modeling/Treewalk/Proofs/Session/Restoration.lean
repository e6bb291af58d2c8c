import Treewalk.Proofs.Session.Pieces

/-!
# The environment in force is restored

No expression, statement or call changes the environment in force in the end: not if it succeeds,
nor if a `return`, a runtime error or an exhausted limit cuts it short. Between runs of a session
the globals alone are in force, and the statements of the next source are bound and executed outside
every local scope.
-/

namespace Treewalk

/-- No program changes the environment in force. -/
theorem Program.restores_exec (program : Program) (rounds depth : Nat) :
    Restores (program.exec rounds depth) :=
  (Moved.forM (evalMoved_and_execMoved .anyFile #[] rounds depth).2 program).restores

/-- A statement of a program is bound as if it stood alone, outside every local scope. -/
theorem Program.bindNames_split (before : Program) (s : Stmt) (after : Program) :
    Program.bindNames (before ++ s :: after) =
      before.bindNames ++ (s.bindNames []).1 :: after.bindNames := by
  rw [Program.bindNames_append]
  congr 1
  simp only [Program.bindNames, Stmt.bindAll, s.bindNames_nil]

namespace Session

/-- Each statement of a program is bound outside every local scope, and if execution comes to it,
the globals alone are in force. -/
def ExecutesOutside (session : Session) (program : Program) : Prop :=
  ∀ (before : Program) (s : Stmt) (after : Program), program = before ++ s :: after →
    program.bindNames = before.bindNames ++ (s.bindNames []).1 :: after.bindNames ∧
    ∀ store, before.bindNames.exec roundLimit nestingLimit session.start = .ok () store →
      store.current = globalEnv ∧
        program.bindNames.exec roundLimit nestingLimit session.start =
          (do
            (s.bindNames []).1.exec roundLimit nestingLimit
            after.bindNames.exec roundLimit nestingLimit) store

theorem executesOutside (session : Session) (h : session.store.current = globalEnv)
    (program : Program) : session.ExecutesOutside program := by
  rintro before s after rfl
  have hbound := Program.bindNames_split before s after
  refine ⟨hbound, fun store hbefore => ⟨?_, ?_⟩⟩
  · exact ((before.bindNames.restores_exec _ _).of_ok hbefore).trans h
  · rw [hbound, Program.exec_append, bind_of_ok hbefore]
    rfl

theorem current_run (session : Session) (source path : String) :
    (session.run source path).session.store.current = session.store.current := by
  by_cases herrors : (session.read source path).1.errors = []
  · rw [(session.run_of_no_errors source path herrors).1]
    have hrestores :=
      (session.read source path).1.program.bindNames.restores_exec roundLimit nestingLimit
    change _ = session.start.current
    cases hresult : (session.read source path).1.program.bindNames.exec roundLimit nestingLimit
        session.start with
    | ok _ later => exact hrestores.of_ok hresult
    | error _ later => exact hrestores.of_error hresult
  · rw [run_session_of_errors herrors]
    rfl

/-- The environment in force is always restored. An expression, a statement and a call leave it as
they found it, in every store and however they end. So it is that of the globals between the runs
of a session, whether they succeed or not, and the statements of the next source are bound and
executed outside every local scope. -/
theorem Reachable.environment_restored {session : Session} (h : session.Reachable) :
    (∀ rounds depth : Nat,
      (∀ e : Expr, Restores (e.eval rounds depth)) ∧
      (∀ s : Stmt, Restores (s.exec rounds depth)) ∧
      ∀ (callee : Value) (arguments : List Value) (site : Site),
        Restores (callee.apply (Stmt.exec rounds depth) arguments site)) ∧
    session.store.current = globalEnv ∧
    ∀ source path : String,
      (session.run source path).session.store.current = globalEnv ∧
      ((session.read source path).1.errors = [] →
        session.ExecutesOutside (session.read source path).1.program) := by
  have hcurrent : session.store.current = globalEnv := h.settled.current
  refine ⟨fun rounds depth => ?_, hcurrent, fun source path => ⟨?_, fun _ => ?_⟩⟩
  · obtain ⟨heval, hexec⟩ := evalMoved_and_execMoved .anyFile #[] rounds depth
    exact ⟨fun e => (heval e).restores, fun s => (hexec s).restores,
      fun callee arguments site => (moved_apply hexec callee arguments site).restores⟩
  · exact (session.current_run source path).trans hcurrent
  · exact session.executesOutside hcurrent _

end Session

/-- Using a name before it is declared makes a run fail. -/
theorem exists_diagnostic_earlyUse :
    ∃ diagnostic, ((Session.new "/" 0).run "\x7b print a; var a; print a; \x7d" "<a>").result =
      .ok [diagnostic] := by
  have herrors : ((Session.new "/" 0).read "\x7b print a; var a; print a; \x7d" "<a>").1.errors =
      [] := reading_earlyUse.1
  have hprogram : ((Session.new "/" 0).read "\x7b print a; var a; print a; \x7d"
      "<a>").1.program = earlyUse "a" := reading_earlyUse.2
  rw [(Session.run_of_no_errors _ _ _ herrors).2.2, hprogram]
  exact ⟨_, rfl⟩

/-- A run fails inside a block, and the next one starts outside it. -/
theorem environment_restored_earlyUse :
    let failing := (Session.new "/" 0).run "\x7b print a; var a; print a; \x7d" "<a>"
    let session := failing.session
    let source := "var a; print a;"
    (session.Reachable ∧ ∃ diagnostic, failing.result = .ok [diagnostic]) ∧
      session.store.current = globalEnv ∧
      (session.run source "<b>").session.store.current = globalEnv ∧
      (session.read source "<b>").1.errors = [] ∧
      session.ExecutesOutside (session.read source "<b>").1.program := by
  intro failing session source
  have hreachable : session.Reachable := .run _ _ (.new "/" 0)
  have herrors : (session.read source "<b>").1.errors = [] :=
    (Reading.refile _ reading_printDeclared.1).1
  obtain ⟨_, hcurrent, hnext⟩ := hreachable.environment_restored
  obtain ⟨hafter, hexecutes⟩ := hnext source "<b>"
  exact ⟨⟨hreachable, exists_diagnostic_earlyUse⟩, hcurrent, hafter, herrors, hexecutes herrors⟩

end Treewalk
