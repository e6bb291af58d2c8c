import Treewalk.Proofs.Machine.Course
import Treewalk.Proofs.Session.Restoration

/-!
# The objects of a session

The history of a session is the list of its states: the store at each moment of each run, and the
store after each run, whether it succeeded or not. One chart covers the whole history, and each
state extends those before it. So an object of a session never changes in what the chart says of
it: a scope keeps its place inside other scopes, a function its environment, a class its methods and
its superclass, and an instance its class. No scope loses a name, and every object that a state
refers to exists in that state.

The links of objects lead to older ones. Thus the chain of an environment ends in the globals, and
going up from a class comes to an end.
-/

namespace Treewalk

/-! ### Steps between runs -/

/-- The chart before the first run, with the clock as the only object. -/
def Chart.initial : Chart where
  enclosing _ := []
  numbered _ := .builtin 0 "clock" 0 .clock
  classOf _ := .base 0 "" {}

theorem Chart.covers_initial (time : Clock) : Chart.initial.Covers (.initial time) where
  session := Nat.zero_lt_one
  outermost := rfl
  nested id hid hexists := absurd (Nat.lt_one_iff.mp hexists) hid
  current := ⟨Nat.zero_lt_one, rfl⟩
  values id name value hvalue := by
    rw [Store.eq_clock_of_initial hvalue]
    refine .builtin Nat.zero_lt_one rfl fun value hconstant => ?_
    cases hconstant
  fields table htable := absurd htable (Array.not_mem_empty table)

section Steps

variable {chart : Chart} {store : Store}

theorem Store.Provides.existing {value : Value} (h : store.Provides value)
    (hcovers : chart.Covers store) : value.Existing chart store := by
  cases h with
  | literal literal => exact Value.existing_ofLiteral literal
  | bound h => exact hcovers.values _ _ _ h
  | field htable h => exact hcovers.fields _ htable _ _ h

/-- Printed lines and the time are no matter of charts. -/
theorem Chart.Covers.passage_clock (h : chart.Covers store) (printed : Array String)
    (time : Clock) : Passage chart store [] chart { store with printed, time } := by
  have honward : chart.Onward store chart { store with printed, time } :=
    .of_extends chart ⟨.refl _, Nat.le_refl _, Nat.le_refl _⟩
  exact .step honward (h.of_eq honward rfl rfl (h.current.mono honward))

/-- A builtin function goes on the chart. -/
theorem Chart.Covers.passage_builtin {session : Session} (h : chart.Covers session.store)
    (name : String) (arity : Int) {body : BuiltinBody Value}
    (hbody : ∀ value, body = .constant value → session.store.Provides value) :
    ∃ chart', Passage chart session.store [] chart'
      (session.defineBuiltin name arity body).1.store := by
  let builtin : Value := .builtin session.store.nextId name arity body
  -- it gets a number, and then its name
  have hcharted : Charted
      (fun _ => (do let _ ← freshId; defineAt globalEnv.scope name builtin : EvalM Unit))
      (fun _ _ _ => True) chart session.store := by
    refine (charted_freshId h builtin).bind ?_
    rintro _ chart' later honward h' ⟨rfl, hnumber, hcharted⟩
    exact charted_defineAt h' globalEnv.scope name (.builtin hnumber hcharted
      fun value hconstant => ((hbody value hconstant).existing h).mono honward)
  cases hcharted with
  | error hresult => cases hresult
  | ok hresult hpassage =>
    cases hresult
    exact ⟨_, .step hpassage.onward hpassage.covers⟩

end Steps

/-- The course of a run is part of a passage to the store that the run leaves. -/
theorem Program.Course.passage {program : Program} {rounds depth : Nat} {start : Store}
    {moments : List Moment} (h : Course rounds depth program start moments) {chart : Chart}
    (hcovers : chart.Covers start) :
    ∃ chart', Passage chart start moments chart' (storeOf (program.exec rounds depth start)) := by
  have hnever : program.execWatched .never rounds depth = program.exec rounds depth :=
    program.execWatched_never rounds depth
  cases program.charted_execWatched hcovers rounds depth with
  | ok hresult hpassage _ hfollows =>
    rw [← hnever, hresult]
    exact ⟨_, hpassage.of_follows hfollows h.follows h.once⟩
  | error hresult hpassage _ hfollows =>
    rw [← hnever, hresult]
    exact ⟨_, hpassage.of_follows hfollows h.follows h.once⟩

/-! ### Histories -/

namespace Session

/-- The states of a session, in their order: the store before the first run, then for each run the
stores at its moments and the one it leaves, and the stores after everything else that happened. -/
inductive History : Session → List Store → Prop where
  | new (directory : String) (time : Clock) :
    History (.new directory time) [.initial time]
  | rejected {session : Session} {states : List Store} (source path : String)
    (herrors : (session.read source path).1.errors ≠ []) (h : History session states) :
    History (session.run source path).session
      (states ++ [(session.run source path).session.store])
  | run {session : Session} {states : List Store} (source path : String) {moments : List Moment}
    (herrors : (session.read source path).1.errors = [])
    (hcourse : (session.read source path).1.program.bindNames.Course roundLimit nestingLimit
      session.start moments) (h : History session states) :
    History (session.run source path).session
      (states ++ moments.map Prod.snd ++ [(session.run source path).session.store])
  | defineBuiltin {session : Session} {states : List Store} (name : String) (arity : Int)
    (body : BuiltinBody Value)
    (hbody : ∀ value, body = .constant value → session.store.Provides value)
    (h : History session states) :
    History (session.defineBuiltin name arity body).1
      (states ++ [(session.defineBuiltin name arity body).1.store])
  | tick {session : Session} {states : List Store} (time : Clock) (h : History session states) :
    History { session with store := { session.store with time } }
      (states ++ [{ session.store with time }])

/-- A chart covers all states up to a store, and each extends those before it. -/
structure Charts (chart : Chart) (states : List Store) (store : Store) : Prop where
  last : states.getLast? = some store
  covers : ∀ s ∈ states, chart.Covers s
  ordered : states.Pairwise Store.Extends
  before : ∀ s ∈ states, s.Extends store

theorem Charts.passage {chart chart' : Chart} {states : List Store} {store later : Store}
    {moments : List Moment} (h : Charts chart states store)
    (hpassage : Passage chart store moments chart' later) :
    Charts chart' (states ++ moments.map Prod.snd ++ [later]) later := by
  have hmoments : ∀ s ∈ moments.map Prod.snd,
      store.Extends s ∧ s.Extends later ∧ chart'.Covers s := by
    intro s hs
    obtain ⟨moment, hmem, rfl⟩ := List.mem_map.mp hs
    exact hpassage.between moment hmem
  have hbefore : ∀ s ∈ states ++ moments.map Prod.snd, s.Extends later := by
    intro s hs
    rcases List.mem_append.mp hs with hs | hs
    · exact (h.before s hs).trans hpassage.onward.grows
    · exact (hmoments s hs).2.1
  constructor
  case last => rw [List.getLast?_append, List.getLast?_singleton, Option.some_or]
  case covers =>
    refine List.forall_mem_append.mpr ⟨List.forall_mem_append.mpr ⟨fun s hs => ?_, fun s hs => ?_⟩,
      List.forall_mem_singleton.mpr hpassage.covers⟩
    · -- the later chart keeps what the earlier one says of the objects that existed by then
      exact (h.covers s hs).mono (hpassage.onward.before (h.before s hs))
    · exact (hmoments s hs).2.2
  case ordered =>
    refine List.pairwise_append.mpr ⟨List.pairwise_append.mpr ⟨h.ordered, ?_, ?_⟩,
      List.pairwise_singleton _ _, fun s hs last hlast => ?_⟩
    · exact List.pairwise_map.mpr hpassage.ordered
    · exact fun s hs next hnext => (h.before s hs).trans (hmoments next hnext).1
    · rw [List.mem_singleton.mp hlast]
      exact hbefore s hs
  case before =>
    exact List.forall_mem_append.mpr ⟨hbefore, List.forall_mem_singleton.mpr (.refl later)⟩

/-- A session whose states are covered by a chart goes on with a step between runs. -/
theorem Charts.step {chart chart' : Chart} {states : List Store} {store later : Store}
    (h : Charts chart states store) (hpassage : Passage chart store [] chart' later) :
    Charts chart' (states ++ [later]) later := by
  have hcharts := h.passage hpassage
  rwa [List.map_nil, List.append_nil] at hcharts

theorem Charts.current {chart : Chart} {states : List Store} {store : Store}
    (h : Charts chart states store) : chart.Covers store :=
  h.covers store (List.mem_of_getLast? h.last)

/-- One chart covers the history of a session. -/
theorem History.exists_charts {session : Session} {states : List Store}
    (h : session.History states) : ∃ chart, Charts chart states session.store := by
  induction h with
  | new directory time =>
    refine ⟨.initial, rfl, ?_, List.pairwise_singleton _ _, ?_⟩
    · exact List.forall_mem_singleton.mpr (Chart.covers_initial time)
    · exact List.forall_mem_singleton.mpr (.refl _)
  | @rejected session states source path herrors _ ih =>
    obtain ⟨chart, hcharts⟩ := ih
    have hstore : (session.run source path).session.store = session.store := by
      rw [run_session_of_errors herrors]
      rfl
    rw [hstore]
    exact ⟨chart, hcharts.step (hcharts.current.passage_clock session.store.printed _)⟩
  | @run session states source path moments herrors hcourse _ ih =>
    obtain ⟨chart, hcharts⟩ := ih
    -- the run starts without printed lines, and goes along its course from there
    have hstart : Passage chart session.store [] chart session.start :=
      hcharts.current.passage_clock #[] _
    obtain ⟨chart', hpassage⟩ := hcourse.passage hstart.covers
    rw [(session.run_of_no_errors source path herrors).1]
    exact ⟨chart', hcharts.passage (hstart.trans hpassage)⟩
  | @defineBuiltin session states name arity body hbody _ ih =>
    obtain ⟨chart, hcharts⟩ := ih
    obtain ⟨chart', hpassage⟩ := hcharts.current.passage_builtin name arity hbody
    exact ⟨chart', hcharts.step hpassage⟩
  | @tick session states time _ ih =>
    obtain ⟨chart, hcharts⟩ := ih
    exact ⟨chart, hcharts.step (hcharts.current.passage_clock session.store.printed time)⟩

/-- Every reachable session has a history. -/
theorem Reachable.exists_history {session : Session} (h : session.Reachable) :
    ∃ states, session.History states := by
  -- that a run has a course is known only from the chart of the history before it
  induction h with
  | new directory time => exact ⟨_, .new directory time⟩
  | @run session source path _ ih =>
    obtain ⟨states, hstates⟩ := ih
    by_cases herrors : (session.read source path).1.errors = []
    · obtain ⟨chart, hcharts⟩ := hstates.exists_charts
      have hstart : chart.Covers session.start := (hcharts.current.passage_clock #[] _).covers
      obtain ⟨moments, hcourse⟩ := Program.exists_course hstart
        (session.read source path).1.program.bindNames roundLimit nestingLimit
      exact ⟨_, hstates.run source path herrors hcourse⟩
    · exact ⟨_, hstates.rejected source path herrors⟩
  | defineBuiltin name arity body hbody _ ih =>
    obtain ⟨states, hstates⟩ := ih
    exact ⟨_, hstates.defineBuiltin name arity body hbody⟩
  | tick time _ ih =>
    obtain ⟨states, hstates⟩ := ih
    exact ⟨_, hstates.tick time⟩

/-- The objects of a session. It has a history, and for every history of it there is one chart that
covers all its states: in each of them the environment in force and every value in a scope or a
field exist, with everything that belongs to them, and are what the chart says. So what the chart
says of an object never changes. Each state extends those before it, and so no scope loses a name.
In every state, the chain of an environment leads through scopes opened ever earlier to the globals,
and going up from a class leads through ever older classes. So lookups come to an end. -/
theorem Reachable.history_charted {session : Session} (h : session.Reachable) :
    (∃ states, session.History states) ∧
    ∀ states, session.History states →
      states.getLast? = some session.store ∧ states.Pairwise Store.Extends ∧
      ∃ chart : Chart, ∀ s ∈ states, chart.Covers s ∧
        (∀ env : Env, env.Existing chart s → env.Rooted s.scopes) ∧
        ∀ cls : Class, cls.Existing chart s → cls.Rooted s := by
  refine ⟨h.exists_history, fun states hstates => ?_⟩
  obtain ⟨chart, hcharts⟩ := hstates.exists_charts
  refine ⟨hcharts.last, hcharts.ordered, chart, fun s hs => ?_⟩
  have hcovers := hcharts.covers s hs
  exact ⟨hcovers, fun env henv => hcovers.rooted henv, fun cls hcls => hcls.rooted⟩

end Session

/-- A failed run and one after it have one history, and one chart covers it. -/
theorem history_charted_earlyUse :
    let failing := (Session.new "/" 0).run "\x7b print a; var a; print a; \x7d" "<a>"
    let session := (failing.session.run "var a; print a;" "<b>").session
    (session.Reachable ∧ ∃ diagnostic, failing.result = .ok [diagnostic]) ∧
      ∃ states, session.History states ∧ states.getLast? = some session.store ∧
        states.Pairwise Store.Extends ∧
        ∃ chart : Chart, ∀ s ∈ states, chart.Covers s ∧ globalEnv.Rooted s.scopes := by
  intro failing session
  have hreachable : session.Reachable := .run _ _ (.run _ _ (.new "/" 0))
  obtain ⟨⟨states, hstates⟩, hcharted⟩ := hreachable.history_charted
  obtain ⟨hlast, hordered, chart, hcovers⟩ := hcharted states hstates
  refine ⟨⟨hreachable, exists_diagnostic_earlyUse⟩, states, hstates, hlast, hordered, chart, ?_⟩
  intro s hs
  obtain ⟨hcovered, hrooted, _⟩ := hcovers s hs
  exact ⟨hcovered, hrooted globalEnv ⟨hcovered.session, hcovered.outermost⟩⟩

end Treewalk
