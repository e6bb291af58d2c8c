import Treewalk.Proofs.Binding.Renaming
import Treewalk.Proofs.Machine.TwinRuns
import Treewalk.Proofs.Session.Diagnosis

/-!
# Renaming a local variable changes nothing

A source and one in which a local variable is renamed run alike from every reachable session: they
print the same, and they end the same way. A runtime error of one is a runtime error of the other
with the same code, notes and data. Its message is the same too, unless it is that of an invalid
superclass, which quotes the name of the superclass.
-/

namespace Treewalk

/-! ### Diagnostics and results -/

/-- Diagnostics that say the same of different places. If they report an invalid superclass, its
name may be the new one where it was the old one. -/
structure Diagnostic.Alike (ρ : Renaming) (d d' : Diagnostic) : Prop where
  code : d'.code = d.code
  phase : d'.phase = d.phase
  notes : d'.notes = d.notes
  help : d'.help = d.help
  data : d'.data = d.data
  message : d'.message = d.message ∨ ∃ kind site site',
    d = (RuntimeError.invalidSuperclass ρ.old kind site).diagnostic ∧
      d' = (RuntimeError.invalidSuperclass ρ.new kind site').diagnostic

/-- What two runs give back when they end the same way. -/
inductive EndsAlike (ρ : Renaming) :
    Except Halt (List Diagnostic) → Except Halt (List Diagnostic) → Prop where
  | success : EndsAlike ρ (.ok []) (.ok [])
  | failed {d d' : Diagnostic} (h : d.Alike ρ d') : EndsAlike ρ (.ok [d]) (.ok [d'])
  | stackExhausted : EndsAlike ρ (.error .stackExhausted) (.error .stackExhausted)
  | loopExhausted : EndsAlike ρ (.error .loopExhausted) (.error .loopExhausted)

/-- A diagnostic without its places. -/
def Diagnostic.unplaced (d : Diagnostic) : Diagnostic := { d with line := 0, labels := [] }

/-- The places of a runtime error show in the line and the labels of its diagnostic only. -/
theorem RuntimeError.diagnostic_unplaced (error : RuntimeError) :
    error.unplaced.diagnostic.unplaced = error.diagnostic.unplaced := by
  cases error <;> rfl

theorem RuntimeError.Twin.diagnostic {ρ : Renaming} {error error' : RuntimeError}
    (h : error.Twin (some ρ) error') : error.diagnostic.Alike ρ error'.diagnostic := by
  cases h with
  | placed h _ =>
    -- both diagnostics are, up to places, the one of the error without places
    have hsame : error'.diagnostic.unplaced = error.diagnostic.unplaced := by
      rw [← error.diagnostic_unplaced, ← error'.diagnostic_unplaced, h]
    have hfield : ∀ {α : Type} (field : Diagnostic → α),
        field error'.diagnostic.unplaced = field error.diagnostic.unplaced :=
      fun field => congrArg field hsame
    exact ⟨hfield Diagnostic.code, hfield Diagnostic.phase, hfield Diagnostic.notes,
      hfield Diagnostic.help, hfield Diagnostic.data, .inl (hfield Diagnostic.message)⟩
  | superclass h kind site site' =>
    cases h
    exact ⟨rfl, rfl, rfl, rfl, rfl, .inr ⟨kind, site, site', rfl, rfl⟩⟩

/-! ### Runs -/

namespace Session

variable {session : Session} {source path source' path' : String} {ρ : Renaming}

/-- A program and the renamed one run in tandem from a settled session, whatever the limits. -/
theorem Settled.tandem (h : session.Settled) {program program' : Program}
    (hrenames : program.RenamesTo ρ program') (rounds depth : Nat) :
    Tandem (some ρ) (.same session.store.scopes) (fun _ _ _ => True)
      (program.bindNames.exec rounds depth) (program'.bindNames.exec rounds depth)
      { session.store with printed := #[] } { session.store with printed := #[] } := by
  -- both runs start from one store, in which nothing is renamed
  have hsound : Store.Sound .any { session.store with printed := #[] } :=
    (h.sound _ fun _ _ => trivial).of_eq rfl rfl
  have hclosed := hsound.closed h.matches
  exact tandem_execAll (evalTandem_and_execTandem (some ρ) rounds depth).2 hclosed.twin_refl
    (Pairing.aligned_same hclosed.current) hrenames.bindNames

/-- Executing programs in tandem from one store prints the same and is cut short alike. -/
theorem execute_of_tandem (later later' : Session) (hstore : later'.store = later.store)
    {program program' : Program} {P : Pairing} {post : Pairing → Unit → Unit → Prop}
    (h : Tandem (some ρ) P post (program.exec roundLimit nestingLimit)
      (program'.exec roundLimit nestingLimit) { later.store with printed := #[] }
      { later.store with printed := #[] }) :
    (later'.execute program').2.store.output = (later.execute program).2.store.output ∧
      ∃ last, Option.Rel (Halt.Twin (some ρ) last) (later.execute program).1
        (later'.execute program').1 := by
  unfold Tandem at h
  unfold execute
  rw [hstore]
  generalize program.exec roundLimit nestingLimit { later.store with printed := #[] } = r at h ⊢
  generalize program'.exec roundLimit nestingLimit { later.store with printed := #[] } = r' at h ⊢
  cases h with
  | ok last hnext _ =>
    refine ⟨?_, last, .none⟩
    simp only [Store.output, afterExecution, hnext.twin.printed]
  | error last hnext hhalt =>
    refine ⟨?_, last, .some hhalt⟩
    simp only [Store.output, afterExecution, hnext.twin.printed]

/-- A source and one in which a local variable is renamed run alike from every reachable session:
they print the same, and they end the same way. -/
theorem Reachable.run_renamed (h : session.Reachable) (ρ : Renaming)
    (herrors : (session.read source path).1.errors = [])
    (herrors' : (session.read source' path').1.errors = [])
    (hrenames : (session.read source path).1.program.RenamesTo ρ
      (session.read source' path').1.program) :
    (session.run source' path').output = (session.run source path).output ∧
      EndsAlike ρ (session.run source path).result (session.run source' path').result := by
  have htandem := h.settled.tandem hrenames roundLimit nestingLimit
  obtain ⟨houtput, last, hhalts⟩ := execute_of_tandem (session.read source path).2
    (session.read source' path').2 rfl htandem
  rw [run_output_of_no_errors herrors, run_output_of_no_errors herrors']
  refine ⟨houtput, ?_⟩
  -- no flaw and no stray `return` cuts a program short
  have hordinary := ((session.read source path).2.execute_of_safe
    (h.settled.safe herrors (fun _ _ => trivial) roundLimit nestingLimit)).2.2.2
  rw [run_result_of_no_errors herrors, run_result_of_no_errors herrors']
  generalize ((session.read source path).2.execute
    (session.read source path).1.program.bindNames).1 = halt at hhalts hordinary ⊢
  generalize ((session.read source' path').2.execute
    (session.read source' path').1.program.bindNames).1 = halt' at hhalts ⊢
  cases hhalts with
  | none => exact .success
  | some hhalt =>
    have hordinary := (hordinary _ rfl).ordinary
    cases hhalt with
    | failed herror => exact .failed herror.diagnostic
    | stackExhausted => exact .stackExhausted
    | loopExhausted => exact .loopExhausted
    | returned | fault => exact hordinary.elim

end Session

/-! ### A use before its declaration -/

section EarlyUse

/-- The block. -/
def earlyUse (name : String) : Program :=
  [.block
    [.print (.variable ⟨"a", ⟨1, 9, some (.ofLength 1 8 1)⟩, .global⟩),
      .declare name none,
      .print (.variable ⟨name, ⟨1, 25, some (.ofLength 1 24 1)⟩, .global⟩)]]

/-- The first use of `a` comes before the declaration, so it stays as it is. -/
theorem earlyUse_renamesTo (ρ : Renaming) (hold : ρ.old = "a") (hnew : "a" ≠ ρ.new) :
    (earlyUse "a").RenamesTo ρ (earlyUse ρ.new) := by
  have hearly : ρ.lexical.uses [⟨[], true⟩] ⟨"a", ⟨1, 9, some (.ofLength 1 8 1)⟩, .global⟩
      ⟨"a", ⟨1, 9, some (.ofLength 1 8 1)⟩, .global⟩ :=
    ⟨hnew, (ρ.counterpart_false "a").symm⟩
  have hrenamed : ρ.new = ρ.counterpart true "a" := by rw [← hold, ρ.counterpart_old]
  have hlate : ρ.lexical.uses [⟨["a"], true⟩] ⟨"a", ⟨1, 25, some (.ofLength 1 24 1)⟩, .global⟩
      ⟨ρ.new, ⟨1, 25, some (.ofLength 1 24 1)⟩, .global⟩ := ⟨hnew, hrenamed⟩
  refine ⟨_, _, rfl, ⟨true, _, rfl, ?_⟩, rfl⟩
  refine ⟨_, _, rfl, ⟨_, rfl, _, rfl, hearly⟩, ?_⟩
  refine ⟨_, _, rfl, ⟨congrArg (Stmt.declare · none) hrenamed, hnew⟩, ?_⟩
  exact ⟨_, _, rfl, ⟨_, rfl, _, rfl, hlate⟩, rfl⟩

theorem reading_earlyUse :
    (Reading.ofText 1 "\x7b print a; var a; print a; \x7d").errors = [] ∧
      (Reading.ofText 1 "\x7b print a; var a; print a; \x7d").program = earlyUse "a" := by
  constructor <;> with_unfolding_all rfl

theorem reading_earlyUse_renamed :
    (Reading.ofText 1 "\x7b print a; var b; print b; \x7d").errors = [] ∧
      (Reading.ofText 1 "\x7b print a; var b; print b; \x7d").program = earlyUse "b" := by
  constructor <;> with_unfolding_all rfl

theorem run_renamed_earlyUse :
    let session := Session.new "/" 0
    let source := "\x7b print a; var a; print a; \x7d"
    let source' := "\x7b print a; var b; print b; \x7d"
    ∃ ρ : Renaming, session.Reachable ∧ (session.read source "<s>").1.errors = [] ∧
      (session.read source' "<s>").1.errors = [] ∧
      (session.read source "<s>").1.program.RenamesTo ρ (session.read source' "<s>").1.program ∧
      (session.run source' "<s>").output = (session.run source "<s>").output ∧
      EndsAlike ρ (session.run source "<s>").result (session.run source' "<s>").result := by
  intro session source source'
  have hreachable : session.Reachable := .new "/" 0
  have herrors : (session.read source "<s>").1.errors = [] := reading_earlyUse.1
  have herrors' : (session.read source' "<s>").1.errors = [] := reading_earlyUse_renamed.1
  have hprogram : (session.read source "<s>").1.program = earlyUse "a" := reading_earlyUse.2
  have hprogram' : (session.read source' "<s>").1.program = earlyUse "b" :=
    reading_earlyUse_renamed.2
  let ρ : Renaming := ⟨"a", "b", ⟨by decide, by decide⟩, ⟨by decide, by decide⟩⟩
  have hrenames : (session.read source "<s>").1.program.RenamesTo ρ
      (session.read source' "<s>").1.program := by
    rw [hprogram, hprogram']
    exact earlyUse_renamesTo ρ rfl (by decide)
  exact ⟨ρ, hreachable, herrors, herrors', hrenames,
    hreachable.run_renamed ρ herrors herrors' hrenames⟩

end EarlyUse

end Treewalk
