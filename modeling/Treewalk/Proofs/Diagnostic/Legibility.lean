import Treewalk.Diagnostic.Cause
import Treewalk.Proofs.Diagnostic.Escapes
import Treewalk.Proofs.Source.Position

/-!
# Legible diagnostics

A diagnostic quotes names, operators and tokens. It is legible if no text in it has escape
characters, which it is if no text that it quotes has any: the wording around the quotations has
none.
-/

namespace Treewalk

/-- A registered text without escape characters, at a path without them. -/
structure SourceFile.Legible (f : SourceFile) : Prop where
  path : Unescaped f.path
  content : Unescaped f.content

/-- A registry of texts and paths without escape characters. -/
def Registry.Legible (r : Registry) : Prop := ∀ file ∈ r.files, file.Legible

/-- A label whose caption has no escape characters. -/
def Label.Legible (label : Label) : Prop := ∀ caption ∈ label.caption, Unescaped caption

/-- A diagnostic that says nothing with escape characters in it. -/
structure Diagnostic.Legible (d : Diagnostic) : Prop where
  code : Unescaped d.code
  message : Unescaped d.message
  labels : ∀ label ∈ d.labels, label.Legible
  notes : ∀ note ∈ d.notes, Unescaped note
  help : ∀ text ∈ d.help, Unescaped text

/-- The diagnostic of a problem at one site. Without a caption of its own the label repeats the
message. -/
theorem Diagnostic.legible_atSite {phase : Phase} {code message : String} {site : Site}
    {caption help : Option String} {data : List (String × Json)} (hcode : Unescaped code)
    (hmessage : Unescaped message) (hcaption : ∀ text ∈ caption, Unescaped text)
    (hhelp : ∀ text ∈ help, Unescaped text) :
    (Diagnostic.atSite phase code message site caption help data).Legible where
  code := hcode
  message := hmessage
  labels := by
    intro label hlabel text htext
    unfold atSite at hlabel
    simp only [settlePrimary_toList, Option.mem_toList, Option.map_eq_some_iff] at hlabel
    obtain ⟨span, -, rfl⟩ := hlabel
    obtain rfl := Option.some.inj htext
    cases caption with
    | none => exact hmessage
    | some caption =>
      simp only
      split
      · exact hmessage
      · exact hcaption caption rfl
  notes := fun note hnote => absurd hnote List.not_mem_nil
  help := hhelp

/-- A problem with characters that quotes no escape character. -/
def LexicalError.Legible : LexicalError → Prop
  | .unexpectedCharacter _ character => Unescaped character
  | .unterminatedString _ => True

theorem LexicalError.legible_diagnostic {error : LexicalError} (h : error.Legible) :
    error.diagnostic.Legible := by
  unfold LexicalError.diagnostic
  cases error with
  | unexpectedCharacter site character =>
    have hcharacter : Unescaped character := h
    refine Diagnostic.legible_atSite (by decide) ?_ ?_ ?_
    · simp +decide [hcharacter]
    · simp +decide [hcharacter]
    · simp +decide
  | unterminatedString site =>
    refine Diagnostic.legible_atSite (by decide) (by decide) ?_ ?_
    · simp +decide
    · simp +decide

/-- A runtime problem that quotes words, and says nothing else with escape characters in it. -/
def RuntimeError.Quotes (word : String → Prop) : RuntimeError → Prop
  | .undefinedVariable name _ | .undefinedProperty name _ => word name
  | .binaryOperands operator left right _ =>
    Unescaped operator ∧ Unescaped left ∧ Unescaped right
  | .unaryOperand operator operand _ => Unescaped operator ∧ Unescaped operand
  | .invalidSuperclass name kind _ => word name ∧ Unescaped kind
  | .notAnInstance rule kind _ => Unescaped rule ∧ Unescaped kind
  | .wrongArity _ _ _ callee _ => ∀ name ∈ callee, word name
  | .notCallable kind _ => Unescaped kind
  | .divisionByZero _ => True

theorem legible_declarationLabel {site : Site} {declaredAt : Option Span} {label : Label}
    (h : label ∈ declarationLabel site declaredAt) : label.Legible := by
  unfold declarationLabel at h
  split at h
  · obtain rfl := List.mem_singleton.mp h
    intro text htext
    obtain rfl := Option.some.inj htext
    decide
  · cases h

theorem unescaped_arityNote {callee : String} (h : Unescaped callee) (expected : Int) :
    Unescaped (arityNote callee expected) := by
  have hnoun : Unescaped (if expected = 1 then "parameter" else "parameters") := by
    split <;> decide
  unfold arityNote
  simp +decide [h, hnoun]

theorem RuntimeError.legible_diagnostic {error : RuntimeError} (h : error.Quotes Unescaped) :
    error.diagnostic.Legible := by
  have hnone : ∀ text ∈ (none : Option String), Unescaped text := fun _ htext => by cases htext
  unfold RuntimeError.diagnostic
  cases error with
  | undefinedVariable name site =>
    have hname : Unescaped name := h
    refine Diagnostic.legible_atSite (by decide) ?_ ?_ ?_ <;> simp +decide [hname]
  | undefinedProperty name site =>
    have hname : Unescaped name := h
    exact Diagnostic.legible_atSite (by decide) (by simp +decide [hname]) hnone hnone
  | binaryOperands operator left right site =>
    obtain ⟨hoperator, hleft, hright⟩ := h
    refine Diagnostic.legible_atSite (by decide) ?_ ?_ hnone
    · split <;> simp +decide [hoperator, hleft, hright]
    · simp +decide [hoperator, hleft, hright]
  | unaryOperand operator operand site =>
    obtain ⟨hoperator, hoperand⟩ := h
    refine Diagnostic.legible_atSite (by decide) ?_ ?_ hnone
    · simp +decide [hoperator, hoperand]
    · simp +decide [hoperator, hoperand]
  | invalidSuperclass name kind site =>
    obtain ⟨hname, hkind⟩ := h
    refine Diagnostic.legible_atSite (by decide) ?_ ?_ ?_ <;> simp +decide [hname, hkind]
  | notAnInstance rule kind site =>
    obtain ⟨hrule, hkind⟩ := h
    exact Diagnostic.legible_atSite (by decide) (by simp +decide [hrule, hkind]) hnone hnone
  | divisionByZero site =>
    exact Diagnostic.legible_atSite (by decide) (by decide) hnone (by simp +decide)
  | notCallable kind site =>
    have hkind : Unescaped kind := h
    exact Diagnostic.legible_atSite (by decide) (by simp +decide [hkind]) hnone hnone
  | wrongArity expected got site callee declaredAt =>
    -- the label and the note at the declaration come on top of those of the call
    have hcall : (Diagnostic.atSite .runtime "LAK3003"
        s!"Expected {expected} arguments but got {got}." site (some s!"called with {got}") none
        [("expected", .int expected), ("got", .int got)]).Legible := by
      refine Diagnostic.legible_atSite (by decide) ?_ ?_ hnone <;> simp +decide
    refine ⟨hcall.code, hcall.message, ?_, ?_, hcall.help⟩
    · intro label hlabel
      rcases List.mem_append.mp hlabel with hlabel | hlabel
      · exact hcall.labels label hlabel
      · exact legible_declarationLabel hlabel
    · intro note hnote
      obtain ⟨name, hname, rfl⟩ : ∃ name, callee = some name ∧ arityNote name expected = note := by
        simpa using hnote
      exact unescaped_arityNote (h name hname) expected

end Treewalk
