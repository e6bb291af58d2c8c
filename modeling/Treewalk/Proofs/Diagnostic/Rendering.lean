import Treewalk.Diagnostic.Cause
import Treewalk.Diagnostic.Report
import Treewalk.Proofs.Source.Position

/-!
# Rendering diagnostics

A diagnostic is placed if its labels lie inside registered texts, exactly one of them is primary,
and its line is the one on which the primary label starts; a string without an end is reported on
the line on which its label ends. A placed diagnostic can be rendered, and on the way every source
line is found and nothing is made up: one of the marks is primary, and the frame shows a line.
-/

namespace Treewalk

/-! ### Placed diagnostics -/

/-- The code of a string without an end. -/
def unterminatedCode : String := "LAK1002"

/-- The offset whose line a diagnostic with a primary label names. -/
def Diagnostic.lineOffset (d : Diagnostic) (primary : Label) : Int :=
  if d.code = unterminatedCode then primary.span.stop else primary.span.start

/-- The labels of a diagnostic lie inside registered texts, exactly one of them is primary, and the
diagnostic names the line of that one. -/
structure Diagnostic.Placed (r : Registry) (d : Diagnostic) : Prop where
  covered : ∀ label ∈ d.labels, r.Covers label.span
  primary : ∃ label file position, d.labels.filter (·.primary) = [label] ∧
    r.find? label.span.file = some file ∧ file.position (d.lineOffset label) = .ok position ∧
    d.line = position.line

theorem Diagnostic.Placed.mono {r later : Registry} {d : Diagnostic} (h : d.Placed r)
    (hextends : r.Extends later) : d.Placed later := by
  obtain ⟨label, file, position, hprimary, hfile, hposition⟩ := h.primary
  exact ⟨fun label hlabel => (h.covered label hlabel).mono hextends,
    label, file, position, hprimary, hextends _ _ hfile, hposition⟩

/-- The diagnostic of a problem at a grounded site, beside other labels, is placed. -/
theorem Diagnostic.placed_of_grounds {r : Registry} {d : Diagnostic} {site : Site}
    (hcode : d.code ≠ unterminatedCode) (hline : d.line = site.line)
    (hgrounds : r.Grounds site.line site.span) {caption : Option String} {others : List Label}
    (hlabels : d.labels =
      settlePrimary (site.span.map (⟨·, caption, true⟩)).toList ++ others)
    (hcovered : ∀ label ∈ others, r.Covers label.span)
    (hsecondary : ∀ label ∈ others, label.primary = false) : d.Placed r := by
  have hcovers := hgrounds
  obtain ⟨span, file, hspan, hfile, hstart, hstop, hsite⟩ := hgrounds
  rw [settlePrimary_toList, hspan] at hlabels
  rw [hspan] at hcovers
  have hothers : others.filter (·.primary) = [] := by
    rw [List.filter_eq_nil_iff]
    intro label hlabel
    rw [hsecondary label hlabel]
    exact Bool.false_ne_true
  constructor
  · intro label hlabel
    rw [hlabels] at hlabel
    rcases List.mem_append.mp hlabel with hlabel | hlabel
    · obtain rfl : label = ⟨span, caption, true⟩ := by simpa using hlabel
      exact hcovers.covers
    · exact hcovered label hlabel
  · refine ⟨⟨span, caption, true⟩, file, file.positionOf span.start.toNat, ?_, hfile, ?_, ?_⟩
    · rw [hlabels, List.filter_append, hothers]
      rfl
    · rw [Diagnostic.lineOffset, if_neg hcode]
      have := span.start_le_stop
      exact file.position_of_le hstart (by simp only; omega)
    · rw [hline, hsite]

theorem Diagnostic.placed_atSite {r : Registry} {phase : Phase} {code message : String}
    {site : Site} {caption help : Option String} {data : List (String × Json)}
    (hcode : code ≠ unterminatedCode) (h : r.Grounds site.line site.span) :
    (Diagnostic.atSite phase code message site caption help data).Placed r := by
  have hnone : ∀ label ∈ ([] : List Label), r.Covers label.span ∧ label.primary = false :=
    fun label hlabel => absurd hlabel List.not_mem_nil
  exact placed_of_grounds hcode rfl h (List.append_nil _).symm (fun label h => (hnone label h).1)
    fun label h => (hnone label h).2

/-- The site that a grammar problem names. -/
def GrammarError.site : GrammarError → Site
  | .expectedToken found _ | .expectedExpression found | .invalidAssignmentTarget found
  | .tooManyArguments found | .tooManyParameters found | .misplacedKeyword found _ => found.site

theorem GrammarError.placed_diagnostic {r : Registry} {error : GrammarError}
    (h : r.Grounds error.site.line error.site.span) : error.diagnostic.Placed r := by
  cases error with
  | expectedToken | expectedExpression | invalidAssignmentTarget | tooManyArguments
  | tooManyParameters | misplacedKeyword =>
    unfold GrammarError.diagnostic
    exact Diagnostic.placed_atSite (by decide) h

/-- The site that a runtime error names. -/
def RuntimeError.site : RuntimeError → Site
  | .undefinedVariable _ site | .binaryOperands _ _ _ site | .unaryOperand _ _ site
  | .invalidSuperclass _ _ site | .notAnInstance _ _ site | .divisionByZero site
  | .wrongArity _ _ site _ _ | .notCallable _ site | .undefinedProperty _ site => site

/-- The declaration that a runtime error names. -/
def RuntimeError.declaration? : RuntimeError → Option Span
  | .wrongArity _ _ _ _ declaredAt => declaredAt
  | _ => none

theorem RuntimeError.placed_diagnostic {r : Registry} {error : RuntimeError}
    (h : r.Grounds error.site.line error.site.span)
    (hdeclaration : ∀ span ∈ error.declaration?, r.Covers span) : error.diagnostic.Placed r := by
  cases error with
  | wrongArity expected got site callee declaredAt =>
    have hlabel : ∀ label ∈ declarationLabel site declaredAt,
        r.Covers label.span ∧ label.primary = false := by
      intro label hlabel
      obtain ⟨line, span⟩ := site
      cases span with
      | none => exact absurd hlabel List.not_mem_nil
      | some span =>
        cases declaredAt with
        | none => exact absurd hlabel List.not_mem_nil
        | some declared =>
          obtain rfl := List.mem_singleton.mp hlabel
          exact ⟨hdeclaration declared rfl, rfl⟩
    exact Diagnostic.placed_of_grounds (by simp [RuntimeError.diagnostic, Diagnostic.atSite,
      unterminatedCode]) rfl h rfl (fun label h => (hlabel label h).1)
      fun label h => (hlabel label h).2
  | undefinedVariable | binaryOperands | unaryOperand | invalidSuperclass | notAnInstance
  | divisionByZero | notCallable | undefinedProperty =>
    unfold RuntimeError.diagnostic
    exact Diagnostic.placed_atSite (by decide) h

/-! ### Rendering -/

/-- A diagnostic can be rendered. The text of its primary label is registered, its labels there have
positions, one of the marks is primary, the frame shows a line, and every line that it shows
exists. -/
structure Diagnostic.Renders (r : Registry) (d : Diagnostic) : Prop where
  framed : ∃ primary file marks, d.primarySpan? = some primary ∧
    r.find? primary.file = some file ∧ r.marks file d.labels = .ok marks ∧
    (∃ mark ∈ marks, mark.label.primary = true) ∧ shownLines file.lineCount marks ≠ [] ∧
    ∀ line ∈ shownLines file.lineCount marks, ∃ text, file.line line = .ok text
  rendered : ∀ (renderer : Renderer) (terminal : Terminal) (host : Host),
    ∃ text, (renderer.render terminal host r d).1 = .ok text

theorem SourceFile.positions_of_bounds {f : SourceFile} {span : Span} (hfile : span.file = f.id)
    (hstart : 0 ≤ span.start) (hstop : span.stop ≤ f.chars.length) :
    f.positions span =
      .ok (f.positionOf span.start.toNat, f.positionOf span.last.toNat) := by
  have hle := span.start_le_stop
  have hlast : 0 ≤ span.last ∧ span.last ≤ f.chars.length := by
    unfold Span.last
    omega
  rw [positions, if_pos hfile, f.position_of_le hstart (by omega),
    f.position_of_le hlast.1 hlast.2]
  rfl

/-- The labels of one file have marks, if all labels are covered. -/
theorem Registry.marks_of_covered {r : Registry} {file : SourceFile}
    (hfile : r.find? file.id = some file) {labels : List Label}
    (hcovered : ∀ label ∈ labels, r.Covers label.span) :
    ∃ marks, r.marks file labels = .ok marks ∧
      ∀ label ∈ labels, label.span.file = file.id →
        ⟨label, file.positionOf label.span.start.toNat,
          file.positionOf label.span.last.toNat⟩ ∈ marks := by
  induction labels with
  | nil => exact ⟨[], rfl, fun label hlabel => absurd hlabel List.not_mem_nil⟩
  | cons label rest ih =>
    obtain ⟨marks, hmarks, hmem⟩ := ih fun label hlabel => hcovered label (.tail _ hlabel)
    rw [Registry.marks]
    by_cases hown : label.span.file = file.id
    · obtain ⟨found, hfound, hstart, hstop⟩ := hcovered label List.mem_cons_self
      rw [hown, hfile] at hfound
      obtain rfl := Option.some.inj hfound
      rw [if_pos hown, SourceFile.positions_of_bounds hown hstart hstop, hmarks]
      refine ⟨_, rfl, fun other hother hfile => ?_⟩
      rcases List.mem_cons.mp hother with rfl | hother
      · exact List.mem_cons_self
      · exact .tail _ (hmem other hother hfile)
    · rw [if_neg hown]
      refine ⟨marks, hmarks, fun other hother hfile => ?_⟩
      rcases List.mem_cons.mp hother with rfl | hother
      · exact absurd hfile hown
      · exact hmem other hother hfile

theorem mem_insertLine {line other : Nat} {lines : List Nat} :
    other ∈ insertLine line lines ↔ other = line ∨ other ∈ lines := by
  induction lines with
  | nil => simp [insertLine]
  | cons first rest ih => grind [insertLine]

/-- A frame shows the lines of the text that are at most one line away from a mark. -/
theorem mem_shownLines {lineCount line : Nat} {marks : List Mark} :
    line ∈ shownLines lineCount marks ↔ (1 ≤ line ∧ line ≤ lineCount) ∧
      ∃ m ∈ marks, m.first.line - 1 ≤ line ∧ line ≤ m.last.line + 1 := by
  have hmem : ∀ lines : List Nat, line ∈ lines.foldr insertLine [] ↔ line ∈ lines := by
    intro lines
    induction lines with
    | nil => rfl
    | cons first rest ih => rw [List.foldr_cons, mem_insertLine, ih, List.mem_cons]
  rw [shownLines, hmem, List.mem_flatMap, ← exists_and_left]
  refine exists_congr fun m => ?_
  rw [Mark.window, List.mem_range'_1]
  grind

theorem SourceFile.line_of_mem_shownLines {f : SourceFile} {marks : List Mark} {line : Nat}
    (h : line ∈ shownLines f.lineCount marks) : ∃ text, f.line line = .ok text := by
  obtain ⟨⟨hone, hle⟩, _⟩ := mem_shownLines.mp h
  rw [SourceFile.line, if_pos (by omega)]
  exact ⟨_, rfl⟩

/-- A frame shows the line on which a mark of its file begins. -/
theorem SourceFile.mem_shownLines_positionOf (f : SourceFile) {marks : List Mark} {label : Label}
    {start last : Nat} (hle : start ≤ last)
    (hmark : ⟨label, f.positionOf start, f.positionOf last⟩ ∈ marks) :
    (f.positionOf start).line ∈ shownLines f.lineCount marks := by
  have hmono := f.line_positionOf_mono hle
  rw [mem_shownLines]
  exact ⟨⟨f.one_le_line_positionOf start, f.line_positionOf_le_lineCount start⟩, _, hmark,
    Nat.sub_le _ _, Nat.le_succ_of_le hmono⟩

theorem Diagnostic.primarySpan?_of_filter {d : Diagnostic} {label : Label}
    (h : d.labels.filter (·.primary) = [label]) : d.primarySpan? = some label.span := by
  rw [primarySpan?, ← List.head?_filter, h]
  rfl

/-- Placed diagnostics can be rendered, in a registry that numbers their texts as they do. -/
theorem Diagnostic.Placed.renders {r : Registry} {d : Diagnostic} (h : d.Placed r)
    (hnumbers : ∀ label ∈ d.labels, ∀ file, r.find? label.span.file = some file →
      (file.id : Int) = label.span.file) : d.Renders r := by
  obtain ⟨label, file, _, hprimary, hfile, _⟩ := h.primary
  obtain ⟨hlabel, hisPrimary⟩ : label ∈ d.labels ∧ label.primary = true := by
    rw [← List.mem_filter, hprimary]
    exact List.mem_singleton_self label
  have hspan := primarySpan?_of_filter hprimary
  have hid := hnumbers label hlabel file hfile
  obtain ⟨marks, hmarks, hmem⟩ := Registry.marks_of_covered (hid ▸ hfile) h.covered
  have hmark := hmem label hlabel hid.symm
  have hshown := file.mem_shownLines_positionOf (by unfold Span.last; omega) hmark
  refine ⟨⟨label.span, file, marks, hspan, hfile, hmarks, ⟨_, hmark, hisPrimary⟩, ?_, ?_⟩, ?_⟩
  · exact List.ne_nil_of_mem hshown
  · exact fun line hline => SourceFile.line_of_mem_shownLines hline
  · intro renderer terminal host
    have hlocate : ∀ colored, ∃ rows, locate colored host r d = .ok rows := by
      intro colored
      simp only [locate, hspan, hfile, hmarks]
      exact ⟨_, rfl⟩
    have hrender : ∀ colored, ∃ text, renderDiagnostic colored host r d = .ok text := by
      intro colored
      obtain ⟨rows, hrows⟩ := hlocate colored
      rw [renderDiagnostic, hrows]
      exact ⟨_, rfl⟩
    unfold Renderer.render
    simp only
    split
    · exact hrender _
    · split
      · exact ⟨_, rfl⟩
      · exact ⟨_, rfl⟩

/-! ### Reports -/

theorem Renderer.reset_render (r : Renderer) (terminal : Terminal) (host : Host)
    (registry : Registry) (d : Diagnostic) :
    (r.render terminal host registry d).2.reset = r.reset := by
  unfold render
  simp only
  split
  · rfl
  · split <;> rfl

/-- Diagnostics that can be rendered one by one are rendered in turn, and only the count changes. -/
theorem Renderer.renderAll_of_renders {registry : Registry} {diagnostics : List Diagnostic}
    (h : ∀ d ∈ diagnostics, d.Renders registry) (r : Renderer) (terminal : Terminal) (host : Host) :
    ∃ text later, r.renderAll terminal host registry diagnostics = (.ok text, later) ∧
      later.reset = r.reset := by
  induction diagnostics generalizing r with
  | nil => exact ⟨"", r, rfl, rfl⟩
  | cons d rest ih =>
    obtain ⟨text, htext⟩ := (h d List.mem_cons_self).rendered r terminal host
    have hrender : r.render terminal host registry d =
        (.ok text, (r.render terminal host registry d).2) := Prod.ext htext rfl
    obtain ⟨texts, later, hrest, hlater⟩ :=
      ih (fun d hd => h d (.tail _ hd)) (r.render terminal host registry d).2
    refine ⟨text ++ texts, later, ?_, hlater.trans (r.reset_render terminal host registry d)⟩
    rw [renderAll, hrender]
    simp only
    rw [hrest]

namespace Reporter

/-- A reporter that starts to count again. -/
def reset (reporter : Reporter) : Reporter :=
  { reporter with renderer := reporter.renderer.reset }

/-- A reporter as it was, or one that starts to count again. -/
def Resumes (reporter earlier : Reporter) : Prop := reporter = earlier ∨ reporter = earlier.reset

theorem Resumes.trans {a b c : Reporter} (hab : a.Resumes b) (hbc : b.Resumes c) : a.Resumes c := by
  rcases hab with rfl | rfl
  · exact hbc
  · rcases hbc with rfl | rfl
    · exact .inr rfl
    · exact .inr rfl

/-- Diagnostics that can be rendered are reported. Afterwards a reporter for people counts again,
and one for other programs is as it was. -/
theorem report_of_renders {registry : Registry} {diagnostics : List Diagnostic}
    (h : ∀ d ∈ diagnostics, d.Renders registry) (reporter : Reporter) (closing : Bool) :
    ∃ text later, reporter.report registry diagnostics closing = (.ok text, later) ∧
      later.Resumes reporter := by
  obtain ⟨renderer, format, terminal, host⟩ := reporter
  obtain ⟨text, later, hrender, hlater⟩ := Renderer.renderAll_of_renders h renderer terminal host
  unfold report
  cases format with
  | json => exact ⟨_, _, rfl, .inl rfl⟩
  | human =>
    simp only
    rw [hrender]
    exact ⟨_, _, rfl, .inr (congrArg (Reporter.mk · .human terminal host) hlater)⟩

end Reporter

end Treewalk
