import Treewalk.Proofs.Diagnostic.Frames
import Treewalk.Proofs.Diagnostic.Legibility

/-!
# Colours in reports

A report with colours is the report without them, tinted, as long as no text that goes into it has
escape characters. The proof follows the rows of a report. What is measured, padded or left out is
decided on texts without colours, so both reports have the same rows, and in each row the same parts
are painted or not.
-/

namespace Treewalk

/-! ### Paths -/

namespace Path

theorem mem_of_mem_pieces {text piece : List Char} (h : piece ∈ pieces text) {c : Char}
    (hc : c ∈ piece) : c ∈ text := by
  induction text generalizing piece with
  | nil =>
    obtain rfl := List.mem_singleton.mp h
    exact hc
  | cons first rest ih =>
    rw [pieces] at h
    cases hpieces : pieces rest with
    | nil =>
      rw [hpieces] at h
      obtain rfl := List.mem_singleton.mp h
      exact List.mem_cons.mpr (.inl (List.mem_singleton.mp hc))
    | cons head others =>
      rw [hpieces] at h ih
      simp only at h
      split at h
      · rcases List.mem_cons.mp h with rfl | h
        · cases hc
        · exact .tail _ (ih h hc)
      · rcases List.mem_cons.mp h with rfl | h
        · rcases List.mem_cons.mp hc with rfl | hc
          · exact List.mem_cons_self
          · exact .tail _ (ih List.mem_cons_self hc)
        · exact .tail _ (ih (.tail _ h) hc)

theorem suffix_dropCommon (as bs : List (List Char)) : (dropCommon as bs).2 <:+ bs := by
  fun_induction dropCommon as bs with
  | case1 a as bs ih => exact ih.trans (List.suffix_cons _ _)
  | case2 => exact List.suffix_refl _
  | case3 => exact List.suffix_refl _

theorem mem_join {parts : List (List Char)} {c : Char} (h : c ∈ join parts) :
    c = '/' ∨ ∃ part ∈ parts, c ∈ part := by
  induction parts with
  | nil => cases h
  | cons part rest ih =>
    cases rest with
    | nil => exact .inr ⟨part, List.mem_cons_self, by simpa [join] using h⟩
    | cons next rest =>
      rw [join, List.intercalate_cons_cons, List.mem_append, List.mem_append] at h
      rcases h with (hc | hc) | hc
      · exact .inr ⟨part, List.mem_cons_self, hc⟩
      · exact .inl (List.mem_singleton.mp hc)
      · exact (ih hc).imp_right fun ⟨other, hother, hc⟩ => ⟨other, .tail _ hother, hc⟩

/-- A path as seen from a directory has no other characters than those of the path, slashes and
points. -/
theorem unescaped_relative (directory : String) {path : String} (h : Unescaped path) :
    Unescaped (relative directory path) := by
  unfold relative
  simp only
  split
  · decide
  · rw [unescaped_ofList_iff]
    intro hmem
    rcases mem_join hmem with heq | ⟨part, hpart, hc⟩
    · exact absurd heq (by decide)
    -- a component is a way up, or it is one of the components of the path
    rcases List.mem_append.mp hpart with hup | hdown
    · obtain ⟨_, _, rfl⟩ := List.mem_map.mp hup
      exact absurd hc (by decide)
    · have hcomponent := (suffix_dropCommon _ _).mem hdown
      exact h (mem_of_mem_pieces (List.mem_filter.mp hcomponent).1 hc)

theorem mem_of_mem_collapse {rooted : Bool} {kept parts : List (List Char)} {part : List Char}
    (h : part ∈ collapse rooted kept parts) : part ∈ kept ∨ part ∈ parts := by
  fun_induction collapse rooted kept parts with
  | case1 => exact .inl (List.mem_reverse.mp h)
  | case2 | case3 | case4 | case5 => grind

theorem unescaped_normalise {path : String} (h : Unescaped path) : Unescaped (normalise path) := by
  unfold normalise
  simp only
  split
  · decide
  · rw [unescaped_ofList_iff, List.mem_append, not_or]
    refine ⟨fun hmem => absurd (List.eq_of_mem_replicate hmem) (by decide), fun hmem => ?_⟩
    rcases mem_join hmem with heq | ⟨part, hpart, hc⟩
    · exact absurd heq (by decide)
    rcases mem_of_mem_collapse hpart with hkept | hcomponent
    · cases hkept
    · exact h (mem_of_mem_pieces (List.mem_filter.mp hcomponent).1 hc)

theorem unescaped_absolute {directory path : String} (hdirectory : Unescaped directory)
    (hpath : Unescaped path) : Unescaped (absolute directory path) := by
  unfold absolute
  split
  · exact unescaped_normalise hpath
  · refine unescaped_normalise ?_
    unfold within
    split <;> simp +decide [hdirectory, hpath]

end Path

/-- A text is kept under a path without escape characters if neither its own path nor the working
directory has any. -/
theorem Registry.unescaped_key {directory path : String} (hdirectory : Unescaped directory)
    (hpath : Unescaped path) : Unescaped (Registry.key directory path) := by
  unfold key
  split
  · exact hpath
  · exact Path.unescaped_absolute hdirectory hpath

theorem Host.unescaped_displayPath (host : Host) {path : String} (h : Unescaped path) :
    Unescaped (host.displayPath path) := by
  unfold displayPath
  split
  · exact Path.unescaped_relative host.directory h
  · exact h

/-! ### Code frames -/

theorem SourceFile.Legible.lineChars {f : SourceFile} (h : f.Legible) (line : Nat) :
    escape ∉ f.lineChars line := by
  intro hmem
  have hline := List.mem_reverse.mp ((List.dropWhile_suffix _).mem (List.mem_reverse.mp hmem))
  exact h.content (List.mem_of_mem_drop (List.mem_of_mem_take hline))

theorem unescaped_blanks (count : Nat) : Unescaped (blanks count) := by
  rw [blanks, unescaped_ofList_iff]
  intro hmem
  have := List.eq_of_mem_replicate hmem
  cases this

theorem tinted_gutter {text : String} (h : Unescaped text) :
    Tinted (paint false .gutter text) (paint true .gutter text) :=
  tinted_paint (by decide) h

theorem Mark.role_ne_plain (m : Mark) : m.role ≠ .plain := by
  unfold role
  split <;> decide

theorem tinted_captions (width : Nat) {marks : List Mark} (h : ∀ m ∈ marks, m.label.Legible) :
    (captions false width marks).Forall₂ Tinted (captions true width marks) := by
  induction marks with
  | nil => exact .nil
  | cons m rest ih =>
    obtain ⟨hm, hrest⟩ := List.forall_mem_cons.mp h
    unfold captions at ih ⊢
    cases hcaption : m.label.caption with
    | none => simpa [hcaption] using ih hrest
    | some caption =>
      by_cases hempty : caption = ""
      · simpa [hcaption, hempty] using ih hrest
      · simp only [List.filterMap_cons, hcaption, if_neg hempty]
        refine .cons ?_ (ih hrest)
        exact (Tinted.bare (unescaped_blanks _)).append
          (tinted_paint m.role_ne_plain (hm caption hcaption))

theorem tinted_paintStroke {c : Char} (hc : c ≠ escape) :
    Tinted (paintStroke false c) (paintStroke true c) := by
  have hstroke : Unescaped (String.singleton c) := unescaped_singleton_iff.mpr hc
  unfold paintStroke
  split
  · exact tinted_paint (by decide) hstroke
  · split
    · exact tinted_paint (by decide) hstroke
    · exact .bare hstroke

theorem ne_escape_of_mem_underline {marks : List Mark} {width : Nat} {c : Char}
    (h : c ∈ underline marks width) : c ≠ escape := by
  rcases mem_underline h with rfl | ⟨m, _, rfl⟩
  · decide
  · unfold Mark.stroke
    split <;> decide

theorem tinted_lineRows {file : SourceFile} (hfile : file.Legible) {marks : List Mark}
    (h : ∀ m ∈ marks, m.label.Legible) (width line : Nat) :
    (lineRows false file marks width line).Forall₂ Tinted
      (lineRows true file marks width line) := by
  have hbar : Unescaped " |" := by decide
  have hspace : Tinted " " " " := .bare (by decide)
  have hnumber : Unescaped (padLeft width line ++ " |") := by
    simp [padLeft, unescaped_blanks, hbar]
  have hrow := ((tinted_gutter hnumber).append hspace).append
    (.bare (unescaped_ofList_iff.mpr (hfile.lineChars line)))
  unfold lineRows
  simp only
  -- strokes and captions are drawn below a line only if a mark starts on it
  cases hstarting : marks.filter (·.first.line == line) with
  | nil => exact .cons hrow .nil
  | cons m rest =>
    have hstrokes : ((underline (m :: rest) (file.lineChars line).length).map
        (paintStroke false)).Forall₂ Tinted
        ((underline (m :: rest) (file.lineChars line).length).map (paintStroke true)) := by
      rw [List.forall₂_map_left_iff, List.forall₂_map_right_iff, List.forall₂_same]
      exact fun c hc => tinted_paintStroke (ne_escape_of_mem_underline hc)
    refine .cons hrow (.cons ?_ (tinted_captions width fun other hother => h other ?_))
    · have hgutter := tinted_gutter (unescaped_append_iff.mpr ⟨unescaped_blanks width, hbar⟩)
      exact (hgutter.append hspace).append (tinted_join hstrokes)
    · rw [← hstarting] at hother
      exact (List.mem_filter.mp hother).1

theorem tinted_frameRows {plain colored : Nat → List String}
    (h : ∀ line, (plain line).Forall₂ Tinted (colored line)) (lines : List Nat) :
    (frameRows false plain lines).Forall₂ Tinted (frameRows true colored lines) := by
  induction lines with
  | nil => exact .nil
  | cons line rest ih =>
    cases rest with
    | nil => exact h line
    | cons next rest =>
      rw [frameRows, frameRows]
      refine List.rel_append (List.rel_append (h line) ?_) ih
      split
      · exact .cons (tinted_gutter (by decide)) .nil
      · exact .nil

/-- The rows of a code frame are tinted. -/
theorem tinted_codeFrame {file : SourceFile} (hfile : file.Legible) {marks : List Mark}
    (h : ∀ m ∈ marks, m.label.Legible) :
    (codeFrame false file marks).Forall₂ Tinted (codeFrame true file marks) :=
  tinted_frameRows (tinted_lineRows hfile h _) _

/-! ### Reports -/

theorem label_mem_of_marks {registry : Registry} {file : SourceFile} {labels : List Label}
    {marks : List Mark} (h : registry.marks file labels = .ok marks) {m : Mark} (hm : m ∈ marks) :
    m.label ∈ labels := by
  induction labels generalizing marks with
  | nil =>
    cases h
    cases hm
  | cons label rest ih =>
    rw [Registry.marks] at h
    by_cases hown : label.span.file = file.id
    · rw [if_pos hown] at h
      cases hpositions : file.positions label.span with
      | error fault =>
        rw [hpositions] at h
        cases h
      | ok positions =>
        cases hrest : registry.marks file rest with
        | error fault =>
          rw [hpositions, hrest] at h
          cases h
        | ok others =>
          rw [hpositions, hrest] at h
          cases h
          rcases List.mem_cons.mp hm with rfl | hm
          · exact List.mem_cons_self
          · exact .tail _ (ih hrest hm)
    · rw [if_neg hown] at h
      exact .tail _ (ih h hm)

theorem Position.unescaped_text (position : Position) : Unescaped position.text := by
  simp +decide [Position.text]

theorem Registry.Legible.of_find? {r : Registry} (h : r.Legible) {id : Int} {file : SourceFile}
    (hfile : r.find? id = some file) : file.Legible :=
  h file (mem_of_find? hfile)

/-- The place of a diagnostic and its code frame are tinted. -/
theorem tinted_locate {registry : Registry} (hregistry : registry.Legible) {d : Diagnostic}
    (hd : d.Legible) (host : Host) {plain : List String}
    (h : locate false host registry d = .ok plain) :
    ∃ colored, locate true host registry d = .ok colored ∧ plain.Forall₂ Tinted colored := by
  have honly : Tinted (paint false .gutter s!"  --> line {d.line}")
      (paint true .gutter s!"  --> line {d.line}") :=
    tinted_gutter (unescaped_append_iff.mpr ⟨by decide, unescaped_repr_int d.line⟩)
  unfold locate at h ⊢
  simp only at h ⊢
  cases hspan : d.primarySpan? with
  | none =>
    rw [hspan] at h
    cases h
    exact ⟨_, rfl, .cons honly .nil⟩
  | some primary =>
    rw [hspan] at h
    simp only at h ⊢
    cases hfile : registry.find? primary.file with
    | none =>
      rw [hfile] at h
      cases h
      exact ⟨_, rfl, .cons honly .nil⟩
    | some file =>
      rw [hfile] at h
      simp only at h ⊢
      cases hmarks : registry.marks file d.labels with
      | error fault =>
        rw [hmarks] at h
        cases h
      | ok marks =>
        rw [hmarks] at h
        cases h
        have hlegible := hregistry.of_find? hfile
        have hpath := host.unescaped_displayPath hlegible.path
        refine ⟨_, rfl, .cons (tinted_gutter ?_) (.cons (tinted_gutter (by decide)) ?_)⟩
        · simp +decide [hpath, Position.unescaped_text]
        · exact tinted_codeFrame hlegible fun m hm => hd.labels _ (label_mem_of_marks hmarks hm)

theorem tinted_remarks {d : Diagnostic} (hd : d.Legible) :
    (remarks false d).Forall₂ Tinted (remarks true d) := by
  have hremark : ∀ {text : String}, Unescaped text →
      Tinted (paint false .hint text) (paint true .hint text) := tinted_paint (by decide)
  unfold remarks
  refine List.rel_append ?_ ?_
  · cases hhelp : d.help with
    | none => exact .nil
    | some text =>
      simp only
      split
      · exact .nil
      · exact .cons (hremark (unescaped_append_iff.mpr ⟨by decide, hd.help text hhelp⟩)) .nil
  · rw [List.forall₂_map_left_iff, List.forall₂_map_right_iff, List.forall₂_same]
    intro note hnote
    exact hremark (unescaped_append_iff.mpr ⟨by decide, hd.notes note hnote⟩)

theorem Diagnostic.Legible.heading {d : Diagnostic} (hd : d.Legible) : Unescaped d.heading := by
  have htitle : Unescaped d.phase.title := by cases d.phase <;> decide
  simp +decide [Diagnostic.heading, htitle, hd.code, hd.message]

/-- The text of a diagnostic is tinted. -/
theorem tinted_renderDiagnostic {registry : Registry} (hregistry : registry.Legible)
    {d : Diagnostic} (hd : d.Legible) (host : Host) {plain : String}
    (h : renderDiagnostic false host registry d = .ok plain) :
    ∃ colored, renderDiagnostic true host registry d = .ok colored ∧ Tinted plain colored := by
  unfold renderDiagnostic at h ⊢
  cases hplace : locate false host registry d with
  | error fault =>
    rw [hplace] at h
    cases h
  | ok place =>
    rw [hplace] at h
    cases h
    obtain ⟨place', hplace', hrows⟩ := tinted_locate hregistry hd host hplace
    rw [hplace']
    refine ⟨_, rfl, ?_⟩
    have hheading := tinted_paint (show Role.error ≠ .plain by decide) hd.heading
    exact (tinted_intercalate (by decide) (List.rel_append (.cons hheading hrows)
      (tinted_remarks hd))).append (.bare (by decide))

theorem tinted_limitNotice : Tinted (limitNotice false) (limitNotice true) :=
  (tinted_paint (by decide) (by decide)).append (.bare (by decide))

namespace Renderer

variable {registry : Registry} (maxErrors : Int) (terminal : Terminal) (host : Host)

/-- Two renderers that have counted the same diagnostics, one without and one with colours, render
the next one alike. -/
theorem tinted_render (hregistry : registry.Legible) {d : Diagnostic} (hd : d.Legible) (count : Nat)
    {plain : String} {r : Renderer}
    (h : render ⟨.never, maxErrors, count⟩ terminal host registry d = (.ok plain, r)) :
    ∃ colored, render ⟨.always, maxErrors, count⟩ terminal host registry d =
        (.ok colored, ⟨.always, maxErrors, count + 1⟩) ∧ r = ⟨.never, maxErrors, count + 1⟩ ∧
      Tinted plain colored := by
  -- what is said depends on the count alone: the text, the notice of the limit or nothing
  unfold render at h ⊢
  simp only [ColorMode.enabled] at h ⊢
  by_cases hshown : ((count + 1 : Nat) : Int) ≤ maxErrors
  · rw [if_pos hshown] at h ⊢
    obtain ⟨hplain, rfl⟩ := Prod.mk.inj h
    obtain ⟨colored, hcolored, htinted⟩ := tinted_renderDiagnostic hregistry hd host hplain
    exact ⟨colored, congrArg (·, _) hcolored, rfl, htinted⟩
  rw [if_neg hshown] at h ⊢
  by_cases hfirst : ((count + 1 : Nat) : Int) = maxErrors + 1
  · rw [if_pos hfirst] at h ⊢
    cases h
    exact ⟨_, rfl, rfl, tinted_limitNotice⟩
  · rw [if_neg hfirst] at h ⊢
    cases h
    exact ⟨_, rfl, rfl, .bare (by decide)⟩

/-- So they do with diagnostics in turn. -/
theorem tinted_renderAll (hregistry : registry.Legible) {diagnostics : List Diagnostic}
    (hlegible : ∀ d ∈ diagnostics, d.Legible) (count : Nat) {plain : String} {r : Renderer}
    (h : renderAll ⟨.never, maxErrors, count⟩ terminal host registry diagnostics =
      (.ok plain, r)) :
    ∃ colored, renderAll ⟨.always, maxErrors, count⟩ terminal host registry diagnostics =
        (.ok colored, ⟨.always, maxErrors, count + diagnostics.length⟩) ∧
      r = ⟨.never, maxErrors, count + diagnostics.length⟩ ∧ Tinted plain colored := by
  induction diagnostics generalizing count plain r with
  | nil =>
    cases h
    exact ⟨"", rfl, rfl, .bare (by decide)⟩
  | cons d rest ih =>
    obtain ⟨hd, hrest⟩ := List.forall_mem_cons.mp hlegible
    rw [renderAll] at h ⊢
    cases hrender : render ⟨.never, maxErrors, count⟩ terminal host registry d with
    | mk result r' =>
      rw [hrender] at h
      cases result with
      | error fault => cases h
      | ok text =>
        obtain ⟨text', hcolored, rfl, htext⟩ :=
          tinted_render maxErrors terminal host hregistry hd count hrender
        rw [hcolored]
        simp only at h ⊢
        cases hothers : renderAll ⟨.never, maxErrors, count + 1⟩ terminal host registry rest with
        | mk result last =>
          rw [hothers] at h
          cases result with
          | error fault => cases h
          | ok texts =>
            obtain ⟨texts', hcolored', rfl, htexts⟩ := ih hrest (count + 1) hothers
            cases h
            rw [hcolored', List.length_cons, Nat.add_assoc, Nat.add_comm 1]
            exact ⟨_, rfl, rfl, htext.append htexts⟩

theorem tinted_summary (count : Nat) :
    Tinted (summary ⟨.never, maxErrors, count⟩ terminal)
      (summary ⟨.always, maxErrors, count⟩ terminal) := by
  unfold summary
  simp only [ColorMode.enabled]
  by_cases hzero : count = 0
  · rw [if_pos hzero, if_pos hzero]
    exact .bare (by decide)
  · rw [if_neg hzero, if_neg hzero]
    have hnoun : Unescaped (if count = 1 then "error" else "errors") := by
      split <;> decide
    refine (tinted_paint (by decide) ?_).append (.bare (by decide))
    simp +decide [hnoun]

end Renderer

/-- A report with colours is the report without them, tinted. -/
theorem Reporter.tinted_report {registry : Registry} (hregistry : registry.Legible)
    {diagnostics : List Diagnostic} (hlegible : ∀ d ∈ diagnostics, d.Legible) (maxErrors : Int)
    (count : Nat) (terminal : Terminal) (host : Host) (closing : Bool) {plain : String}
    (h : (report ⟨⟨.never, maxErrors, count⟩, .human, terminal, host⟩ registry diagnostics
      closing).1 = .ok plain) :
    ∃ colored, (report ⟨⟨.always, maxErrors, count⟩, .human, terminal, host⟩ registry diagnostics
        closing).1 = .ok colored ∧ Tinted plain colored := by
  unfold report at h ⊢
  simp only at h ⊢
  cases hrender : Renderer.renderAll ⟨.never, maxErrors, count⟩ terminal host registry
      diagnostics with
  | mk result r =>
    rw [hrender] at h
    cases result with
    | error fault => cases h
    | ok text =>
      obtain ⟨text', hcolored, rfl, htext⟩ :=
        Renderer.tinted_renderAll maxErrors terminal host hregistry hlegible count hrender
      cases h
      rw [hcolored]
      refine ⟨_, rfl, htext.append ?_⟩
      cases closing with
      | false => exact .bare (show Unescaped "" by decide)
      | true => exact Renderer.tinted_summary maxErrors terminal _

end Treewalk
