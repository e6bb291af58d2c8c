import Mathlib.Data.List.Forall2
import Treewalk.Diagnostic.Report

/-!
# Reports do not depend on earlier reports

One renderer serves all the reports of a session, and it counts the diagnostics that it is given. A
report begins with a count of zero and leaves a count of zero, so its text is what it would be if it
were the only one: the texts of its diagnostics up to the limit, one notice if there are more, and a
closing line that counts them all.
-/

namespace Treewalk

/-- A report for people: where it goes, what is known of the sources, the diagnostics, and whether a
closing line is wanted. -/
structure Report where
  terminal : Terminal
  host : Host
  registry : Registry
  diagnostics : List Diagnostic
  closing : Bool

namespace Report

/-- The text of a report that is made with a renderer, and the renderer afterwards. -/
def write (report : Report) (r : Renderer) : Except SourceFault String × Renderer :=
  let made := Reporter.report ⟨r, .human, report.terminal, report.host⟩ report.registry
    report.diagnostics report.closing
  (made.1, made.2.renderer)

/-- The texts of reports made in turn with one renderer, each with the renderer after it. -/
def writeAll (r : Renderer) : List Report → List (Except SourceFault String × Renderer)
  | [] => []
  | report :: rest => report.write r :: writeAll (report.write r).2 rest

/-- The text that a fresh renderer gives to a diagnostic of a report. -/
def fresh (report : Report) (mode : ColorMode) (limit : Int) (d : Diagnostic) :
    Except SourceFault String :=
  (Renderer.render ⟨mode, limit, 0⟩ report.terminal report.host report.registry d).1

/-- A text in the colour of errors, if the report is coloured. -/
def marked (report : Report) (mode : ColorMode) (text : String) : String :=
  paint (mode.enabled report.terminal) .error text

/-- The text of a report: the texts that a fresh renderer gives to the diagnostics up to the limit,
a notice if there are more, and a closing line that counts all of them if it is wanted and there are
any. -/
def Reads (report : Report) (mode : ColorMode) (limit : Int) (text : String) : Prop :=
  ∃ texts : List String,
    (report.diagnostics.take limit.toNat).Forall₂ (report.fresh mode limit · = .ok ·) texts ∧
    text = String.join texts ++
      (if limit < report.diagnostics.length then
        report.marked mode "... (too many errors, stopping)" ++ "\n" else "") ++
      (if report.closing = true ∧ 0 < report.diagnostics.length then
        report.marked mode (toString report.diagnostics.length ++
          if report.diagnostics.length = 1 then " error" else " errors") ++ " generated\n"
        else "")

end Report

namespace Renderer

variable {mode : ColorMode} {limit : Int} {terminal : Terminal} {host : Host} {registry : Registry}

/-- Beyond the limit and its notice nothing is said. -/
theorem renderAll_of_lt_count {count : Nat} (h : limit < count) (diagnostics : List Diagnostic) :
    Renderer.renderAll ⟨mode, limit, count⟩ terminal host registry diagnostics =
      (.ok "", ⟨mode, limit, count + diagnostics.length⟩) := by
  induction diagnostics generalizing count with
  | nil => rfl
  | cons d rest ih =>
    have hrender : Renderer.render ⟨mode, limit, count⟩ terminal host registry d =
        (.ok "", ⟨mode, limit, count + 1⟩) := by
      unfold render
      simp only
      rw [if_neg (by omega), if_neg (by omega)]
    have hbeyond : limit < (count + 1 : Nat) := by omega
    rw [renderAll, hrender]
    simp only [ih hbeyond, List.length_cons, String.append_empty]
    rw [Nat.add_assoc, Nat.add_comm 1]

/-- Up to the limit the text of a diagnostic does not depend on the count. -/
theorem render_of_count_lt {count : Nat} (h : count < limit) (d : Diagnostic) :
    Renderer.render ⟨mode, limit, count⟩ terminal host registry d =
      (renderDiagnostic (mode.enabled terminal) host registry d, ⟨mode, limit, count + 1⟩) := by
  unfold render
  simp only
  rw [if_pos (by omega)]

/-- The texts of the diagnostics up to the limit, in their order, and one notice if there are
more. -/
theorem renderAll_of_count_le {count : Nat} (h : count ≤ limit) {diagnostics : List Diagnostic}
    {texts : List String}
    (htexts : (diagnostics.take (limit - count).toNat).Forall₂
      (renderDiagnostic (mode.enabled terminal) host registry · = .ok ·) texts) :
    Renderer.renderAll ⟨mode, limit, count⟩ terminal host registry diagnostics =
      (.ok (String.join texts ++ if limit < (count + diagnostics.length : Nat) then
          limitNotice (mode.enabled terminal) else ""),
        ⟨mode, limit, count + diagnostics.length⟩) := by
  induction diagnostics generalizing count texts with
  | nil =>
    rw [List.take_nil] at htexts
    cases htexts
    rw [if_neg (by simpa using h)]
    rfl
  | cons d rest ih =>
    rw [renderAll]
    by_cases hlt : count < limit
    · obtain ⟨k, hk⟩ : ∃ k, (limit - count).toNat = k + 1 := ⟨(limit - count).toNat - 1, by omega⟩
      have hk' : (limit - (count + 1 : Nat)).toNat = k := by omega
      have hnext : (count + 1 : Nat) ≤ limit := by omega
      rw [hk, List.take_succ_cons] at htexts
      cases htexts with
      | cons hfirst hrest =>
        rw [render_of_count_lt hlt, hfirst]
        simp only [ih hnext (hk' ▸ hrest), List.length_cons, String.join_cons,
          String.append_assoc]
        rw [Nat.add_assoc, Nat.add_comm 1]
    · -- the first diagnostic beyond the limit is replaced by the notice
      have hk : (limit - count).toNat = 0 := by omega
      rw [hk, List.take_zero] at htexts
      cases htexts
      have hrender : Renderer.render ⟨mode, limit, count⟩ terminal host registry d =
          (.ok (limitNotice (mode.enabled terminal)), ⟨mode, limit, count + 1⟩) := by
        unfold render
        simp only
        rw [if_neg (by omega), if_pos (by omega)]
      rw [hrender, if_pos (by simp only [List.length_cons]; omega)]
      simp only [renderAll_of_lt_count (show limit < (count + 1 : Nat) by omega), List.length_cons,
        String.append_empty]
      rw [Nat.add_assoc, Nat.add_comm 1]
      rfl

end Renderer

namespace Report

variable {mode : ColorMode} {limit : Int} {report : Report}

/-- A fresh renderer gives a diagnostic its full text. -/
theorem fresh_eq (hlimit : 1 ≤ limit) (d : Diagnostic) :
    report.fresh mode limit d =
      renderDiagnostic (mode.enabled report.terminal) report.host report.registry d := by
  rw [fresh, Renderer.render_of_count_lt (by omega)]

/-- The closing line counts all diagnostics. -/
theorem closingLine_eq (count : Nat) :
    Renderer.summary ⟨mode, limit, count⟩ report.terminal =
      if 0 < count then
        report.marked mode (toString count ++ if count = 1 then " error" else " errors") ++
          " generated\n"
      else "" := by
  unfold Renderer.summary marked
  by_cases hpos : 0 < count
  · rw [if_neg (Nat.ne_of_gt hpos), if_pos hpos]
    by_cases hone : count = 1
    · simp only [if_pos hone, String.append_assoc]
      rfl
    · simp only [if_neg hone, String.append_assoc]
      rfl
  · rw [if_pos (Nat.eq_zero_of_not_pos hpos), if_neg hpos]

/-- A report that a fresh renderer makes reads as it should, and leaves the renderer fresh. -/
theorem reads_write (hlimit : 1 ≤ limit)
    (h : ∀ d ∈ report.diagnostics.take limit.toNat, ∃ text, report.fresh mode limit d = .ok text) :
    ∃ text, report.write ⟨mode, limit, 0⟩ = (.ok text, ⟨mode, limit, 0⟩) ∧
      report.Reads mode limit text := by
  obtain ⟨texts, htexts⟩ : ∃ texts, (report.diagnostics.take limit.toNat).Forall₂
      (report.fresh mode limit · = .ok ·) texts := by
    have htotal : ∀ d, ∃ text, d ∈ report.diagnostics.take limit.toNat →
        report.fresh mode limit d = .ok text := by
      intro d
      by_cases hd : d ∈ report.diagnostics.take limit.toNat
      · exact (h d hd).imp fun _ htext _ => htext
      · exact ⟨"", fun hmem => absurd hmem hd⟩
    choose text htext using htotal
    exact ⟨_, List.forall₂_map_right_iff.mpr (List.forall₂_same.mpr htext)⟩
  have hrendered : (report.diagnostics.take (limit - (0 : Nat)).toNat).Forall₂
      (renderDiagnostic (mode.enabled report.terminal) report.host report.registry · = .ok ·)
      texts := by
    simpa [fresh_eq hlimit] using htexts
  refine ⟨_, ?_, texts, htexts, rfl⟩
  have hzero : (0 : Nat) ≤ limit := by omega
  have hall := Renderer.renderAll_of_count_le hzero hrendered
  unfold write Reporter.report
  simp only
  rw [hall]
  simp only [Nat.zero_add, Prod.mk.injEq, Except.ok.injEq]
  refine ⟨congrArg₂ (· ++ ·) rfl ?_, rfl⟩
  cases report.closing with
  | false => rfl
  | true =>
    simp only [true_and]
    exact closingLine_eq _

/-- Each of several reports that are made in turn with one renderer reads as if it were the only
one, and after each the count is zero again. -/
theorem reads_writeAll (hlimit : 1 ≤ limit) {reports : List Report}
    (h : ∀ report ∈ reports, ∀ d ∈ report.diagnostics.take limit.toNat,
      ∃ text, report.fresh mode limit d = .ok text) :
    reports.Forall₂ (fun report step => ∃ text, step = (.ok text, ⟨mode, limit, 0⟩) ∧
      report.Reads mode limit text) (writeAll ⟨mode, limit, 0⟩ reports) := by
  induction reports with
  | nil => exact .nil
  | cons report rest ih =>
    obtain ⟨hfirst, hrest⟩ := List.forall_mem_cons.mp h
    obtain ⟨text, hwrite, hreads⟩ := reads_write hlimit hfirst
    rw [writeAll, hwrite]
    exact .cons ⟨text, rfl, hreads⟩ (ih hrest)

/-- A use of a name that is not declared, on a line of a text that may be known. -/
def undeclaredUse (line : Int) (labels : List Label) : Diagnostic :=
  ⟨"LAK4001", .runtime, "Undefined variable 'x'.", line, labels, [], none, []⟩

/-- A report of two diagnostics, an empty one, and one of a diagnostic with a code frame. -/
def threeReports : List Report :=
  let registry : Registry := ⟨#[⟨1, "<repl>", "print x;"⟩]⟩
  [⟨{}, {}, registry, [undeclaredUse 1 [], undeclaredUse 2 []], true⟩, ⟨{}, {}, registry, [], true⟩,
    ⟨{}, {}, registry, [undeclaredUse 1 [⟨.ofLength 1 6 1, some "here", true⟩]], false⟩]

theorem reads_writeAll_threeReports :
    (∀ report ∈ threeReports, ∀ d ∈ report.diagnostics.take 1,
      ∃ text, report.fresh .never 1 d = .ok text) ∧
    threeReports.Forall₂ (fun report step => ∃ text, step = (.ok text, ⟨.never, 1, 0⟩) ∧
      report.Reads .never 1 text) (writeAll ⟨.never, 1, 0⟩ threeReports) ∧
    (writeAll ⟨.never, 1, 0⟩ threeReports).map (·.1) =
      [.ok ("Runtime error [LAK4001]: Undefined variable 'x'.\n  --> line 1\n\n" ++
          "... (too many errors, stopping)\n2 errors generated\n"),
        .ok "",
        .ok ("Runtime error [LAK4001]: Undefined variable 'x'.\n  --> <repl>:1:7\n   |\n" ++
          "1 | print x;\n  |       ^\n          here\n\n")] := by
  have hrendered : ∀ report ∈ threeReports, ∀ d ∈ report.diagnostics.take 1,
      ∃ text, report.fresh .never 1 d = .ok text := by
    have hok : ∀ report ∈ threeReports, ∀ d ∈ report.diagnostics.take 1,
        (report.fresh .never 1 d).isOk = true := by decide +kernel
    intro report hreport d hd
    cases hfresh : report.fresh .never 1 d with
    | ok text => exact ⟨text, rfl⟩
    | error fault => simpa [hfresh, Except.isOk, Except.toBool] using hok report hreport d hd
  exact ⟨hrendered, reads_writeAll (by decide) hrendered, by decide +kernel⟩

end Report

end Treewalk
