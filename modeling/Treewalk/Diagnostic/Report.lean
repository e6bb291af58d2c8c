import Treewalk.Diagnostic.Frame

/-!
# Reports

A report renders diagnostics for people: a heading, the place, a code frame, hints and notes. The
renderer counts the diagnostics it was given; those beyond a limit are not shown, and the first of
them is replaced by a notice. Other programs get one JSON value per line instead.

## Main definitions

* `Renderer` — the options of a report and the number of diagnostics so far
* `Renderer.render` — the text of one diagnostic
* `Renderer.summary` — the closing line
* `Reporter.report` — the text of a list of diagnostics
-/

namespace Treewalk

/-- How paths are shown: relative to the working directory when the file exists. -/
structure Host where
  directory : String := "/"
  existing : List String := []

/-- A path as a report shows it. -/
def Host.displayPath (host : Host) (path : String) : String :=
  if Path.isAbsolute path && host.existing.contains path then Path.relative host.directory path
  else path

/-- The options of a report and the number of diagnostics so far. -/
structure Renderer where
  mode : ColorMode
  maxErrors : Int
  count : Nat := 0

/-- The marks of a diagnostic in the file of its primary span. Labels of other files are left
out. -/
def Registry.marks (registry : Registry) (file : SourceFile) :
    List Label → Except SourceFault (List Mark)
  | [] => .ok []
  | label :: rest => do
    if label.span.file = file.id then
      let (first, last) ← file.positions label.span
      let others ← registry.marks file rest
      return ⟨label, first, last⟩ :: others
    else registry.marks file rest

/-- The place of a diagnostic and its code frame, or only its line when its source is unknown. -/
def locate (colored : Bool) (host : Host) (registry : Registry) (d : Diagnostic) :
    Except SourceFault (List String) :=
  let onlyLine := [paint colored .gutter s!"  --> line {d.line}"]
  match d.primarySpan? with
  | none => .ok onlyLine
  | some primary =>
    match registry.find? primary.file with
    | none => .ok onlyLine
    | some file => do
      let marks ← registry.marks file d.labels
      let start := ((marks.find? (·.label.primary)).map (·.first)).getD ⟨1, 1⟩
      let path := host.displayPath file.path
      return paint colored .gutter s!"  --> {path}:{start.text}" ::
        paint colored .gutter "   |" :: codeFrame colored file marks

/-- The hint and the notes of a diagnostic. -/
def remarks (colored : Bool) (d : Diagnostic) : List String :=
  let help :=
    match d.help with
    | some text => if text = "" then [] else [paint colored .hint s!"   = help: {text}"]
    | none => []
  help ++ d.notes.map fun note => paint colored .hint s!"   = note: {note}"

/-- The full text of one diagnostic. -/
def renderDiagnostic (colored : Bool) (host : Host) (registry : Registry) (d : Diagnostic) :
    Except SourceFault String := do
  let place ← locate colored host registry d
  let rows := paint colored .error d.heading :: place ++ remarks colored d
  return "\n".intercalate rows ++ "\n\n"

/-- The notice that stands for the diagnostics beyond the limit. -/
def limitNotice (colored : Bool) : String :=
  paint colored .error "... (too many errors, stopping)" ++ "\n"

namespace Renderer

/-- The text of one diagnostic, which counts against the limit also when it cannot be located. -/
def render (r : Renderer) (terminal : Terminal) (host : Host) (registry : Registry)
    (d : Diagnostic) : Except SourceFault String × Renderer :=
  let colored := r.mode.enabled terminal
  let counted := { r with count := r.count + 1 }
  if counted.count ≤ r.maxErrors then (renderDiagnostic colored host registry d, counted)
  else if (counted.count : Int) = r.maxErrors + 1 then (.ok (limitNotice colored), counted)
  else (.ok "", counted)

/-- The closing line; nothing when no diagnostic was counted. -/
def summary (r : Renderer) (terminal : Terminal) : String :=
  if r.count = 0 then ""
  else
    let noun := if r.count = 1 then "error" else "errors"
    paint (r.mode.enabled terminal) .error s!"{r.count} {noun}" ++ " generated\n"

/-- The renderer with its count set back. -/
def reset (r : Renderer) : Renderer := { r with count := 0 }

/-- The texts of diagnostics in turn. -/
def renderAll (r : Renderer) (terminal : Terminal) (host : Host) (registry : Registry) :
    List Diagnostic → Except SourceFault String × Renderer
  | [] => (.ok "", r)
  | d :: rest =>
    match r.render terminal host registry d with
    | (.error fault, r') => (.error fault, r')
    | (.ok text, r') =>
      match r'.renderAll terminal host registry rest with
      | (.error fault, r'') => (.error fault, r'')
      | (.ok texts, r'') => (.ok (text ++ texts), r'')

end Renderer

/-- For whom a report is written. -/
inductive ReportFormat where
  | human
  | json
deriving DecidableEq, Repr

/-- A renderer with the format and the stream it serves. -/
structure Reporter where
  renderer : Renderer
  format : ReportFormat
  terminal : Terminal := {}
  host : Host := {}

/-- One JSON value per diagnostic and line. -/
def jsonLines (diagnostics : List Diagnostic) : String :=
  String.join (diagnostics.map fun d => d.json.encode ++ "\n")

/-- The text of a list of diagnostics, with a closing line if asked for. Each report for people
counts afresh. -/
def Reporter.report (reporter : Reporter) (registry : Registry) (diagnostics : List Diagnostic)
    (closing : Bool) : Except SourceFault String × Reporter :=
  match reporter.format with
  | .json => (.ok (jsonLines diagnostics), reporter)
  | .human =>
    match reporter.renderer.renderAll reporter.terminal reporter.host registry diagnostics with
    | (.error fault, r) => (.error fault, { reporter with renderer := r })
    | (.ok text, r) =>
      let close := if closing then r.summary reporter.terminal else ""
      (.ok (text ++ close), { reporter with renderer := r.reset })

end Treewalk
