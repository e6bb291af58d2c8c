import Treewalk.Source.Span
import Treewalk.Json

/-!
# Diagnostics

A diagnostic is one reported problem: the phase that found it, a code, a message, the line, labelled
spans, notes, an optional hint, and named data for other programs. When it has labels exactly one of
them is primary.

## Main definitions

* `Diagnostic` — one reported problem
* `settlePrimary` — labels of which exactly one is primary
* `Diagnostic.summary` — the one-line form
* `Diagnostic.json` — the form for other programs
-/

namespace Treewalk

/-- The phase that found a problem. -/
inductive Phase where
  | lexical
  | grammatical
  | runtime
deriving DecidableEq, Repr

/-- The name of a phase. -/
def Phase.name : Phase → String
  | .lexical => "lexical"
  | .grammatical => "syntax"
  | .runtime => "runtime"

/-- The name of a phase at the start of a line. -/
def Phase.title : Phase → String
  | .lexical => "Lexical"
  | .grammatical => "Syntax"
  | .runtime => "Runtime"

/-- A span with an optional caption. -/
structure Label where
  span : Span
  caption : Option String
  primary : Bool
deriving DecidableEq

/-- One reported problem. -/
structure Diagnostic where
  code : String
  phase : Phase
  message : String
  line : Int
  labels : List Label
  notes : List String
  help : Option String
  data : List (String × Json)

/-- Labels of which only the first primary one stays primary. -/
def keepFirstPrimary : List Label → List Label
  | [] => []
  | label :: rest =>
    if label.primary then label :: rest.map ({ · with primary := false })
    else label :: keepFirstPrimary rest

/-- Labels of which exactly one is primary: the first that was, or else the first of all. -/
def settlePrimary (labels : List Label) : List Label :=
  if labels.any (·.primary) then keepFirstPrimary labels
  else
    match labels with
    | [] => []
    | label :: rest => { label with primary := true } :: rest

/-- A single label that is primary stays as it is. -/
theorem settlePrimary_toList (span : Option Span) (caption : Option String) :
    settlePrimary (span.map (⟨·, caption, true⟩ : Span → Label)).toList =
      (span.map (⟨·, caption, true⟩ : Span → Label)).toList := by
  cases span <;> rfl

namespace Diagnostic

/-- The span of the primary label. -/
def primarySpan? (d : Diagnostic) : Option Span :=
  (d.labels.find? (·.primary)).map (·.span)

/-- What kind of problem it is, in one line. -/
def heading (d : Diagnostic) : String :=
  s!"{d.phase.title} error [{d.code}]: {d.message}"

/-- The one-line form. -/
def summary (d : Diagnostic) : String :=
  s!"[line {d.line}] {d.heading}"

end Diagnostic

/-- A label for other programs. -/
def Label.json (label : Label) : Json :=
  .obj
    [("span", .obj
      [("start", .int label.span.start), ("end", .int label.span.stop),
        ("file_id", .int label.span.file)]),
      ("label", Json.ofText? label.caption), ("is_primary", .bool label.primary)]

/-- The form for other programs. -/
def Diagnostic.json (d : Diagnostic) : Json :=
  .obj
    [("code", .str d.code), ("severity", .str "error"), ("phase", .str d.phase.name),
      ("message", .str d.message), ("line", .int d.line),
      ("labels", .arr (d.labels.map Label.json)), ("notes", .arr (d.notes.map .str)),
      ("help", Json.ofText? d.help), ("data", .obj d.data)]

/-- The diagnostic of a problem at one site. A label without a caption of its own repeats the
message. -/
def Diagnostic.atSite (phase : Phase) (code message : String) (site : Site)
    (caption help : Option String) (data : List (String × Json)) : Diagnostic :=
  let caption :=
    match caption with
    | some text => if text = "" then message else text
    | none => message
  { code, phase, message
    line := site.line
    labels := settlePrimary (site.span.map (⟨·, some caption, true⟩)).toList
    notes := []
    help, data }

end Treewalk
