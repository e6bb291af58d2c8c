import Treewalk.Diagnostic.Basic
import Treewalk.Diagnostic.Style
import Treewalk.Source.Registry

/-!
# Code frames

A code frame shows the lines of a source that a diagnostic marks, with one line of context on each
side. Below a line on which marks begin stands a row of underlines, carets for the primary mark and
dashes for the others, and then one caption per mark.

## Main definitions

* `Mark` — a label with the positions of its first and last code points
* `shownLines` — the numbers of the lines that a frame shows
* `underline` — the row below a line
* `codeFrame` — the rows of a frame
-/

namespace Treewalk

/-- A label with the positions of its first and last code points. -/
structure Mark where
  label : Label
  first : Position
  last : Position

namespace Mark

/-- The role of a mark's underline and caption. -/
def role (m : Mark) : Role := if m.label.primary then .primary else .secondary

/-- The character of a mark's underline. -/
def stroke (m : Mark) : Char := if m.label.primary then '^' else '-'

/-- The lines that a frame of a text with so many lines shows because of this mark: those that it is
on, and one more on each side. -/
def window (m : Mark) (lineCount : Nat) : List Nat :=
  let start := max 1 (m.first.line - 1)
  List.range' start (min lineCount (m.last.line + 1) + 1 - start)

/-- The column after a mark's underline on its first line, which has `width` characters. A mark
that goes on below is underlined to the end of the line, and every mark by one stroke at least. -/
def strokeEnd (m : Mark) (width : Nat) : Nat :=
  max m.first.column (if m.last.line = m.first.line then m.last.column else width)

/-- The columns of a mark's underline, counted from zero. -/
def columns (m : Mark) (width : Nat) : List Nat :=
  List.range' (m.first.column - 1) (m.strokeEnd width - (m.first.column - 1))

end Mark

/-- A line put in its place among others in ascending order, unless it is there. -/
def insertLine (line : Nat) : List Nat → List Nat
  | [] => [line]
  | first :: rest =>
    if line < first then line :: first :: rest
    else if line = first then first :: rest
    else first :: insertLine line rest

/-- The numbers of the lines that a frame shows, in ascending order. -/
def shownLines (lineCount : Nat) (marks : List Mark) : List Nat :=
  (marks.flatMap (·.window lineCount)).foldr insertLine []

/-- A row with a stroke at a column. A row that is too short is filled up with blanks. -/
def putStroke (stroke : Char) (row : List Char) (column : Nat) : List Char :=
  (row ++ List.replicate (column + 1 - row.length) ' ').set column stroke

/-- A row with the underline of a mark drawn over it. -/
def drawMark (width : Nat) (row : List Char) (m : Mark) : List Char :=
  (m.columns width).foldl (putStroke m.stroke) row

/-- The row below a line on which `marks` begin. They are drawn one over the other, and blanks at
the end are left out. -/
def underline (marks : List Mark) (width : Nat) : List Char :=
  Text.dropRightWhile Text.isBlank (marks.foldl (drawMark width) (List.replicate width ' '))

/-- A stroke in its colour. -/
def paintStroke (colored : Bool) (c : Char) : String :=
  if c = '^' then paint colored .primary (String.singleton c)
  else if c = '-' then paint colored .secondary (String.singleton c)
  else String.singleton c

/-- A text of blanks. -/
def blanks (count : Nat) : String := String.ofList (List.replicate count ' ')

/-- A number, flush right in a field. -/
def padLeft (width n : Nat) : String :=
  let digits := toString n
  blanks (width - digits.length) ++ digits

/-- The captions of marks, each below the start of its underline. -/
def captions (colored : Bool) (width : Nat) (marks : List Mark) : List String :=
  marks.filterMap fun m =>
    match m.label.caption with
    | none => none
    | some caption =>
      if caption = "" then none
      else some (blanks (width + 3 + (m.first.column - 1)) ++ paint colored m.role caption)

/-- The rows that a frame shows for one line, whose number fills a field of `width` characters. -/
def lineRows (colored : Bool) (file : SourceFile) (marks : List Mark) (width line : Nat) :
    List String :=
  let text := file.lineChars line
  let row := paint colored .gutter (padLeft width line ++ " |") ++ " " ++ String.ofList text
  match marks.filter (·.first.line == line) with
  | [] => [row]
  | starting =>
    let strokes := (underline starting text.length).map (paintStroke colored)
    row :: (paint colored .gutter (blanks width ++ " |") ++ " " ++ String.join strokes) ::
      captions colored width starting

/-- The rows of consecutive shown lines, with dots where lines are left out. -/
def frameRows (colored : Bool) (rows : Nat → List String) : List Nat → List String
  | [] => []
  | [line] => rows line
  | line :: next :: rest =>
    rows line ++ (if line + 1 < next then [paint colored .gutter "..."] else []) ++
      frameRows colored rows (next :: rest)

/-- The rows of a code frame. -/
def codeFrame (colored : Bool) (file : SourceFile) (marks : List Mark) : List String :=
  let shown := shownLines file.lineCount marks
  let width := (toString (shown.getLastD 0)).length
  frameRows colored (lineRows colored file marks width) shown

end Treewalk
