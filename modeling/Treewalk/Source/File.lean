import Treewalk.Source.Span
import Treewalk.Text.Blank

/-!
# Registered texts

A registered text is divided into lines at its line feeds. An offset into the text and a position
in it determine each other.

## Main definitions

* `lineStarts` — the offsets at which the lines of a text begin
* `SourceFile.position` — the position of an offset
* `SourceFile.positions` — the positions of a span's first and last code points
* `SourceFile.line` — the text of a line without its end
-/

namespace Treewalk

/-- The offsets that follow the line feeds of a text that starts at `offset`. -/
def lineStartsFrom (offset : Nat) : List Char → List Nat
  | [] => []
  | c :: rest =>
    if c = '\n' then (offset + 1) :: lineStartsFrom (offset + 1) rest
    else lineStartsFrom (offset + 1) rest

/-- The offsets at which the lines of a text begin. -/
def lineStarts (text : List Char) : List Nat := 0 :: lineStartsFrom 0 text

/-- A registered text. -/
structure SourceFile where
  id : Nat
  path : String
  content : String
deriving DecidableEq

namespace SourceFile

/-- The characters of the text. -/
def chars (f : SourceFile) : List Char := f.content.toList

/-- The number of lines, counting an empty one after a final line feed. -/
def lineCount (f : SourceFile) : Nat := (lineStarts f.chars).length

/-- The position of an offset that lies inside the text or at its end. -/
def positionOf (f : SourceFile) (offset : Nat) : Position :=
  let starts := (lineStarts f.chars).takeWhile (· ≤ offset)
  ⟨starts.length, offset - starts.getLastD 0 + 1⟩

/-- The position of an offset. -/
def position (f : SourceFile) (offset : Int) : Except SourceFault Position :=
  if 0 ≤ offset ∧ offset ≤ f.chars.length then .ok (f.positionOf offset.toNat)
  else .error (.offsetOutOfBounds offset f.path)

/-- The positions of a span's first and last code points, equal for an empty span. -/
def positions (f : SourceFile) (span : Span) : Except SourceFault (Position × Position) :=
  if span.file = f.id then do
    let first ← f.position span.start
    let last ← f.position span.last
    return (first, last)
  else .error (.foreignSpan span.file f.id)

/-- Whether a character belongs to a line's end. -/
def isLineEnd (c : Char) : Bool := c == '\r' || c == '\n'

/-- The characters of a line that exists, without its end. -/
def lineChars (f : SourceFile) (line : Nat) : List Char :=
  let starts := lineStarts f.chars
  let start := starts.getD (line - 1) 0
  let stop := starts.getD line f.chars.length
  Text.dropRightWhile isLineEnd ((f.chars.drop start).take (stop - start))

/-- The text of a line without its end. -/
def line (f : SourceFile) (number : Int) : Except SourceFault String :=
  if 1 ≤ number ∧ number ≤ f.lineCount then .ok (String.ofList (f.lineChars number.toNat))
  else .error (.lineOutOfBounds number)

end SourceFile

end Treewalk
