/-!
# Spans and positions

A span is a half-open range of code points inside one registered source. A position is a line and a
column, both counted from one.

## Main definitions

* `Span` — a range that does not end before it starts
* `Site` — the line and, if known, the span that a diagnostic points at
* `SourceFault` — why a place in a source cannot be named
-/

namespace Treewalk

/-- A half-open range of code points inside the source with number `file`. -/
structure Span where
  file : Int
  start : Int
  stop : Int
  start_le_stop : start ≤ stop
deriving DecidableEq

/-- A line and a column, both counted from one. -/
structure Position where
  line : Nat
  column : Nat
deriving DecidableEq, Repr

/-- A position as `line:column`. -/
def Position.text (p : Position) : String :=
  s!"{p.line}:{p.column}"

/-- The line and, if known, the span that a diagnostic points at. -/
structure Site where
  line : Int
  span : Option Span
deriving DecidableEq

/-- Why a place in a source cannot be named. -/
inductive SourceFault where
  | reversedSpan (start stop : Int)
  | offsetOutOfBounds (offset : Int) (path : String)
  | foreignSpan (file own : Int)
  | lineOutOfBounds (line : Int)
  | unknownFile (file : Int)
deriving DecidableEq, Repr

/-- The description of a fault. -/
def SourceFault.message : SourceFault → String
  | .reversedSpan start stop => s!"Invalid span: start ({start}) > end ({stop})"
  | .offsetOutOfBounds offset path => s!"Offset {offset} out of bounds for {path}"
  | .foreignSpan file own => s!"Span belongs to file {file}, not {own}"
  | .lineOutOfBounds line => s!"Line {line} out of bounds"
  | .unknownFile file => s!"Unknown file ID: {file}"

namespace Span

/-- The span between two offsets, refused when it would end before it starts. -/
def make (file start stop : Int) : Except SourceFault Span :=
  if h : start ≤ stop then .ok ⟨file, start, stop, h⟩ else .error (.reversedSpan start stop)

/-- The span of `length` code points from an offset on. -/
def ofLength (file : Int) (offset length : Nat) : Span :=
  ⟨file, offset, offset + length, by omega⟩

/-- The offset of the last code point, or the start of an empty span. -/
def last (s : Span) : Int := max s.start (s.stop - 1)

end Span

end Treewalk
