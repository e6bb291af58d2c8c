import Treewalk.Source.File
import Treewalk.Source.Path

/-!
# The registry of sources

The registry keeps every text that was run, numbered from one in the order of registration. A file
that is registered again with the content of its latest registration keeps its number. A pseudo
path always gets a fresh number, since every text entered at a prompt is a text of its own.

## Main definitions

* `Registry.add` — register a text and learn its number
* `Registry.find?` — the text with a number
* `Registry.resolve` — the text and the positions that a span covers
* `SourceTables.add` — the same registration on tables of texts and of paths
-/

namespace Treewalk

/-- Every text registered so far, in the order of registration. -/
structure Registry where
  files : Array SourceFile := #[]

namespace Registry

/-- The text with a number; the numbers count from one. -/
def find? (r : Registry) (id : Int) : Option SourceFile :=
  if 1 ≤ id then r.files[id.toNat - 1]? else none

/-- The latest registration of a path. -/
def latest? (r : Registry) (path : String) : Option SourceFile :=
  r.files.toList.reverse.find? (·.path == path)

/-- The path under which a text is kept. -/
def key (directory path : String) : String :=
  if Path.isPseudo path then path else Path.absolute directory path

/-- The registry with one more text. -/
def append (r : Registry) (path content : String) : Nat × Registry :=
  let id := r.files.size + 1
  (id, { r with files := r.files.push ⟨id, path, content⟩ })

/-- Registers a text and gives its number. -/
def add (r : Registry) (directory path content : String) : Nat × Registry :=
  let key := key directory path
  if Path.isPseudo path then r.append key content
  else
    match r.latest? key with
    | some file => if file.content = content then (file.id, r) else r.append key content
    | none => r.append key content

/-- The text and the positions that a span covers. -/
def resolve (r : Registry) (span : Span) :
    Except SourceFault (SourceFile × Position × Position) := do
  match r.find? span.file with
  | none => .error (.unknownFile span.file)
  | some file =>
    let (first, last) ← file.positions span
    return (file, first, last)

end Registry

/-! ### Tables -/

/-- The registered texts as tables: the texts by their numbers, the number of the latest
registration of each path, and the next number. A later entry of a key hides the earlier ones. -/
structure SourceTables where
  files : List (Int × SourceFile) := []
  numbers : List (String × Nat) := []
  nextNumber : Nat := 1

namespace SourceTables

/-- The tables with one more text, under the next number. -/
def append (t : SourceTables) (path content : String) : Nat × SourceTables :=
  let id := t.nextNumber
  (id, ⟨(id, ⟨id, path, content⟩) :: t.files, (path, id) :: t.numbers, id + 1⟩)

/-- Registers a text and gives its number. There is none if a path has the number of a text that is
not there. -/
def add (t : SourceTables) (directory path content : String) : Option (Nat × SourceTables) :=
  let key := Registry.key directory path
  match if Path.isPseudo path then none else t.numbers.lookup key with
  | none => some (t.append key content)
  | some known =>
    match t.files.lookup (known : Int) with
    | none => none
    | some file => some (if file.content = content then (known, t) else t.append key content)

end SourceTables

end Treewalk
