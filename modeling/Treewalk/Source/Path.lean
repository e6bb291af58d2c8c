/-!
# Paths

Paths are divided by slashes. The normal form of a path has no empty or `.` component and no `..`
that follows a name. Exactly two leading slashes stay two; any other number of them counts as one.

## Main definitions

* `Path.normalise` — the normal form of a path
* `Path.absolute` — the normal form seen from a working directory
* `Path.relative` — a path as seen from a directory
-/

namespace Treewalk.Path

/-- The pieces of a text between slashes. -/
def pieces : List Char → List (List Char)
  | [] => [[]]
  | c :: rest =>
    match pieces rest with
    | [] => [[c]]
    | first :: others => if c = '/' then [] :: first :: others else (c :: first) :: others

/-- The components of a path: its pieces that are neither empty nor `.`. -/
def components (path : List Char) : List (List Char) :=
  (pieces path).filter fun piece => piece ≠ [] ∧ piece ≠ ['.']

/-- The number of leading slashes that a normal form keeps. -/
def leadingSlashes : List Char → Nat
  | '/' :: '/' :: '/' :: _ => 1
  | '/' :: '/' :: _ => 2
  | '/' :: _ => 1
  | _ => 0

/-- Whether a path starts at the root. -/
def isAbsolute (path : String) : Bool := path.toList.head? == some '/'

/-- The components after each `..` has removed the name before it. The kept ones come last first. -/
def collapse (rooted : Bool) (kept : List (List Char)) : List (List Char) → List (List Char)
  | [] => kept.reverse
  | part :: rest =>
    if part ≠ ['.', '.'] then collapse rooted (part :: kept) rest
    else
      match kept with
      | [] => collapse rooted (if rooted then [] else [part]) rest
      | top :: below =>
        if top = ['.', '.'] then collapse rooted (part :: kept) rest else collapse rooted below rest

/-- Components joined by slashes. -/
def join (parts : List (List Char)) : List Char := List.intercalate ['/'] parts

/-- The normal form of a path. -/
def normalise (path : String) : String :=
  let slashes := leadingSlashes path.toList
  let parts := collapse (0 < slashes) [] (components path.toList)
  let text := List.replicate slashes '/' ++ join parts
  if text = [] then "." else String.ofList text

/-- A path put behind a directory, with a slash between them unless the directory ends with one. -/
def within (directory path : String) : String :=
  if directory = "" ∨ directory.toList.getLast? = some '/' then directory ++ path
  else directory ++ "/" ++ path

/-- The normal form of a path seen from a working directory. -/
def absolute (directory path : String) : String :=
  if isAbsolute path then normalise path else normalise (within directory path)

/-- The two lists without their common beginning. -/
def dropCommon : List (List Char) → List (List Char) → List (List Char) × List (List Char)
  | a :: as, b :: bs => if a = b then dropCommon as bs else (a :: as, b :: bs)
  | as, bs => (as, bs)

/-- An absolute path as seen from an absolute directory. -/
def relative (directory path : String) : String :=
  let (up, down) := dropCommon (components directory.toList) (components path.toList)
  let parts := up.map (fun _ => ['.', '.']) ++ down
  if parts = [] then "." else String.ofList (join parts)

/-- Whether a path stands for a text without a file, such as `<prompt>`. -/
def isPseudo (path : String) : Bool :=
  path.toList.head? == some '<' && path.toList.getLast? == some '>'

end Treewalk.Path
