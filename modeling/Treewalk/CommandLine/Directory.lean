import Treewalk.Source.Path

/-!
# Reading files by path

A directory tree, and what reading a path in it gives. A path is followed from name to name; every
name but the last has to be that of a directory.

## Main definitions

* `ReadFault` — why a file cannot be read
* `FileTree` — files and directories by their full paths
* `FileTree.read` — the content of the file at a path
-/

namespace Treewalk

/-- Why a file cannot be read. -/
inductive ReadFault where
  | missing
  | isDirectory
  | notDirectory
  | other (reason : String)
deriving DecidableEq, Repr

/-- The reason as messages give it. -/
def ReadFault.reason : ReadFault → String
  | .missing => "No such file or directory"
  | .isDirectory => "Is a directory"
  | .notDirectory => "Not a directory"
  | .other reason => reason

/-- What has a name in a directory. -/
inductive Entry where
  | file (content : List UInt8)
  | directory
deriving DecidableEq, Repr

/-- A full path, as the names on the way from the root. -/
abbrev Names := List (List Char)

/-- Files and directories by their full paths. The root itself and every directory on the way to an
entry are there too. -/
structure FileTree where
  entries : List (Names × Entry)

namespace FileTree

/-- What is at a full path. -/
def find? (tree : FileTree) (names : Names) : Option Entry :=
  match tree.entries.lookup names with
  | some entry => some entry
  | none =>
    if names.isEmpty || tree.entries.any (fun entry => names.isPrefixOf entry.1) then
      some .directory
    else none

/-- What is found by following names from a place. -/
def follow (tree : FileTree) (place : Names) : Names → Except ReadFault Entry
  | [] =>
    match tree.find? place with
    | some entry => .ok entry
    | none => .error .missing
  | name :: rest =>
    match tree.find? place with
    | some .directory =>
      if name = [] || name = ['.'] then tree.follow place rest
      else if name = ['.', '.'] then tree.follow place.dropLast rest
      else tree.follow (place ++ [name]) rest
    | some (.file _) => .error .notDirectory
    | none => .error .missing

/-- The content of the file at a path, which may start from a directory. -/
def read (tree : FileTree) (directory path : String) : Except ReadFault (List UInt8) :=
  let start := if Path.isAbsolute path then [] else Path.components directory.toList
  if path = "" then .error .missing
  else
    match tree.follow start (Path.pieces path.toList) with
    | .ok (.file content) => .ok content
    | .ok .directory => .error .isDirectory
    | .error fault => .error fault

/-- A tree that holds a directory and, under it, entries by their relative paths. -/
def under (directory : String) (entries : List (String × Entry)) : FileTree :=
  let base := Path.components directory.toList
  ⟨(base, .directory) ::
    entries.map fun (name, entry) => (base ++ Path.components name.toList, entry)⟩

/-- The full paths of a tree. -/
def paths (tree : FileTree) : List String :=
  tree.entries.map fun entry => String.ofList ('/' :: Path.join entry.1)

end FileTree

end Treewalk
