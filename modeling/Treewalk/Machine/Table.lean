/-!
# Tables of names

A table gives values to names and keeps the order in which the names were first defined. A name
that is defined again keeps its place.

## Main definitions

* `Table.find?` — the value of a name
* `Table.insert` — gives a name a value
-/

namespace Treewalk

/-- Names with values, in the order of their first definition. -/
structure Table (α : Type) where
  entries : List (String × α) := []

namespace Table

variable {α : Type}

/-- The value of a name among entries. -/
def findIn (name : String) : List (String × α) → Option α
  | [] => none
  | (key, value) :: rest => if key = name then some value else findIn name rest

/-- Entries with one name given a value, in its place or at the end. -/
def insertIn (name : String) (value : α) : List (String × α) → List (String × α)
  | [] => [(name, value)]
  | (key, old) :: rest =>
    if key = name then (key, value) :: rest else (key, old) :: insertIn name value rest

/-- The value of a name. -/
def find? (table : Table α) (name : String) : Option α := findIn name table.entries

/-- Whether a name has a value. -/
def contains (table : Table α) (name : String) : Bool := (table.find? name).isSome

/-- Gives a name a value. -/
def insert (table : Table α) (name : String) (value : α) : Table α :=
  ⟨insertIn name value table.entries⟩

/-- The table of entries in turn; of two with one name the later counts. -/
def ofList (entries : List (String × α)) : Table α :=
  entries.foldl (fun table entry => table.insert entry.1 entry.2) {}

theorem findIn_insertIn (entries : List (String × α)) (name key : String) (value : α) :
    findIn key (insertIn name value entries) =
      if name = key then some value else findIn key entries := by
  induction entries with
  | nil => rfl
  | cons entry rest ih =>
    obtain ⟨other, old⟩ := entry
    by_cases h : other = name
    · subst h
      by_cases hk : other = key <;> simp [insertIn, findIn, hk]
    · by_cases hk : other = key
      · have hn : name ≠ key := fun e => h (hk.trans e.symm)
        subst hk
        simp [insertIn, findIn, h, hn]
      · simp [insertIn, findIn, h, hk, ih]

/-- A name that was given a value has it, and the other names keep theirs. -/
theorem find?_insert (table : Table α) (name key : String) (value : α) :
    (table.insert name value).find? key = if name = key then some value else table.find? key :=
  findIn_insertIn table.entries name key value

end Table

end Treewalk
