import Treewalk.Machine.Scope
import Treewalk.Proofs.Binding.Layout

/-!
# Scopes that grow

Opening a scope and giving a name a value are the only changes to the scopes of a store. Both keep
what opened each scope, and no scope loses a name. What holds of a chain of scopes because of these
two facts therefore holds ever after; in particular, a chain that matches a layout goes on to do so.
-/

namespace Treewalk

namespace Table

variable {α : Type}

theorem contains_insert (table : Table α) (name key : String) (value : α) :
    (table.insert name value).contains key = (decide (name = key) || table.contains key) := by
  unfold contains
  rw [find?_insert]
  split <;> simp [*]

theorem contains_eq_true_iff {table : Table α} {name : String} :
    table.contains name = true ↔ ∃ value, table.find? name = some value :=
  Option.isSome_iff_exists

end Table

namespace Scopes

/-- What opened a scope. -/
def origin? (scopes : Scopes) (id : ScopeId) : Option ScopeOrigin :=
  (scopes.cells[id]?).map (·.origin)

/-- The scope with a number was opened. -/
def Exists (scopes : Scopes) (id : ScopeId) : Prop := id < scopes.cells.size

theorem exists_of_origin? {scopes : Scopes} {id : ScopeId} {origin : ScopeOrigin}
    (h : scopes.origin? id = some origin) : scopes.Exists id := by
  obtain ⟨cell, hcell, _⟩ := Option.map_eq_some_iff.mp h
  exact (Array.getElem?_eq_some_iff.mp hcell).1

/-! ### The two changes -/

@[simp] theorem origin?_define (scopes : Scopes) (id key : ScopeId) (name : String)
    (value : Value) : (scopes.define id name value).origin? key = scopes.origin? key := by
  unfold origin? define
  rw [Array.getElem?_modify]
  split
  · rw [Option.map_map]
    rfl
  · rfl

theorem bindings_define (scopes : Scopes) (id key : ScopeId) (name : String) (value : Value)
    (hid : scopes.Exists id) :
    (scopes.define id name value).bindings key =
      if id = key then (scopes.bindings key).insert name value else scopes.bindings key := by
  unfold bindings define
  rw [Array.getElem?_modify]
  by_cases hkey : id = key
  · subst hkey
    rw [if_pos rfl, if_pos rfl, Array.getElem?_eq_getElem hid]
    rfl
  · rw [if_neg hkey, if_neg hkey]

/-- A scope that was never opened stays as it is. -/
theorem define_of_not_exists {scopes : Scopes} {id : ScopeId} (hid : ¬ scopes.Exists id)
    (name : String) (value : Value) : scopes.define id name value = scopes := by
  have hsize : scopes.cells.size ≤ id := Nat.le_of_not_lt hid
  unfold define
  congr 1
  refine Array.ext_getElem? fun i => ?_
  rw [Array.getElem?_modify]
  split
  · rename_i heq
    rw [← heq, Array.getElem?_eq_none hsize]
    rfl
  · rfl

theorem find?_bindings_define {scopes : Scopes} {id key : ScopeId} {name other : String}
    {value found : Value}
    (h : ((scopes.define id name value).bindings key).find? other = some found) :
    (id = key ∧ name = other ∧ value = found) ∨
      (scopes.bindings key).find? other = some found := by
  by_cases hid : scopes.Exists id
  · rw [bindings_define _ _ _ _ _ hid] at h
    split at h
    · rename_i hkey
      rw [Table.find?_insert] at h
      split at h
      · rename_i hname
        exact .inl ⟨hkey, hname, Option.some.inj h⟩
      · exact .inr h
    · exact .inr h
  · rw [define_of_not_exists hid] at h
    exact .inr h

theorem defines_define_self {scopes : Scopes} {id : ScopeId} (hid : scopes.Exists id)
    (name : String) (value : Value) : (scopes.define id name value).defines id name = true := by
  unfold defines
  rw [bindings_define _ _ _ _ _ hid, if_pos rfl, Table.contains_insert]
  simp

theorem origin?_add (scopes : Scopes) (origin : ScopeOrigin) (key : ScopeId) :
    (scopes.add origin).2.origin? key =
      if key = scopes.cells.size then some origin else scopes.origin? key := by
  unfold origin? add
  rw [Array.getElem?_push]
  split <;> rfl

theorem bindings_add (scopes : Scopes) (origin : ScopeOrigin) (key : ScopeId) :
    (scopes.add origin).2.bindings key = scopes.bindings key := by
  unfold bindings add
  rw [Array.getElem?_push]
  by_cases hkey : key = scopes.cells.size
  -- the new scope is empty, as a scope that was not opened was
  · rw [if_pos hkey, hkey, Array.getElem?_eq_none (Nat.le_refl _)]
  · rw [if_neg hkey]

/-! ### Growth -/

/-- Later scopes keep the origins and the names of earlier ones. -/
structure Grows (scopes later : Scopes) : Prop where
  origin : ∀ id origin, scopes.origin? id = some origin → later.origin? id = some origin
  names : ∀ id name, scopes.defines id name = true → later.defines id name = true

theorem Grows.refl (scopes : Scopes) : scopes.Grows scopes :=
  ⟨fun _ _ h => h, fun _ _ h => h⟩

theorem Grows.trans {a b c : Scopes} (h : a.Grows b) (h' : b.Grows c) : a.Grows c :=
  ⟨fun id origin ho => h'.origin id origin (h.origin id origin ho),
    fun id name hn => h'.names id name (h.names id name hn)⟩

theorem grows_define (scopes : Scopes) (id : ScopeId) (name : String) (value : Value) :
    scopes.Grows (scopes.define id name value) := by
  refine ⟨fun key origin h => by rwa [origin?_define], fun key other h => ?_⟩
  -- a name that is defined again keeps having a value
  by_cases hid : scopes.Exists id
  · unfold defines at h ⊢
    rw [bindings_define _ _ _ _ _ hid]
    split
    · rw [Table.contains_insert, h, Bool.or_true]
    · exact h
  · rwa [define_of_not_exists hid]

theorem grows_add (scopes : Scopes) (origin : ScopeOrigin) :
    scopes.Grows (scopes.add origin).2 := by
  refine ⟨fun key other h => ?_, fun key name h => ?_⟩
  -- the number of the new scope is one that no earlier scope has
  · rw [origin?_add, if_neg]
    · exact h
    · exact Nat.ne_of_lt (exists_of_origin? h)
  · unfold defines at h ⊢
    rwa [bindings_add]

/-! ### Chains that match a layout -/

/-- The scope with a number is one that a static scope describes: it has the same origin, and every
name declared so far has a value. -/
structure Realizes (scopes : Scopes) (scope : StaticScope) (id : ScopeId) : Prop where
  origin : scopes.origin? id = some scope.origin
  names : ∀ name ∈ scope.names, scopes.defines id name = true

/-- A chain of scopes is what a layout describes, with the globals outside. -/
inductive Matches (scopes : Scopes) : Layout → List ScopeId → Prop where
  | session : Matches scopes [] [0]
  | cons {scope : StaticScope} {id : ScopeId} {layout : Layout} {chain : List ScopeId}
    (hscope : scopes.Realizes scope id) (h : Matches scopes layout chain) :
    Matches scopes (scope :: layout) (id :: chain)

theorem Realizes.mono {scopes later : Scopes} {scope : StaticScope} {id : ScopeId}
    (h : scopes.Realizes scope id) (hgrows : scopes.Grows later) : later.Realizes scope id :=
  ⟨hgrows.origin _ _ h.origin, fun name hname => hgrows.names _ _ (h.names name hname)⟩

/-- A chain that matches a layout goes on to match it. -/
theorem Matches.mono {scopes later : Scopes} {layout : Layout} {chain : List ScopeId}
    (h : scopes.Matches layout chain) (hgrows : scopes.Grows later) :
    later.Matches layout chain := by
  induction h with
  | session => exact .session
  | cons hscope _ ih => exact .cons (hscope.mono hgrows) ih

/-- Each scope of the layout is realized at its place in the chain. -/
theorem Matches.getElem? {scopes : Scopes} {layout : Layout} {chain : List ScopeId} {hops : Nat}
    {scope : StaticScope} (h : scopes.Matches layout chain) (hget : layout[hops]? = some scope) :
    ∃ id, chain[hops]? = some id ∧ scopes.Realizes scope id := by
  induction h generalizing hops with
  | session => simp at hget
  | @cons first id layout chain hscope _ ih =>
    cases hops with
    | zero =>
      cases hget
      exact ⟨id, rfl, hscope⟩
    | succ hops => exact ih hget

/-- The innermost scope of a chain was opened, given that the globals were. -/
theorem Matches.exists_innermost {scopes : Scopes} {layout : Layout} {env : Env}
    (h : scopes.Matches layout env.chain) (hsession : scopes.Exists 0) :
    scopes.Exists env.scope := by
  obtain ⟨id, outer⟩ := env
  cases h with
  | session => exact hsession
  | cons hscope _ => exact exists_of_origin? hscope.origin

/-- A name that has a value in the innermost scope may be declared there. -/
theorem Matches.declare {scopes : Scopes} {layout : Layout} {id : ScopeId} {outer : List ScopeId}
    {name : String} (h : scopes.Matches layout (id :: outer))
    (hname : scopes.defines id name = true) :
    scopes.Matches (layout.declare name) (id :: outer) := by
  cases h with
  | session => exact .session
  | cons hscope h =>
    refine .cons ⟨hscope.origin, ?_⟩ h
    exact List.forall_mem_cons.mpr ⟨hname, hscope.names⟩

end Scopes

end Treewalk
