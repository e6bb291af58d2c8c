import Treewalk.Proofs.Machine.Computation

/-!
# Names along chains of scopes

A name can be looked up by going outward along a chain of scopes, or by counting scopes. Both find
the same if the count is that of the nearest scope with the name, and both give the name its new
value there. Chains share scopes: a new value is seen from every chain of which this scope is the
nearest one with the name, and nothing else changes for any chain. If no scope of a chain has the
name, looking it up and giving it a new value fail, and no scope changes.
-/

namespace Treewalk

/-! ### Counting scopes -/

namespace Scopes

variable {scopes : Scopes} {env : Env} {hops : Nat} {id : ScopeId} {name : String}

theorem reach_of_getElem? (h : env.chain[hops]? = some id) : Scopes.reach env hops = .ok id := by
  obtain ⟨hlt, hget⟩ := List.getElem?_eq_some_iff.mp h
  have houtward : env.outward hops = some (id :: env.chain.drop (hops + 1)) := by
    rw [Env.outward, if_pos (Nat.le_of_lt hlt), List.drop_eq_getElem_cons hlt, hget]
  rw [Scopes.reach, houtward]

theorem reach_of_none (h : env.chain[hops]? = none) : Scopes.reach env hops = .error .noScope := by
  have hlength : env.chain.length ≤ hops := List.getElem?_eq_none_iff.mp h
  unfold Scopes.reach Env.outward
  by_cases hle : hops ≤ env.chain.length
  · rw [if_pos hle, List.drop_eq_nil_of_le hlength]
  · rw [if_neg hle]

theorem getAt_of_reach {value : Value} (hreach : Scopes.reach env hops = .ok id)
    (hvalue : (scopes.bindings id).find? name = some value) :
    scopes.getAt env hops name = .ok value := by
  simp only [Scopes.getAt, hreach, bind, Except.bind, hvalue]
  rfl

theorem getAt_of_getElem? {value : Value} (hid : env.chain[hops]? = some id)
    (hvalue : (scopes.bindings id).find? name = some value) :
    scopes.getAt env hops name = .ok value :=
  getAt_of_reach (reach_of_getElem? hid) hvalue

/-! ### Going outward -/

theorem holder?_cons_of_defines (h : scopes.defines id name = true) (outer : List ScopeId) :
    scopes.holder? name (id :: outer) = some id :=
  List.find?_cons_of_pos h

theorem holder?_cons_of_not_defines (h : scopes.defines id name = false) (outer : List ScopeId) :
    scopes.holder? name (id :: outer) = scopes.holder? name outer :=
  List.find?_cons_of_neg (by simp [h])

theorem holder?_eq_none_iff {chain : List ScopeId} :
    scopes.holder? name chain = none ↔ ∀ id ∈ chain, scopes.defines id name = false := by
  simp [holder?]

/-- The value of a name is the one in the nearest scope with the name. -/
theorem find?_eq_bind (scopes : Scopes) (name : String) (chain : List ScopeId) :
    scopes.find? name chain =
      (scopes.holder? name chain).bind fun id => (scopes.bindings id).find? name := by
  induction chain with
  | nil => rfl
  | cons id outer ih =>
    rw [Scopes.find?]
    cases hfound : (scopes.bindings id).find? name with
    | some value =>
      have hdefines : scopes.defines id name = true := Option.isSome_iff_exists.mpr ⟨value, hfound⟩
      rw [holder?_cons_of_defines hdefines, Option.bind_some, hfound]
    | none =>
      have hdefines : scopes.defines id name = false := by
        rw [defines, Table.contains, hfound]
        rfl
      rw [holder?_cons_of_not_defines hdefines, ← ih]

/-- A name is bound a number of steps outward, in a scope, and in no nearer one. -/
structure BindsAt (scopes : Scopes) (env : Env) (name : String) (hops : Nat) (id : ScopeId) :
    Prop where
  scope : env.chain[hops]? = some id
  bound : scopes.defines id name = true
  nearest : ∀ nearer ∈ env.chain.take hops, scopes.defines nearer name = false

theorem BindsAt.holder?_eq (h : scopes.BindsAt env name hops id) :
    scopes.holder? name env.chain = some id := by
  obtain ⟨hlt, hget⟩ := List.getElem?_eq_some_iff.mp h.scope
  have hsplit : env.chain = env.chain.take hops ++ id :: env.chain.drop (hops + 1) := by
    rw [← hget, ← List.drop_eq_getElem_cons hlt, List.take_append_drop]
  have hnearer := holder?_eq_none_iff.mpr h.nearest
  have hreached := holder?_cons_of_defines h.bound (env.chain.drop (hops + 1))
  unfold holder? at hnearer hreached ⊢
  rw [hsplit, List.find?_append, hnearer, Option.none_or, hreached]

/-- The nearest scope with a name has a distance. -/
theorem exists_bindsAt (h : scopes.holder? name env.chain = some id) :
    ∃ hops, scopes.BindsAt env name hops id := by
  obtain ⟨hbound, nearer, outer, hsplit, hnearer⟩ := List.find?_eq_some_iff_append.mp h
  refine ⟨nearer.length, ?_, hbound, fun other hmem => ?_⟩
  · rw [hsplit, List.getElem?_append_right (Nat.le_refl _), Nat.sub_self, List.getElem?_cons_zero]
  · rw [hsplit, List.take_left] at hmem
    simpa using hnearer other hmem

/-! ### New values -/

theorem exists_of_defines (h : scopes.defines id name = true) : scopes.Exists id := by
  unfold defines bindings at h
  cases hcell : scopes.cells[id]? with
  | none =>
    rw [hcell] at h
    cases h
  | some scope => exact (Array.getElem?_eq_some_iff.mp hcell).1

section Define

variable (h : scopes.defines id name = true) (value : Value)

include h

theorem find?_bindings_of_defines (key : ScopeId) (other : String) :
    ((scopes.define id name value).bindings key).find? other =
      if id = key ∧ name = other then some value else (scopes.bindings key).find? other := by
  rw [bindings_define _ _ _ _ _ (exists_of_defines h)]
  by_cases hkey : id = key
  · simp [hkey, Table.find?_insert]
  · simp [hkey]

/-- A name that has a value already is no new name of its scope. -/
theorem defines_define (key : ScopeId) (other : String) :
    (scopes.define id name value).defines key other = scopes.defines key other := by
  unfold defines Table.contains
  rw [find?_bindings_of_defines h]
  split
  · rename_i heq
    obtain ⟨rfl, rfl⟩ := heq
    exact h.symm
  · rfl

theorem holder?_define (key : String) (chain : List ScopeId) :
    (scopes.define id name value).holder? key chain = scopes.holder? key chain := by
  unfold holder?
  simp only [defines_define h]

/-- A new value changes the lookups of its name for which its scope is the nearest, and no
others. -/
theorem get_define (other : Env) (key : String) (site : Site) :
    (scopes.define id name value).get other key site =
      if key = name ∧ scopes.holder? name other.chain = some id then .ok value
      else scopes.get other key site := by
  unfold Scopes.get
  -- the nearest scope with the key is the one from before, so only its own value can be another
  rw [find?_eq_bind, find?_eq_bind, holder?_define h]
  cases hholder : scopes.holder? key other.chain with
  | none =>
    have hother : ¬ (key = name ∧ scopes.holder? name other.chain = some id) := by
      rintro ⟨rfl, heq⟩
      cases hholder.symm.trans heq
    rw [if_neg hother]
    rfl
  | some nearest =>
    rw [Option.bind_some, Option.bind_some, find?_bindings_of_defines h]
    by_cases heq : id = nearest ∧ name = key
    · obtain ⟨rfl, rfl⟩ := heq
      rw [if_pos ⟨rfl, rfl⟩, if_pos ⟨rfl, hholder⟩]
    · have hother : ¬ (key = name ∧ scopes.holder? name other.chain = some id) := by
        rintro ⟨rfl, hsame⟩
        cases hholder.symm.trans hsame
        exact heq ⟨rfl, rfl⟩
      rw [if_neg heq, if_neg hother]

theorem getAt_define (other : Env) (distance : Nat) (key : String) :
    (scopes.define id name value).getAt other distance key =
      if key = name ∧ other.chain[distance]? = some id then .ok value
      else scopes.getAt other distance key := by
  unfold Scopes.getAt
  cases hreached : other.chain[distance]? with
  | none =>
    rw [reach_of_none hreached, if_neg fun heq => by cases heq.2]
    rfl
  | some reached =>
    rw [reach_of_getElem? hreached]
    simp only [bind, Except.bind, find?_bindings_of_defines h]
    by_cases heq : id = reached ∧ name = key
    · obtain ⟨rfl, rfl⟩ := heq
      rw [if_pos ⟨rfl, rfl⟩, if_pos ⟨rfl, rfl⟩]
      rfl
    · rw [if_neg heq, if_neg]
      exact fun ⟨hkey, hsame⟩ => heq ⟨(Option.some.inj hsame).symm, hkey.symm⟩

end Define

end Scopes

/-- A name that has a value gets the new one in its place. -/
theorem Table.insertIn_of_findIn {α : Type} {name : String} {old : α} (value : α)
    {entries : List (String × α)} (h : findIn name entries = some old) :
    ∃ before behind, (∀ entry ∈ before, entry.1 ≠ name) ∧
      entries = before ++ (name, old) :: behind ∧
      insertIn name value entries = before ++ (name, value) :: behind := by
  induction entries with
  | nil => cases h
  | cons entry rest ih =>
    obtain ⟨key, found⟩ := entry
    rw [findIn] at h
    rw [insertIn]
    by_cases hkey : key = name
    · subst hkey
      rw [if_pos rfl] at h ⊢
      cases h
      exact ⟨[], rest, fun _ hmem => absurd hmem List.not_mem_nil, rfl, rfl⟩
    · rw [if_neg hkey] at h ⊢
      obtain ⟨before, behind, hbefore, rfl, hinsert⟩ := ih h
      refine ⟨(key, found) :: before, behind, ?_, rfl, by rw [hinsert]; rfl⟩
      exact List.forall_mem_cons.mpr ⟨hkey, hbefore⟩

namespace Scopes

variable {scopes : Scopes} {id : ScopeId} {name : String}

/-- Scopes that differ in one binding of one scope: a name has a new value in its old place. -/
structure Rebound (scopes : Scopes) (id : ScopeId) (name : String) (old value : Value)
    (later : Scopes) : Prop where
  scope : ∃ origin before behind, (∀ entry ∈ before, entry.1 ≠ name) ∧
    scopes.cells[id]? = some ⟨origin, ⟨before ++ (name, old) :: behind⟩⟩ ∧
    later.cells[id]? = some ⟨origin, ⟨before ++ (name, value) :: behind⟩⟩
  others : ∀ key, key ≠ id → later.cells[key]? = scopes.cells[key]?

theorem rebound_define {old : Value} (h : (scopes.bindings id).find? name = some old)
    (value : Value) : scopes.Rebound id name old value (scopes.define id name value) := by
  unfold bindings at h
  refine ⟨?_, fun key hkey => ?_⟩
  · cases hcell : scopes.cells[id]? with
    | none =>
      rw [hcell] at h
      cases h
    | some scope =>
      rw [hcell] at h
      obtain ⟨before, behind, hbefore, hentries, hinsert⟩ := Table.insertIn_of_findIn value h
      refine ⟨scope.origin, before, behind, hbefore, ?_, ?_⟩
      · rw [← hentries]
      · rw [define, Array.getElem?_modify, if_pos rfl, hcell, ← hinsert]
        rfl
  · rw [define, Array.getElem?_modify, if_neg (Ne.symm hkey)]

end Scopes

/-! ### Assignments -/

section Assign

variable {store : Store} {env : Env} {hops : Nat} {id : ScopeId} {name : String}

theorem Env.assign_of_holder (h : store.scopes.holder? name env.chain = some id) (site : Site)
    (value : Value) : env.assign name site value store =
      .ok () { store with scopes := store.scopes.define id name value } := by
  unfold Env.assign Scopes.assign?
  rw [get_bind, h]
  rfl

theorem Env.assign_of_none (h : store.scopes.holder? name env.chain = none) (site : Site)
    (value : Value) :
    env.assign name site value store = .error (.failed (.undefinedVariable name site)) store := by
  unfold Env.assign Scopes.assign?
  rw [get_bind, h]
  rfl

theorem Env.assignAt_of_reach (h : Scopes.reach env hops = .ok id) (value : Value) :
    env.assignAt hops name value store =
      .ok () { store with scopes := store.scopes.define id name value } := by
  unfold Env.assignAt Scopes.assignAt
  rw [get_bind, h]
  rfl

end Assign

/-- The scope in which a name with a binding gets a new value. -/
def targetScope (name : String) (binding : Binding) (site : Site) : EvalM ScopeId := do
  let store ← get
  match binding with
  | .enclosing hops => reaching (Scopes.reach store.current hops)
  | .global =>
    match store.scopes.holder? name globalEnv.chain with
    | some id => return id
    | none => fail (.undefinedVariable name site)

/-- A name gets its new value in one scope, which is found first. -/
theorem writeName_eq (name : String) (binding : Binding) (site : Site) (value : Value) :
    writeName name binding site value =
      (do defineAt (← targetScope name binding site) name value) := by
  funext store
  show _ = EStateM.bind _ _ store
  unfold EStateM.bind
  cases binding with
  | enclosing hops =>
    simp only [writeName, Env.assignAt, Scopes.assignAt, targetScope, get_bind]
    cases Scopes.reach store.current hops <;> rfl
  | global =>
    simp only [writeName, Env.assign, Scopes.assign?, targetScope, get_bind]
    cases store.scopes.holder? name globalEnv.chain <;> rfl

/-! ### The two ways of access -/

/-- Access by distance agrees with access along the chain, and an assignment changes one binding or
nothing. If the nearest scope with a name is some steps outward, both ways find its value there, and
both ways of giving it a new value leave the same store: only the value of this name in this scope
is another one. From every chain of which this scope is the nearest with the name the new value is
found, and all other lookups find what they found before. If no scope of the chain has the name,
looking it up and giving it a value fail, and the store stays as it is. -/
theorem Env.assign_along (store : Store) (env : Env) (name : String) (site : Site)
    (value : Value) :
    (∀ hops id, store.scopes.BindsAt env name hops id →
      ∃ old after,
        store.scopes.getAt env hops name = .ok old ∧ store.scopes.get env name site = .ok old ∧
        env.assignAt hops name value store = .ok () after ∧
        env.assign name site value store = .ok () after ∧
        after = { store with scopes := after.scopes } ∧
        store.scopes.Rebound id name old value after.scopes ∧
        (∀ other distance place, store.scopes.BindsAt other name distance id →
          after.scopes.get other name place = .ok value ∧
          after.scopes.getAt other distance name = .ok value) ∧
        (∀ other key place,
          (key = name → ∀ distance, ¬ store.scopes.BindsAt other name distance id) →
          after.scopes.get other key place = store.scopes.get other key place) ∧
        ∀ other distance key, ¬ (key = name ∧ other.chain[distance]? = some id) →
          after.scopes.getAt other distance key = store.scopes.getAt other distance key) ∧
    ((∀ id ∈ env.chain, store.scopes.defines id name = false) →
      store.scopes.get env name site = .error (.undefinedVariable name site) ∧
      env.assign name site value store =
        .error (.failed (.undefinedVariable name site)) store) := by
  refine ⟨fun hops id h => ?_, fun h => ?_⟩
  · obtain ⟨old, hold⟩ := Option.isSome_iff_exists.mp h.bound
    refine ⟨old, { store with scopes := store.scopes.define id name value },
      Scopes.getAt_of_getElem? h.scope hold, ?_,
      Env.assignAt_of_reach (Scopes.reach_of_getElem? h.scope) value,
      Env.assign_of_holder h.holder?_eq site value, rfl, Scopes.rebound_define hold value,
      fun other distance place hother => ⟨?_, ?_⟩, fun other key place hfree => ?_,
      fun other distance key hfree => ?_⟩
    · rw [Scopes.get, Scopes.find?_eq_bind, h.holder?_eq, Option.bind_some, hold]
    · rw [Scopes.get_define h.bound, if_pos ⟨rfl, hother.holder?_eq⟩]
    · rw [Scopes.getAt_define h.bound, if_pos ⟨rfl, hother.scope⟩]
    · rw [Scopes.get_define h.bound, if_neg]
      -- a lookup that ends at this scope has a distance, and this chain has none
      rintro ⟨hkey, hholder⟩
      obtain ⟨distance, hbinds⟩ := Scopes.exists_bindsAt hholder
      exact hfree hkey distance hbinds
    · rw [Scopes.getAt_define h.bound, if_neg hfree]
  · have hnone := Scopes.holder?_eq_none_iff.mpr h
    refine ⟨?_, Env.assign_of_none hnone site value⟩
    rw [Scopes.get, Scopes.find?_eq_bind, hnone, Option.bind_none]

/-- Two chains share the scope that gives `a` its value, which is nil at first. -/
theorem Env.assign_along_sharedScope :
    let scopes : Scopes := ⟨#[⟨.session, ⟨[("a", .nil)]⟩⟩, ⟨.receiver, {}⟩,
      ⟨.superclass, ⟨[("b", .bool true)]⟩⟩]⟩
    let store : Store := ⟨scopes, #[], 0, globalEnv, #[], 0⟩
    let env : Env := ⟨1, [0]⟩
    let other : Env := ⟨2, [0]⟩
    (scopes.BindsAt env "a" 1 0 ∧ scopes.BindsAt other "a" 1 0) ∧
      (∃ after, env.assign "a" ⟨1, none⟩ (.bool true) store = .ok () after ∧
        after.scopes.get other "a" ⟨2, none⟩ = .ok (.bool true) ∧
        after.scopes.get other "b" ⟨2, none⟩ = scopes.get other "b" ⟨2, none⟩) ∧
      (∀ id ∈ env.chain, scopes.defines id "b" = false) ∧
      env.assign "b" ⟨3, none⟩ .nil store =
        .error (.failed (.undefinedVariable "b" ⟨3, none⟩)) store := by
  intro scopes store env other
  have hbinds : scopes.BindsAt env "a" 1 0 := ⟨rfl, rfl, by decide⟩
  have hother : scopes.BindsAt other "a" 1 0 := ⟨rfl, rfl, by decide⟩
  have hunbound : ∀ id ∈ env.chain, scopes.defines id "b" = false := by decide
  obtain ⟨_, after, -, -, -, hassign, -, -, hseen, hsame, -⟩ :=
    (Env.assign_along store env "a" ⟨1, none⟩ (.bool true)).1 1 0 hbinds
  refine ⟨⟨hbinds, hother⟩, ⟨after, hassign, (hseen other 1 _ hother).1, ?_⟩, hunbound, ?_⟩
  · exact hsame other "b" _ fun heq => absurd heq (by decide)
  · exact ((Env.assign_along store env "b" ⟨3, none⟩ .nil).2 hunbound).2

end Treewalk
