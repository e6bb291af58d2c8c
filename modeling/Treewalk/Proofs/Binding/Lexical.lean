import Treewalk.Proofs.Binding.Layout
import Treewalk.Proofs.Binding.Marks

/-!
# Binding is lexical

The scopes around a place in a text are those that open before it and do not close before it. A name
is declared in one of them before the place if the scope has the name throughout, or if there is a
declaration before the place whose innermost scope it is. A use is bound to the nearest scope around
it in which its name is declared before it, and is global if there is none.
-/

namespace Treewalk

variable {marks : List ScopeMark} {i o : Nat} {mark : ScopeMark} {name : String}

/-! ### Scopes around a place -/

/-- How much deeper the text after a mark is than before it. -/
def ScopeMark.rise : ScopeMark → Int
  | .opens _ => 1
  | .closes => -1
  | .declares _ | .uses _ => 0

/-- How many more scopes open than close before a place. -/
def depthAt (marks : List ScopeMark) (i : Nat) : Int :=
  (marks.take i).foldl (fun depth mark => depth + mark.rise) 0

/-- The scope that opens at `o` is open at `i`: every place from there on is deeper. -/
def Encloses (marks : List ScopeMark) (o i : Nat) : Prop :=
  marks[o]?.map ScopeMark.rise = some 1 ∧ ∀ j, j ≤ i → o < j → depthAt marks o < depthAt marks j

instance (marks : List ScopeMark) (o i : Nat) : Decidable (Encloses marks o i) :=
  inferInstanceAs (Decidable (_ ∧ _))

/-- The scopes around a place, innermost first, each by the place where it opens. -/
def scopesAround (marks : List ScopeMark) (i : Nat) : List Nat :=
  ((List.range i).filter (Encloses marks · i)).reverse

example : scopesAround [.opens [], .opens ["a"], .closes, .opens [], .declares "b"] 5 = [3, 0] := by
  decide

/-- A scope declares a name before a place. It has the name throughout, or the name is declared
where the scope is the innermost one. -/
def DeclaredIn (marks : List ScopeMark) (i o : Nat) (name : String) : Prop :=
  (∃ names, marks[o]? = some (.opens names) ∧ name ∈ names) ∨
    ∃ k, k < i ∧ marks[k]? = some (.declares name) ∧ (scopesAround marks k).head? = some o

/-- The binding of a name that is used at a place. It is bound as many scopes outward as there are
scopes around the place inside the nearest one that declares the name before the place. If there is
no such scope, it is global. -/
def BindsLexically (marks : List ScopeMark) (i : Nat) (name : String) : Binding → Prop
  | .enclosing hops =>
    ∃ o, (scopesAround marks i)[hops]? = some o ∧ DeclaredIn marks i o name ∧
      ∀ nearer o', nearer < hops → (scopesAround marks i)[nearer]? = some o' →
        ¬ DeclaredIn marks i o' name
  | .global => ∀ o ∈ scopesAround marks i, ¬ DeclaredIn marks i o name

theorem depthAt_succ (h : marks[i]? = some mark) :
    depthAt marks (i + 1) = depthAt marks i + mark.rise := by
  rw [depthAt, List.take_add_one, h, Option.toList_some, List.foldl_append]
  rfl

theorem mem_scopesAround : o ∈ scopesAround marks i ↔ o < i ∧ Encloses marks o i := by
  simp [scopesAround]

theorem encloses_succ (ho : o < i) :
    Encloses marks o (i + 1) ↔ Encloses marks o i ∧ depthAt marks o < depthAt marks (i + 1) := by
  constructor
  · rintro ⟨hopens, hdeeper⟩
    exact ⟨⟨hopens, fun j hj => hdeeper j (by omega)⟩, hdeeper _ (Nat.le_refl _) (by omega)⟩
  · rintro ⟨⟨hopens, hdeeper⟩, hlast⟩
    refine ⟨hopens, fun j hj hoj => ?_⟩
    by_cases h : j = i + 1
    · exact h ▸ hlast
    · exact hdeeper j (by omega) hoj

/-- The scopes around the next place are those that are not deeper than it, and perhaps one that
opens here. -/
theorem scopesAround_succ_eq (marks : List ScopeMark) (i : Nat) :
    scopesAround marks (i + 1) =
      (if Encloses marks i (i + 1) then [i] else []) ++
        (scopesAround marks i).filter fun o => depthAt marks o < depthAt marks (i + 1) := by
  have houter : (List.range i).filter (Encloses marks · (i + 1)) =
      ((List.range i).filter (Encloses marks · i)).filter
        fun o => depthAt marks o < depthAt marks (i + 1) := by
    rw [List.filter_filter]
    refine List.filter_congr fun o ho => ?_
    rw [decide_eq_decide.mpr (encloses_succ (List.mem_range.mp ho)), Bool.decide_and, Bool.and_comm]
  unfold scopesAround
  rw [List.range_succ, List.filter_append, List.reverse_append, houter, List.filter_reverse]
  congr 1
  by_cases h : Encloses marks i (i + 1) <;> simp [h]

/-- A place is deeper than where the scopes around it open. -/
theorem depthAt_lt_of_mem (h : o ∈ scopesAround marks i) : depthAt marks o < depthAt marks i := by
  obtain ⟨ho, _, hdeeper⟩ := mem_scopesAround.mp h
  exact hdeeper i (Nat.le_refl _) ho

/-- If the next place is not less deep, the scopes around this one stay open. -/
theorem filter_scopesAround (h : depthAt marks i ≤ depthAt marks (i + 1)) :
    ((scopesAround marks i).filter fun o => depthAt marks o < depthAt marks (i + 1)) =
      scopesAround marks i := by
  refine List.filter_eq_self.mpr fun o ho => decide_eq_true ?_
  have := depthAt_lt_of_mem ho
  omega

theorem scopesAround_opens {names : List String} (h : marks[i]? = some (.opens names)) :
    scopesAround marks (i + 1) = i :: scopesAround marks i := by
  have hdepth : depthAt marks (i + 1) = depthAt marks i + 1 := depthAt_succ h
  have hencloses : Encloses marks i (i + 1) := by
    refine ⟨by rw [h]; rfl, fun j hj hij => ?_⟩
    obtain rfl : j = i + 1 := by omega
    omega
  rw [scopesAround_succ_eq, if_pos hencloses, filter_scopesAround (by omega)]
  rfl

/-- A mark that opens and closes nothing keeps the scopes. -/
theorem scopesAround_stays (h : marks[i]? = some mark) (hrise : mark.rise = 0) :
    scopesAround marks (i + 1) = scopesAround marks i := by
  have hdepth := depthAt_succ h
  have hencloses : ¬ Encloses marks i (i + 1) := by
    rintro ⟨hopens, _⟩
    rw [h, Option.map_some, hrise] at hopens
    cases hopens
  rw [scopesAround_succ_eq, if_neg hencloses, filter_scopesAround (by omega)]
  rfl

/-- A mark that closes a scope closes the innermost one, if the scopes around it are one step apart
in depth. -/
theorem scopesAround_closes_of_depth (h : marks[i]? = some .closes)
    (hdepths : ∀ hops o : Nat, (scopesAround marks i)[hops]? = some o →
      depthAt marks o + hops + 1 = depthAt marks i) :
    scopesAround marks (i + 1) = (scopesAround marks i).tail := by
  have hdepth : depthAt marks (i + 1) = depthAt marks i + -1 := depthAt_succ h
  have hencloses : ¬ Encloses marks i (i + 1) := by
    rintro ⟨hopens, _⟩
    rw [h] at hopens
    cases hopens
  rw [scopesAround_succ_eq, if_neg hencloses, List.nil_append]
  cases haround : scopesAround marks i with
  | nil => rfl
  | cons innermost outer =>
    rw [haround] at hdepths
    have hinnermost := hdepths 0 innermost rfl
    have houter : ∀ o ∈ outer, depthAt marks o < depthAt marks (i + 1) := by
      intro o ho
      obtain ⟨hops, hhops⟩ := List.getElem?_of_mem ho
      have := hdepths (hops + 1) o hhops
      omega
    rw [List.filter_cons, if_neg (by simpa using (by omega)), List.tail_cons,
      List.filter_eq_self.mpr fun o ho => decide_eq_true (houter o ho)]

/-- The scopes around a place are one step apart in depth. -/
theorem depthAt_scopesAround (hi : i ≤ marks.length) {hops : Nat}
    (h : (scopesAround marks i)[hops]? = some o) :
    depthAt marks o + hops + 1 = depthAt marks i := by
  induction i generalizing hops o with
  | zero => cases h
  | succ i ih =>
    obtain ⟨mark, hmark⟩ : ∃ mark, marks[i]? = some mark := ⟨_, List.getElem?_eq_getElem hi⟩
    have hdepth := depthAt_succ hmark
    have ih : ∀ hops o : Nat, (scopesAround marks i)[hops]? = some o →
        depthAt marks o + hops + 1 = depthAt marks i := fun _ _ => ih (Nat.le_of_succ_le hi)
    cases mark with
    | opens names =>
      rw [scopesAround_opens hmark] at h
      simp only [ScopeMark.rise] at hdepth
      cases hops with
      | zero =>
        obtain rfl := Option.some.inj h
        omega
      | succ hops =>
        have := ih hops o h
        omega
    | closes =>
      rw [scopesAround_closes_of_depth hmark ih, List.getElem?_tail] at h
      simp only [ScopeMark.rise] at hdepth
      have := ih (hops + 1) o h
      omega
    | declares name =>
      rw [scopesAround_stays hmark rfl] at h
      simp only [ScopeMark.rise] at hdepth
      have := ih hops o h
      omega
    | uses use =>
      rw [scopesAround_stays hmark rfl] at h
      simp only [ScopeMark.rise] at hdepth
      have := ih hops o h
      omega

theorem scopesAround_closes (h : marks[i]? = some .closes) :
    scopesAround marks (i + 1) = (scopesAround marks i).tail := by
  obtain ⟨hi, _⟩ := List.getElem?_eq_some_iff.mp h
  exact scopesAround_closes_of_depth h fun _ _ => depthAt_scopesAround (Nat.le_of_lt hi)

/-! ### Declarations before a place -/

theorem declaredIn_succ (h : marks[i]? = some mark) :
    DeclaredIn marks (i + 1) o name ↔
      DeclaredIn marks i o name ∨
        (mark = .declares name ∧ (scopesAround marks i).head? = some o) := by
  constructor
  · rintro (hopens | ⟨k, hk, hdeclares, hhead⟩)
    · exact .inl (.inl hopens)
    · by_cases hki : k = i
      · subst hki
        exact .inr ⟨Option.some.inj (h.symm.trans hdeclares), hhead⟩
      · exact .inl (.inr ⟨k, by omega, hdeclares, hhead⟩)
  · rintro ((hopens | ⟨k, hk, hrest⟩) | ⟨rfl, hhead⟩)
    · exact .inl hopens
    · exact .inr ⟨k, by omega, hrest⟩
    · exact .inr ⟨i, by omega, h, hhead⟩

/-- No other mark than a declaration declares anything. -/
theorem declaredIn_succ_of_ne (h : marks[i]? = some mark) (hne : mark ≠ .declares name) :
    DeclaredIn marks (i + 1) o name ↔ DeclaredIn marks i o name := by
  rw [declaredIn_succ h]
  exact or_iff_left fun hdeclares => hne hdeclares.1

/-- A scope that has just opened declares the names that it has throughout. -/
theorem declaredIn_opens {names : List String} (h : marks[i]? = some (.opens names)) :
    DeclaredIn marks (i + 1) i name ↔ name ∈ names := by
  constructor
  · rintro (⟨names', hopens, hname⟩ | ⟨k, hk, _, hhead⟩)
    · rw [h] at hopens
      cases hopens
      exact hname
    · -- a scope around an earlier place opens before it
      have := (mem_scopesAround.mp (List.mem_of_mem_head? hhead)).1
      omega
  · exact fun hname => .inl ⟨names, h, hname⟩

/-! ### Reading marks from the start -/

/-- The names kept for each scope around a place are those that the scope declares before it. -/
structure Describes (marks : List ScopeMark) (i : Nat) (scopes : StaticScopes) : Prop where
  length : scopes.length = (scopesAround marks i).length
  names : ∀ (hops o : Nat) (names : List String), (scopesAround marks i)[hops]? = some o →
    scopes[hops]? = some names → ∀ name, name ∈ names ↔ DeclaredIn marks i o name

namespace Describes

variable {scopes : StaticScopes}

theorem opens (h : Describes marks i scopes) {names : List String}
    (hmark : marks[i]? = some (.opens names)) : Describes marks (i + 1) (names :: scopes) := by
  refine ⟨?_, fun hops o kept hscope hkept name => ?_⟩
  · rw [scopesAround_opens hmark, List.length_cons, List.length_cons, h.length]
  · rw [scopesAround_opens hmark] at hscope
    cases hops with
    | zero =>
      obtain rfl := Option.some.inj hscope
      obtain rfl := Option.some.inj hkept
      exact (declaredIn_opens hmark).symm
    | succ hops =>
      rw [declaredIn_succ_of_ne hmark (by simp)]
      exact h.names hops o kept hscope hkept name

theorem closes (h : Describes marks i scopes) (hmark : marks[i]? = some .closes) :
    Describes marks (i + 1) scopes.tail := by
  refine ⟨?_, fun hops o kept hscope hkept name => ?_⟩
  · rw [scopesAround_closes hmark, List.length_tail, List.length_tail, h.length]
  · rw [scopesAround_closes hmark, List.getElem?_tail] at hscope
    rw [List.getElem?_tail] at hkept
    rw [declaredIn_succ_of_ne hmark (by simp)]
    exact h.names (hops + 1) o kept hscope hkept name

/-- A declaration adds its name to the innermost scope only. -/
theorem declares (h : Describes marks i scopes) {declared : String}
    (hmark : marks[i]? = some (.declares declared)) :
    Describes marks (i + 1) (scopes.declare declared) := by
  have hi : i ≤ marks.length := Nat.le_of_lt (List.getElem?_eq_some_iff.mp hmark).1
  have haround : scopesAround marks (i + 1) = scopesAround marks i := scopesAround_stays hmark rfl
  cases scopes with
  | nil =>
    refine ⟨h.length.trans (congrArg List.length haround.symm), fun hops o kept _ hkept => ?_⟩
    cases hkept
  | cons innermost outer =>
    refine ⟨h.length.trans (congrArg List.length haround.symm),
      fun hops o kept hscope hkept name => ?_⟩
    rw [haround] at hscope
    rw [declaredIn_succ hmark]
    cases hops with
    | zero =>
      obtain rfl := Option.some.inj hkept
      have hhead : (scopesAround marks i).head? = some o := by rw [List.head?_eq_getElem?, hscope]
      rw [List.mem_cons, h.names 0 o innermost hscope rfl name, or_comm]
      simp only [hhead, and_true, ScopeMark.declares.injEq, eq_comm]
    | succ hops =>
      -- the innermost scope is deeper than this one
      have hnot : (scopesAround marks i).head? ≠ some o := by
        rw [List.head?_eq_getElem?]
        intro hhead
        have hinner := depthAt_scopesAround hi hhead
        have houter := depthAt_scopesAround hi hscope
        omega
      rw [or_iff_left fun hdeclares => hnot hdeclares.2]
      exact h.names (hops + 1) o kept hscope hkept name

theorem uses (h : Describes marks i scopes) {use : NameUse}
    (hmark : marks[i]? = some (.uses use)) : Describes marks (i + 1) scopes := by
  have haround : scopesAround marks (i + 1) = scopesAround marks i := scopesAround_stays hmark rfl
  refine ⟨h.length.trans (congrArg List.length haround.symm),
    fun hops o kept hscope hkept name => ?_⟩
  rw [haround] at hscope
  rw [declaredIn_succ_of_ne hmark (by simp)]
  exact h.names hops o kept hscope hkept name

/-- Names are kept for every scope around the place. -/
theorem exists_names (h : Describes marks i scopes) {hops : Nat}
    (hscope : (scopesAround marks i)[hops]? = some o) : ∃ names, scopes[hops]? = some names := by
  obtain ⟨hhops, _⟩ := List.getElem?_eq_some_iff.mp hscope
  exact Option.isSome_iff_exists.mp (by rwa [isSome_getElem?, h.length])

theorem exists_scope (h : Describes marks i scopes) {hops : Nat} {names : List String}
    (hnames : scopes[hops]? = some names) : ∃ o, (scopesAround marks i)[hops]? = some o := by
  obtain ⟨hhops, _⟩ := List.getElem?_eq_some_iff.mp hnames
  exact Option.isSome_iff_exists.mp (by rwa [isSome_getElem?, ← h.length])

/-- What one mark does to the names kept. -/
theorem read (h : Describes marks i scopes) (hmark : marks[i]? = some mark) :
    Describes marks (i + 1) (scopes.read mark) := by
  cases mark with
  | opens names => exact h.opens hmark
  | closes => exact h.closes hmark
  | declares name => exact h.declares hmark
  | uses use => exact h.uses hmark

/-- The binding found in the names kept is the lexical one. -/
theorem binding (h : Describes marks i scopes) (name : String) :
    BindsLexically marks i name (scopes.binding name) := by
  cases hbinding : scopes.binding name with
  | global =>
    intro o ho hdeclared
    obtain ⟨hops, hscope⟩ := List.getElem?_of_mem ho
    obtain ⟨names, hnames⟩ := h.exists_names hscope
    refine StaticScopes.not_mem_of_binding_global hbinding names (List.mem_of_getElem? hnames) ?_
    exact (h.names hops o names hscope hnames name).mpr hdeclared
  | enclosing hops =>
    obtain ⟨⟨names, hnames, hname⟩, hnearest⟩ := StaticScopes.getElem?_of_binding hbinding
    obtain ⟨o, hscope⟩ := h.exists_scope hnames
    refine ⟨o, hscope, (h.names hops o names hscope hnames name).mp hname, ?_⟩
    intro nearer o' hlt hscope' hdeclared
    obtain ⟨names', hnames'⟩ := h.exists_names hscope'
    refine hnearest nearer hlt names' hnames' ?_
    exact (h.names nearer o' names' hscope' hnames' name).mpr hdeclared

end Describes

theorem describes_start (marks : List ScopeMark) : Describes marks 0 [] :=
  ⟨rfl, fun _ _ _ hscope => by cases hscope⟩

/-- The names kept after some marks are those that the scopes around their end declare. -/
theorem describes_foldl_read (hi : i ≤ marks.length) :
    Describes marks i ((marks.take i).foldl StaticScopes.read []) := by
  induction i with
  | zero => exact describes_start marks
  | succ i ih =>
    have hmark : marks[i]? = some marks[i] := List.getElem?_eq_getElem hi
    rw [List.take_add_one, hmark, Option.toList_some, List.foldl_append]
    exact (ih (Nat.le_of_succ_le hi)).read hmark

theorem StaticScopes.length_bindMarks (scopes : StaticScopes) (marks : List ScopeMark) :
    (scopes.bindMarks marks).length = marks.length := by
  induction marks generalizing scopes with
  | nil => rfl
  | cons mark rest ih => exact congrArg (· + 1) (ih (scopes.read mark))

/-- Each mark is bound in the names kept after the marks before it. -/
theorem getElem?_bindMarks (scopes : StaticScopes) (h : marks[i]? = some mark) :
    (scopes.bindMarks marks)[i]? =
      some (mark.bindName ((marks.take i).foldl StaticScopes.read scopes)) := by
  induction marks generalizing scopes i with
  | nil => cases h
  | cons first rest ih =>
    cases i with
    | zero =>
      obtain rfl := Option.some.inj h
      rfl
    | succ i => exact ih (scopes.read first) h

/-! ### Programs -/

namespace Program

theorem getElem?_marks_bindNames {program : Program} (h : program.marks[i]? = some mark) :
    program.bindNames.marks[i]? =
      some (mark.bindName ((program.marks.take i).foldl StaticScopes.read [])) := by
  rw [← program.reads.bound]
  exact getElem?_bindMarks [] h

/-- At the end of a program every local scope is closed. -/
theorem scopesAround_end (program : Program) :
    scopesAround program.marks program.marks.length = [] := by
  have hend := describes_foldl_read (Nat.le_refl program.marks.length)
  rw [List.take_length, program.reads.after] at hend
  exact List.eq_nil_of_length_eq_zero hend.length.symm

/-- Binding a program leaves no scope open. -/
theorem foldl_bindNames (program : Program) :
    program.foldl (fun scopes s => (s.bindNames scopes).2) [] = [] := by
  induction program with
  | nil => rfl
  | cons s rest ih => rwa [List.foldl_cons, s.bindNames_nil]

/-- Binding is lexical. Every use in a program is bound, once, to the nearest scope around it that
declares its name before it, or is global if there is no such scope; nothing else changes. The uses
that are reported are those that are not global, each once and in their order. In the end no scope
is left open, and the last of the running totals is the number of uses reported. -/
theorem bindNames_lexical (program : Program) :
    (∀ (i : Nat) (use : NameUse), program.marks[i]? = some (.uses use) →
      ∃ binding, program.bindNames.marks[i]? = some (.uses { use with binding }) ∧
        BindsLexically program.marks i use.sought binding) ∧
    (program.bindNames.marks.length = program.marks.length ∧
      ∀ (i : Nat) (mark : ScopeMark), program.marks[i]? = some mark →
        (∀ use, mark ≠ .uses use) → program.bindNames.marks[i]? = some mark) ∧
    program.bindNames.localUses = program.bindNames.marks.flatMap ScopeMark.localUses ∧
    (program.foldl (fun scopes s => (s.bindNames scopes).2) [] = [] ∧
      scopesAround program.marks program.marks.length = []) ∧
    (runningTotals 0 program.bindNames.bindingSteps).getLast? =
      some program.bindNames.localUses.length := by
  refine ⟨fun i use huse => ?_, ⟨?_, fun i mark hmark hother => ?_⟩,
    program.bindNames.localUses_eq, ⟨program.foldl_bindNames, program.scopesAround_end⟩,
    program.bindNames.getLast?_runningTotals⟩
  · have hi : i ≤ program.marks.length := Nat.le_of_lt (List.getElem?_eq_some_iff.mp huse).1
    exact ⟨_, getElem?_marks_bindNames huse, (describes_foldl_read hi).binding use.sought⟩
  · rw [← program.reads.bound, StaticScopes.length_bindMarks]
  · rw [getElem?_marks_bindNames hmark]
    cases mark with
    | uses use => exact absurd rfl (hother use)
    | opens | closes | declares => rfl

end Program

end Treewalk
