import Mathlib.Data.List.Forall2
import Mathlib.Data.List.Induction
import Treewalk.Proofs.Session.Grounding

/-!
# Registering texts one after the other

A registry keeps two tables: the texts by their numbers, and for each path the number of its latest
registration. Both are views of one list, and the tables that are changed one by one mirror them: a
new text goes under the next number, and its path then leads to that number. So no path ever leads
to a number without a text, the tables stay consistent whatever is registered in which order, and a
text that is registered stays what it is.

Only the latest registration of a path is compared with a text that is registered again. Two
registrations of a file with the same content therefore get the same number exactly if the file was
not registered with another content in between.
-/

namespace Treewalk

/-- A text to be registered, and its path. -/
structure Submission where
  path : String
  content : String
deriving DecidableEq

namespace Registry

/-! ### The two tables -/

/-- The number of the next new text. -/
def nextNumber (r : Registry) : Nat := r.files.size + 1

/-- The number of the latest registration of a path. -/
def numberOf? (r : Registry) (path : String) : Option Nat := (r.latest? path).map (·.id)

theorem exists_find?_iff (r : Registry) (id : Int) :
    (∃ file, r.find? id = some file) ↔ 1 ≤ id ∧ id < r.nextNumber := by
  unfold find? nextNumber
  by_cases hid : 1 ≤ id
  · simp only [if_pos hid, Array.getElem?_eq_some_iff]
    constructor
    · rintro ⟨_, hlt, _⟩
      omega
    · rintro ⟨_, hlt⟩
      exact ⟨_, by omega, rfl⟩
  · simp [hid]

theorem nextNumber_append (r : Registry) (path content : String) :
    (r.append path content).2.nextNumber = r.nextNumber + 1 := by
  simp [append, nextNumber]

/-- A new text goes under the next number. -/
theorem find?_append (r : Registry) (path content : String) (id : Int) :
    (r.append path content).2.find? id =
      if id = r.nextNumber then some ⟨r.nextNumber, path, content⟩ else r.find? id := by
  unfold find? append nextNumber
  by_cases hid : 1 ≤ id
  · have hindex : id.toNat - 1 = r.files.size ↔ id = (r.files.size + 1 : Nat) := by omega
    simp only [if_pos hid, Array.getElem?_push, hindex]
  · rw [if_neg hid, if_neg hid, if_neg (by omega)]

/-- The path of a new text leads to it, and other paths lead where they led. -/
theorem latest?_append (r : Registry) (path content other : String) :
    (r.append path content).2.latest? other =
      if path = other then some ⟨r.nextNumber, path, content⟩ else r.latest? other := by
  unfold latest? append nextNumber
  rw [Array.toList_push, List.reverse_append, List.reverse_singleton, List.singleton_append,
    List.find?_cons]
  by_cases hpath : path = other
  · simp [hpath]
  · rw [if_neg hpath, beq_false_of_ne hpath]

theorem path_of_latest? {r : Registry} {path : String} {file : SourceFile}
    (h : r.latest? path = some file) : file.path = path := by
  simpa using List.find?_some h

theorem mem_of_latest? {r : Registry} {path : String} {file : SourceFile}
    (h : r.latest? path = some file) : file ∈ r.files := by
  simpa using List.mem_of_find?_eq_some h

/-- A number of a text is below the next one. -/
theorem Numbered.id_lt {r : Registry} (h : r.Numbered) {file : SourceFile}
    (hfile : file ∈ r.files) : file.id < r.nextNumber := by
  have hbounds := (r.exists_find?_iff file.id).mp ⟨file, h.find?_id hfile⟩
  omega

/-- No text with a path has a greater number than its latest registration. -/
theorem Numbered.id_le_of_latest? {r : Registry} (h : r.Numbered) {path : String}
    {file other : SourceFile} (hlatest : r.latest? path = some file) (hother : other ∈ r.files)
    (hpath : other.path = path) : other.id ≤ file.id := by
  -- from the newest text on numbers go down, and `latest?` takes the first text with the path
  have hsorted : r.files.toList.reverse.Pairwise (fun a b => b.id < a.id) := by
    rw [List.pairwise_reverse, List.pairwise_iff_getElem]
    intro i j hi hj hlt
    have hfirst := h i _ (Array.getElem?_eq_getElem hi)
    have hsecond := h j _ (Array.getElem?_eq_getElem hj)
    simp only [Array.getElem_toList]
    omega
  obtain ⟨_, newer, older, hsplit, hnewer⟩ := List.find?_eq_some_iff_append.mp hlatest
  rw [hsplit, List.pairwise_append] at hsorted
  have hmem : other ∈ newer ++ file :: older := by
    rw [← hsplit, List.mem_reverse]
    exact Array.mem_toList_iff.mpr hother
  rcases List.mem_append.mp hmem with hmem | hmem
  · simpa [hpath] using hnewer other hmem
  · rcases List.mem_cons.mp hmem with rfl | hmem
    · exact Nat.le_refl _
    · exact Nat.le_of_lt (List.rel_of_pairwise_cons hsorted.2.1 hmem)

/-- A path leads to the latest text that has it. -/
theorem numberOf?_eq_some_iff {r : Registry} (h : r.Numbered) {path : String} {id : Nat} :
    r.numberOf? path = some id ↔
      (∃ file, r.find? id = some file ∧ file.path = path) ∧
      ∀ (other : Int) (file : SourceFile), r.find? other = some file → file.path = path →
        other ≤ id := by
  constructor
  · intro hnumber
    obtain ⟨file, hlatest, rfl⟩ := Option.map_eq_some_iff.mp hnumber
    refine ⟨⟨file, h.find?_id (mem_of_latest? hlatest), path_of_latest? hlatest⟩, ?_⟩
    intro other file' hother hpath
    rw [← h.id_of_find? hother]
    exact Int.ofNat_le.mpr (h.id_le_of_latest? hlatest (mem_of_find? hother) hpath)
  · rintro ⟨⟨file, hfile, hpath⟩, hgreatest⟩
    cases hlatest : r.latest? path with
    | none =>
      have hnone := List.find?_eq_none.mp hlatest file (by simpa using mem_of_find? hfile)
      simp [hpath] at hnone
    | some latest =>
      have hle := h.id_le_of_latest? hlatest (mem_of_find? hfile) hpath
      have hge := hgreatest latest.id latest (h.find?_id (mem_of_latest? hlatest))
        (path_of_latest? hlatest)
      have hid := h.id_of_find? hfile
      rw [numberOf?, hlatest, Option.map_some, Option.some.injEq]
      omega

/-! ### Registering one text -/

/-- What registering a text can do. A file whose latest registration has the same content keeps its
number, and any other text is new. -/
inductive Adds (r : Registry) (directory : String) (s : Submission) : Nat → Registry → Prop where
  | known {file : SourceFile} (hreal : Path.isPseudo s.path = false)
    (hlatest : r.latest? (key directory s.path) = some file) (hcontent : file.content = s.content) :
    Adds r directory s file.id r
  | new (hnew : Path.isPseudo s.path = true ∨
      ∀ file, r.latest? (key directory s.path) = some file → file.content ≠ s.content) :
    Adds r directory s r.nextNumber (r.append (key directory s.path) s.content).2

theorem adds_add (r : Registry) (directory : String) (s : Submission) :
    r.Adds directory s (r.add directory s.path s.content).1
      (r.add directory s.path s.content).2 := by
  unfold add
  by_cases hpseudo : Path.isPseudo s.path = true
  · rw [if_pos hpseudo]
    exact .new (.inl hpseudo)
  · rw [if_neg hpseudo]
    cases hlatest : r.latest? (key directory s.path) with
    | none =>
      refine .new (.inr fun file hfile => ?_)
      rw [hlatest] at hfile
      cases hfile
    | some file =>
      by_cases hcontent : file.content = s.content
      · simp only [if_pos hcontent]
        exact .known (by simpa using hpseudo) hlatest hcontent
      · simp only [if_neg hcontent]
        refine .new (.inr fun other hother => ?_)
        rw [hlatest] at hother
        obtain rfl := Option.some.inj hother
        exact hcontent

section Adds

variable {r next : Registry} {directory : String} {s : Submission} {number : Nat}

/-- The text that was registered has its number, its content and its path. -/
theorem Adds.found (h : r.Adds directory s number next) (hnumbered : r.Numbered) :
    ∃ file, next.find? number = some file ∧ file.content = s.content ∧
      file.path = key directory s.path := by
  cases h with
  | known _ hlatest hcontent =>
    exact ⟨_, hnumbered.find?_id (mem_of_latest? hlatest), hcontent, path_of_latest? hlatest⟩
  | new => exact ⟨_, by rw [find?_append, if_pos rfl], rfl, rfl⟩

/-- A text that is there after a registration was there before, or it is the new one. -/
theorem Adds.created (h : r.Adds directory s number next) {id : Int} {file : SourceFile}
    (hfile : next.find? id = some file) :
    r.find? id = some file ∨
      r.find? id = none ∧ id = number ∧ file = ⟨number, key directory s.path, s.content⟩ := by
  cases h with
  | known => exact .inl hfile
  | new =>
    rw [find?_append] at hfile
    by_cases hid : id = r.nextNumber
    · rw [if_pos hid] at hfile
      refine .inr ⟨?_, hid, (Option.some.inj hfile).symm⟩
      refine Option.eq_none_iff_forall_not_mem.mpr fun other hother => ?_
      have hbounds := (r.exists_find?_iff id).mp ⟨other, hother⟩
      omega
    · rw [if_neg hid] at hfile
      exact .inl hfile

/-- The next number goes up with each new text, and the number of a text is below it. -/
theorem Adds.number_lt (h : r.Adds directory s number next) (hnumbered : r.Numbered) :
    number < next.nextNumber ∧ r.nextNumber ≤ next.nextNumber := by
  cases h with
  | known _ hlatest _ => exact ⟨hnumbered.id_lt (mem_of_latest? hlatest), Nat.le_refl _⟩
  | new =>
    rw [nextNumber_append]
    omega

/-- A pseudo path gets the next number. -/
theorem Adds.number_of_pseudo (h : r.Adds directory s number next)
    (hpseudo : Path.isPseudo s.path = true) : number = r.nextNumber := by
  cases h with
  | known hreal _ _ =>
    rw [hpseudo] at hreal
    cases hreal
  | new => rfl

/-- The path of a text that was registered leads to it, and other paths lead where they led. -/
theorem Adds.latest? (h : r.Adds directory s number next) (path : String) :
    if key directory s.path = path then
      ∃ file, next.latest? path = some file ∧ file.id = number ∧ file.content = s.content
    else next.latest? path = r.latest? path := by
  by_cases hpath : key directory s.path = path
  · rw [if_pos hpath]
    cases h with
    | known _ hlatest hcontent => exact ⟨_, hpath ▸ hlatest, rfl, hcontent⟩
    | new => exact ⟨_, by rw [latest?_append, if_pos hpath], rfl, rfl⟩
  · rw [if_neg hpath]
    cases h with
    | known => rfl
    | new => rw [latest?_append, if_neg hpath]

end Adds

/-! ### Registering texts in turn -/

theorem numbered_empty : (Registry.mk #[]).Numbered := fun i file hfile => by simp at hfile

/-- Registers texts one after the other, and gives their numbers. -/
def addAll (directory : String) (r : Registry) : List Submission → List Nat × Registry
  | [] => ([], r)
  | s :: rest =>
    let added := r.add directory s.path s.content
    let others := addAll directory added.2 rest
    (added.1 :: others.1, others.2)

section AddAll

variable (directory : String)

theorem addAll_append (r : Registry) (first second : List Submission) :
    r.addAll directory (first ++ second) =
      ((r.addAll directory first).1 ++ ((r.addAll directory first).2.addAll directory second).1,
        ((r.addAll directory first).2.addAll directory second).2) := by
  induction first generalizing r with
  | nil => rfl
  | cons s rest ih => simp only [List.cons_append, addAll, ih]

theorem length_addAll (r : Registry) (submissions : List Submission) :
    (r.addAll directory submissions).1.length = submissions.length := by
  induction submissions generalizing r with
  | nil => rfl
  | cons s rest ih => simp only [addAll, List.length_cons, ih]

theorem Numbered.addAll {r : Registry} (h : r.Numbered) (submissions : List Submission) :
    (r.addAll directory submissions).2.Numbered := by
  induction submissions generalizing r with
  | nil => exact h
  | cons s rest ih => exact ih ((r.registers_add directory s.path s.content).numbered h)

/-- Later registrations change no text that is registered. -/
theorem extends_addAll (r : Registry) (submissions : List Submission) :
    r.Extends (r.addAll directory submissions).2 := by
  induction submissions generalizing r with
  | nil => exact .refl r
  | cons s rest ih =>
    intro id file hfile
    exact ih _ id file (r.extends_add directory s.path s.content id file hfile)

/-- The numbers of the texts are all below the next one. -/
theorem Numbered.lt_of_mem_addAll {r : Registry} (h : r.Numbered) (submissions : List Submission) :
    r.nextNumber ≤ (r.addAll directory submissions).2.nextNumber ∧
      ∀ number ∈ (r.addAll directory submissions).1,
        number < (r.addAll directory submissions).2.nextNumber := by
  induction submissions generalizing r with
  | nil => exact ⟨Nat.le_refl _, fun number hnumber => absurd hnumber List.not_mem_nil⟩
  | cons s rest ih =>
    have hadds := (r.adds_add directory s).number_lt h
    obtain ⟨hle, hothers⟩ := ih ((r.registers_add directory s.path s.content).numbered h)
    refine ⟨Nat.le_trans hadds.2 hle, ?_⟩
    rw [Registry.addAll, List.forall_mem_cons]
    exact ⟨Nat.lt_of_lt_of_le hadds.1 hle, hothers⟩

/-- Every text is found under the number that it got. -/
theorem Numbered.found_addAll {r : Registry} (h : r.Numbered) (submissions : List Submission) :
    submissions.Forall₂ (fun s number =>
      ∃ file, (r.addAll directory submissions).2.find? number = some file ∧
        file.content = s.content ∧ file.path = key directory s.path)
      (r.addAll directory submissions).1 := by
  induction submissions generalizing r with
  | nil => exact .nil
  | cons s rest ih =>
    obtain ⟨file, hfile, hparts⟩ := (r.adds_add directory s).found h
    refine .cons ⟨file, ?_, hparts⟩ (ih ((r.registers_add directory s.path s.content).numbered h))
    exact extends_addAll directory _ rest _ _ hfile

/-- What a span covers stays the same as long as its text is registered. -/
theorem Extends.resolve_eq {r later : Registry} (h : r.Extends later) {span : Span}
    {file : SourceFile} (hfile : r.find? span.file = some file) :
    later.resolve span = r.resolve span := by
  unfold resolve
  rw [hfile, h _ _ hfile]

end AddAll

end Registry

/-! ### The tables that are changed one by one -/

namespace SourceTables

/-- Tables that say what a registry says. -/
structure Mirrors (t : SourceTables) (r : Registry) : Prop where
  files : ∀ id, t.files.lookup id = r.find? id
  numbers : ∀ path, t.numbers.lookup path = r.numberOf? path
  nextNumber : t.nextNumber = r.nextNumber

theorem mirrors_empty : Mirrors {} ⟨#[]⟩ :=
  ⟨fun id => by simp [Registry.find?], fun path => rfl, rfl⟩

/-- Registers texts one after the other, and gives their numbers. -/
def addAll (directory : String) (t : SourceTables) :
    List Submission → Option (List Nat × SourceTables)
  | [] => some ([], t)
  | s :: rest => do
    let (number, t) ← t.add directory s.path s.content
    let (numbers, t) ← addAll directory t rest
    return (number :: numbers, t)

variable {t : SourceTables} {r : Registry}

theorem Mirrors.append (h : t.Mirrors r) (path content : String) :
    (t.append path content).1 = r.nextNumber ∧
      (t.append path content).2.Mirrors (r.append path content).2 := by
  refine ⟨h.nextNumber, fun id => ?_, fun other => ?_, ?_⟩
  · rw [Registry.find?_append, SourceTables.append, List.lookup_cons, h.files, h.nextNumber]
    by_cases hid : id = r.nextNumber
    · simp [hid]
    · rw [beq_false_of_ne hid, if_neg hid]
  · rw [Registry.numberOf?, Registry.latest?_append, SourceTables.append, List.lookup_cons,
      h.numbers, h.nextNumber]
    by_cases hpath : path = other
    · simp [hpath]
    · rw [beq_false_of_ne (Ne.symm hpath), if_neg hpath]
      rfl
  · rw [Registry.nextNumber_append, ← h.nextNumber]
    rfl

/-- Registering a text in tables that mirror a registry finds what the registry finds: the number of
a path is never that of a text which is not there. -/
theorem Mirrors.add (h : t.Mirrors r) (hnumbered : r.Numbered) (directory path content : String) :
    ∃ later, t.add directory path content = some ((r.add directory path content).1, later) ∧
      later.Mirrors (r.add directory path content).2 := by
  obtain ⟨hnumber, happend⟩ := h.append (Registry.key directory path) content
  have hnew : some (t.append (Registry.key directory path) content) =
      some ((r.append (Registry.key directory path) content).1,
        (t.append (Registry.key directory path) content).2) := by
    rw [← show _ = (r.append (Registry.key directory path) content).1 from hnumber]
  unfold SourceTables.add Registry.add
  by_cases hpseudo : Path.isPseudo path = true
  · simp only [if_pos hpseudo]
    exact ⟨_, hnew, happend⟩
  · simp only [if_neg hpseudo, h.numbers, Registry.numberOf?]
    cases hlatest : r.latest? (Registry.key directory path) with
    | none => exact ⟨_, hnew, happend⟩
    | some file =>
      have hfile := hnumbered.find?_id (Registry.mem_of_latest? hlatest)
      simp only [Option.map_some, h.files, hfile]
      by_cases hcontent : file.content = content
      · simp only [if_pos hcontent]
        exact ⟨t, rfl, h⟩
      · simp only [if_neg hcontent]
        exact ⟨_, hnew, happend⟩

theorem Mirrors.addAll (h : t.Mirrors r) (hnumbered : r.Numbered) (directory : String)
    (submissions : List Submission) :
    ∃ later, t.addAll directory submissions = some ((r.addAll directory submissions).1, later) ∧
      later.Mirrors (r.addAll directory submissions).2 := by
  induction submissions generalizing t r with
  | nil => exact ⟨t, rfl, h⟩
  | cons s rest ih =>
    obtain ⟨next, hnext, hmirrors⟩ := h.add hnumbered directory s.path s.content
    obtain ⟨later, hlater, hlast⟩ :=
      ih hmirrors ((r.registers_add directory s.path s.content).numbered hnumbered)
    refine ⟨later, ?_, hlast⟩
    rw [SourceTables.addAll, hnext, Option.bind_eq_bind, Option.bind_some]
    simp only [hlater]
    rfl

end SourceTables

/-! ### The tables after any registrations -/

/-- What the tables of a registry say after texts were registered in turn, beginning with none, and
got some numbers. -/
structure Registrations (directory : String) (submissions : List Submission) (numbers : List Nat)
    (r : Registry) : Prop where
  /-- The texts have the numbers from one up to the next one. -/
  numbered : ∀ id : Int, (∃ file, r.find? id = some file) ↔ 1 ≤ id ∧ id < r.nextNumber
  /-- A text is that of the submission which got its number when no text had it. -/
  created : ∀ (id : Int) (file : SourceFile), r.find? id = some file →
    ∃ before s after, submissions = before ++ s :: after ∧
      ((Registry.mk #[]).addAll directory before).2.find? id = none ∧
      numbers[before.length]? = some file.id ∧ (file.id : Int) = id ∧
      file.path = Registry.key directory s.path ∧ file.content = s.content
  /-- Each submission got the number of a text with its content and path. -/
  found : submissions.Forall₂ (fun s number => ∃ file, r.find? number = some file ∧
    file.content = s.content ∧ file.path = Registry.key directory s.path) numbers
  /-- A submission without a file got a number that none had got before. -/
  fresh : ∀ before s after number, submissions = before ++ s :: after →
    Path.isPseudo s.path = true → numbers[before.length]? = some number →
    number ∉ numbers.take before.length
  /-- A path leads to the greatest number of a text that has it. -/
  paths : ∀ (path : String) (id : Nat), r.numberOf? path = some id ↔
    (∃ file, r.find? id = some file ∧ file.path = path) ∧
    ∀ (other : Int) (file : SourceFile), r.find? other = some file → file.path = path → other ≤ id

namespace Registry

/-- The submission in the middle of a list gets the number that it gets after those before it. -/
theorem getElem?_addAll (directory : String) (r : Registry) (before after : List Submission)
    (s : Submission) :
    (r.addAll directory (before ++ s :: after)).1[before.length]? =
      some ((r.addAll directory before).2.add directory s.path s.content).1 := by
  rw [addAll_append, List.getElem?_append_right (Nat.le_of_eq (length_addAll directory r before)),
    length_addAll, Nat.sub_self]
  rfl

/-- A text that is there after some registrations was created by one of them. -/
theorem exists_creation (directory : String) (submissions : List Submission) {id : Int}
    {file : SourceFile}
    (hfile : ((Registry.mk #[]).addAll directory submissions).2.find? id = some file) :
    ∃ before s after, submissions = before ++ s :: after ∧
      ((Registry.mk #[]).addAll directory before).2.find? id = none ∧
      ((Registry.mk #[]).addAll directory submissions).1[before.length]? = some file.id ∧
      (file.id : Int) = id ∧ file.path = key directory s.path ∧ file.content = s.content := by
  induction submissions using List.reverseRecOn with
  | nil => simp [addAll, find?] at hfile
  | append_singleton earlier last ih =>
    rw [addAll_append] at hfile
    have hadds := ((Registry.mk #[]).addAll directory earlier).2.adds_add directory last
    rcases hadds.created hfile with hold | ⟨hnone, hid, rfl⟩
    · obtain ⟨before, s, after, rfl, hnone, hnumber, hparts⟩ := ih hold
      refine ⟨before, s, after ++ [last], by simp, hnone, ?_, hparts⟩
      rw [← hnumber, addAll_append, List.getElem?_append_left]
      rw [length_addAll]
      simp
    · exact ⟨earlier, last, [], rfl, hnone, getElem?_addAll directory _ earlier [] last, hid.symm,
        rfl, rfl⟩

/-- The tables of a registry are consistent after any registrations, and so are the tables that are
changed one by one, which give the same numbers. Whatever is registered later, the texts stay what
they are, and spans cover what they covered. -/
theorem registrations_addAll (directory : String) (submissions later : List Submission) :
    let kept := (Registry.mk #[]).addAll directory submissions
    let last := kept.2.addAll directory later
    Registrations directory submissions kept.1 kept.2 ∧
      (∃ tables, SourceTables.addAll directory {} submissions = some (kept.1, tables) ∧
        tables.Mirrors kept.2) ∧
      (∀ id file, kept.2.find? id = some file → last.2.find? id = some file) ∧
      ∀ span file, kept.2.find? span.file = some file →
        last.2.resolve span = kept.2.resolve span := by
  intro kept last
  have hnumbered : kept.2.Numbered := numbered_empty.addAll directory submissions
  have hextends : kept.2.Extends last.2 := extends_addAll directory kept.2 later
  refine ⟨⟨kept.2.exists_find?_iff, fun id file => exists_creation directory submissions,
    numbered_empty.found_addAll directory submissions, ?_,
    fun path id => numberOf?_eq_some_iff hnumbered⟩,
    SourceTables.mirrors_empty.addAll numbered_empty directory submissions, hextends,
    fun span file => hextends.resolve_eq⟩
  rintro before s after number hsubmissions hpseudo hnumber
  have hbefore := (numbered_empty.lt_of_mem_addAll directory before).2
  have hadds := ((Registry.mk #[]).addAll directory before).2.adds_add directory s
  simp only [kept, hsubmissions, getElem?_addAll, Option.some.injEq] at hnumber
  have htake : kept.1.take before.length = ((Registry.mk #[]).addAll directory before).1 := by
    simp only [kept, hsubmissions, addAll_append]
    rw [← length_addAll directory (Registry.mk #[]) before, List.take_left]
  rw [htake, ← hnumber, hadds.number_of_pseudo hpseudo]
  exact fun hmem => Nat.lt_irrefl _ (hbefore _ hmem)

end Registry

/-! ### Files that are registered again -/

theorem Path.isAbsolute_normalise {path : String} (h : isAbsolute path = true) :
    isAbsolute (normalise path) = true := by
  unfold isAbsolute at h ⊢
  obtain ⟨rest, hrest⟩ : ∃ rest, path.toList = '/' :: rest := by
    cases hchars : path.toList with
    | nil => simp [hchars] at h
    | cons c rest =>
      rw [hchars] at h
      exact ⟨rest, by simpa using h⟩
  obtain ⟨n, hn⟩ : ∃ n, leadingSlashes path.toList = n + 1 := by
    rw [hrest]
    unfold leadingSlashes
    split <;> simp_all
  simp [normalise, hn, List.replicate_succ]

/-- The path of a file starts at the root, since the working directory does. -/
theorem Path.isAbsolute_absolute {directory : String} (h : isAbsolute directory = true)
    (path : String) : isAbsolute (absolute directory path) = true := by
  unfold absolute
  by_cases hpath : isAbsolute path = true
  · rw [if_pos hpath]
    exact isAbsolute_normalise hpath
  · rw [if_neg hpath]
    apply isAbsolute_normalise
    unfold within isAbsolute at *
    cases hchars : directory.toList with
    | nil => simp [hchars] at h
    | cons c rest => split <;> simpa [hchars] using h

theorem Path.isAbsolute_of_isPseudo {path : String} (h : isPseudo path = true) :
    isAbsolute path = false := by
  unfold isPseudo at h
  unfold isAbsolute
  obtain ⟨hfirst, _⟩ := Bool.and_eq_true_iff.mp h
  rw [beq_iff_eq] at hfirst
  rw [hfirst]
  rfl

namespace Registry

variable {r next : Registry} {directory path : String} {s : Submission} {number : Nat}
  {file : SourceFile}

/-- A path that is a file's leads to the same text until the file is registered with another
content, and then to one with a greater number. -/
theorem Adds.latest?_of_isAbsolute (h : r.Adds directory s number next) (hnumbered : r.Numbered)
    (hpath : Path.isAbsolute path = true) (hlatest : r.latest? path = some file) :
    ∃ later, next.latest? path = some later ∧ file.id ≤ later.id ∧
      (later.id = file.id ↔ (key directory s.path = path → s.content = file.content)) ∧
      (later.id = file.id → later = file) := by
  cases h with
  | known hreal hknown hcontent =>
    refine ⟨file, hlatest, Nat.le_refl _, iff_of_true rfl ?_, fun _ => rfl⟩
    rintro rfl
    rw [hlatest] at hknown
    obtain rfl := Option.some.inj hknown
    exact hcontent.symm
  | new hnew =>
    rw [latest?_append]
    by_cases hkey : key directory s.path = path
    · rw [if_pos hkey]
      have hlt := hnumbered.id_lt (mem_of_latest? hlatest)
      -- a path that starts at the root is no pseudo path, so the contents were compared
      have hreal : Path.isPseudo s.path ≠ true := by
        intro hpseudo
        rw [← hkey, key, if_pos hpseudo, Path.isAbsolute_of_isPseudo hpseudo] at hpath
        cases hpath
      have hchanged := hnew.resolve_left hreal file (hkey ▸ hlatest)
      refine ⟨_, rfl, Nat.le_of_lt hlt, ?_, fun hid => absurd hid (Nat.ne_of_gt hlt)⟩
      exact iff_of_false (Nat.ne_of_gt hlt) fun hsame => hchanged (hsame hkey).symm
    · rw [if_neg hkey]
      exact ⟨file, hlatest, Nat.le_refl _, iff_of_true rfl fun h => absurd h hkey, fun _ => rfl⟩

/-- The same for texts that are registered in turn. -/
theorem Numbered.latest?_addAll (directory : String) (h : r.Numbered)
    (hpath : Path.isAbsolute path = true)
    (hlatest : r.latest? path = some file) (submissions : List Submission) :
    ∃ later, (r.addAll directory submissions).2.latest? path = some later ∧ file.id ≤ later.id ∧
      (later.id = file.id ↔
        ∀ s ∈ submissions, key directory s.path = path → s.content = file.content) := by
  induction submissions generalizing r file with
  | nil => exact ⟨file, hlatest, Nat.le_refl _, by simp⟩
  | cons s rest ih =>
    obtain ⟨middle, hmiddle, hle, hsame, heq⟩ :=
      (r.adds_add directory s).latest?_of_isAbsolute h hpath hlatest
    obtain ⟨later, hlater, hle', hsame'⟩ :=
      ih ((r.registers_add directory s.path s.content).numbered h) hmiddle
    refine ⟨later, hlater, Nat.le_trans hle hle', ?_⟩
    rw [List.forall_mem_cons, ← hsame]
    -- numbers only go up, so the last is the first only if none in between is another
    constructor
    · intro hid
      have hid' : middle.id = file.id := by omega
      rw [heq hid'] at hsame'
      exact ⟨hid', hsame'.mp hid⟩
    · rintro ⟨hid, hrest⟩
      rw [heq hid] at hsame'
      exact hsame'.mpr hrest

/-- Only a file has the path of a file. -/
theorem key_eq_iff (hpath : Path.isAbsolute path = true) (s : Submission) :
    key directory s.path = path ↔
      Path.isPseudo s.path = false ∧ Path.absolute directory s.path = path := by
  unfold key
  by_cases hpseudo : Path.isPseudo s.path = true
  · rw [if_pos hpseudo, hpseudo]
    refine iff_of_false ?_ fun h => by cases h.1
    rintro rfl
    rw [Path.isAbsolute_of_isPseudo hpseudo] at hpath
    cases hpath
  · rw [if_neg hpseudo]
    simp [hpseudo]

/-- When a file that is registered again gets the number it had. Two registrations of a file with
one content get the same number exactly if the file was not registered with another content in
between. -/
theorem same_number_iff {first second : Submission}
    (hdirectory : Path.isAbsolute directory = true) (hfirst : Path.isPseudo first.path = false)
    (hsecond : Path.isPseudo second.path = false)
    (hpath : Path.absolute directory second.path = Path.absolute directory first.path)
    (hcontent : second.content = first.content) (before between after : List Submission) :
    let numbers := ((Registry.mk #[]).addAll directory
      (before ++ first :: (between ++ second :: after))).1
    ∃ m n, numbers[before.length]? = some m ∧
      numbers[before.length + 1 + between.length]? = some n ∧
      (n = m ↔ ∀ s ∈ between, Path.isPseudo s.path = false →
        Path.absolute directory s.path = Path.absolute directory first.path →
        s.content = first.content) := by
  intro numbers
  have hroot := Path.isAbsolute_absolute hdirectory first.path
  have hkey : key directory first.path = Path.absolute directory first.path :=
    (key_eq_iff hroot first).mpr ⟨hfirst, rfl⟩
  have hkey' : key directory second.path = Path.absolute directory first.path :=
    (key_eq_iff hroot second).mpr ⟨hsecond, hpath⟩
  let earlier := ((Registry.mk #[]).addAll directory before).2
  let start := (earlier.add directory first.path first.content).2
  let middle := (start.addAll directory between).2
  have hearlier : earlier.Numbered := numbered_empty.addAll directory before
  have hstart : start.Numbered :=
    (earlier.registers_add directory first.path first.content).numbered hearlier
  refine ⟨_, (middle.add directory second.path second.content).1,
    getElem?_addAll directory _ before (between ++ second :: after) first, ?_, ?_⟩
  · have hnumber := getElem?_addAll directory (Registry.mk #[]) (before ++ first :: between) after
      second
    rw [List.append_assoc, List.cons_append, List.length_append, List.length_cons,
      Nat.add_comm between.length, ← Nat.add_assoc] at hnumber
    rw [hnumber, addAll_append]
    rfl
  · -- the latest registration of the file is the first one, or it is one with a greater number
    obtain ⟨file, hlatest, hid, hsame⟩ : ∃ file,
        start.latest? (Path.absolute directory first.path) = some file ∧
        file.id = (earlier.add directory first.path first.content).1 ∧
        file.content = first.content := by
      have := (earlier.adds_add directory first).latest? (Path.absolute directory first.path)
      rwa [if_pos hkey] at this
    obtain ⟨last, hlast, hnumber, _⟩ : ∃ last,
        (middle.add directory second.path second.content).2.latest?
          (Path.absolute directory first.path) = some last ∧
        last.id = (middle.add directory second.path second.content).1 ∧
        last.content = second.content := by
      have := (middle.adds_add directory second).latest? (Path.absolute directory first.path)
      rwa [if_pos hkey'] at this
    obtain ⟨later, hlater, _, hchanges⟩ :=
      hstart.latest?_addAll directory hroot hlatest (between ++ [second])
    rw [addAll_append] at hlater
    obtain rfl : last = later := Option.some.inj (hlast.symm.trans hlater)
    rw [hid, hnumber, hsame] at hchanges
    rw [hchanges, List.forall_mem_append, List.forall_mem_singleton]
    simp only [key_eq_iff hroot, and_imp, hcontent, implies_true, and_true]

/-- Between two registrations of a file, with the same content, stand one under another spelling of
its path, and texts with other paths. -/
theorem same_number_iff_respelled :
    ∃ m n, let numbers := ((Registry.mk #[]).addAll "/home"
        [⟨"<repl>", "1;"⟩, ⟨"a.lako", "1;"⟩, ⟨"b.lako", "2;"⟩, ⟨"/home/./a.lako", "1;"⟩,
          ⟨"<repl>", "2;"⟩, ⟨"../home/a.lako", "1;"⟩]).1
      numbers[1]? = some m ∧ numbers[5]? = some n ∧ n = m := by
  obtain ⟨m, n, hfirst, hsecond, hsame⟩ := @same_number_iff "/home"
    ⟨"a.lako", "1;"⟩ ⟨"../home/a.lako", "1;"⟩ (by decide) (by decide)
    (by decide) (by decide +kernel) rfl [⟨"<repl>", "1;"⟩]
    [⟨"b.lako", "2;"⟩, ⟨"/home/./a.lako", "1;"⟩, ⟨"<repl>", "2;"⟩] []
  exact ⟨m, n, hfirst, hsecond, hsame.mpr (by decide +kernel)⟩

/-- Equal contents alone do not give a file equal numbers: one that is changed and then changed back
is registered three times. -/
theorem changed_back_gets_new_number :
    ¬ ∀ (submissions : List Submission) (i j : Nat) (first second : Submission),
      submissions[i]? = some first → submissions[j]? = some second →
      Path.isPseudo first.path = false → Path.isPseudo second.path = false →
      Path.absolute "/" second.path = Path.absolute "/" first.path →
      second.content = first.content →
      let numbers := ((Registry.mk #[]).addAll "/" submissions).1
      numbers[j]? = numbers[i]? := by
  intro hsame
  have hequal := hsame [⟨"/a.lako", "1;"⟩, ⟨"/a.lako", "2;"⟩, ⟨"/a.lako", "1;"⟩] 0 2 _ _ rfl rfl
    (by decide) (by decide) rfl rfl
  have hnumbers : ((Registry.mk #[]).addAll "/"
      [⟨"/a.lako", "1;"⟩, ⟨"/a.lako", "2;"⟩, ⟨"/a.lako", "1;"⟩]).1 = [1, 2, 3] := by decide +kernel
  simp [hnumbers] at hequal

end Registry

end Treewalk
