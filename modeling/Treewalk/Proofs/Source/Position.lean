import Treewalk.Source.Registry

/-!
# Positions in registered texts

The lines that start at or before an offset are those of the text before it, and the line of an
offset is the last of them: one more than the number of line feeds before it. So lines go up with
offsets, and every offset inside a text lies on one of its lines. A registry covers a span that lies
inside one of its texts; registering more texts keeps it so.
-/

namespace Treewalk

/-- Of a text the trailing characters of a class are dropped, and nothing else. -/
theorem Text.dropRightWhile_spec (p : Char → Bool) (text : List Char) :
    ∃ dropped, text = dropRightWhile p text ++ dropped ∧ (∀ c ∈ dropped, p c = true) ∧
      ∀ c ∈ (dropRightWhile p text).getLast?, p c = false := by
  have hsplit := List.takeWhile_append_dropWhile (p := p) (l := text.reverse)
  refine ⟨(text.reverse.takeWhile p).reverse, ?_, fun c hc => ?_, fun c hc => ?_⟩
  · rw [dropRightWhile, ← List.reverse_append, hsplit, List.reverse_reverse]
  · exact List.all_eq_true.mp List.all_takeWhile c (List.mem_reverse.mp hc)
  · rw [dropRightWhile, List.getLast?_reverse] at hc
    have hhead := List.head?_dropWhile_not p text.reverse
    rw [hc] at hhead
    simpa using hhead

/-! ### Starts of lines -/

theorem lineStartsFrom_append (offset : Nat) (text rest : List Char) :
    lineStartsFrom offset (text ++ rest) =
      lineStartsFrom offset text ++ lineStartsFrom (offset + text.length) rest := by
  induction text generalizing offset with
  | nil => rfl
  | cons c text ih =>
    have hlength : offset + 1 + text.length = offset + (text.length + 1) := by omega
    rw [List.cons_append, lineStartsFrom, lineStartsFrom, ih, List.length_cons, hlength]
    split <;> rfl

theorem length_lineStartsFrom (offset : Nat) (text : List Char) :
    (lineStartsFrom offset text).length = text.count '\n' := by
  induction text generalizing offset with
  | nil => rfl
  | cons c text ih =>
    by_cases hc : c = '\n'
    · simp [lineStartsFrom, hc, ih]
    · simp [lineStartsFrom, hc, ih]

theorem bounds_of_mem_lineStartsFrom {offset start : Nat} {text : List Char}
    (h : start ∈ lineStartsFrom offset text) : offset < start ∧ start ≤ offset + text.length := by
  induction text generalizing offset with
  | nil => cases h
  | cons c rest ih =>
    rw [List.length_cons]
    rw [lineStartsFrom] at h
    by_cases hc : c = '\n'
    · rw [if_pos hc, List.mem_cons] at h
      rcases h with rfl | hrest
      · omega
      · have := ih hrest
        omega
    · rw [if_neg hc] at h
      have := ih h
      omega

theorem le_of_mem_lineStarts_take {offset start : Nat} {text : List Char}
    (h : start ∈ lineStarts (text.take offset)) : start ≤ offset := by
  rcases List.mem_cons.mp h with rfl | hmem
  · exact Nat.zero_le offset
  · have := (bounds_of_mem_lineStartsFrom hmem).2
    rw [List.length_take] at this
    omega

theorem lineStarts_append (text rest : List Char) :
    lineStarts (text ++ rest) = lineStarts text ++ lineStartsFrom text.length rest := by
  rw [lineStarts, lineStarts, List.cons_append, lineStartsFrom_append, Nat.zero_add]

/-- The lines of a text are those that start at or before an offset, which are the lines of the text
before it, and those that start behind it. -/
theorem lineStarts_split (text : List Char) (offset : Nat) :
    ∃ behind, lineStarts text = lineStarts (text.take offset) ++ behind ∧
      ∀ start ∈ behind, offset < start := by
  refine ⟨lineStartsFrom (text.take offset).length (text.drop offset), ?_, ?_⟩
  · rw [← lineStarts_append, List.take_append_drop]
  · intro start hmem
    have := bounds_of_mem_lineStartsFrom hmem
    rw [List.length_take, List.length_drop] at this
    omega

theorem takeWhile_lineStarts (text : List Char) (offset : Nat) :
    (lineStarts text).takeWhile (· ≤ offset) = lineStarts (text.take offset) := by
  obtain ⟨behind, hsplit, hbehind⟩ := lineStarts_split text offset
  have hnone : behind.takeWhile (· ≤ offset) = [] := by
    cases behind with
    | nil => rfl
    | cons start rest =>
      have := hbehind start List.mem_cons_self
      exact List.takeWhile_cons_of_neg (by simpa using this)
  rw [hsplit, List.takeWhile_append_of_pos, hnone, List.append_nil]
  intro start hmem
  simpa using le_of_mem_lineStarts_take hmem

/-- One more character starts a line exactly if it is a line feed. -/
theorem lineStarts_take_succ {text : List Char} {offset : Nat} {c : Char}
    (h : text[offset]? = some c) :
    lineStarts (text.take (offset + 1)) =
      lineStarts (text.take offset) ++ if c = '\n' then [offset + 1] else [] := by
  have hlength : (text.take offset).length = offset := by
    have := (List.getElem?_eq_some_iff.mp h).1
    rw [List.length_take]
    omega
  rw [List.take_add_one, h, lineStarts_append, hlength]
  rfl

/-! ### Lines of offsets -/

namespace SourceFile

variable (f : SourceFile)

theorem positionOf_eq (offset : Nat) :
    f.positionOf offset = ⟨(lineStarts (f.chars.take offset)).length,
      offset - (lineStarts (f.chars.take offset)).getLastD 0 + 1⟩ := by
  rw [positionOf, takeWhile_lineStarts]

/-- The line of an offset is one more than the number of line feeds before it. -/
theorem line_positionOf (offset : Nat) :
    (f.positionOf offset).line = (f.chars.take offset).count '\n' + 1 := by
  rw [positionOf_eq, ← length_lineStartsFrom 0]
  rfl

/-- The line of an offset starts at or before it, and the column counts from there. -/
theorem exists_start_positionOf (offset : Nat) :
    ∃ start, (lineStarts (f.chars.take offset)).getLast? = some start ∧
      (lineStarts f.chars)[(f.positionOf offset).line - 1]? = some start ∧
      start ≤ offset ∧ (f.positionOf offset).column = offset - start + 1 := by
  obtain ⟨behind, hsplit, -⟩ := lineStarts_split f.chars offset
  cases hlast : (lineStarts (f.chars.take offset)).getLast? with
  | none => cases List.getLast?_eq_none_iff.mp hlast
  | some start =>
    refine ⟨start, rfl, ?_, le_of_mem_lineStarts_take (List.mem_of_getLast? hlast), ?_⟩
    · rw [hsplit, positionOf_eq, List.getElem?_append_left (Nat.lt_succ_self _),
        ← List.getLast?_eq_getElem?, hlast]
    · rw [positionOf_eq, List.getLastD_eq_getLast?, hlast]
      rfl

theorem one_le_line_positionOf (offset : Nat) : 1 ≤ (f.positionOf offset).line := by
  rw [line_positionOf]
  omega

theorem line_positionOf_le_lineCount (offset : Nat) :
    (f.positionOf offset).line ≤ f.lineCount :=
  (List.takeWhile_prefix _).length_le

theorem line_positionOf_mono {offset offset' : Nat} (h : offset ≤ offset') :
    (f.positionOf offset).line ≤ (f.positionOf offset').line := by
  rw [line_positionOf, line_positionOf]
  have hshorter : f.chars.take offset <+: f.chars.take offset' := List.take_prefix_take_left h
  exact Nat.succ_le_succ (hshorter.sublist.count_le _)

theorem position_of_le {offset : Int} (hnonneg : 0 ≤ offset) (hle : offset ≤ f.chars.length) :
    f.position offset = .ok (f.positionOf offset.toNat) := by
  rw [position, if_pos ⟨hnonneg, hle⟩]

end SourceFile

/-! ### Registered spans -/

namespace Registry

/-- A span lies inside a registered text. -/
def Covers (r : Registry) (span : Span) : Prop :=
  ∃ file, r.find? span.file = some file ∧ 0 ≤ span.start ∧ span.stop ≤ file.chars.length

/-- A line and a span belong together: the span lies inside a registered text and starts on the
line. -/
def Grounds (r : Registry) (line : Int) (span : Option Span) : Prop :=
  ∃ s file, span = some s ∧ r.find? s.file = some file ∧ 0 ≤ s.start ∧
    s.stop ≤ file.chars.length ∧ line = (file.positionOf s.start.toNat).line

/-- A registry that knows all that another one knows. -/
def Extends (r later : Registry) : Prop :=
  ∀ id file, r.find? id = some file → later.find? id = some file

theorem mem_of_find? {r : Registry} {id : Int} {file : SourceFile} (h : r.find? id = some file) :
    file ∈ r.files := by
  unfold find? at h
  split at h
  · exact Array.mem_of_getElem? h
  · cases h

theorem Extends.refl (r : Registry) : r.Extends r := fun _ _ h => h

theorem Covers.mono {r later : Registry} {span : Span} (h : r.Covers span)
    (hextends : r.Extends later) : later.Covers span := by
  obtain ⟨file, hfile, hbounds⟩ := h
  exact ⟨file, hextends _ _ hfile, hbounds⟩

theorem Grounds.mono {r later : Registry} {line : Int} {span : Option Span}
    (h : r.Grounds line span) (hextends : r.Extends later) : later.Grounds line span := by
  obtain ⟨s, file, hspan, hfile, hrest⟩ := h
  exact ⟨s, file, hspan, hextends _ _ hfile, hrest⟩

theorem Grounds.covers {r : Registry} {line : Int} {s : Span} (h : r.Grounds line (some s)) :
    r.Covers s := by
  obtain ⟨s', file, hspan, hfile, hstart, hstop, _⟩ := h
  obtain rfl := Option.some.inj hspan
  exact ⟨file, hfile, hstart, hstop⟩

theorem extends_append (r : Registry) (path content : String) :
    r.Extends (r.append path content).2 := by
  intro id file hfile
  unfold find? at hfile ⊢
  by_cases hid : 1 ≤ id
  · rw [if_pos hid] at hfile ⊢
    have hlt : id.toNat - 1 < r.files.size := by
      apply Nat.lt_of_not_le
      intro hle
      rw [Array.getElem?_eq_none hle] at hfile
      cases hfile
    rw [append]
    simp only
    rw [Array.getElem?_push_lt hlt, ← hfile, Array.getElem?_eq_getElem hlt]
  · rw [if_neg hid] at hfile
    cases hfile

theorem extends_add (r : Registry) (directory path content : String) :
    r.Extends (r.add directory path content).2 := by
  unfold add
  simp only
  by_cases hpseudo : Path.isPseudo path = true
  · rw [if_pos hpseudo]
    exact r.extends_append _ content
  · rw [if_neg hpseudo]
    cases r.latest? (key directory path) with
    | none => exact r.extends_append _ content
    | some file =>
      simp only
      by_cases hcontent : file.content = content
      · rw [if_pos hcontent]
        exact .refl r
      · rw [if_neg hcontent]
        exact r.extends_append _ content

end Registry

end Treewalk
