import Mathlib.Data.List.TakeWhile
import Treewalk.Proofs.Source.Position

/-!
# Offsets and positions

The offsets of a text and the positions in it determine each other. The starts of the lines go up,
so exactly one line starts at or before an offset and is not followed by another that does; the
column counts from its start. Later offsets have later positions, and a position is refused exactly
for the offsets outside the text. The text of a line goes from its start to the next line feed or to
the end, without the carriage returns before that.
-/

namespace Treewalk

/-! ### The starts of lines -/

theorem pairwise_lineStartsFrom (offset : Nat) (text : List Char) :
    (lineStartsFrom offset text).Pairwise (· < ·) := by
  induction text generalizing offset with
  | nil => exact .nil
  | cons c rest ih =>
    rw [lineStartsFrom]
    by_cases hc : c = '\n'
    · rw [if_pos hc]
      exact .cons (fun _ hstart => (bounds_of_mem_lineStartsFrom hstart).1) (ih (offset + 1))
    · rw [if_neg hc]
      exact ih (offset + 1)

/-- The starts of the lines go up. -/
theorem pairwise_lineStarts (text : List Char) : (lineStarts text).Pairwise (· < ·) :=
  .cons (fun _ hstart => (bounds_of_mem_lineStartsFrom hstart).1) (pairwise_lineStartsFrom 0 text)

/-- A text is its first line and what follows, which is nothing or starts with a line feed. -/
theorem exists_firstLine (text : List Char) :
    ∃ body rest, text = body ++ rest ∧ '\n' ∉ body ∧ (rest = [] ∨ rest.head? = some '\n') := by
  induction text with
  | nil => exact ⟨[], [], rfl, List.not_mem_nil, .inl rfl⟩
  | cons c rest ih =>
    by_cases hc : c = '\n'
    · exact ⟨[], c :: rest, rfl, List.not_mem_nil, .inr (congrArg some hc)⟩
    · obtain ⟨body, behind, rfl, hbody, hbehind⟩ := ih
      exact ⟨c :: body, behind, rfl, by simp [Ne.symm hc, hbody], hbehind⟩

/-! ### Positions -/

/-- A position comes before another one: it is on an earlier line, or in an earlier column of the
same line. -/
def Position.Before (p q : Position) : Prop :=
  p.line < q.line ∨ p.line = q.line ∧ p.column < q.column

namespace SourceFile

/-- A position names an offset: it is on the one line that starts at or before the offset and that
no other such line follows, and its column counts from the start of the line. -/
structure Names (f : SourceFile) (p : Position) (offset : Int) : Prop where
  one_le_line : 1 ≤ p.line
  line_le : p.line ≤ f.lineCount
  one_le_column : 1 ≤ p.column
  start : ∃ start, (lineStarts f.chars)[p.line - 1]? = some start ∧
    (start : Int) + p.column - 1 = offset
  next : p.line = f.lineCount ∨
    ∃ next, (lineStarts f.chars)[p.line]? = some next ∧ offset < (next : Int)

variable {f : SourceFile}

/-- The lines up to that of an offset are those that start at or before it. -/
theorem lt_line_positionOf_iff {offset i start : Nat}
    (h : (lineStarts f.chars)[i]? = some start) :
    i < (f.positionOf offset).line ↔ start ≤ offset := by
  obtain ⟨behind, hsplit, hbehind⟩ := lineStarts_split f.chars offset
  rw [hsplit] at h
  rw [positionOf_eq]
  constructor
  · intro hlt
    rw [List.getElem?_append_left hlt] at h
    exact le_of_mem_lineStarts_take (List.mem_of_getElem? h)
  · intro hle
    apply Nat.lt_of_not_le
    intro hge
    rw [List.getElem?_append_right hge] at h
    exact Nat.not_lt.mpr hle (hbehind start (List.mem_of_getElem? h))

/-- No position but the one that is computed names an offset, and that one does. -/
theorem names_iff (f : SourceFile) (p : Position) (offset : Nat) :
    f.Names p offset ↔ p = f.positionOf offset := by
  obtain ⟨start, -, hstart, hle, hcolumn⟩ := f.exists_start_positionOf offset
  have hcount := f.line_positionOf_le_lineCount offset
  constructor
  · intro h
    obtain ⟨found, hfound, hoffset⟩ := h.start
    have hline := h.one_le_line
    have hcolumns := h.one_le_column
    -- its line starts at or before the offset, and no line behind it does
    have hreached : p.line - 1 < (f.positionOf offset).line := by
      rw [lt_line_positionOf_iff hfound]
      omega
    have hlast : ¬ p.line < (f.positionOf offset).line := by
      rcases h.next with heq | ⟨next, hnext, hlt⟩
      · omega
      · rw [lt_line_positionOf_iff hnext]
        omega
    have hsame : p.line = (f.positionOf offset).line := by omega
    rw [hsame, hstart] at hfound
    cases hfound
    rw [Position.mk.injEq]
    exact ⟨hsame, by omega⟩
  · rintro rfl
    refine ⟨f.one_le_line_positionOf offset, hcount, by omega, ⟨start, hstart, by omega⟩, ?_⟩
    cases hnext : (lineStarts f.chars)[(f.positionOf offset).line]? with
    | none => exact .inl (Nat.le_antisymm hcount (List.getElem?_eq_none_iff.mp hnext))
    | some next =>
      have hbehind : ¬ next ≤ offset := by
        rw [← lt_line_positionOf_iff hnext]
        exact Nat.lt_irrefl _
      exact .inr ⟨next, rfl, by omega⟩

/-- A later offset has a later position. -/
theorem positionOf_before (f : SourceFile) {offset later : Nat} (h : offset < later) :
    (f.positionOf offset).Before (f.positionOf later) := by
  obtain ⟨start, -, hstart, hle, hcolumn⟩ := f.exists_start_positionOf offset
  obtain ⟨start', -, hstart', hle', hcolumn'⟩ := f.exists_start_positionOf later
  rcases Nat.lt_or_eq_of_le (f.line_positionOf_mono (Nat.le_of_lt h)) with hlt | heq
  · exact .inl hlt
  · rw [heq, hstart'] at hstart
    cases hstart
    exact .inr ⟨heq, by omega⟩

/-! ### Lines -/

/-- What the text of a line is: it goes from the start of the line to the next line feed or to the
end, without the carriage returns that stand there. -/
def LineReads (f : SourceFile) (line : Nat) (text : List Char) : Prop :=
  ∃ start body rest returns, (lineStarts f.chars)[line - 1]? = some start ∧
    f.chars.drop start = body ++ rest ∧ '\n' ∉ body ∧ (rest = [] ∨ rest.head? = some '\n') ∧
    body = text ++ List.replicate returns '\r' ∧ text.getLast? ≠ some '\r'

theorem LineReads.notMem {line : Nat} {text : List Char} (h : f.LineReads line text) :
    '\n' ∉ text := by
  obtain ⟨start, body, rest, returns, -, -, hbody, -, rfl, -⟩ := h
  exact fun hmem => hbody (List.mem_append_left _ hmem)

/-- The line after one is the first to start in the text from there on. -/
theorem getElem?_next {line start : Nat} (hline : 1 ≤ line)
    (hstart : (lineStarts f.chars)[line - 1]? = some start) :
    start ≤ f.chars.length ∧
      (lineStarts f.chars)[line]? = (lineStartsFrom start (f.chars.drop start))[0]? := by
  have hle : start ≤ f.chars.length := by
    have hmem := List.mem_of_getElem? hstart
    rw [← List.take_length (l := f.chars)] at hmem
    exact le_of_mem_lineStarts_take hmem
  have hsplit := lineStarts_append (f.chars.take start) (f.chars.drop start)
  rw [List.take_append_drop, List.length_take, Nat.min_eq_left hle] at hsplit
  have hreached := (lt_line_positionOf_iff hstart).mpr (Nat.le_refl start)
  -- the starts go up, so no further line starts here as well
  have hlast : ¬ line < (f.positionOf start).line := by
    intro hlt
    have hin := Nat.lt_of_lt_of_le hlt (f.line_positionOf_le_lineCount start)
    have hnext := (lt_line_positionOf_iff (List.getElem?_eq_getElem hin)).mp hlt
    obtain ⟨hat, hvalue⟩ := List.getElem?_eq_some_iff.mp hstart
    have hup := List.pairwise_iff_getElem.mp (pairwise_lineStarts f.chars) (line - 1) line hat hin
      (by omega)
    omega
  have hcount : (lineStarts (f.chars.take start)).length = line :=
    (congrArg Position.line (f.positionOf_eq start)).symm.trans (by omega)
  rw [hsplit, List.getElem?_append_right (Nat.le_of_eq hcount), hcount, Nat.sub_self]
  exact ⟨hle, rfl⟩

/-- The characters of a line up to where the next one starts are its text and at most a line
feed. -/
theorem exists_take_line {line start : Nat} (hline : 1 ≤ line)
    (hstart : (lineStarts f.chars)[line - 1]? = some start) :
    ∃ body rest ending, f.chars.drop start = body ++ rest ∧ '\n' ∉ body ∧
      (rest = [] ∨ rest.head? = some '\n') ∧ (ending = [] ∨ ending = ['\n']) ∧
      (f.chars.drop start).take ((lineStarts f.chars).getD line f.chars.length - start) =
        body ++ ending := by
  obtain ⟨hle, hnext⟩ := getElem?_next hline hstart
  obtain ⟨body, rest, htext, hbody, hrest⟩ := exists_firstLine (f.chars.drop start)
  have hnone : lineStartsFrom start body = [] := by
    rw [← List.length_eq_zero_iff, length_lineStartsFrom, List.count_eq_zero]
    exact hbody
  rw [List.getD_eq_getElem?_getD, hnext, htext, lineStartsFrom_append, hnone, List.nil_append]
  -- the last line ends with the text, every other one with a line feed
  cases rest with
  | nil =>
    refine ⟨body, [], [], rfl, hbody, .inl rfl, .inl rfl, List.take_of_length_le ?_⟩
    have hlength := congrArg List.length htext
    rw [List.length_drop] at hlength
    simp only [lineStartsFrom, List.getElem?_nil, Option.getD_none]
    omega
  | cons c rest =>
    have hc : c = '\n' := by simpa using hrest
    refine ⟨body, c :: rest, ['\n'], rfl, hbody, .inr (congrArg some hc), .inr rfl, ?_⟩
    have hstop : start + body.length + 1 - start = body.length + 1 := by omega
    rw [lineStartsFrom, if_pos hc, List.getElem?_cons_zero, Option.getD_some, hstop,
      List.take_length_add_append, hc]
    rfl

/-- The line feed and the carriage returns at the end of a line are dropped, and nothing else. -/
theorem dropRightWhile_isLineEnd {body ending : List Char} (hbody : '\n' ∉ body)
    (hending : ending = [] ∨ ending = ['\n']) :
    ∃ returns, body = Text.dropRightWhile isLineEnd (body ++ ending) ++
        List.replicate returns '\r' ∧
      (Text.dropRightWhile isLineEnd (body ++ ending)).getLast? ≠ some '\r' := by
  have hkept : Text.dropRightWhile isLineEnd (body ++ ending) =
      Text.dropRightWhile isLineEnd body := by
    rcases hending with rfl | rfl
    · rw [List.append_nil]
    · rw [Text.dropRightWhile, Text.dropRightWhile, List.reverse_append, List.reverse_singleton,
        List.singleton_append, List.dropWhile_cons_of_pos rfl]
  obtain ⟨dropped, hsplit, hends, hlast⟩ := Text.dropRightWhile_spec isLineEnd body
  -- what is dropped are carriage returns, since the line has no line feed
  have hdropped : ∀ c ∈ dropped, c = '\r' := by
    intro c hc
    have hend := hends c hc
    simp only [isLineEnd, Bool.or_eq_true, beq_iff_eq] at hend
    rcases hend with hend | rfl
    · exact hend
    · exact absurd (hsplit ▸ List.mem_append_right _ hc) hbody
  refine ⟨dropped.length, ?_, fun hreturn => ?_⟩
  · rw [hkept, ← List.eq_replicate_of_mem hdropped]
    exact hsplit
  · rw [hkept] at hreturn
    exact absurd (hlast _ hreturn) (by decide)

theorem lineReads_lineChars {line start : Nat} (hline : 1 ≤ line)
    (hstart : (lineStarts f.chars)[line - 1]? = some start) :
    f.LineReads line (f.lineChars line) := by
  obtain ⟨body, rest, ending, htext, hbody, hrest, hending, htake⟩ :=
    exists_take_line hline hstart
  have hstarts : (lineStarts f.chars).getD (line - 1) 0 = start := by
    rw [List.getD_eq_getElem?_getD, hstart]
    rfl
  obtain ⟨returns, hreturns⟩ := dropRightWhile_isLineEnd hbody hending
  rw [LineReads, lineChars, hstarts, htake]
  exact ⟨start, body, rest, returns, hstart, htext, hbody, hrest, hreturns⟩

/-! ### The correspondence -/

theorem position_eq_ok {offset : Int} {p : Position} (h : f.position offset = .ok p) :
    0 ≤ offset ∧ p = f.positionOf offset.toNat := by
  unfold position at h
  by_cases hin : 0 ≤ offset ∧ offset ≤ f.chars.length
  · rw [if_pos hin] at h
    exact ⟨hin.1, (Except.ok.inj h).symm⟩
  · rw [if_neg hin] at h
    cases h

theorem position_eq_error_iff (f : SourceFile) (offset : Int) (fault : SourceFault) :
    f.position offset = .error fault ↔
      fault = .offsetOutOfBounds offset f.path ∧ ¬ (0 ≤ offset ∧ offset ≤ f.chars.length) := by
  unfold position
  by_cases h : 0 ≤ offset ∧ offset ≤ f.chars.length
  · simp [h]
  · simp [h, eq_comm]

theorem line_eq_error_iff (f : SourceFile) (number : Int) (fault : SourceFault) :
    f.line number = .error fault ↔
      fault = .lineOutOfBounds number ∧ ¬ (1 ≤ number ∧ number ≤ f.lineCount) := by
  unfold line
  by_cases h : 1 ≤ number ∧ number ≤ f.lineCount
  · simp [h]
  · simp [h, eq_comm]

/-- Offsets and positions correspond one to one. Every offset from the beginning of a text to its
end has a position, the only one that names it, on the line after as many line feeds as stand before
the offset; later offsets have later positions, and other offsets are refused. Every line has a
text, up to the next line feed or the end and without the carriage returns there, so that no line
feed is in it; other lines are refused. -/
theorem positions_correspond (f : SourceFile) :
    (∀ offset : Int, 0 ≤ offset → offset ≤ f.chars.length →
      ∃ p, f.position offset = .ok p ∧ (∀ q, f.Names q offset ↔ q = p) ∧
        p.line = (f.chars.take offset.toNat).count '\n' + 1) ∧
    (∀ offset later p q, f.position offset = .ok p → f.position later = .ok q →
      offset < later → p.Before q) ∧
    (∀ offset fault, f.position offset = .error fault ↔
      fault = .offsetOutOfBounds offset f.path ∧ ¬ (0 ≤ offset ∧ offset ≤ f.chars.length)) ∧
    (∀ number : Int, 1 ≤ number → number ≤ f.lineCount →
      ∃ text, f.line number = .ok text ∧ f.LineReads number.toNat text.toList ∧
        '\n' ∉ text.toList) ∧
    (∀ number fault, f.line number = .error fault ↔
      fault = .lineOutOfBounds number ∧ ¬ (1 ≤ number ∧ number ≤ f.lineCount)) := by
  refine ⟨fun offset hnonneg hle => ?_, fun offset later p q hp hq hlt => ?_,
    f.position_eq_error_iff, fun number hpos hle => ?_, f.line_eq_error_iff⟩
  · obtain ⟨n, rfl⟩ := Int.eq_ofNat_of_zero_le hnonneg
    exact ⟨_, f.position_of_le hnonneg hle, fun q => f.names_iff q n, f.line_positionOf n⟩
  · obtain ⟨hnonneg, rfl⟩ := position_eq_ok hp
    obtain ⟨_, rfl⟩ := position_eq_ok hq
    exact f.positionOf_before (by omega)
  · have hlt : number.toNat - 1 < (lineStarts f.chars).length := by
      rw [lineCount] at hle
      omega
    have hreads := lineReads_lineChars (f := f) (by omega) (List.getElem?_eq_getElem hlt)
    refine ⟨_, if_pos ⟨hpos, hle⟩, ?_⟩
    rw [String.toList_ofList]
    exact ⟨hreads, hreads.notMem⟩

/-- A text with a carriage return, an empty line and no line feed at its end. -/
theorem positions_correspond_emptyLine :
    let f : SourceFile := ⟨1, "<string>", "a\r\n\nbc"⟩
    (f.Names ⟨2, 1⟩ 3 ∧ f.Names ⟨3, 3⟩ 6) ∧ Position.Before ⟨2, 1⟩ ⟨3, 3⟩ ∧
      f.position 7 = .error (.offsetOutOfBounds 7 "<string>") ∧
      f.LineReads 1 ['a'] ∧ f.LineReads 2 [] ∧ f.line 4 = .error (.lineOutOfBounds 4) := by
  intro f
  obtain ⟨hnames, hbefore, hrefused, hlines, hlinesRefused⟩ := f.positions_correspond
  have hthree : f.position 3 = .ok ⟨2, 1⟩ := by decide +kernel
  have hsix : f.position 6 = .ok ⟨3, 3⟩ := by decide +kernel
  have hfirst : f.line 1 = .ok "a" := by decide +kernel
  have hsecond : f.line 2 = .ok "" := by decide +kernel
  obtain ⟨p, hp, hp', -⟩ := hnames 3 (by decide) (by decide +kernel)
  obtain ⟨q, hq, hq', -⟩ := hnames 6 (by decide) (by decide +kernel)
  obtain ⟨a, ha, ha', -⟩ := hlines 1 (by decide) (by decide +kernel)
  obtain ⟨b, hb, hb', -⟩ := hlines 2 (by decide) (by decide +kernel)
  cases hthree.symm.trans hp
  cases hsix.symm.trans hq
  cases hfirst.symm.trans ha
  cases hsecond.symm.trans hb
  exact ⟨⟨(hp' _).mpr rfl, (hq' _).mpr rfl⟩, hbefore 3 6 _ _ hp hq (by decide),
    (hrefused 7 _).mpr ⟨rfl, by decide +kernel⟩, ha', hb',
    (hlinesRefused 4 _).mpr ⟨rfl, by decide +kernel⟩⟩

end SourceFile

end Treewalk
