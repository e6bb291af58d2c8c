import Mathlib.Data.List.Forall2
import Mathlib.Data.List.GetD
import Treewalk.Proofs.Diagnostic.Rendering
import Treewalk.Proofs.Token.Positions

/-!
# What code frames show

A code frame is described without the functions that make it. The numbers of its lines go up, and a
number is among them exactly if the line is a line of the text and at most one line away from a
mark. Dots stand between two lines whose numbers do not follow each other. Below a line on which
marks start stands one row of strokes, where the last of the marks over a column decides its stroke,
and then every caption, below the column at which its mark starts. The frame of every list of marks
is one of this description, and the positions of the marks are those that counting line feeds and
characters gives.
-/

namespace Treewalk

/-! ### Positions by counting -/

/-- The position of an offset, by counting: the lines that end before it, and the characters since
the last of them. -/
def SourceFile.Counted (f : SourceFile) (offset : Int) (position : Position) : Prop :=
  ∃ lines rest : List Char, f.chars.take offset.toNat = lines ++ rest ∧ '\n' ∉ rest ∧
    (lines = [] ∨ lines.getLast? = some '\n') ∧
    position = ⟨lines.count '\n' + 1, rest.length + 1⟩

/-- The marks of labels, in the order of the labels: each has the positions of the first and the
last code points of its label. -/
def MarksOf (file : SourceFile) (labels : List Label) (marks : List Mark) : Prop :=
  labels.Forall₂ (fun label m => m.label = label ∧ file.Counted label.span.start m.first ∧
    file.Counted label.span.last m.last) marks

namespace SourceFile

theorem positionOf_zero (f : SourceFile) : f.positionOf 0 = ⟨1, 1⟩ := by
  rw [positionOf_eq]
  rfl

/-- Behind a line feed a line starts, and behind another character the column is the next one. -/
theorem positionOf_succ (f : SourceFile) {offset : Nat} {c : Char}
    (h : f.chars[offset]? = some c) :
    f.positionOf (offset + 1) =
      if c = '\n' then ⟨(f.positionOf offset).line + 1, 1⟩
      else ⟨(f.positionOf offset).line, (f.positionOf offset).column + 1⟩ := by
  obtain ⟨start, hlast, -, hle, -⟩ := f.exists_start_positionOf offset
  simp only [positionOf_eq, lineStarts_take_succ h]
  by_cases hc : c = '\n'
  · rw [if_pos hc, if_pos hc, List.getLastD_concat, List.length_append]
    simp
  · rw [if_neg hc, if_neg hc, List.append_nil, List.getLastD_eq_getLast?, hlast]
    congr 1
    simp only [Option.getD_some]
    omega

/-- Positions are found by counting. -/
theorem counted_positionOf (f : SourceFile) {offset : Nat} (h : offset ≤ f.chars.length) :
    f.Counted offset (f.positionOf offset) := by
  induction offset with
  | zero => exact ⟨[], [], rfl, List.not_mem_nil, .inl rfl, f.positionOf_zero⟩
  | succ offset ih =>
    obtain ⟨lines, rest, htake, hrest, hlines, hposition⟩ := ih (by omega)
    rw [Int.toNat_natCast] at htake
    have hget : f.chars[offset]? = some (f.chars.get ⟨offset, h⟩) := List.getElem?_eq_getElem h
    have hsplit : f.chars.take (offset + 1) = lines ++ (rest ++ [f.chars.get ⟨offset, h⟩]) := by
      rw [List.take_add_one, htake, hget, List.append_assoc]
      rfl
    rw [f.positionOf_succ hget, hposition, Counted, Int.toNat_natCast, hsplit]
    by_cases hc : f.chars.get ⟨offset, h⟩ = '\n'
    · refine ⟨lines ++ (rest ++ [f.chars.get ⟨offset, h⟩]), [], (List.append_nil _).symm,
        List.not_mem_nil, .inr ?_, ?_⟩
      · rw [← List.append_assoc, List.getLast?_concat, hc]
      · rw [if_pos hc, hc, List.count_append, List.count_append,
          List.count_eq_zero_of_not_mem hrest]
        simp
    · refine ⟨lines, rest ++ [f.chars.get ⟨offset, h⟩], rfl, ?_, hlines, ?_⟩
      · rw [List.mem_append, List.mem_singleton]
        rintro (hmem | heq)
        · exact hrest hmem
        · exact hc heq.symm
      · rw [if_neg hc, List.length_append]
        rfl

/-- A label lies inside a text. -/
def Holds (f : SourceFile) (label : Label) : Prop :=
  label.span.file = f.id ∧ 0 ≤ label.span.start ∧ label.span.stop ≤ f.chars.length

instance (f : SourceFile) (label : Label) : Decidable (f.Holds label) :=
  inferInstanceAs (Decidable (_ ∧ _ ∧ _))

/-- The mark of a label. -/
def mark (f : SourceFile) (label : Label) : Mark :=
  ⟨label, f.positionOf label.span.start.toNat, f.positionOf label.span.last.toNat⟩

theorem marks_of_holds (f : SourceFile) (registry : Registry) {labels : List Label}
    (h : ∀ label ∈ labels, f.Holds label) : registry.marks f labels = .ok (labels.map f.mark) := by
  induction labels with
  | nil => rfl
  | cons label rest ih =>
    obtain ⟨hfile, hstart, hstop⟩ := h label List.mem_cons_self
    rw [Registry.marks, if_pos hfile, positions_of_bounds hfile hstart hstop,
      ih fun other hother => h other (.tail _ hother)]
    rfl

/-- The marks of labels inside a text are where counting puts them. -/
theorem marksOf_map_mark (f : SourceFile) {labels : List Label}
    (h : ∀ label ∈ labels, f.Holds label) : MarksOf f labels (labels.map f.mark) := by
  have hcounted : ∀ offset : Int, 0 ≤ offset → offset ≤ f.chars.length →
      f.Counted offset (f.positionOf offset.toNat) := by
    intro offset hnonneg hbound
    have := f.counted_positionOf (show offset.toNat ≤ f.chars.length by omega)
    rwa [Int.toNat_of_nonneg hnonneg] at this
  rw [MarksOf, List.forall₂_map_right_iff, List.forall₂_same]
  intro label hlabel
  obtain ⟨_, hstart, hstop⟩ := h label hlabel
  have hle := label.span.start_le_stop
  refine ⟨rfl, hcounted _ hstart (by omega), hcounted _ ?_ ?_⟩
  · unfold Span.last
    omega
  · unfold Span.last
    omega

end SourceFile

/-! ### The rows of a frame -/

/-- A mark is drawn over a column, counted from one, on the line of `width` characters on which it
starts. A mark that goes on below is drawn to the end of the line, and every mark has one stroke at
least. -/
def Mark.Over (m : Mark) (width column : Nat) : Prop :=
  m.first.column ≤ column ∧ column ≤
    max m.first.column (if m.last.line = m.first.line then m.last.column else width)

/-- The strokes below a line of `width` characters on which `marks` start. The last mark over a
column decides its stroke, no stroke stands where there is no mark, and the row has no blanks at its
end. -/
structure Strokes (marks : List Mark) (width : Nat) (strokes : List Char) : Prop where
  drawn : ∀ before m after column, marks = before ++ m :: after → m.Over width column →
    (∀ later ∈ after, ¬ later.Over width column) →
    strokes[column - 1]? = some (if m.label.primary then '^' else '-')
  blank : ∀ column, 1 ≤ column → (∀ m ∈ marks, ¬ m.Over width column) →
    strokes.getD (column - 1) ' ' = ' '
  trimmed : strokes.getLast? ≠ some ' '

/-- The caption of a mark, below the column at which the mark starts, in a frame whose line numbers
have `width` characters. -/
def Captioned (width : Nat) (m : Mark) (row : String) : Prop :=
  ∃ caption, m.label.caption = some caption ∧
    row = blanks (width + 3) ++ blanks (m.first.column - 1) ++ caption

/-- A line with its number, flush right in `width` characters. -/
def SourceRow (file : SourceFile) (width number : Nat) (text row : String) : Prop :=
  file.line number = .ok text ∧ ∃ indent, indent + (toString number).length = width ∧
    row = blanks indent ++ toString number ++ " | " ++ text

/-- The marks that start on a line. -/
def starting (marks : List Mark) (number : Nat) : List Mark :=
  marks.filter (·.first.line = number)

/-- The marks that have a caption to show. -/
def captioned (marks : List Mark) : List Mark :=
  marks.filter fun m => m.label.caption.any (· ≠ "")

/-- The rows of one line. -/
inductive LineShown (file : SourceFile) (marks : List Mark) (width number : Nat) :
    List String → Prop
  | plain {text row : String} (hrow : SourceRow file width number text row)
    (hnone : starting marks number = []) : LineShown file marks width number [row]
  | marked {text row : String} {strokes : List Char} {captions : List String}
    (hrow : SourceRow file width number text row) (hsome : starting marks number ≠ [])
    (hstrokes : Strokes (starting marks number) text.length strokes)
    (hcaptions : (captioned (starting marks number)).Forall₂ (Captioned width) captions) :
    LineShown file marks width number
      (row :: (blanks width ++ " | " ++ String.ofList strokes) :: captions)

/-- The rows of several lines, with dots between two lines whose numbers do not follow each
other. -/
inductive Stacked (shown : Nat → List String → Prop) : List Nat → List String → Prop
  | last {number : Nat} {rows : List String} (hrows : shown number rows) :
    Stacked shown [number] rows
  | adjacent {number : Nat} {rest : List Nat} {rows more : List String}
    (hrows : shown number rows) (hmore : Stacked shown ((number + 1) :: rest) more) :
    Stacked shown (number :: (number + 1) :: rest) (rows ++ more)
  | apart {number next : Nat} {rest : List Nat} {rows more : List String}
    (hrows : shown number rows) (hapart : next ≠ number + 1)
    (hmore : Stacked shown (next :: rest) more) :
    Stacked shown (number :: next :: rest) (rows ++ "..." :: more)

/-- The rows of a frame. It shows the lines of the text that are at most one line away from a mark,
each once and in ascending order, and the greatest of their numbers fills the column of numbers. -/
def FrameOf (file : SourceFile) (marks : List Mark) (frame : List String) : Prop :=
  ∃ numbers greatest, numbers.Pairwise (· < ·) ∧
    (∀ number, number ∈ numbers ↔ (1 ≤ number ∧ number ≤ file.lineCount) ∧
      ∃ m ∈ marks, m.first.line - 1 ≤ number ∧ number ≤ m.last.line + 1) ∧
    greatest ∈ numbers ∧ (∀ number ∈ numbers, number ≤ greatest) ∧
    Stacked (LineShown file marks (toString greatest).length) numbers frame

/-! ### Underlines -/

theorem Mark.mem_columns {m : Mark} {width column : Nat} (h : 1 ≤ m.first.column) :
    column ∈ m.columns width ↔ m.Over width (column + 1) := by
  rw [columns, List.mem_range'_1, Over, strokeEnd]
  omega

theorem Mark.isBlank_stroke (m : Mark) : Text.isBlank m.stroke = false := by
  unfold stroke
  split <;> decide

/-- Putting a stroke changes one column. A column behind the end of a row is blank. -/
theorem getD_putStroke (stroke : Char) (row : List Char) (place column : Nat) :
    (putStroke stroke row place).getD column ' ' =
      if place = column then stroke else row.getD column ' ' := by
  simp only [putStroke, List.getD_eq_getElem?_getD, List.getElem?_set, List.length_append,
    List.length_replicate, List.getElem?_append, List.getElem?_replicate]
  grind

/-- Drawing a mark changes the columns of its underline. -/
theorem getD_drawMark (width : Nat) (row : List Char) (m : Mark) (column : Nat) :
    (drawMark width row m).getD column ' ' =
      if column ∈ m.columns width then m.stroke else row.getD column ' ' := by
  unfold drawMark
  generalize m.columns width = columns
  induction columns generalizing row with
  | nil => simp
  | cons place rest ih =>
    rw [List.foldl_cons, ih, getD_putStroke]
    grind

/-- The last mark that was drawn over a column decides its stroke. -/
theorem getD_drawMarks (width : Nat) (row : List Char) (marks : List Mark) (column : Nat) :
    (marks.foldl (drawMark width) row).getD column ' ' =
      ((marks.reverse.find? (column ∈ ·.columns width)).map Mark.stroke).getD
        (row.getD column ' ') := by
  induction marks generalizing row with
  | nil => rfl
  | cons m rest ih =>
    rw [List.foldl_cons, ih, getD_drawMark, List.reverse_cons, List.find?_append]
    cases rest.reverse.find? (column ∈ ·.columns width) with
    -- a later mark covers the stroke of this one
    | some last => rfl
    | none => by_cases h : column ∈ m.columns width <;> simp [h]

/-- The strokes below a line before the blanks at its end are left out. -/
theorem getD_drawn (marks : List Mark) (width column : Nat) :
    (marks.foldl (drawMark width) (List.replicate width ' ')).getD column ' ' =
      ((marks.reverse.find? (column ∈ ·.columns width)).map Mark.stroke).getD ' ' := by
  have hblank : (List.replicate width ' ').getD column ' ' = ' ' := by
    grind
  rw [getD_drawMarks, hblank]

theorem mem_underline {marks : List Mark} {width : Nat} {c : Char} (h : c ∈ underline marks width) :
    c = ' ' ∨ ∃ m ∈ marks, c = m.stroke := by
  obtain ⟨dropped, hsplit, _⟩ := Text.dropRightWhile_spec Text.isBlank
    (marks.foldl (drawMark width) (List.replicate width ' '))
  have hmem := hsplit ▸ List.mem_append_left dropped h
  obtain ⟨column, hcolumn⟩ := List.mem_iff_getElem?.mp hmem
  have hdrawn := getD_drawn marks width column
  rw [List.getD_eq_getElem?_getD, hcolumn, Option.getD_some] at hdrawn
  cases hfind : marks.reverse.find? (column ∈ ·.columns width) with
  | none => exact .inl (by rw [hdrawn, hfind]; rfl)
  | some m =>
    refine .inr ⟨m, List.mem_reverse.mp (List.mem_of_find?_eq_some hfind), ?_⟩
    rw [hdrawn, hfind]
    rfl

/-- A column of the row below a line: the last mark over it decides, and without one it is blank. -/
theorem getD_underline (marks : List Mark) (width column : Nat) :
    (underline marks width).getD column ' ' =
      ((marks.reverse.find? (column ∈ ·.columns width)).map Mark.stroke).getD ' ' := by
  obtain ⟨dropped, hsplit, hblanks, _⟩ := Text.dropRightWhile_spec Text.isBlank
    (marks.foldl (drawMark width) (List.replicate width ' '))
  have hdrawn := getD_drawn marks width column
  rw [hsplit] at hdrawn
  change (underline marks width ++ dropped).getD column ' ' = _ at hdrawn
  by_cases hlt : column < (underline marks width).length
  · rwa [List.getD_append _ _ _ _ hlt] at hdrawn
  · have hle := Nat.le_of_not_lt hlt
    rw [List.getD_append_right _ _ _ _ hle] at hdrawn
    rw [List.getD_eq_default _ _ hle]
    -- what was left out here is blank, and a stroke is not
    cases hfind : marks.reverse.find? (column ∈ ·.columns width) with
    | none => rfl
    | some m =>
      rw [hfind, Option.map_some, Option.getD_some, List.getD_eq_getElem?_getD] at hdrawn
      have hstroke := m.isBlank_stroke
      cases hget : dropped[column - (underline marks width).length]? with
      | none =>
        rw [hget, Option.getD_none] at hdrawn
        exact absurd (hdrawn ▸ hstroke) (by decide)
      | some c =>
        rw [hget, Option.getD_some] at hdrawn
        rw [← hdrawn, hblanks c (List.mem_of_getElem? hget)] at hstroke
        cases hstroke

/-- The underline of marks has their strokes. -/
theorem strokes_underline {marks : List Mark} (hcolumns : ∀ m ∈ marks, 1 ≤ m.first.column)
    (width : Nat) : Strokes marks width (underline marks width) where
  drawn := by
    intro before m after column hmarks hover hafter
    have hm : m ∈ marks := hmarks ▸ List.mem_append_cons_self
    have hone : 1 ≤ column := Nat.le_trans (hcolumns m hm) hover.1
    have hmem : column - 1 ∈ m.columns width := by
      rwa [Mark.mem_columns (hcolumns m hm), Nat.sub_add_cancel hone]
    have hnone : after.reverse.find? (column - 1 ∈ ·.columns width) = none := by
      rw [List.find?_eq_none]
      intro later hlater
      have hlater := List.mem_reverse.mp hlater
      have hmarked : later ∈ marks := hmarks ▸ List.mem_append_right _ (.tail _ hlater)
      rw [decide_eq_true_iff, Mark.mem_columns (hcolumns later hmarked), Nat.sub_add_cancel hone]
      exact hafter later hlater
    have hstroke : (underline marks width).getD (column - 1) ' ' = m.stroke := by
      rw [getD_underline, hmarks, List.reverse_append, List.reverse_cons, List.append_assoc,
        List.find?_append, hnone, List.singleton_append, List.find?_cons]
      simp [hmem]
    -- a stroke is no blank, so the column is one of the row
    cases hget : (underline marks width)[column - 1]? with
    | some c =>
      rw [List.getD_eq_getElem?_getD, hget] at hstroke
      exact congrArg some hstroke
    | none =>
      rw [List.getD_eq_getElem?_getD, hget] at hstroke
      exact absurd (hstroke ▸ m.isBlank_stroke) (by decide)
  blank := by
    intro column hone hnone
    have hfind : marks.reverse.find? (column - 1 ∈ ·.columns width) = none := by
      rw [List.find?_eq_none]
      intro m hm
      have hm := List.mem_reverse.mp hm
      rw [decide_eq_true_iff, Mark.mem_columns (hcolumns m hm), Nat.sub_add_cancel hone]
      exact hnone m hm
    rw [getD_underline, hfind]
    rfl
  trimmed := by
    obtain ⟨_, _, _, hlast⟩ := Text.dropRightWhile_spec Text.isBlank
      (marks.foldl (drawMark width) (List.replicate width ' '))
    exact fun hblank => absurd (hlast ' ' hblank) (by decide)

/-! ### Frames -/

theorem paint_false (role : Role) (text : String) : paint false role text = text := by
  simp [paint]

theorem join_paintStroke (strokes : List Char) :
    String.join (strokes.map (paintStroke false)) = String.ofList strokes := by
  have hstroke : paintStroke false = String.singleton := by
    funext c
    simp [paintStroke, paint_false]
  rw [hstroke]
  induction strokes with
  | nil => rfl
  | cons c rest ih =>
    rw [List.map_cons, String.join_cons, ih, ← String.toList_inj]
    simp

theorem blanks_append (m n : Nat) : blanks m ++ blanks n = blanks (m + n) := by
  rw [blanks, blanks, ← String.ofList_append, List.replicate_append_replicate]
  rfl

/-- The captions of marks stand below the columns at which the marks start. -/
theorem captioned_captions (width : Nat) (marks : List Mark) :
    (captioned marks).Forall₂ (Captioned width) (captions false width marks) := by
  induction marks with
  | nil => exact .nil
  | cons m rest ih =>
    unfold captioned captions at ih ⊢
    rw [List.filter_cons, List.filterMap_cons]
    cases hcaption : m.label.caption with
    | none => simpa using ih
    | some caption =>
      by_cases hempty : caption = ""
      · simpa [hempty] using ih
      · simp only [Option.any_some, hempty, ne_eq, not_false_eq_true, decide_true, if_true,
          if_false]
        refine .cons ⟨caption, hcaption, ?_⟩ ih
        rw [blanks_append, paint_false]

theorem sourceRow_padLeft {file : SourceFile} {width number : Nat}
    (hline : 1 ≤ number ∧ number ≤ file.lineCount) (hwidth : (toString number).length ≤ width) :
    SourceRow file width number (String.ofList (file.lineChars number))
      (paint false .gutter (padLeft width number ++ " |") ++ " " ++
        String.ofList (file.lineChars number)) := by
  refine ⟨?_, width - (toString number).length, by omega, ?_⟩
  · rw [SourceFile.line, if_pos (by omega), Int.toNat_natCast]
  · rw [paint_false, padLeft]
    simp only [String.append_assoc]
    rfl

/-- The rows of a line of the text show it with the marks that start on it. -/
theorem lineShown_lineRows {file : SourceFile} {marks : List Mark} {width number : Nat}
    (hcolumns : ∀ m ∈ marks, 1 ≤ m.first.column)
    (hline : 1 ≤ number ∧ number ≤ file.lineCount) (hwidth : (toString number).length ≤ width) :
    LineShown file marks width number (lineRows false file marks width number) := by
  have hrow := sourceRow_padLeft hline hwidth
  have hfilter : marks.filter (·.first.line == number) = starting marks number := rfl
  unfold lineRows
  simp only [hfilter]
  cases hstarting : starting marks number with
  | nil => exact .plain hrow hstarting
  | cons m rest =>
    have hcolumns' : ∀ m ∈ starting marks number, 1 ≤ m.first.column := fun m hm =>
      hcolumns m (List.mem_filter.mp hm).1
    have hstrokes := strokes_underline hcolumns' (file.lineChars number).length
    have hcaptions := captioned_captions width (starting marks number)
    have hmarked := LineShown.marked hrow (by rw [hstarting]; exact List.cons_ne_nil _ _)
      (by rwa [String.length_ofList]) hcaptions
    simp only [join_paintStroke, paint_false, String.append_assoc] at hmarked ⊢
    rw [← hstarting]
    exact hmarked

/-- The rows of lines in ascending order are stacked. -/
theorem stacked_frameRows {shown : Nat → List String → Prop} {rows : Nat → List String}
    {numbers : List Nat} (hne : numbers ≠ []) (hsorted : numbers.Pairwise (· < ·))
    (hrows : ∀ number ∈ numbers, shown number (rows number)) :
    Stacked shown numbers (frameRows false rows numbers) := by
  induction numbers with
  | nil => exact absurd rfl hne
  | cons number rest ih =>
    have hfirst := hrows number List.mem_cons_self
    obtain ⟨hbelow, hrest⟩ := List.pairwise_cons.mp hsorted
    cases rest with
    | nil => exact .last hfirst
    | cons next rest =>
      have hmore := ih (List.cons_ne_nil _ _) hrest fun other hother => hrows other (.tail _ hother)
      have hlt := hbelow next List.mem_cons_self
      rw [frameRows]
      by_cases hadjacent : next = number + 1
      · subst hadjacent
        rw [if_neg (Nat.lt_irrefl _), List.append_nil]
        exact .adjacent hfirst hmore
      · rw [if_pos (by omega), paint_false, List.append_assoc]
        exact .apart hfirst hadjacent hmore

theorem pairwise_insertLine {lines : List Nat} (h : lines.Pairwise (· < ·)) (line : Nat) :
    (insertLine line lines).Pairwise (· < ·) := by
  induction lines with
  | nil => exact List.pairwise_singleton _ _
  | cons first rest ih =>
    obtain ⟨hfirst, hrest⟩ := List.pairwise_cons.mp h
    have hinserted := ih hrest
    unfold insertLine
    split
    · rename_i hlt
      refine List.pairwise_cons.mpr ⟨fun other hother => ?_, h⟩
      rcases List.mem_cons.mp hother with rfl | hother
      · exact hlt
      · exact Nat.lt_trans hlt (hfirst other hother)
    · split
      · exact h
      · refine List.pairwise_cons.mpr ⟨fun other hother => ?_, hinserted⟩
        rcases mem_insertLine.mp hother with rfl | hother
        · omega
        · exact hfirst other hother

theorem pairwise_shownLines (lineCount : Nat) (marks : List Mark) :
    (shownLines lineCount marks).Pairwise (· < ·) := by
  unfold shownLines
  induction marks.flatMap (·.window lineCount) with
  | nil => exact .nil
  | cons line rest ih => exact pairwise_insertLine ih line

/-- The last number of an ascending list is the greatest. -/
theorem le_getLastD {numbers : List Nat} (hsorted : numbers.Pairwise (· < ·)) :
    ∀ number ∈ numbers, number ≤ numbers.getLastD 0 := by
  intro number hnumber
  obtain ⟨before, last, rfl⟩ :=
    (List.eq_nil_or_concat numbers).resolve_left (List.ne_nil_of_mem hnumber)
  rw [List.concat_eq_append] at hsorted hnumber ⊢
  rw [List.getLastD_concat]
  rcases List.mem_append.mp hnumber with hmem | hmem
  · exact Nat.le_of_lt ((List.pairwise_append.mp hsorted).2.2 _ hmem last List.mem_cons_self)
  · exact Nat.le_of_eq (List.mem_singleton.mp hmem)

theorem length_toString_mono {m n : Nat} (h : m ≤ n) :
    (toString m).length ≤ (toString n).length := by
  have hpos : 0 < (toString n).length := Nat.length_repr_pos
  have hlt : n < 10 ^ (toString n).length := (Nat.length_repr_le_iff hpos).mp (Nat.le_refl _)
  exact (Nat.length_repr_le_iff hpos).mpr (Nat.lt_of_le_of_lt h hlt)

/-- A code frame shows what it should. -/
theorem frameOf_codeFrame {file : SourceFile} {marks : List Mark}
    (hshown : shownLines file.lineCount marks ≠ [])
    (hcolumns : ∀ m ∈ marks, 1 ≤ m.first.column) :
    FrameOf file marks (codeFrame false file marks) := by
  have hsorted := pairwise_shownLines file.lineCount marks
  have hgreatest := le_getLastD hsorted
  refine ⟨shownLines file.lineCount marks, (shownLines file.lineCount marks).getLastD 0, hsorted,
    fun number => ?_, ?_, hgreatest, ?_⟩
  · exact mem_shownLines
  · rw [List.getLastD_eq_getLast?, List.getLast?_eq_some_getLast hshown]
    exact List.getLast_mem hshown
  · refine stacked_frameRows hshown hsorted fun number hnumber => ?_
    exact lineShown_lineRows hcolumns (mem_shownLines.mp hnumber).1
      (length_toString_mono (hgreatest number hnumber))

/-- Labels inside a text have marks, which are where counting puts them, and the code frame of the
marks shows what it should: the lines at most one line away from a mark, dots where lines are left
out, and below a line the strokes and the captions of the marks that start on it. -/
theorem SourceFile.codeFrame_of_labels (file : SourceFile) (registry : Registry)
    (labels : List Label) (hne : labels ≠ []) (hholds : ∀ label ∈ labels, file.Holds label) :
    ∃ marks, registry.marks file labels = .ok marks ∧ MarksOf file labels marks ∧
      FrameOf file marks (codeFrame false file marks) := by
  refine ⟨labels.map file.mark, file.marks_of_holds registry hholds,
    file.marksOf_map_mark hholds, frameOf_codeFrame ?_ ?_⟩
  · obtain ⟨label, hlabel⟩ := List.exists_mem_of_ne_nil labels hne
    have hle : label.span.start.toNat ≤ label.span.last.toNat := by
      unfold Span.last
      omega
    exact List.ne_nil_of_mem
      (file.mem_shownLines_positionOf hle (List.mem_map_of_mem (f := file.mark) hlabel))
  · intro m hm
    obtain ⟨label, _, rfl⟩ := List.mem_map.mp hm
    exact Nat.le_add_left 1 _

/-- A call of a function with too many arguments, below the declaration of the function. -/
def distantCall : SourceFile :=
  ⟨1, "call.lako", "fun f(a) \x7b\r\n  print a;\n\x7d\n\n\nf(1,\n 2);\n"⟩

/-- The call, the name of the function, and the carriage return that ends the first line. -/
def distantLabels : List Label :=
  [⟨.ofLength 1 27 8, some "2 arguments", true⟩, ⟨.ofLength 1 4 1, some "declared here", false⟩,
    ⟨.ofLength 1 10 1, none, false⟩]

theorem SourceFile.codeFrame_of_labels_distantCall :
    (distantLabels ≠ [] ∧ ∀ label ∈ distantLabels, distantCall.Holds label) ∧
      ∃ marks, (Registry.mk #[distantCall]).marks distantCall distantLabels = .ok marks ∧
        MarksOf distantCall distantLabels marks ∧
        FrameOf distantCall marks
          ["1 | fun f(a) \x7b", "  |     -     -", "        declared here", "2 |   print a;", "...",
            "5 | ", "6 | f(1,", "  | ^^^^", "    2 arguments", "7 |  2);", "8 | "] := by
  have hne : distantLabels ≠ [] := List.cons_ne_nil _ _
  have hholds : ∀ label ∈ distantLabels, distantCall.Holds label := by decide
  obtain ⟨marks, hmarks, hplaced, hframe⟩ :=
    SourceFile.codeFrame_of_labels distantCall ⟨#[distantCall]⟩ distantLabels hne hholds
  obtain rfl := Except.ok.inj (hmarks.symm.trans (distantCall.marks_of_holds _ hholds))
  refine ⟨⟨hne, hholds⟩, _, hmarks, hplaced, ?_⟩
  have hrows : codeFrame false distantCall (distantLabels.map distantCall.mark) =
      ["1 | fun f(a) \x7b", "  |     -     -", "        declared here", "2 |   print a;", "...",
        "5 | ", "6 | f(1,", "  | ^^^^", "    2 arguments", "7 |  2);", "8 | "] := by decide +kernel
  rwa [hrows] at hframe

end Treewalk
