import Treewalk.Proofs.Source.Position
import Treewalk.Proofs.Token.Join
import Treewalk.Proofs.Token.Places

/-!
# Lines of scanned tokens

A cursor counts the line feeds that it passes, so its line is that of its offset. A token lies
inside the text and stands on the line on which it starts; so does a character that starts nothing,
and the token that ends the text. A string without an end is reported on the line on which the text
ends.
-/

namespace Treewalk

/-- The line of an offset in a text. -/
def lineAt (text : List Char) (offset : Int) : Int := (text.take offset.toNat).count '\n' + 1

theorem SourceFile.lineAt_eq (f : SourceFile) (offset : Int) :
    lineAt f.chars offset = (f.positionOf offset.toNat).line := by
  rw [f.line_positionOf, lineAt]
  rfl

/-- A span of a text with a number. -/
structure Span.Within (file : Int) (text : List Char) (s : Span) : Prop where
  file : s.file = file
  start : 0 ≤ s.start
  stop : s.stop ≤ text.length

/-! ### Cursors -/

namespace Cursor

/-- A cursor stands in a text: it has passed as many characters and line feeds as it says. -/
structure Reaches (text : List Char) (cursor : Cursor) : Prop where
  rest : cursor.rest = text.drop cursor.offset
  offset : cursor.offset ≤ text.length
  line : (cursor.line : Int) = lineAt text cursor.offset

variable {text : List Char} {cursor : Cursor}

theorem reaches_start (text : List Char) : Reaches text ⟨text, 0, 1, 0⟩ where
  rest := rfl
  offset := Nat.zero_le _
  line := by simp [lineAt]

theorem Reaches.length_rest (h : cursor.Reaches text) :
    cursor.offset + cursor.rest.length = text.length := by
  have hle := h.offset
  rw [h.rest, List.length_drop]
  omega

theorem Reaches.pass (h : cursor.Reaches text) {c : Char} {rest : List Char}
    (hrest : cursor.rest = c :: rest) : (cursor.pass c rest).Reaches text := by
  have hlength := h.length_rest
  rw [hrest, List.length_cons] at hlength
  have hdrop : text.drop cursor.offset = c :: rest := h.rest.symm.trans hrest
  have hget : text[cursor.offset]? = some c := by
    rw [← List.head?_drop, hdrop]
    rfl
  have htake : text.take (cursor.offset + 1) = text.take cursor.offset ++ [c] := by
    rw [List.take_add_one, hget]
    rfl
  have htail : rest = text.drop (cursor.offset + 1) := by
    rw [← List.drop_drop, hdrop]
    rfl
  have hline := h.line
  simp only [lineAt, Int.toNat_natCast] at hline
  have hcount : lineAt text (cursor.offset + 1 : Nat) =
      cursor.line + (if c = '\n' then 1 else 0) := by
    simp only [lineAt, Int.toNat_natCast, htake, List.count_append, List.count_singleton]
    by_cases hc : c = '\n'
    · simp [hc]
      omega
    · simp [hc]
      omega
  unfold Cursor.pass
  by_cases hc : c = '\n'
  · rw [if_pos hc]
    rw [if_pos hc] at hcount
    exact ⟨htail, by simp only; omega, by rw [hcount]; rfl⟩
  · rw [if_neg hc]
    rw [if_neg hc] at hcount
    exact ⟨htail, by simp only; omega, by rw [hcount]; simp⟩

theorem Reaches.advance (h : cursor.Reaches text) (count : Nat) :
    (cursor.advance count).Reaches text :=
  advance_induction Reaches.pass h count

theorem offset_advance (count : Nat) (cursor : Cursor) (h : count ≤ cursor.rest.length) :
    (cursor.advance count).offset = cursor.offset + count := by
  induction count generalizing cursor with
  | zero => rfl
  | succ count ih =>
    cases hrest : cursor.rest with
    | nil => simp [hrest] at h
    | cons c rest =>
      rw [hrest, List.length_cons] at h
      have hle : count ≤ (cursor.pass c rest).rest.length := by
        rw [rest_pass]
        omega
      rw [Cursor.advance, hrest]
      simp only
      rw [ih _ hle, offset_pass]
      omega

end Cursor

/-! ### Items -/

/-- A character that starts nothing stands alone, and it ends no line. -/
theorem extra_of_stray {c stray : Char} {text : List Char}
    (h : (lexeme c text).lexeme = .stray stray) : (lexeme c text).extra = 0 ∧ c ≠ '\n' := by
  have hoperator : ∀ alone withEqual,
      (operatorLexeme alone withEqual text).lexeme ≠ .stray stray := by
    intro alone withEqual
    unfold operatorLexeme
    split <;> simp
  have hslash : (slashLexeme text).lexeme ≠ .stray stray := by
    unfold slashLexeme
    split <;> simp
  have hstring : (stringLexeme text).lexeme ≠ .stray stray := by
    unfold stringLexeme
    simp only
    split <;> simp
  have hnumber : (numberLexeme c text).lexeme ≠ .stray stray := by
    unfold numberLexeme
    simp only
    split
    · split <;> simp
    · simp
  have hword : (wordLexeme c text).lexeme ≠ .stray stray := by
    unfold wordLexeme
    simp only
    split <;> simp
  unfold lexeme at h ⊢
  cases hsingle : singleKind? c with
  | some kind => simp [hsingle] at h
  | none =>
    rw [hsingle] at h
    grind

/-- What is found lies inside the text, on the line that it names. -/
def ScanItem.Placed (file : Int) (text : List Char) : ScanItem → Prop
  | .token t => t.span.Within file text ∧ (t.line : Int) = lineAt text t.span.start
  | .error (.unexpectedCharacter site _) =>
    ∃ s, site.span = some s ∧ s.Within file text ∧ site.line = lineAt text s.start
  | .error (.unterminatedString site) =>
    ∃ s, site.span = some s ∧ s.Within file text ∧ site.line = lineAt text s.stop

/-- A step finds something placed, and the cursor goes on in the text. -/
theorem Cursor.Reaches.step {file : Int} {text : List Char} {cursor stop : Cursor}
    {item : Option ScanItem} (h : cursor.Reaches text)
    (hstep : cursor.step file = some (item, stop)) :
    stop.Reaches text ∧ ∀ found ∈ item, found.Placed file text := by
  cases hrest : cursor.rest with
  | nil => simp [Cursor.step, hrest] at hstep
  | cons c rest =>
    simp only [Cursor.step, hrest, Option.some.injEq, Prod.mk.injEq] at hstep
    obtain ⟨hitem, hstop⟩ := hstep
    have hle : (lexeme c rest).extra + 1 ≤ cursor.rest.length := by
      rw [hrest, List.length_cons]
      exact Nat.succ_le_succ (extra_lexeme_le c rest)
    have hlength := h.length_rest
    have hwithin : (Span.ofLength file cursor.offset ((lexeme c rest).extra + 1)).Within file
        text := by
      refine ⟨rfl, Int.natCast_nonneg _, ?_⟩
      simp only [Span.ofLength]
      omega
    have hreaches : stop.Reaches text := hstop ▸ h.advance _
    have hoffset := Cursor.offset_advance _ cursor hle
    rw [hstop] at hoffset hitem
    refine ⟨hreaches, fun found hfound => ?_⟩
    rw [Option.mem_def, ← hitem] at hfound
    cases hlexeme : (lexeme c rest).lexeme with
    | gap => simp [hlexeme, itemAt?] at hfound
    | token kind =>
      simp only [hlexeme, itemAt?, Option.some.injEq] at hfound
      subst hfound
      exact ⟨hwithin, h.line⟩
    | stray character =>
      obtain ⟨hextra, hc⟩ := extra_of_stray hlexeme
      simp only [hlexeme, itemAt?, Option.some.injEq] at hfound
      subst hfound
      refine ⟨_, rfl, hwithin, ?_⟩
      -- the character ends no line, so the cursor is still on the line on which it stood
      have hline : stop.line = cursor.line := by
        rw [← hstop, hextra, Cursor.advance, hrest]
        simp only [Cursor.advance, Cursor.pass]
        rw [if_neg hc]
      rw [hline]
      exact h.line
    | unterminated =>
      simp only [hlexeme, itemAt?, Option.some.injEq] at hfound
      subst hfound
      refine ⟨_, rfl, hwithin, ?_⟩
      rw [hreaches.line, hoffset]
      rfl

/-- Everything from a cursor on is placed, and the cursor at the end stands at the end. -/
theorem Cursor.Reaches.scanAll {text : List Char} {cursor : Cursor}
    (h : cursor.Reaches text) (file : Int) :
    (∀ item ∈ (cursor.scanAll file).1, item.Placed file text) ∧
      (cursor.scanAll file).2.Reaches text :=
  Cursor.scanAll_induction Cursor.Reaches.step h

/-- Everything that a scan finds is placed, and so is the token that ends the text. -/
theorem placed_scan (file : Int) (text : String) :
    (∀ item ∈ (scan file text).items, item.Placed file text.toList) ∧
      (ScanItem.token (scan file text).endToken).Placed file text.toList := by
  obtain ⟨hitems, hlast⟩ := (Cursor.reaches_start text.toList).scanAll file
  refine ⟨hitems, ?_, hlast.line⟩
  have hoffset := hlast.offset
  refine ⟨rfl, Int.natCast_nonneg _, ?_⟩
  simp only [scan, Cursor.endToken, Span.ofLength]
  omega

end Treewalk
