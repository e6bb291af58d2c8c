import Treewalk.Token.Scan
import Treewalk.Proofs.Grammar.Legality

/-!
# Places and names of scanned tokens

Each step of a cursor takes at least one character, so the tokens of a text start at increasing
offsets, and no two of them stand at one place. An identifier spells no keyword; in particular it
is neither `this` nor `super`.
-/

namespace Treewalk

/-! ### Steps of a cursor -/

theorem Cursor.offset_pass (cursor : Cursor) (c : Char) (rest : List Char) :
    (cursor.pass c rest).offset = cursor.offset + 1 := by
  unfold Cursor.pass
  split <;> rfl

/-- What passing one character preserves, advancing preserves. -/
theorem Cursor.advance_induction {P : Cursor → Prop}
    (hpass : ∀ {cursor : Cursor}, P cursor → ∀ {c : Char} {rest : List Char},
      cursor.rest = c :: rest → P (cursor.pass c rest))
    {cursor : Cursor} (h : P cursor) (count : Nat) : P (cursor.advance count) := by
  induction count generalizing cursor with
  | zero => exact h
  | succ count ih =>
    rw [advance]
    cases hrest : cursor.rest with
    | nil => exact h
    | cons c rest => exact ih (hpass h hrest)

theorem Cursor.offset_le_advance (count : Nat) (cursor : Cursor) :
    cursor.offset ≤ (cursor.advance count).offset := by
  refine advance_induction (P := fun later => cursor.offset ≤ later.offset) ?_ (Nat.le_refl _) count
  intro later hle c rest _
  rw [offset_pass]
  omega

theorem Cursor.offset_lt_of_step {file : Int} {cursor stop : Cursor} {item : Option ScanItem}
    (h : cursor.step file = some (item, stop)) : cursor.offset < stop.offset := by
  unfold step at h
  split at h
  · cases h
  · rename_i c text hrest
    simp only [Option.some.injEq, Prod.mk.injEq] at h
    have hpass := cursor.offset_pass c text
    have hadvance := offset_le_advance (lexeme c text).extra (cursor.pass c text)
    rw [← h.2, advance, hrest]
    exact Nat.lt_of_lt_of_le (by omega) hadvance

/-- What a step does: it takes the lexeme at the cursor, and finds its item. -/
theorem Cursor.of_step {file : Int} {cursor stop : Cursor} {item : Option ScanItem}
    (h : cursor.step file = some (item, stop)) :
    ∃ c text, cursor.rest = c :: text ∧ stop = cursor.advance ((lexeme c text).extra + 1) ∧
      item = itemAt? file cursor stop ((lexeme c text).extra + 1) (lexeme c text).lexeme := by
  unfold step at h
  split at h
  · cases h
  · rename_i c text hrest
    simp only [Option.some.injEq, Prod.mk.injEq] at h
    obtain ⟨hitem, hstop⟩ := h
    exact ⟨c, text, hrest, hstop.symm, by rw [← hitem, hstop]⟩

/-- A token stands where the cursor is, and its lexeme is what the cursor takes. -/
theorem Cursor.token_of_step {file : Int} {cursor stop : Cursor} {token : Token}
    (h : cursor.step file = some (some (.token token), stop)) :
    token.span.file = file ∧ token.span.start = cursor.offset ∧
      ∃ c text extra, lexeme c text = ⟨.token token.kind, extra⟩ ∧
        token.lexeme = String.ofList (c :: text.take extra) := by
  unfold step at h
  split at h
  · cases h
  · rename_i c text hrest
    simp only [Option.some.injEq, Prod.mk.injEq] at h
    obtain ⟨hitem, _⟩ := h
    unfold itemAt? at hitem
    split at hitem
    · cases hitem
    · rename_i kind hkind
      simp only [Option.some.injEq, ScanItem.token.injEq] at hitem
      subst hitem
      refine ⟨rfl, rfl, c, text, (lexeme c text).extra, ?_, ?_⟩
      · rw [← hkind]
      · rw [hrest, List.take_succ_cons]
    · cases hitem
    · cases hitem

/-! ### Whole texts -/

theorem mem_filterMap_token?_iff {items : List ScanItem} {token : Token} :
    token ∈ items.filterMap ScanItem.token? ↔ ScanItem.token token ∈ items := by
  rw [List.mem_filterMap]
  constructor
  · rintro ⟨item, hitem, htoken⟩
    cases item with
    | token => cases htoken; exact hitem
    | error => cases htoken
  · intro h
    exact ⟨.token token, h, rfl⟩

/-- What every step preserves holds of the cursor at the end, and what every step says of what it
finds holds of all that is found. -/
theorem Cursor.scanAll_induction {file : Int} {P : Cursor → Prop} {Q : ScanItem → Prop}
    (hnext : ∀ {cursor stop : Cursor} {item : Option ScanItem}, P cursor →
      cursor.step file = some (item, stop) → P stop ∧ ∀ found ∈ item, Q found)
    {cursor : Cursor} (h : P cursor) :
    (∀ item ∈ (cursor.scanAll file).1, Q item) ∧ P (cursor.scanAll file).2 := by
  fun_induction Cursor.scanAll file cursor with
  | case1 cursor hstep => exact ⟨fun item hitem => absurd hitem List.not_mem_nil, h⟩
  | case2 cursor item stop hstep _ items last heq ih =>
    rw [heq] at ih
    obtain ⟨hstop, hitem⟩ := hnext h hstep
    obtain ⟨hitems, hlast⟩ := ih hstop
    refine ⟨fun found hfound => ?_, hlast⟩
    rcases List.mem_append.mp hfound with hfound | hfound
    · exact hitem found (Option.mem_toList.mp hfound)
    · exact hitems found hfound

/-- Every token of a text is found by a step of the cursor, at its offset or later. -/
theorem Cursor.step_of_mem_scanAll {file : Int} {cursor : Cursor} {token : Token}
    (h : ScanItem.token token ∈ (cursor.scanAll file).1) :
    ∃ start stop : Cursor, start.step file = some (some (.token token), stop) ∧
      cursor.offset ≤ start.offset := by
  fun_induction Cursor.scanAll file cursor with
  | case1 cursor hstep => exact absurd h List.not_mem_nil
  | case2 cursor item stop hstep _ items last heq ih =>
    rw [heq] at ih
    rcases List.mem_append.mp h with h | h
    · obtain rfl := Option.mem_toList.mp h
      exact ⟨cursor, stop, hstep, Nat.le_refl _⟩
    · obtain ⟨start, stop', hstart, hle⟩ := ih h
      exact ⟨start, stop', hstart, Nat.le_trans (Nat.le_of_lt (offset_lt_of_step hstep)) hle⟩

theorem Cursor.pairwise_start_scanAll (file : Int) (cursor : Cursor) :
    ((cursor.scanAll file).1.filterMap ScanItem.token?).Pairwise
      fun a b => a.span.start < b.span.start := by
  fun_induction Cursor.scanAll file cursor with
  | case1 => exact .nil
  | case2 cursor item stop hstep _ items last heq ih =>
    rw [heq] at ih
    rw [List.filterMap_append, List.pairwise_append]
    refine ⟨?_, ih, ?_⟩
    · cases item with
      | none => exact .nil
      | some item => cases item with
        | token => exact List.pairwise_singleton _ _
        | error => exact .nil
    · intro a ha b hb
      obtain rfl := Option.mem_toList.mp (mem_filterMap_token?_iff.mp ha)
      have hmem : ScanItem.token b ∈ (stop.scanAll file).1 := by
        rw [heq]
        exact mem_filterMap_token?_iff.mp hb
      -- the later token is found where this one stops, or further on
      obtain ⟨start, _, hstart, hle⟩ := step_of_mem_scanAll hmem
      have hlt := offset_lt_of_step hstep
      rw [(token_of_step hstep).2.1, (token_of_step hstart).2.1]
      omega

/-- The tokens of a text start at increasing offsets. -/
theorem scan_pairwise_start (file : Int) (text : String) :
    (scan file text).tokens.Pairwise fun a b => a.span.start < b.span.start :=
  Cursor.pairwise_start_scanAll file _

/-- Every token of a text is found by a step of a cursor. -/
theorem step_of_mem_scan {file : Int} {text : String} {token : Token}
    (h : token ∈ (scan file text).tokens) :
    ∃ start stop, Cursor.step file start = some (some (.token token), stop) := by
  obtain ⟨start, stop, hstep, _⟩ :=
    Cursor.step_of_mem_scanAll (mem_filterMap_token?_iff.mp h)
  exact ⟨start, stop, hstep⟩

theorem file_of_mem_scan {file : Int} {text : String} {token : Token}
    (h : token ∈ (scan file text).tokens) : token.span.file = file := by
  obtain ⟨start, stop, hstep⟩ := step_of_mem_scan h
  exact (Cursor.token_of_step hstep).1

/-- No two tokens of a text have one anchor. -/
theorem nodup_anchors_scan (file : Int) (text : String) :
    ((scan file text).tokens.map Token.anchor).Nodup := by
  rw [List.Nodup, List.pairwise_map]
  -- an anchor holds the span, and tokens that start at different offsets have different spans
  refine (scan_pairwise_start file text).imp fun {a b} hlt heq => ?_
  simp only [Token.anchor, Anchor.mk.injEq, Option.some.injEq] at heq
  rw [heq.2.2] at hlt
  exact Int.lt_irrefl _ hlt

/-! ### Identifiers -/

theorem singleKind?_ne_identifier (c : Char) : singleKind? c ≠ some .identifier := by
  unfold singleKind?
  split <;> simp

theorem operatorLexeme_ne_identifier {alone withEqual : TokenKind} (halone : alone ≠ .identifier)
    (hwithEqual : withEqual ≠ .identifier) (text : List Char) (extra : Nat) :
    operatorLexeme alone withEqual text ≠ ⟨.token .identifier, extra⟩ := by
  unfold operatorLexeme
  split <;> simp_all

theorem ofWord?_of_wordLexeme {c : Char} {text : List Char} {extra : Nat}
    (h : wordLexeme c text = ⟨.token .identifier, extra⟩) :
    Keyword.ofWord? (String.ofList (c :: text.take extra)) = none := by
  unfold wordLexeme at h
  dsimp only at h
  split at h
  · cases h
  · rename_i hword
    simp only [Recognised.mk.injEq, true_and] at h
    -- the word that was looked up among the keywords is the whole lexeme
    have htake : text.take extra = text.takeWhile isWordPart := by
      rw [← h]
      exact (List.prefix_iff_eq_take.mp (List.takeWhile_prefix _)).symm
    rw [htake]
    exact hword

/-- A lexeme that is an identifier spells no keyword. -/
theorem ofWord?_of_identifier {c : Char} {text : List Char} {extra : Nat}
    (h : lexeme c text = ⟨.token .identifier, extra⟩) :
    Keyword.ofWord? (String.ofList (c :: text.take extra)) = none := by
  unfold lexeme at h
  split at h
  · rename_i kind hkind
    simp only [Recognised.mk.injEq, Lexeme.token.injEq] at h
    rw [h.1] at hkind
    exact absurd hkind (singleKind?_ne_identifier c)
  -- each test of the first character but the last gives something other than an identifier
  · split at h
    · exact absurd h (operatorLexeme_ne_identifier (by simp) (by simp) text extra)
    split at h
    · exact absurd h (operatorLexeme_ne_identifier (by simp) (by simp) text extra)
    split at h
    · exact absurd h (operatorLexeme_ne_identifier (by simp) (by simp) text extra)
    split at h
    · exact absurd h (operatorLexeme_ne_identifier (by simp) (by simp) text extra)
    split at h
    · unfold slashLexeme at h
      split at h <;> cases h
    split at h
    · cases h
    split at h
    · unfold stringLexeme at h
      dsimp only at h
      split at h <;> cases h
    split at h
    · unfold numberLexeme at h
      dsimp only at h
      split at h
      · split at h <;> cases h
      · cases h
    split at h
    · exact ofWord?_of_wordLexeme h
    · cases h

/-- The identifiers of a text are names. -/
theorem namesOnly_scan (file : Int) (text : String) :
    Grammar.NamesOnly (scan file text).tokens := by
  intro token htoken hkind
  obtain ⟨start, stop, hstep⟩ := step_of_mem_scan htoken
  obtain ⟨_, _, c, rest, extra, hlexeme, htext⟩ := Cursor.token_of_step hstep
  rw [hkind] at hlexeme
  -- `this` and `super` are keywords, so no identifier spells them
  have hword := ofWord?_of_identifier hlexeme
  rw [← htext] at hword
  constructor
  · intro hthis
    rw [hthis] at hword
    exact absurd hword (by decide)
  · intro hsuper
    rw [hsuper] at hword
    exact absurd hword (by decide)

end Treewalk
