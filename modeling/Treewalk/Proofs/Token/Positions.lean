import Treewalk.Proofs.Session.Grounding

/-!
# Positions of scanned tokens

The line and the column of a token are counted while the text is scanned. The position of an offset
is looked up among the starts of all lines of the registered text. Both give the same: when a cursor
passes a line feed, the offset behind it is the next start of a line, and no other character begins
one. This holds for every pass over a text, however the passes of one scanner take turns.
-/

namespace Treewalk

/-! ### Cursors -/

namespace Cursor

/-- A cursor that knows how many lines of a text start before it, and where the last of them
starts. -/
structure Stands (text : List Char) (cursor : Cursor) : Prop extends cursor.Reaches text where
  lines : (lineStarts (text.take cursor.offset)).length = cursor.line
  lineStart : (lineStarts (text.take cursor.offset)).getLastD 0 = cursor.lineStart

variable {text : List Char} {cursor : Cursor}

theorem stands_start (text : List Char) : Stands text ⟨text, 0, 1, 0⟩ :=
  ⟨reaches_start text, rfl, rfl⟩

/-- Passing a character starts a line exactly if the character is a line feed. -/
theorem Stands.pass (h : cursor.Stands text) {c : Char} {rest : List Char}
    (hrest : cursor.rest = c :: rest) : (cursor.pass c rest).Stands text := by
  have hget : text[cursor.offset]? = some c := by
    rw [← List.head?_drop, ← h.rest, hrest]
    rfl
  have hstarts := lineStarts_take_succ hget
  have hlines := h.lines
  have hlineStart := h.lineStart
  have hreaches := h.toReaches.pass hrest
  by_cases hc : c = '\n'
  · have hpass : cursor.pass c rest =
        ⟨rest, cursor.offset + 1, cursor.line + 1, cursor.offset + 1⟩ := if_pos hc
    rw [if_pos hc] at hstarts
    rw [hpass] at hreaches ⊢
    refine ⟨hreaches, ?_, ?_⟩
    · rw [hstarts, List.length_append, hlines]
      rfl
    · rw [hstarts, List.getLastD_concat]
  · have hpass : cursor.pass c rest =
        ⟨rest, cursor.offset + 1, cursor.line, cursor.lineStart⟩ := if_neg hc
    rw [if_neg hc, List.append_nil] at hstarts
    rw [hpass] at hreaches ⊢
    exact ⟨hreaches, by rw [hstarts, hlines], by rw [hstarts, hlineStart]⟩

theorem Stands.advance (h : cursor.Stands text) (count : Nat) :
    (cursor.advance count).Stands text :=
  advance_induction Stands.pass h count

/-- The line and the column of a cursor are those that the registered text gives to its offset. -/
theorem Stands.position_eq {f : SourceFile} (h : cursor.Stands f.chars) :
    f.position cursor.offset = .ok ⟨cursor.line, cursor.column⟩ := by
  have hoffset := h.offset
  rw [f.position_of_le (Int.natCast_nonneg _) (Int.ofNat_le.mpr hoffset), Int.toNat_natCast]
  rw [f.positionOf_eq, h.lines, h.lineStart, Cursor.column]

end Cursor

/-! ### What is found -/

/-- What is found has the position that a registered text gives to the start of its span. The line
of a string without an end is another one, that of the end of the text. -/
def ScanItem.Agrees (f : SourceFile) : ScanItem → Prop
  | .token t => f.position t.span.start = .ok ⟨t.line, t.column⟩
  | .error (.unexpectedCharacter site _) =>
    ∃ span position, site.span = some span ∧ f.position span.start = .ok position ∧
      site.line = position.line
  | .error (.unterminatedString _) => True

/-- A step goes on to a cursor that knows its line, and what it finds agrees. -/
theorem Cursor.Stands.step {f : SourceFile} {file : Int} {cursor stop : Cursor}
    {item : Option ScanItem} (h : cursor.Stands f.chars)
    (hstep : cursor.step file = some (item, stop)) :
    stop.Stands f.chars ∧ ∀ found ∈ item, found.Agrees f := by
  have hplaced := (h.toReaches.step hstep).2
  obtain ⟨c, text, _, rfl, rfl⟩ := Cursor.of_step hstep
  refine ⟨h.advance _, fun found hfound => ?_⟩
  have hfoundPlaced := hplaced found hfound
  cases found with
  | token t =>
    -- a token carries the line and the column of the cursor at its start
    have hcursor : t.span.start = cursor.offset ∧ t.line = cursor.line ∧
        t.column = cursor.column := by
      cases hlexeme : (lexeme c text).lexeme with
      | token kind =>
        rw [hlexeme] at hfound
        obtain rfl := ScanItem.token.inj (Option.some.inj hfound)
        exact ⟨rfl, rfl, rfl⟩
      | gap | stray | unterminated =>
        rw [hlexeme] at hfound
        cases hfound
    rw [ScanItem.Agrees, hcursor.1, hcursor.2.1, hcursor.2.2]
    exact h.position_eq
  | error e =>
    cases e with
    | unexpectedCharacter site c =>
      obtain ⟨span, hspan, hwithin, hline⟩ := hfoundPlaced
      have hordered := span.start_le_stop
      have hinside : span.start ≤ f.chars.length := Int.le_trans hordered hwithin.stop
      refine ⟨span, _, hspan, f.position_of_le hwithin.start hinside, ?_⟩
      rw [hline, f.lineAt_eq]
    | unterminatedString site => trivial

/-- Everything from a cursor on agrees, and the cursor at the end knows its line. -/
theorem Cursor.Stands.scanAll {f : SourceFile} {cursor : Cursor} (h : cursor.Stands f.chars)
    (file : Int) :
    (∀ item ∈ (cursor.scanAll file).1, item.Agrees f) ∧
      (cursor.scanAll file).2.Stands f.chars :=
  Cursor.scanAll_induction Cursor.Stands.step h

/-! ### Scanners -/

namespace Scanner

/-- A scanner of a registered text: its cursor knows its line, and the tokens it keeps and the
errors it has met agree. -/
structure Reads (f : SourceFile) (s : Scanner) : Prop where
  text : s.text = f.chars
  cursor : s.cursor.Stands f.chars
  pending : ∀ t ∈ s.pending, (ScanItem.token t).Agrees f
  errors : ∀ e ∈ s.errors, (ScanItem.error e).Agrees f

variable {f : SourceFile} {s : Scanner}

/-- A scanner at the start of a registered text. -/
theorem reads_ofText (file : Int) {text : String} (h : text.toList = f.chars) :
    (Scanner.ofText file text).Reads f := by
  refine ⟨h, ?_, fun t ht => absurd ht List.not_mem_nil, fun e he => absurd he List.not_mem_nil⟩
  rw [Scanner.ofText, h]
  exact Cursor.stands_start f.chars

theorem Reads.restart (h : s.Reads f) : s.restart.Reads f := by
  refine ⟨h.text, ?_, fun t ht => absurd ht List.not_mem_nil,
    fun e he => absurd he List.not_mem_nil⟩
  rw [Scanner.restart, h.text]
  exact Cursor.stands_start f.chars

/-- The lexeme that is taken agrees. -/
theorem Reads.take? (h : s.Reads f) {later : Scanner} (htake : s.take? = some later) :
    later.Reads f := by
  unfold Scanner.take? at htake
  cases hstep : s.cursor.step s.file with
  | none =>
    rw [hstep] at htake
    cases htake
  | some found =>
    obtain ⟨item, stop⟩ := found
    rw [hstep] at htake
    obtain rfl := Option.some.inj htake
    obtain ⟨hstop, hfound⟩ := h.cursor.step hstep
    refine ⟨h.text, hstop, fun t ht => ?_, fun e he => ?_⟩
    · rcases List.mem_append.mp ht with ht | ht
      · exact h.pending t ht
      · obtain ⟨found, hitem, htoken⟩ := Option.bind_eq_some_iff.mp (Option.mem_toList.mp ht)
        cases found with
        | token t' =>
          obtain rfl := Option.some.inj htoken
          exact hfound _ hitem
        | error => cases htoken
    · rcases List.mem_append.mp he with he | he
      · exact h.errors e he
      · obtain ⟨found, hitem, herror⟩ := Option.bind_eq_some_iff.mp (Option.mem_toList.mp he)
        cases found with
        | token => cases herror
        | error e' =>
          obtain rfl := Option.some.inj herror
          exact hfound _ hitem

/-- Whatever is met on the way to the next token agrees, and so does that token. -/
theorem Reads.pull (h : s.Reads f) :
    s.pull.2.Reads f ∧ ∀ t ∈ s.pull.1, (ScanItem.token t).Agrees f := by
  fun_induction Scanner.pull s with
  | case1 s t others hpending =>
    have hagree := h.pending
    rw [hpending] at hagree
    obtain ⟨hfirst, hothers⟩ := List.forall_mem_cons.mp hagree
    refine ⟨⟨h.text, h.cursor, hothers, h.errors⟩, fun t' ht => ?_⟩
    obtain rfl := Option.some.inj ht
    exact hfirst
  | case2 s => exact ⟨h, fun t ht => by cases ht⟩
  | case3 s _ later htake _ ih => exact ih (h.take? htake)

/-- The token at the end of the text stands where the cursor does. -/
theorem Reads.endToken (h : s.Reads f) (file : Int) :
    (ScanItem.token (s.cursor.endToken file)).Agrees f :=
  h.cursor.position_eq

/-- What a pass gives next agrees, whichever pass it is and however far it has come. -/
theorem Reads.next (h : s.Reads f) (pass : Pass) :
    (s.next pass).2.2.Reads f ∧ ∀ t ∈ (s.next pass).1, (ScanItem.token t).Agrees f := by
  -- a request that is not the last one pulls a token, or gives the one that ends the text
  have hpulled : ∀ {s : Scanner}, s.Reads f → ∀ {token? : Option Token} {later : Scanner},
      s.pull = (token?, later) → later.Reads f ∧
        ∀ t ∈ token?, (ScanItem.token t).Agrees f := by
    intro s h token? later hpull
    have hlater := h.pull
    rwa [hpull] at hlater
  cases pass with
  | finished => exact ⟨h, fun t ht => by cases ht⟩
  | untouched =>
    unfold Scanner.next
    cases hpull : s.restart.pull with
    | mk token? later =>
      obtain ⟨hlater, htoken⟩ := hpulled h.restart hpull
      cases token? with
      | some t => exact ⟨hlater, htoken⟩
      | none =>
        refine ⟨hlater, fun t ht => ?_⟩
        obtain rfl := Option.some.inj ht
        exact hlater.endToken _
  | running =>
    unfold Scanner.next
    cases hpull : s.pull with
    | mk token? later =>
      obtain ⟨hlater, htoken⟩ := hpulled h hpull
      cases token? with
      | some t => exact ⟨hlater, htoken⟩
      | none =>
        refine ⟨hlater, fun t ht => ?_⟩
        obtain rfl := Option.some.inj ht
        exact hlater.endToken _

theorem Reads.tokenize (h : s.Reads f) :
    s.tokenize.2.Reads f ∧ ∀ t ∈ s.tokenize.1, (ScanItem.token t).Agrees f := by
  obtain ⟨hitems, hlast⟩ := h.restart.cursor.scanAll s.file
  refine ⟨⟨h.text, hlast, fun t ht => absurd ht List.not_mem_nil, fun e he => ?_⟩, fun t ht => ?_⟩
  · obtain ⟨item, hitem, he⟩ := List.mem_filterMap.mp he
    cases item with
    | token t => cases he
    | error e' =>
      obtain rfl := Option.some.inj he
      exact hitems _ hitem
  · rcases List.mem_append.mp ht with ht | ht
    · exact hitems _ (mem_filterMap_token?_iff.mp ht)
    · obtain rfl := List.mem_singleton.mp ht
      exact hlast.position_eq

/-- The scanners that come from one by asking its passes for tokens, in any order, or by making
whole passes. -/
inductive Serves (first : Scanner) : Scanner → Prop where
  | first : Serves first first
  | next {s : Scanner} (pass : Pass) (h : Serves first s) : Serves first (s.next pass).2.2
  | tokenize {s : Scanner} (h : Serves first s) : Serves first s.tokenize.2

theorem Serves.reads {first : Scanner} (h : first.Serves s) (hfirst : first.Reads f) :
    s.Reads f := by
  induction h with
  | first => exact hfirst
  | next pass _ ih => exact (ih.next pass).1
  | tokenize _ ih => exact ih.tokenize.1

end Scanner

/-! ### Registered texts -/

/-- The two ways to find a position agree. Whatever token a scanner of a registered text gives, in
whatever pass, its line and column are those that the registered text gives to the start of its
span, and the line of an unexpected character is the line of that position. -/
theorem Registry.Numbered.positions_agree {r later : Registry} {directory path text : String}
    {id : Nat} (h : r.Numbered) (hadd : r.add directory path text = (id, later)) :
    ∃ f, later.find? id = some f ∧ f.content = text ∧
      ∀ s : Scanner, (Scanner.ofText id text).Serves s →
        (∀ (pass : Pass) (t : Token), (s.next pass).1 = some t →
          f.position t.span.start = .ok ⟨t.line, t.column⟩) ∧
        (∀ t ∈ s.tokenize.1, f.position t.span.start = .ok ⟨t.line, t.column⟩) ∧
        ∀ (site : Site) (c : String), .unexpectedCharacter site c ∈ s.errors →
          ∃ (span : Span) (position : Position), site.span = some span ∧
            f.position span.start = .ok position ∧ site.line = position.line := by
  obtain ⟨f, hfind, hcontent⟩ := h.find?_add directory path text
  rw [hadd] at hfind
  refine ⟨f, hfind, hcontent, fun s hserves => ?_⟩
  have hchars : text.toList = f.chars := by rw [SourceFile.chars, hcontent]
  have hreads := hserves.reads (Scanner.reads_ofText id hchars)
  refine ⟨fun pass t ht => (hreads.next pass).2 t ht, hreads.tokenize.2, fun site c herror => ?_⟩
  exact hreads.errors _ herror

/-- A pass over a text meets the errors of the text. -/
theorem Scanner.errors_tokenize_ofText (file : Int) (text : String) :
    (Scanner.ofText file text).tokenize.2.errors = (scan file text).errors :=
  rfl

theorem errors_brokenString : (scan 2 "\"a\nb\" @").errors.length = 1 := by
  cbv

/-- A string over two lines, and a character that starts nothing behind it. -/
theorem positions_agree_brokenString :
    let r : Registry := ⟨#[⟨1, "<s>", "print 1;"⟩]⟩
    let text := "\"a\nb\" @"
    let s := (Scanner.ofText 2 text).tokenize.2
    r.Numbered ∧ s.errors.length = 1 ∧
      ∃ f, (r.add "/" "<s>" text).2.find? 2 = some f ∧ f.content = text ∧
      (∀ t ∈ s.tokenize.1, f.position t.span.start = .ok ⟨t.line, t.column⟩) ∧
      ∀ (site : Site) (c : String), .unexpectedCharacter site c ∈ s.errors →
        ∃ (span : Span) (position : Position), site.span = some span ∧
          f.position span.start = .ok position ∧ site.line = position.line := by
  intro r text s
  have hnumbered : r.Numbered := by
    intro i file hfile
    cases i with
    | zero =>
      obtain rfl := Option.some.inj hfile
      rfl
    | succ i => cases hfile
  obtain ⟨f, hfind, hcontent, hscanners⟩ :=
    hnumbered.positions_agree (show r.add "/" "<s>" text = (2, _) from rfl)
  obtain ⟨_, htokens, herrors⟩ := hscanners s (.tokenize .first)
  have hlength : s.errors.length = 1 :=
    (congrArg List.length (Scanner.errors_tokenize_ofText 2 text)).trans errors_brokenString
  exact ⟨hnumbered, hlength, f, hfind, hcontent, htokens, herrors⟩

end Treewalk
