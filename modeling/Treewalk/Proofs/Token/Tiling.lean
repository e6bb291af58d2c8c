import Treewalk.Proofs.Token.Lines
import Treewalk.Proofs.Token.Rules

/-!
# Scanning tiles a text

The tokens and errors of a text lie one behind the other. Each of them is what the lexical rules put
at the head of the text from its start on: the longest beginning that spells something, a character
with which nothing begins, or a string without an end, which takes the rest of the text. Between two
of them, before the first and behind the last, there are only blanks, line ends and comments up to
the end of their lines. A text can be tiled in this way only once.
-/

namespace Treewalk

/-! ### Tilings -/

/-- Text that leaves no trace: blanks, line ends and comments. A comment goes up to the end of its
line, or of the text. What follows the skipped text decides where its last comment ends. -/
inductive Skipped (after : List Char) : List Char → Prop where
  | nothing : Skipped after []
  | blank {c : Char} {gap : List Char} (hc : c ∈ blankChars) (h : Skipped after gap) :
    Skipped after (c :: gap)
  | comment {body gap : List Char} (hbody : '\n' ∉ body) (hline : BreaksLine (gap ++ after))
    (h : Skipped after gap) : Skipped after ('/' :: '/' :: (body ++ gap))

/-- The item that stands for the characters at the head of a text, given the text behind them. -/
inductive Shows (file : Int) (start : Nat) : List Char → List Char → ScanItem → Prop where
  | token {chars rest : List Char} {kind : TokenKind} (line column : Nat)
    (h : Longest (.token kind) chars (chars ++ rest)) :
    Shows file start chars rest
      (.token ⟨kind, String.ofList chars, line, column, .ofLength file start chars.length⟩)
  | stray {c : Char} (rest : List Char) (line : Int)
    (h : ∀ found more, ¬ Spells found (c :: more)) :
    Shows file start [c] rest
      (.error (.unexpectedCharacter ⟨line, some (.ofLength file start 1)⟩ (String.singleton c)))
  | unterminated {body : List Char} (line : Int) (h : Text.doubleQuote ∉ body) :
    Shows file start (Text.doubleQuote :: body) []
      (.error (.unterminatedString ⟨line, some (.ofLength file start (body.length + 1))⟩))

/-- Items that tile a text which starts at an offset. -/
inductive Tiles (file : Int) : Nat → List Char → List ScanItem → Prop where
  | last {start : Nat} {gap : List Char} (h : Skipped [] gap) : Tiles file start gap []
  | item {start : Nat} {gap chars rest : List Char} {item : ScanItem} {items : List ScanItem}
    (hgap : Skipped (chars ++ rest) gap) (hitem : Shows file (start + gap.length) chars rest item)
    (hrest : Tiles file (start + gap.length + chars.length) rest items) :
    Tiles file start (gap ++ (chars ++ rest)) (item :: items)

/-! ### What a step finds -/

theorem Cursor.rest_advance (count : Nat) (cursor : Cursor) :
    (cursor.advance count).rest = cursor.rest.drop count := by
  induction count generalizing cursor with
  | zero => rfl
  | succ count ih =>
    rw [Cursor.advance]
    cases hrest : cursor.rest with
    | nil => simp [hrest]
    | cons c rest => rw [ih, Cursor.rest_pass, List.drop_succ_cons]

/-- A step takes what the rules put at the head of the text. -/
theorem Cursor.step_of_leads {cursor : Cursor} {chars rest : List Char} {found : Lexeme}
    (hrest : cursor.rest = chars ++ rest) (h : Leads (chars ++ rest) found chars) (file : Int) :
    ∃ stop, cursor.step file = some (itemAt? file cursor stop chars.length found, stop) ∧
      stop.rest = rest ∧ stop.offset = cursor.offset + chars.length := by
  obtain ⟨c, more, rfl⟩ := List.exists_cons_of_ne_nil h.ne_nil
  rw [List.cons_append] at h hrest
  obtain ⟨rfl, hchars⟩ := h.lexeme_eq
  have hle := extra_lexeme_le c (more ++ rest)
  have hlength : (c :: more).length = (lexeme c (more ++ rest)).extra + 1 := by
    rw [hchars, List.length_cons, List.length_take]
    omega
  have hshort : (c :: more).length ≤ cursor.rest.length := by
    rw [hrest, List.length_cons, List.length_cons, List.length_append]
    omega
  refine ⟨cursor.advance (c :: more).length, ?_, ?_, Cursor.offset_advance _ cursor hshort⟩
  · simp only [Cursor.step, hrest, hlength]
  · rw [Cursor.rest_advance, hrest, List.length_cons, List.drop_succ_cons, List.drop_left]

/-- Every step takes what the rules put at the head of the text. -/
theorem Cursor.leads_of_step {file : Int} {cursor stop : Cursor} {item : Option ScanItem}
    (h : cursor.step file = some (item, stop)) :
    ∃ chars found, cursor.rest = chars ++ stop.rest ∧ stop.offset = cursor.offset + chars.length ∧
      Leads (chars ++ stop.rest) found chars ∧
      item = itemAt? file cursor stop chars.length found := by
  obtain ⟨c, text, hrest, _⟩ := Cursor.of_step h
  have hleads := lexeme_leads c text
  have hsplit : cursor.rest =
      c :: text.take (lexeme c text).extra ++ text.drop (lexeme c text).extra := by
    rw [hrest, List.cons_append, List.take_append_drop]
  rw [← hrest, hsplit] at hleads
  obtain ⟨stop', hstep, hrest', hoffset⟩ := Cursor.step_of_leads hsplit hleads file
  obtain ⟨rfl, rfl⟩ := Prod.mk.inj (Option.some.inj (h.symm.trans hstep))
  rw [hrest']
  exact ⟨_, _, hsplit, hoffset, hleads, rfl⟩

/-- What a step finds stands for the characters that it takes. -/
theorem shows_of_leads {file : Int} {start stop : Cursor} {chars rest : List Char}
    {found : Lexeme} {item : ScanItem} (hrest : start.rest = chars ++ rest)
    (h : Leads (chars ++ rest) found chars)
    (hitem : itemAt? file start stop chars.length found = some item) :
    Shows file start.offset chars rest item := by
  generalize htext : chars ++ rest = text at h
  cases h with
  | longest h =>
    subst htext
    cases found with
    | gap => cases hitem
    | token kind =>
      obtain rfl := Option.some.inj hitem
      rw [hrest, List.take_left]
      exact .token _ _ h
    | stray c =>
      have hspells := h.spells
      cases hspells
    | unterminated =>
      have hspells := h.spells
      cases hspells
  | stray more hnone =>
    obtain rfl := Option.some.inj hitem
    exact .stray _ _ hnone
  | unterminated hbody =>
    -- the string takes all that there is
    obtain rfl := List.append_right_eq_self.mp htext
    obtain rfl := Option.some.inj hitem
    exact .unterminated _ hbody

/-! ### Skipped text -/

/-- The text that a gap skips: one blank, or a comment up to the end of its line. -/
theorem Longest.gap_cases {chars rest : List Char} (h : Longest .gap chars (chars ++ rest)) :
    (∃ c ∈ blankChars, chars = [c]) ∨
      ∃ body, '\n' ∉ body ∧ chars = '/' :: '/' :: body ∧ BreaksLine rest := by
  rcases h.spells.gap_cases with hblank | ⟨body, hbody, rfl⟩
  · exact .inl hblank
  · refine .inr ⟨body, hbody, rfl, fun c more hrest => ?_⟩
    -- a comment that went on on the same line would be longer
    apply Classical.byContradiction
    intro hc
    subst hrest
    have hlonger : Spells .gap ('/' :: '/' :: (body ++ [c])) := by
      refine .comment fun hmem => ?_
      rcases List.mem_append.mp hmem with hmem | hmem
      · exact hbody hmem
      · exact hc (List.mem_singleton.mp hmem).symm
    have hbegins : '/' :: '/' :: (body ++ [c]) <+: '/' :: '/' :: body ++ c :: more :=
      ⟨more, by simp⟩
    have hle := h.longest _ _ hbegins hlonger
    simp only [List.length_cons, List.length_append, List.length_nil] at hle
    omega

theorem Leads.longest_of_gap {text chars : List Char} (h : Leads text .gap chars) :
    Longest .gap chars text := by
  cases h with
  | longest h => exact h

/-- A gap that is passed over may be put before a tiling. -/
theorem Tiles.skip {file : Int} {start : Nat} {chars rest : List Char} {items : List ScanItem}
    (hgap : Longest .gap chars (chars ++ rest)) (h : Tiles file (start + chars.length) rest items) :
    Tiles file start (chars ++ rest) items := by
  -- it joins what is skipped before the first item
  have hskipped : ∀ {gap after : List Char}, rest = gap ++ after → Skipped after gap →
      Skipped after (chars ++ gap) := by
    intro gap after hrest hafter
    rcases hgap.gap_cases with ⟨c, hc, rfl⟩ | ⟨body, hbody, rfl, hline⟩
    · exact .blank hc hafter
    · exact .comment hbody (hrest ▸ hline) hafter
  generalize hstart : start + chars.length = start' at h
  cases h with
  | last h => exact .last (hskipped (List.append_nil _).symm h)
  | @item _ gap chars' rest' item items hbetween hitem hrest =>
    have hlength : start + (chars ++ gap).length = start' + gap.length := by
      rw [List.length_append]
      omega
    rw [← List.append_assoc]
    rw [← hlength] at hitem hrest
    exact .item (hskipped rfl hbetween) hitem hrest

theorem leads_blank {c : Char} (hc : c ∈ blankChars) (rest : List Char) :
    Leads ([c] ++ rest) .gap [c] := by
  simp only [blankChars, List.mem_cons, List.not_mem_nil, or_false] at hc
  rcases hc with rfl | rfl | rfl | rfl <;> exact lexeme_leads _ rest

theorem leads_comment {body rest : List Char} (hbody : '\n' ∉ body) (hline : BreaksLine rest) :
    Leads ('/' :: '/' :: body ++ rest) .gap ('/' :: '/' :: body) := by
  have hleads := lexeme_leads '/' ('/' :: (body ++ rest))
  have hrun : (body ++ rest).takeWhile (· != '\n') = body := by
    rw [takeWhile_append_of_breaksLine rfl body hline, List.takeWhile_eq_self_iff]
    exact fun c hc => bne_iff_ne.mpr fun heq => hbody (heq ▸ hc)
  have hlexeme : lexeme '/' ('/' :: (body ++ rest)) = ⟨.gap, body.length + 1⟩ := by
    have hcomment : lexeme '/' ('/' :: (body ++ rest)) =
        ⟨.gap, 1 + runLength (· != '\n') (body ++ rest)⟩ := rfl
    rw [hcomment, runLength, hrun, Nat.add_comm]
  rw [hlexeme, List.take_succ_cons, List.take_left] at hleads
  exact hleads

/-- Skipped text leaves no trace in what a cursor finds. -/
theorem Skipped.scanAll {after gap : List Char} (h : Skipped after gap) (file : Int)
    {cursor : Cursor} (hrest : cursor.rest = gap ++ after) :
    ∃ next : Cursor, next.rest = after ∧ next.offset = cursor.offset + gap.length ∧
      (cursor.scanAll file).1 = (next.scanAll file).1 := by
  -- one gap, passed over by one step, and what is skipped behind it
  have hpass : ∀ {chars gap : List Char} {cursor : Cursor}, cursor.rest = chars ++ (gap ++ after) →
      Leads (chars ++ (gap ++ after)) .gap chars →
      (∀ {cursor : Cursor}, cursor.rest = gap ++ after →
        ∃ next : Cursor, next.rest = after ∧ next.offset = cursor.offset + gap.length ∧
          (cursor.scanAll file).1 = (next.scanAll file).1) →
      ∃ next : Cursor, next.rest = after ∧ next.offset = cursor.offset + (chars ++ gap).length ∧
        (cursor.scanAll file).1 = (next.scanAll file).1 := by
    intro chars gap cursor hrest hleads ih
    obtain ⟨stop, hstep, hstop, hoffset⟩ := Cursor.step_of_leads hrest hleads file
    obtain ⟨next, hnext, hnextOffset, hscan⟩ := ih hstop
    refine ⟨next, hnext, ?_, ?_⟩
    · rw [hnextOffset, hoffset, List.length_append, Nat.add_assoc]
    · rw [Cursor.scanAll_of_step hstep]
      exact hscan
  induction h generalizing cursor with
  | nothing => exact ⟨cursor, hrest, rfl, rfl⟩
  | blank hc _ ih => exact hpass hrest (leads_blank hc _) ih
  | @comment body gap hbody hline _ ih =>
    have hcomment : cursor.rest = '/' :: '/' :: body ++ (gap ++ after) := by
      rw [hrest]
      simp
    exact hpass hcomment (leads_comment hbody hline) ih

/-! ### Scanning tiles a text, and nothing else does -/

/-- Everything from a cursor on tiles the text from there on. -/
theorem Cursor.tiles_scanAll (file : Int) (cursor : Cursor) :
    Tiles file cursor.offset cursor.rest (cursor.scanAll file).1 := by
  fun_induction Cursor.scanAll file cursor with
  | case1 cursor hstep =>
    have hrest := rest_scanAll file cursor
    rw [Cursor.scanAll_of_step_eq_none hstep] at hrest
    rw [hrest]
    exact .last .nothing
  | case2 cursor item stop hstep _ items last heq ih =>
    rw [heq] at ih
    obtain ⟨chars, found, hrest, hoffset, hleads, hitem⟩ := Cursor.leads_of_step hstep
    rw [hoffset] at ih
    cases item with
    | some item =>
      have hshows := shows_of_leads hrest hleads hitem.symm
      rw [hrest]
      show Tiles file cursor.offset ([] ++ (chars ++ stop.rest)) _
      exact .item .nothing hshows ih
    | none =>
      -- nothing but a gap leaves no trace
      cases found with
      | gap =>
        rw [hrest]
        exact .skip hleads.longest_of_gap ih
      | token | stray | unterminated => cases hitem

/-- An item without its line and its column. -/
def ScanItem.unlined : ScanItem → ScanItem
  | .token t => .token { t with line := 0, column := 0 }
  | .error (.unexpectedCharacter site c) => .error (.unexpectedCharacter ⟨0, site.span⟩ c)
  | .error (.unterminatedString site) => .error (.unterminatedString ⟨0, site.span⟩)

/-- A step finds the item that stands for the characters at the head of the text. -/
theorem Shows.step {file : Int} {chars rest : List Char} {item : ScanItem} {cursor : Cursor}
    (h : Shows file cursor.offset chars rest item) (hrest : cursor.rest = chars ++ rest) :
    ∃ found stop, cursor.step file = some (some found, stop) ∧ found.unlined = item.unlined ∧
      stop.rest = rest ∧ stop.offset = cursor.offset + chars.length := by
  cases h with
  | token line column h =>
    obtain ⟨stop, hstep, hstop⟩ := Cursor.step_of_leads hrest (.longest h) file
    refine ⟨_, stop, hstep, ?_, hstop⟩
    simp only [ScanItem.unlined, hrest, List.take_left]
  | stray _ line hnone =>
    obtain ⟨stop, hstep, hstop⟩ := Cursor.step_of_leads hrest (.stray rest hnone) file
    exact ⟨_, stop, hstep, rfl, hstop⟩
  | @unterminated body line hbody =>
    have hleads : Leads (Text.doubleQuote :: body ++ []) .unterminated
        (Text.doubleQuote :: body) := by
      rw [List.append_nil]
      exact .unterminated hbody
    obtain ⟨stop, hstep, hstop⟩ := Cursor.step_of_leads hrest hleads file
    exact ⟨_, stop, hstep, rfl, hstop⟩

/-- Items that tile the text from a cursor on are those that the cursor finds. -/
theorem Tiles.unlined_eq_scanAll {file : Int} {start : Nat} {text : List Char}
    {items : List ScanItem} (h : Tiles file start text items) {cursor : Cursor}
    (hrest : cursor.rest = text) (hoffset : cursor.offset = start) :
    items.map ScanItem.unlined = (cursor.scanAll file).1.map ScanItem.unlined := by
  induction h generalizing cursor with
  | @last start gap hgap =>
    obtain ⟨next, hnext, _, hscan⟩ := hgap.scanAll file (hrest.trans (List.append_nil gap).symm)
    rw [hscan, Cursor.scanAll_of_rest_eq_nil hnext]
  | @item start gap chars rest item items hgap hitem _ ih =>
    obtain ⟨next, hnext, hnextOffset, hscan⟩ := hgap.scanAll file hrest
    rw [← hoffset, ← hnextOffset] at hitem
    obtain ⟨found, stop, hstep, hfound, hstop, hstopOffset⟩ := hitem.step hnext
    have hitems := ih hstop (by rw [hstopOffset, hnextOffset, hoffset])
    rw [hscan, Cursor.scanAll_of_step hstep]
    simp only [Option.toList_some, List.singleton_append, List.map_cons, hfound, hitems]

/-! ### Spans -/

/-- The span of an item. -/
def ScanItem.span? : ScanItem → Option Span
  | .token t => some t.span
  | .error (.unexpectedCharacter site _) => site.span
  | .error (.unterminatedString site) => site.span

/-- The characters of a text that a span covers. -/
def Span.slice (text : List Char) (span : Span) : List Char :=
  text.extract span.start.toNat span.stop.toNat

/-- An item has a span of its own inside a text. -/
def ScanItem.Lies (file : Int) (text : List Char) (item : ScanItem) : Prop :=
  ∃ span, item.span? = some span ∧ span.Within file text ∧ span.start < span.stop

/-- An item stands before another one. -/
def ScanItem.Precedes (a b : ScanItem) : Prop :=
  ∀ span ∈ a.span?, ∀ span' ∈ b.span?, span.stop ≤ span'.start

/-- A scan whose items lie in a text, one behind the other, up to the token that ends it. The lexeme
of a token is the text of its span, the longest beginning there that spells anything. -/
structure Scan.Covers (file : Int) (text : List Char) (s : Scan) : Prop where
  lies : ∀ item ∈ s.items, item.Lies file text
  ordered : s.items.Pairwise ScanItem.Precedes
  lexeme : ∀ t ∈ s.tokens, t.lexeme = String.ofList (t.span.slice text)
  longest : ∀ t ∈ s.tokens,
    Longest (.token t.kind) (t.span.slice text) (text.drop t.span.start.toNat)
  ending : s.endToken.kind = .endOfInput ∧ s.endToken.lexeme = "" ∧
    s.endToken.span = .ofLength file text.length 0

theorem Shows.span? {file : Int} {start : Nat} {chars rest : List Char} {item : ScanItem}
    (h : Shows file start chars rest item) :
    item.span? = some (.ofLength file start chars.length) := by
  cases h <;> rfl

theorem Shows.ne_nil {file : Int} {start : Nat} {chars rest : List Char} {item : ScanItem}
    (h : Shows file start chars rest item) : chars ≠ [] := by
  cases h with
  | token _ _ h => exact h.spells.ne_nil
  | stray => exact List.cons_ne_nil _ _
  | unterminated => exact List.cons_ne_nil _ _

theorem slice_ofLength (file : Int) {text chars rest : List Char} {start : Nat}
    (h : text.drop start = chars ++ rest) :
    (Span.ofLength file start chars.length).slice text = chars := by
  have hstop : ((start : Int) + chars.length).toNat = start + chars.length := by omega
  simp only [Span.slice, Span.ofLength, hstop, Int.toNat_natCast, List.extract_eq_take_drop,
    Nat.add_sub_cancel_left, h, List.take_left]

/-- What stands for a part of a text lies there. -/
theorem Shows.lies {file : Int} {start : Nat} {text chars rest : List Char} {item : ScanItem}
    (h : Shows file start chars rest item) (htext : text.drop start = chars ++ rest) :
    item.Lies file text := by
  have hpos := List.length_pos_iff.mpr h.ne_nil
  have hlength := congrArg List.length htext
  rw [List.length_drop, List.length_append] at hlength
  refine ⟨_, h.span?, ⟨rfl, Int.natCast_nonneg _, ?_⟩, ?_⟩
  · simp only [Span.ofLength]
    omega
  · simp only [Span.ofLength]
    omega

/-- The lexeme of a token is what its span covers, the longest beginning from there on. -/
theorem Shows.longest {file : Int} {start : Nat} {text chars rest : List Char} {t : Token}
    (h : Shows file start chars rest (.token t)) (htext : text.drop start = chars ++ rest) :
    t.lexeme = String.ofList (t.span.slice text) ∧
      Longest (.token t.kind) (t.span.slice text) (text.drop t.span.start.toNat) := by
  cases h with
  | token _ _ h =>
    rw [slice_ofLength file htext]
    refine ⟨rfl, ?_⟩
    simp only [Span.ofLength, Int.toNat_natCast, htext]
    exact h

/-- What tiles the end of a text lies there, one behind the other. -/
theorem Tiles.covers {file : Int} {start : Nat} {text rest : List Char} {items : List ScanItem}
    (h : Tiles file start rest items) (htext : text.drop start = rest) :
    (∀ item ∈ items, item.Lies file text ∧ ∀ span ∈ item.span?, start ≤ span.start) ∧
      items.Pairwise ScanItem.Precedes ∧
      ∀ t, .token t ∈ items → t.lexeme = String.ofList (t.span.slice text) ∧
        Longest (.token t.kind) (t.span.slice text) (text.drop t.span.start.toNat) := by
  induction h with
  | last =>
    refine ⟨?_, .nil, ?_⟩
    · intro item hitem
      cases hitem
    · intro t ht
      cases ht
  | @item start gap chars rest item items _ hitem _ ih =>
    have hchars : text.drop (start + gap.length) = chars ++ rest := by
      rw [← List.drop_drop, htext, List.drop_left]
    have hrest : text.drop (start + gap.length + chars.length) = rest := by
      rw [← List.drop_drop, hchars, List.drop_left]
    obtain ⟨hlies, hordered, htokens⟩ := ih hrest
    refine ⟨?_, ?_, ?_⟩
    · intro found hfound
      rcases List.mem_cons.mp hfound with rfl | hfound
      · refine ⟨hitem.lies hchars, fun span hspan => ?_⟩
        obtain rfl := Option.some.inj (hitem.span?.symm.trans hspan)
        simp only [Span.ofLength]
        omega
      · refine ⟨(hlies found hfound).1, fun span hspan => ?_⟩
        have hstart := (hlies found hfound).2 span hspan
        omega
    · refine List.pairwise_cons.mpr ⟨fun later hlater span hspan span' hspan' => ?_, hordered⟩
      obtain rfl := Option.some.inj (hitem.span?.symm.trans hspan)
      have hstart := (hlies later hlater).2 span' hspan'
      simp only [Span.ofLength]
      omega
    · intro t ht
      rcases List.mem_cons.mp ht with rfl | ht
      · exact hitem.longest hchars
      · exact htokens t ht

/-- The token that ends a text is empty and stands at its end. -/
theorem endToken_scan (file : Int) (text : String) :
    (scan file text).endToken.kind = .endOfInput ∧ (scan file text).endToken.lexeme = "" ∧
      (scan file text).endToken.span = .ofLength file text.toList.length 0 := by
  have hlast := ((Cursor.reaches_start text.toList).scanAll file).2
  have hlength := hlast.length_rest
  rw [Cursor.rest_scanAll, List.length_nil, Nat.add_zero] at hlength
  refine ⟨rfl, rfl, ?_⟩
  simp only [scan, Cursor.endToken, hlength]

/-- Scanning tiles a text by longest match: the items that it finds tile the text, and no others do,
whatever their lines and columns. They lie one behind the other in spans that are not empty, up to
the empty one at the end of the text, and the lexeme of each token is the text of its span. -/
theorem scan_tiles (file : Int) (text : String) :
    Tiles file 0 text.toList (scan file text).items ∧
      (∀ items, Tiles file 0 text.toList items →
        items.map ScanItem.unlined = (scan file text).items.map ScanItem.unlined) ∧
      (scan file text).Covers file text.toList := by
  have htiles : Tiles file 0 text.toList (scan file text).items :=
    Cursor.tiles_scanAll file ⟨text.toList, 0, 1, 0⟩
  obtain ⟨hlies, hordered, htokens⟩ := htiles.covers List.drop_zero
  exact ⟨htiles, fun items h => h.unlined_eq_scanAll rfl rfl,
    { lies := fun item hitem => (hlies item hitem).1
      ordered := hordered
      lexeme := fun t ht => (htokens t (mem_filterMap_token?_iff.mp ht)).1
      longest := fun t ht => (htokens t (mem_filterMap_token?_iff.mp ht)).2
      ending := endToken_scan file text }⟩

end Treewalk
