import Treewalk.Token.Scan
import Treewalk.Proofs.Grammar.Moved

/-!
# Scanning joined texts

A line feed ends every lexeme but a string, so a text in which all strings are closed is scanned
alike at the end of input and before a line feed. The tokens of two texts that are joined by a line
feed are therefore those of the first and those of the second, further down.
-/

namespace Treewalk

/-! ### Lexemes before a line feed -/

/-- Whether a text is empty or starts a new line. -/
def BreaksLine (text : List Char) : Prop := ∀ c rest, text = c :: rest → c = '\n'

theorem breaksLine_nil : BreaksLine [] := by
  intro c rest h
  cases h

theorem breaksLine_newline (text : List Char) : BreaksLine ('\n' :: text) :=
  fun _ _ h => (List.cons.inj h).1.symm

theorem takeWhile_append_of_breaksLine {p : Char → Bool} (hp : p '\n' = false) (text : List Char)
    {tail : List Char} (htail : BreaksLine tail) :
    (text ++ tail).takeWhile p = text.takeWhile p := by
  induction text with
  | nil =>
    cases tail with
    | nil => rfl
    | cons c rest =>
      rw [htail c rest rfl]
      simp [hp]
  | cons c text ih =>
    rw [List.cons_append, List.takeWhile_cons, List.takeWhile_cons, ih]

theorem operatorLexeme_append (alone withEqual : TokenKind) (text : List Char) {tail : List Char}
    (htail : BreaksLine tail) :
    operatorLexeme alone withEqual (text ++ tail) = operatorLexeme alone withEqual text := by
  cases text with
  | nil =>
    cases tail with
    | nil => rfl
    | cons c rest =>
      rw [htail c rest rfl]
      rfl
  | cons c text =>
    by_cases h : c = '='
    · subst h
      rfl
    · simp [operatorLexeme, h]

theorem slashLexeme_append (text : List Char) {tail : List Char} (htail : BreaksLine tail) :
    slashLexeme (text ++ tail) = slashLexeme text := by
  cases text with
  | nil =>
    cases tail with
    | nil => rfl
    | cons c rest =>
      rw [htail c rest rfl]
      rfl
  | cons c text =>
    by_cases h : c = '/'
    · subst h
      simp only [List.cons_append, slashLexeme, runLength]
      rw [takeWhile_append_of_breaksLine rfl text htail]
    · simp [slashLexeme, h]

theorem runLength_le (p : Char → Bool) (text : List Char) : runLength p text ≤ text.length :=
  (List.takeWhile_prefix p).length_le

theorem stringLexeme_append {text : List Char} (h : (stringLexeme text).lexeme ≠ .unterminated)
    (tail : List Char) : stringLexeme (text ++ tail) = stringLexeme text := by
  have hclosed : runLength (· != Text.doubleQuote) text < text.length := by
    apply Nat.lt_of_not_le
    intro hopen
    apply h
    unfold stringLexeme
    rw [if_neg (by omega)]
  -- the closing quote stops the run before the text that follows
  have hrun : runLength (· != Text.doubleQuote) (text ++ tail) =
      runLength (· != Text.doubleQuote) text := by
    unfold runLength at hclosed ⊢
    rw [List.takeWhile_append, if_neg (by omega)]
  have hlonger : runLength (· != Text.doubleQuote) text < (text ++ tail).length := by
    rw [List.length_append]
    omega
  unfold stringLexeme
  simp only [hrun]
  rw [if_pos hclosed, if_pos hlonger, List.take_append_of_le_length (by omega)]

theorem numberLexeme_append (first : Char) (text : List Char) {tail : List Char}
    (htail : BreaksLine tail) : numberLexeme first (text ++ tail) = numberLexeme first text := by
  have hdigit : isDigit '\n' = false := by decide
  have hwhole := takeWhile_append_of_breaksLine hdigit text htail
  have hle : (text.takeWhile isDigit).length ≤ text.length :=
    (List.takeWhile_prefix isDigit).length_le
  unfold numberLexeme
  simp only
  rw [hwhole, List.drop_append_of_le_length hle]
  generalize text.drop (text.takeWhile isDigit).length = after
  cases after with
  | nil =>
    cases tail with
    | nil => rfl
    | cons c rest =>
      rw [htail c rest rfl]
      rfl
  | cons point after =>
    by_cases hpoint : point = '.'
    · subst hpoint
      cases after with
      | nil =>
        cases tail with
        | nil => rfl
        | cons c rest =>
          rw [htail c rest rfl]
          rfl
      | cons digit after =>
        simp only [List.cons_append]
        rw [takeWhile_append_of_breaksLine hdigit after htail]
    · simp [hpoint]

theorem wordLexeme_append (first : Char) (text : List Char) {tail : List Char}
    (htail : BreaksLine tail) : wordLexeme first (text ++ tail) = wordLexeme first text := by
  unfold wordLexeme
  rw [takeWhile_append_of_breaksLine (by decide) text htail]

/-- A lexeme other than an open string does not depend on what follows its line. -/
theorem lexeme_append {c : Char} {text : List Char} (h : (lexeme c text).lexeme ≠ .unterminated)
    {tail : List Char} (htail : BreaksLine tail) : lexeme c (text ++ tail) = lexeme c text := by
  unfold lexeme at h ⊢
  cases hsingle : singleKind? c with
  | some kind => rfl
  | none =>
    rw [hsingle] at h
    simp only [operatorLexeme_append _ _ text htail, slashLexeme_append text htail,
      numberLexeme_append c text htail, wordLexeme_append c text htail] at h ⊢
    by_cases hquote : c = Text.doubleQuote
    · subst hquote
      exact stringLexeme_append h tail
    · simp only [if_neg hquote]

theorem extra_stringLexeme_le (text : List Char) :
    (stringLexeme text).extra ≤ text.length := by
  have hle := runLength_le (· != Text.doubleQuote) text
  unfold stringLexeme
  simp only
  split
  · assumption
  · exact hle

theorem extra_numberLexeme_le (first : Char) (text : List Char) :
    (numberLexeme first text).extra ≤ text.length := by
  have hwhole : (text.takeWhile isDigit).length ≤ text.length := runLength_le isDigit text
  unfold numberLexeme
  simp only
  split
  · rename_i digit rest hdrop
    have hlength := congrArg List.length hdrop
    have hfraction : (rest.takeWhile isDigit).length ≤ rest.length := runLength_le isDigit rest
    simp only [List.length_drop, List.length_cons] at hlength
    split
    · simp only [List.length_cons]
      omega
    · exact hwhole
  · exact hwhole

/-- A lexeme takes no more than there is. -/
theorem extra_lexeme_le (c : Char) (text : List Char) : (lexeme c text).extra ≤ text.length := by
  have hoperator : ∀ alone withEqual,
      (operatorLexeme alone withEqual text).extra ≤ text.length := by
    intro alone withEqual
    unfold operatorLexeme
    split <;> simp
  have hslash : (slashLexeme text).extra ≤ text.length := by
    unfold slashLexeme
    split
    · rename_i rest
      have := runLength_le (· != '\n') rest
      simp only [List.length_cons]
      omega
    · exact Nat.zero_le _
  have hword : (wordLexeme c text).extra ≤ text.length := by
    unfold wordLexeme
    simp only
    split <;> exact runLength_le isWordPart text
  have hstring := extra_stringLexeme_le text
  have hnumber := extra_numberLexeme_le c text
  unfold lexeme
  cases singleKind? c with
  | some kind => exact Nat.zero_le _
  | none => grind

/-! ### A text inside a longer one -/

theorem Span.shifted_le (s : Span) (offset : Int) : s.start + offset ≤ s.stop + offset :=
  Int.add_le_add_right s.start_le_stop offset

/-- The place of a text that stands further down in a file. -/
def Move.shift (file : Int) (lines : Nat) (offset : Int) : Move where
  line line _ := line + lines
  column := id
  span s := ⟨file, s.start + offset, s.stop + offset, s.shifted_le offset⟩

/-- A lexical error elsewhere. -/
def LexicalError.move (m : Move) : LexicalError → LexicalError
  | .unexpectedCharacter site character => .unexpectedCharacter (m.site site) character
  | .unterminatedString site => .unterminatedString (m.site site)

/-- What a scan finds, elsewhere. -/
def ScanItem.move (m : Move) : ScanItem → ScanItem
  | .token t => .token (t.move m)
  | .error e => .error (e.move m)

namespace Cursor

/-- A cursor over a text that stands further down in a longer one, before `tail`. -/
def embed (lines offset : Nat) (tail : List Char) (cursor : Cursor) : Cursor :=
  ⟨cursor.rest ++ tail, cursor.offset + offset, cursor.line + lines, cursor.lineStart + offset⟩

variable {lines offset : Nat} {tail : List Char}

theorem rest_pass (cursor : Cursor) (c : Char) (rest : List Char) :
    (cursor.pass c rest).rest = rest := by
  unfold pass
  split <;> rfl

theorem embed_pass (cursor : Cursor) (c : Char) (rest : List Char) :
    (cursor.embed lines offset tail).pass c (rest ++ tail) =
      (cursor.pass c rest).embed lines offset tail := by
  unfold pass embed
  split
  · simp only [Cursor.mk.injEq, true_and]
    omega
  · simp only [Cursor.mk.injEq, true_and, and_true]
    omega

theorem advance_embed (count : Nat) (cursor : Cursor) (h : count ≤ cursor.rest.length) :
    (cursor.embed lines offset tail).advance count =
      (cursor.advance count).embed lines offset tail := by
  induction count generalizing cursor with
  | zero => rfl
  | succ count ih =>
    cases hrest : cursor.rest with
    | nil => simp [hrest] at h
    | cons c rest =>
      have hembed : (cursor.embed lines offset tail).rest = c :: (rest ++ tail) := by
        rw [embed, hrest, List.cons_append]
      rw [hrest, List.length_cons] at h
      have hle : count ≤ (cursor.pass c rest).rest.length := by
        rw [rest_pass]
        omega
      rw [advance, advance, hembed, hrest]
      simp only
      rw [embed_pass, ih _ hle]

theorem column_embed (cursor : Cursor) :
    (cursor.embed lines offset tail).column = cursor.column := by
  simp only [column, embed]
  omega

theorem itemAt?_embed (file file' : Int) (start stop : Cursor) (length : Nat)
    (hlength : length ≤ start.rest.length) (lexeme : Lexeme) :
    itemAt? file' (start.embed lines offset tail) (stop.embed lines offset tail) length lexeme =
      (itemAt? file start stop length lexeme).map (.move (.shift file' lines offset)) := by
  have hspan : Span.ofLength file' (start.offset + offset) length =
      (Move.shift file' lines offset).span (.ofLength file start.offset length) := by
    simp only [Move.shift, Span.ofLength, Span.mk.injEq, true_and]
    omega
  have htake : (start.rest ++ tail).take length = start.rest.take length :=
    List.take_append_of_le_length hlength
  have hcolumn : (start.embed lines offset tail).column = start.column := column_embed start
  cases lexeme with
  | gap => rfl
  | token kind =>
    simp only [itemAt?, Option.map_some, ScanItem.move, Token.move]
    rw [hcolumn, ← hspan]
    simp only [embed, htake]
    rfl
  | stray c =>
    simp only [itemAt?, embed]
    rw [hspan]
    rfl
  | unterminated =>
    simp only [itemAt?, embed]
    rw [hspan]
    rfl

theorem scanAll_of_step {file : Int} {cursor stop : Cursor} {item : Option ScanItem}
    (h : cursor.step file = some (item, stop)) :
    cursor.scanAll file = (item.toList ++ (stop.scanAll file).1, (stop.scanAll file).2) := by
  rw [scanAll]
  split
  · rename_i hnone
    rw [hnone] at h
    cases h
  · rename_i item' stop' hsome
    rw [hsome] at h
    cases h
    rfl

theorem scanAll_of_step_eq_none {file : Int} {cursor : Cursor} (h : cursor.step file = none) :
    cursor.scanAll file = ([], cursor) := by
  rw [scanAll]
  split
  · rfl
  · rename_i hsome
    rw [hsome] at h
    cases h

theorem scanAll_of_rest_eq_nil {file : Int} {cursor : Cursor} (h : cursor.rest = []) :
    cursor.scanAll file = ([], cursor) := by
  apply scanAll_of_step_eq_none
  rw [step, h]

theorem rest_scanAll (file : Int) (cursor : Cursor) : (cursor.scanAll file).2.rest = [] := by
  fun_induction Cursor.scanAll file cursor with
  | case1 cursor hstep =>
    unfold step at hstep
    cases hrest : cursor.rest with
    | nil => rfl
    | cons c text => simp [hrest] at hstep
  | case2 cursor item stop hstep _ items last heq ih =>
    rw [heq] at ih
    exact ih

/-- An open string is reported. -/
theorem unterminated_of_step {file : Int} {cursor stop : Cursor} {item : Option ScanItem} {c : Char}
    {text : List Char} (hrest : cursor.rest = c :: text)
    (h : cursor.step file = some (item, stop)) (hclean : item.bind ScanItem.error? = none) :
    (lexeme c text).lexeme ≠ .unterminated := by
  intro hopen
  simp only [step, hrest, hopen, itemAt?, Option.some.injEq, Prod.mk.injEq] at h
  rw [← h.1] at hclean
  cases hclean

theorem step_embed {file : Int} (file' : Int) {cursor stop : Cursor} {item : Option ScanItem}
    (h : cursor.step file = some (item, stop)) (hclean : item.bind ScanItem.error? = none)
    (htail : BreaksLine tail) :
    (cursor.embed lines offset tail).step file' =
      some (item.map (.move (.shift file' lines offset)), stop.embed lines offset tail) := by
  cases hrest : cursor.rest with
  | nil => simp [step, hrest] at h
  | cons c text =>
    have hsame := lexeme_append (unterminated_of_step hrest h hclean) htail
    have hembed : (cursor.embed lines offset tail).rest = c :: (text ++ tail) := by
      rw [embed, hrest, List.cons_append]
    have hle : (lexeme c text).extra + 1 ≤ cursor.rest.length := by
      rw [hrest, List.length_cons]
      exact Nat.succ_le_succ (extra_lexeme_le c text)
    simp only [step, hrest, Option.some.injEq, Prod.mk.injEq] at h
    obtain ⟨hitem, hstop⟩ := h
    simp only [step, hembed, hsame]
    rw [advance_embed _ _ hle, itemAt?_embed file file' _ _ _ hle, hitem, hstop]

/-- A text inside a longer one has the same tokens, further down, and scanning goes on after it. -/
theorem scanAll_embed {file : Int} (file' : Int) {cursor : Cursor}
    (hclean : (cursor.scanAll file).1.filterMap ScanItem.error? = [])
    (htail : BreaksLine tail) :
    (cursor.embed lines offset tail).scanAll file' =
      ((cursor.scanAll file).1.map (.move (.shift file' lines offset)) ++
          (((cursor.scanAll file).2.embed lines offset tail).scanAll file').1,
        (((cursor.scanAll file).2.embed lines offset tail).scanAll file').2) := by
  fun_induction Cursor.scanAll file cursor with
  | case1 cursor hstep => rfl
  | case2 cursor item stop hstep _ items last heq ih =>
    rw [heq] at ih
    rw [List.filterMap_append, List.append_eq_nil_iff] at hclean
    have hitem : item.bind ScanItem.error? = none := by
      cases item with
      | none => rfl
      | some item => simpa using hclean.1
    rw [scanAll_of_step (step_embed file' hstep hitem htail), ih hclean.2]
    cases item <;> simp

/-- A line feed is a gap. -/
theorem step_newline (file : Int) (text : List Char) (offset line lineStart : Nat) :
    step file ⟨'\n' :: text, offset, line, lineStart⟩ =
      some (none, ⟨text, offset + 1, line + 1, offset + 1⟩) := rfl

end Cursor

theorem filterMap_token?_move (m : Move) (items : List ScanItem) :
    (items.map (.move m)).filterMap ScanItem.token? =
      (items.filterMap ScanItem.token?).map (Token.move m) := by
  induction items with
  | nil => rfl
  | cons item items ih =>
    cases item <;> simp [ScanItem.move, ScanItem.token?, ih, List.filterMap_cons]

theorem filterMap_error?_move (m : Move) (items : List ScanItem) :
    (items.map (.move m)).filterMap ScanItem.error? =
      (items.filterMap ScanItem.error?).map (LexicalError.move m) := by
  induction items with
  | nil => rfl
  | cons item items ih =>
    cases item <;> simp [ScanItem.move, ScanItem.error?, ih, List.filterMap_cons]

/-- The tokens of a text without lexical errors are the same in another file. -/
theorem scan_refile {own : Int} (file : Int) {text : String} (h : (scan own text).errors = []) :
    (scan file text).errors = [] ∧
      (scan file text).tokens = (scan own text).tokens.map (Token.move (.shift file 0 0)) := by
  let start : Cursor := ⟨text.toList, 0, 1, 0⟩
  have hclean : (start.scanAll own).1.filterMap ScanItem.error? = [] := h
  have hstart : start.embed 0 0 [] = start := by simp [start, Cursor.embed]
  have hend : ((start.scanAll own).2.embed 0 0 []).scanAll file =
      ([], (start.scanAll own).2.embed 0 0 []) := by
    apply Cursor.scanAll_of_rest_eq_nil
    rw [Cursor.embed, start.rest_scanAll own, List.nil_append]
  have hitems : (scan file text).items =
      (start.scanAll own).1.map (.move (.shift file 0 0)) := by
    have hscan : (scan file text).items = ((start.embed 0 0 []).scanAll file).1 := by
      rw [hstart]
      rfl
    rw [hscan, Cursor.scanAll_embed file hclean breaksLine_nil, hend, List.append_nil]
    rfl
  unfold Scan.errors Scan.tokens
  rw [hitems, filterMap_token?_move, filterMap_error?_move, hclean]
  exact ⟨rfl, rfl⟩

/-- Where the second of two texts stands that are joined by a line feed. -/
def Move.after (file : Int) (first : Scan) : Move :=
  .shift file first.endToken.line (first.endToken.span.start + 1)

/-- The tokens of two texts without lexical errors that are joined by a line feed are those of the
first, and then those of the second, further down. -/
theorem scan_join (file own own' : Int) {text text' : String} (h : (scan own text).errors = [])
    (h' : (scan own' text').errors = []) :
    (scan file (text ++ "\n" ++ text')).errors = [] ∧
      (scan file (text ++ "\n" ++ text')).tokens =
        (scan own text).tokens.map (Token.move (.shift file 0 0)) ++
          (scan own' text').tokens.map (Token.move (.after file (scan own text))) := by
  let start : Cursor := ⟨text.toList, 0, 1, 0⟩
  let start' : Cursor := ⟨text'.toList, 0, 1, 0⟩
  have hclean : (start.scanAll own).1.filterMap ScanItem.error? = [] := h
  have hclean' : (start'.scanAll own').1.filterMap ScanItem.error? = [] := h'
  let last := (start.scanAll own).2
  have hjoined : (⟨(text ++ "\n" ++ text').toList, 0, 1, 0⟩ : Cursor) =
      start.embed 0 0 ('\n' :: text'.toList) := by
    simp [start, Cursor.embed]
  -- the line feed between the texts leaves the cursor at the start of the second
  have hnewline : (last.embed 0 0 ('\n' :: text'.toList)).step file =
      some (none, start'.embed last.line (last.offset + 1) []) := by
    have hrest : last.rest = [] := start.rest_scanAll own
    rw [Cursor.embed, hrest, List.nil_append, Cursor.step_newline]
    simp only [start', Cursor.embed, List.append_nil, Option.some.injEq, Prod.mk.injEq,
      Cursor.mk.injEq, true_and]
    omega
  have hmove : Move.shift file last.line (last.offset + 1 : Nat) =
      Move.after file (scan own text) := rfl
  have hsecond : ((start'.scanAll own').2.embed last.line (last.offset + 1) []).scanAll file =
      ([], (start'.scanAll own').2.embed last.line (last.offset + 1) []) := by
    apply Cursor.scanAll_of_rest_eq_nil
    rw [Cursor.embed, start'.rest_scanAll own', List.nil_append]
  have hitems : (scan file (text ++ "\n" ++ text')).items =
      (start.scanAll own).1.map (.move (.shift file 0 0)) ++
        (start'.scanAll own').1.map (.move (.after file (scan own text))) := by
    have hscan : (scan file (text ++ "\n" ++ text')).items =
        ((start.embed 0 0 ('\n' :: text'.toList)).scanAll file).1 := by
      rw [← hjoined]
      rfl
    rw [hscan, Cursor.scanAll_embed file hclean (breaksLine_newline _),
      Cursor.scanAll_of_step hnewline, Cursor.scanAll_embed file hclean' breaksLine_nil, hsecond,
      hmove]
    simp only [Option.toList_none, List.nil_append, List.append_nil]
    rfl
  unfold Scan.errors Scan.tokens
  rw [hitems]
  simp only [List.filterMap_append, filterMap_token?_move, filterMap_error?_move]
  rw [hclean, hclean']
  exact ⟨rfl, rfl⟩

end Treewalk
