import Treewalk.Proofs.Token.Tiling

/-!
# Scanning lexemes again

A space ends every token: nothing that the lexical rules spell goes on from the characters of a
token with a space. So each token of a text can be taken out of its context. Set apart by single
spaces, the lexemes of a text are scanned as the tokens of the text again.
-/

namespace Treewalk

/-! ### A space ends a token -/

/-- A string without an end spells no token. -/
theorem Spells.quote_mem_of_token {kind : TokenKind} {rest : List Char}
    (h : Spells (.token kind) (Text.doubleQuote :: rest)) : Text.doubleQuote ∈ rest := by
  apply Classical.byContradiction
  intro hopen
  exact not_spells_of_open hopen (List.prefix_refl _) h

/-- Two slashes spell no token. -/
theorem Spells.not_token_of_slashes {kind : TokenKind} {rest : List Char} :
    ¬ Spells (.token kind) ('/' :: '/' :: rest) := by
  intro h
  have hgap : (lexeme '/' ('/' :: rest)).lexeme = .gap := rfl
  rw [h.lexeme_eq] at hgap
  cases hgap

/-- A space stands in no symbol. -/
theorem space_notMem_of_mem_symbols {kind : TokenKind} {chars : List Char}
    (h : (kind, chars) ∈ symbols) : ' ' ∉ chars := by
  have hnone : symbols.all (fun symbol => !symbol.2.elem ' ') = true := by decide
  have hfalse := List.all_eq_true.mp hnone _ h
  simpa using hfalse

/-- A space stands in no word. -/
theorem space_notMem_of_word {first : Char} {rest : List Char} (hfirst : isWordStart first = true)
    (hrest : ∀ c ∈ rest, isWordPart c = true) : ' ' ∉ first :: rest := by
  intro hmem
  rcases List.mem_cons.mp hmem with rfl | hmem
  · exact absurd hfirst (by decide)
  · exact absurd (hrest _ hmem) (by decide)

/-- Nothing is spelled by a token, a space and whatever follows. -/
theorem Spells.not_append_space {kind : TokenKind} {chars : List Char}
    (h : Spells (.token kind) chars) (other : Lexeme) (more : List Char) :
    ¬ Spells other (chars ++ ' ' :: more) := by
  intro hlonger
  have hspace : ' ' ∈ chars ++ ' ' :: more := List.mem_append_right _ List.mem_cons_self
  obtain ⟨c, rest, rfl⟩ := List.exists_cons_of_ne_nil h.ne_nil
  generalize hchars : c :: rest ++ ' ' :: more = longer at hlonger hspace
  cases hlonger with
  | symbol hsymbol => exact space_notMem_of_mem_symbols hsymbol hspace
  | @string body hbody =>
    -- the token would be a string that ends before the only quote that could end it
    obtain ⟨rfl, hrest⟩ := List.cons.inj hchars
    change rest ++ ' ' :: more = body ++ [Text.doubleQuote] at hrest
    have hbegins : rest <+: body := by
      refine List.prefix_of_prefix_length_le ⟨_, hrest⟩ (List.prefix_append body _) ?_
      have hlength := congrArg List.length hrest
      simp only [List.length_append, List.length_cons, List.length_nil] at hlength
      omega
    exact hbody (hbegins.subset h.quote_mem_of_token)
  | whole hfirst hdigits =>
    rcases List.mem_cons.mp hspace with rfl | hmem
    · exact absurd hfirst (by decide)
    · exact absurd (hdigits _ hmem) (by decide)
  | fraction hfirst hdigits hnext hmore =>
    simp only [List.mem_cons, List.mem_append] at hspace
    rcases hspace with rfl | hmem | hmem | rfl | hmem
    · exact absurd hfirst (by decide)
    · exact absurd (hdigits _ hmem) (by decide)
    · exact absurd hmem (by decide)
    · exact absurd hnext (by decide)
    · exact absurd (hmore _ hmem) (by decide)
  | keyword word =>
    obtain ⟨first, letters, hword, hfirst, hletters⟩ := word.word_spec
    rw [hword] at hspace
    exact space_notMem_of_word hfirst hletters hspace
  | identifier hfirst hrest => exact space_notMem_of_word hfirst hrest hspace
  | blank =>
    have hnil := (List.cons.inj hchars).2
    simp at hnil
  | @comment body =>
    obtain ⟨rfl, hrest⟩ := List.cons.inj hchars
    cases rest with
    | nil => exact absurd (List.cons.inj hrest).1 (by decide)
    | cons d rest =>
      obtain ⟨rfl, _⟩ := List.cons.inj hrest
      exact not_token_of_slashes h

/-- A text that is empty or starts with a space. -/
def SetApart (text : List Char) : Prop := ∀ c rest, text = c :: rest → c = ' '

/-- Before a space and at the end, the characters of a token are the longest beginning that spells
something. -/
theorem Spells.longest_setApart {kind : TokenKind} {chars : List Char}
    (h : Spells (.token kind) chars) {after : List Char} (hafter : SetApart after) :
    Longest (.token kind) chars (chars ++ after) := by
  refine ⟨List.prefix_append _ _, h, fun other longer hbegins hlonger => ?_⟩
  apply Nat.le_of_not_lt
  intro hlength
  obtain ⟨extra, rfl⟩ := List.prefix_of_prefix_length_le (List.prefix_append chars after) hbegins
    (Nat.le_of_lt hlength)
  cases extra with
  | nil => simp at hlength
  | cons c extra =>
    obtain ⟨more, rfl⟩ := (List.prefix_append_right_inj chars).mp hbegins
    obtain rfl := hafter c _ rfl
    exact h.not_append_space other extra hlonger

/-! ### Lexemes that are set apart -/

/-- A token without its place: its kind, with the value of a literal, and its lexeme. -/
def Token.content (t : Token) : TokenKind × String := (t.kind, t.lexeme)

/-- Lexemes that are set apart by spaces, and a text that is skipped behind them, are tiled by the
tokens of the lexemes. -/
theorem tiles_intercalate (file : Int) {words : List Token}
    (hwords : ∀ word ∈ words, Spells (.token word.kind) word.lexeme.toList) {tail : List Char}
    (hskipped : Skipped [] tail) (htail : SetApart tail) (start : Nat) :
    ∃ tokens : List Token,
      Tiles file start ([' '].intercalate (words.map (·.lexeme.toList)) ++ tail)
          (tokens.map .token) ∧
        tokens.map Token.content = words.map Token.content := by
  induction words generalizing start with
  | nil => exact ⟨[], .last hskipped, rfl⟩
  | cons word words ih =>
    obtain ⟨hword, hothers⟩ := List.forall_mem_cons.mp hwords
    -- what follows the first lexeme: the tail, or a space and the other lexemes
    have hrest : ∃ (rest : List Char) (tokens : List Token),
        [' '].intercalate ((word :: words).map (·.lexeme.toList)) ++ tail =
          word.lexeme.toList ++ rest ∧
        SetApart rest ∧
        Tiles file (start + word.lexeme.toList.length) rest (tokens.map .token) ∧
        tokens.map Token.content = words.map Token.content := by
      cases words with
      | nil => exact ⟨tail, [], by simp, htail, .last hskipped, rfl⟩
      | cons next words =>
        obtain ⟨tokens, htiles, htokens⟩ := ih hothers (start + word.lexeme.toList.length + 1)
        refine ⟨' ' :: ([' '].intercalate ((next :: words).map (·.lexeme.toList)) ++ tail), tokens,
          ?_, fun _ _ h => (List.cons.inj h).1.symm, ?_, htokens⟩
        · rw [List.map_cons, List.map_cons, List.intercalate_cons_cons, List.append_assoc,
            List.append_assoc, List.singleton_append]
        · have hgap := (leads_blank (c := ' ') List.mem_cons_self
            ([' '].intercalate ((next :: words).map (·.lexeme.toList)) ++ tail)).longest_of_gap
          exact .skip hgap htiles
    obtain ⟨rest, tokens, htext, hapart, htiles, htokens⟩ := hrest
    let token : Token :=
      ⟨word.kind, word.lexeme, 0, 0, .ofLength file start word.lexeme.toList.length⟩
    have hshows : Shows file start word.lexeme.toList rest (.token token) := by
      have h : Shows file start word.lexeme.toList rest (.token _) :=
        .token 0 0 (hword.longest_setApart hapart)
      rwa [String.ofList_toList] at h
    refine ⟨token :: tokens, ?_, ?_⟩
    · rw [htext]
      show Tiles file start ([] ++ (word.lexeme.toList ++ rest)) _
      exact .item .nothing hshows htiles
    · rw [List.map_cons, List.map_cons, htokens]
      rfl

/-- The lexeme of a token spells it. -/
theorem spells_of_mem_scan {file : Int} {text : String} {t : Token}
    (h : t ∈ (scan file text).tokens) : Spells (.token t.kind) t.lexeme.toList := by
  have htiles := Cursor.tiles_scanAll file ⟨text.toList, 0, 1, 0⟩
  obtain ⟨_, _, htokens⟩ := htiles.covers List.drop_zero
  obtain ⟨hlexeme, hlongest⟩ := htokens t (mem_filterMap_token?_iff.mp h)
  rw [hlexeme, String.toList_ofList]
  exact hlongest.spells

/-! ### Texts that tokens tile -/

theorem ScanItem.token?_unlined (item : ScanItem) :
    item.unlined.token?.map Token.content = item.token?.map Token.content := by
  cases item with
  | token t => rfl
  | error e => cases e <;> rfl

theorem ScanItem.error?_of_unlined {item : ScanItem} {t : Token}
    (h : item.unlined = (ScanItem.token t).unlined) : item.error? = none := by
  cases item with
  | token => rfl
  | error e => cases e <;> cases h

theorem filterMap_token?_unlined (items : List ScanItem) :
    (items.filterMap ScanItem.token?).map Token.content =
      (items.map ScanItem.unlined).filterMap fun item => item.token?.map Token.content := by
  rw [List.map_filterMap, List.filterMap_map]
  exact congrArg (items.filterMap ·) (funext fun item => item.token?_unlined.symm)

/-- A text that tokens tile is scanned without errors, as those tokens. -/
theorem scan_of_tiles {file : Int} {text : String} {tokens : List Token}
    (h : Tiles file 0 text.toList (tokens.map .token)) :
    (scan file text).errors = [] ∧
      (scan file text).tokens.map Token.content = tokens.map Token.content := by
  have hitems : (tokens.map ScanItem.token).map ScanItem.unlined =
      (scan file text).items.map ScanItem.unlined := h.unlined_eq_scanAll rfl rfl
  constructor
  · refine List.filterMap_eq_nil_iff.mpr fun item hitem => ?_
    have hmem := List.mem_map_of_mem (f := ScanItem.unlined) hitem
    rw [← hitems, List.map_map] at hmem
    obtain ⟨t, _, ht⟩ := List.mem_map.mp hmem
    exact ScanItem.error?_of_unlined ht.symm
  · rw [Scan.tokens, filterMap_token?_unlined, ← hitems, ← filterMap_token?_unlined,
      List.filterMap_map]
    exact congrArg (List.map Token.content) (List.filterMap_some (l := tokens))

/-- A scan without errors that finds what another one found, at whatever places: the kinds, the
lexemes and the values of the literals are the same, up to the end of the text. -/
structure Scan.Repeats (again first : Scan) : Prop where
  clean : again.errors = []
  contents : again.allTokens.map Token.content = first.allTokens.map Token.content

/-- The lexemes of a text, set apart by spaces, before a text that is skipped. -/
theorem scan_lexemes_append (file file' : Int) (text : String) {tail : String}
    (hskipped : Skipped [] tail.toList) (htail : SetApart tail.toList) :
    (scan file' (" ".intercalate ((scan file text).tokens.map Token.lexeme) ++ tail)).Repeats
      (scan file text) := by
  have hwords : ∀ word ∈ (scan file text).tokens, Spells (.token word.kind) word.lexeme.toList :=
    fun _ hword => spells_of_mem_scan hword
  obtain ⟨tokens, htiles, htokens⟩ := tiles_intercalate file' hwords hskipped htail 0
  have htext : (" ".intercalate ((scan file text).tokens.map Token.lexeme) ++ tail).toList =
      [' '].intercalate ((scan file text).tokens.map (·.lexeme.toList)) ++ tail.toList := by
    rw [String.toList_append, String.toList_intercalate, List.map_map]
    rfl
  rw [← htext] at htiles
  obtain ⟨herrors, hcontents⟩ := scan_of_tiles htiles
  refine ⟨herrors, ?_⟩
  rw [Scan.allTokens, Scan.allTokens, List.map_append, List.map_append, hcontents, htokens]
  rfl

/-- The lexemes of a text, set apart by single spaces, are scanned as the tokens of the text again.
It does not matter whether the empty lexeme at the end is set apart as well, nor whether the text
has errors. -/
theorem scan_lexemes (file file' : Int) (text : String) :
    (scan file' (" ".intercalate ((scan file text).tokens.map Token.lexeme))).Repeats
        (scan file text) ∧
      (scan file' (" ".intercalate ((scan file text).allTokens.map Token.lexeme))).Repeats
        (scan file text) := by
  have hbare := scan_lexemes_append file file' text (show Skipped [] "".toList from .nothing)
    (fun c rest h => by cases h)
  rw [String.append_empty] at hbare
  refine ⟨hbare, ?_⟩
  have hlexemes : (scan file text).allTokens.map Token.lexeme =
      (scan file text).tokens.map Token.lexeme ++ [""] := by
    rw [Scan.allTokens, List.map_append]
    rfl
  rw [hlexemes]
  by_cases hempty : (scan file text).tokens.map Token.lexeme = []
  · rw [hempty, String.intercalate_nil] at hbare
    rw [hempty, List.nil_append, String.intercalate_singleton]
    exact hbare
  · -- behind other lexemes, the empty one at the end adds a space
    rw [String.intercalate_append_of_ne_nil hempty (List.cons_ne_nil _ _),
      String.intercalate_singleton, String.append_empty]
    exact scan_lexemes_append file file' text (.blank List.mem_cons_self .nothing)
      fun c rest h => (List.cons.inj h).1.symm

end Treewalk
