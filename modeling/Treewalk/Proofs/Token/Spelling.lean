import Treewalk.Proofs.Token.Places

/-!
# The kind of a token is in its lexeme

A token is recognised by the characters that it takes: alone, they are recognised as the same
token. So two tokens with one lexeme are of one kind, with one value if they are literals.
-/

namespace Treewalk

/-! ### The characters of a token, alone -/

/-- A run of characters stays the same if the text is cut somewhere behind it. -/
theorem takeWhile_take_of_le {p : Char → Bool} {text : List Char} {count : Nat}
    (h : (text.takeWhile p).length ≤ count) : (text.take count).takeWhile p = text.takeWhile p := by
  rw [← List.take_takeWhile, List.take_of_length_le h]

theorem takeWhile_take_length (p : Char → Bool) (text : List Char) :
    text.take (text.takeWhile p).length = text.takeWhile p :=
  (List.prefix_iff_eq_take.mp (List.takeWhile_prefix p)).symm

/-- The characters that a recogniser takes for a token are all that it needs. -/
def SelfContained (recogniser : List Char → Recognised) : Prop :=
  ∀ (text : List Char) (kind : TokenKind), (recogniser text).lexeme = .token kind →
    recogniser (text.take (recogniser text).extra) = recogniser text

/-- A test that does not look at the text keeps a recogniser self-contained. -/
theorem SelfContained.ite (c : Prop) [Decidable c] {r r' : List Char → Recognised}
    (h : SelfContained r) (h' : SelfContained r') :
    SelfContained fun text => if c then r text else r' text := by
  by_cases hc : c
  · simpa only [if_pos hc] using h
  · simpa only [if_neg hc] using h'

theorem selfContained_const (recognised : Recognised) : SelfContained fun _ => recognised :=
  fun _ _ _ => rfl

theorem selfContained_operatorLexeme (alone withEqual : TokenKind) :
    SelfContained (operatorLexeme alone withEqual) := by
  intro text kind _
  cases text with
  | nil => rfl
  | cons c text =>
    by_cases h : c = '='
    · subst h
      rfl
    · simp [operatorLexeme, h]

theorem selfContained_slashLexeme : SelfContained slashLexeme := by
  intro text kind h
  cases text with
  | nil => rfl
  | cons c text =>
    by_cases hcomment : c = '/'
    · subst hcomment
      cases h
    · simp [slashLexeme, hcomment]

theorem selfContained_stringLexeme : SelfContained stringLexeme := by
  intro text kind h
  by_cases hclosed : runLength (· != Text.doubleQuote) text < text.length
  · have hstring : stringLexeme text =
        ⟨.token (.string (String.ofList (text.take (runLength (· != Text.doubleQuote) text)))),
          runLength (· != Text.doubleQuote) text + 1⟩ := if_pos hclosed
    -- the closing quote is kept, so the cut text has the same run and one character more
    have hrun : runLength (· != Text.doubleQuote)
        (text.take (runLength (· != Text.doubleQuote) text + 1)) =
        runLength (· != Text.doubleQuote) text :=
      congrArg List.length (takeWhile_take_of_le (Nat.le_succ _))
    rw [hstring]
    simp only [stringLexeme, hrun, List.length_take, List.take_take]
    rw [if_pos (by omega), Nat.min_eq_left (Nat.le_succ _)]
  · have hopen : stringLexeme text =
        ⟨.unterminated, runLength (· != Text.doubleQuote) text⟩ := if_neg hclosed
    rw [hopen] at h
    cases h

/-- A number with a fraction. -/
theorem numberLexeme_of_fraction (first : Char) {text rest : List Char} {digit : Char}
    (hafter : text.drop (text.takeWhile isDigit).length = '.' :: digit :: rest)
    (hdigit : isDigit digit = true) :
    numberLexeme first text =
      ⟨.token (.number (Number.readDigits (first :: text.takeWhile isDigit)
        (digit :: rest.takeWhile isDigit))),
        (text.takeWhile isDigit).length + 1 + (digit :: rest.takeWhile isDigit).length⟩ := by
  simp only [numberLexeme, hafter, hdigit, if_true]

/-- A number without a fraction. -/
theorem numberLexeme_of_whole (first : Char) {text : List Char}
    (h : ∀ digit rest, text.drop (text.takeWhile isDigit).length = '.' :: digit :: rest →
      isDigit digit = false) :
    numberLexeme first text =
      ⟨.token (.number (Number.readDigits (first :: text.takeWhile isDigit) [])),
        (text.takeWhile isDigit).length⟩ := by
  unfold numberLexeme
  simp only
  split
  · rename_i digit rest hafter
    rw [if_neg (by rw [h digit rest hafter]; exact Bool.false_ne_true)]
  · rfl

theorem selfContained_numberLexeme (first : Char) : SelfContained (numberLexeme first) := by
  intro text kind _
  by_cases h : ∃ digit rest,
      text.drop (text.takeWhile isDigit).length = '.' :: digit :: rest ∧ isDigit digit = true
  · obtain ⟨digit, rest, hafter, hdigit⟩ := h
    have hnumber := numberLexeme_of_fraction first hafter hdigit
    rw [hnumber]
    simp only
    generalize hcount : (text.takeWhile isDigit).length + 1 +
      (digit :: rest.takeWhile isDigit).length = count at hnumber ⊢
    have hwhole : (text.take count).takeWhile isDigit = text.takeWhile isDigit :=
      takeWhile_take_of_le (by omega)
    -- the digits of the fraction are kept, and nothing after them
    have hfraction : (text.take count).drop ((text.take count).takeWhile isDigit).length =
        '.' :: digit :: rest.takeWhile isDigit := by
      have hcut : count - (text.takeWhile isDigit).length =
          (rest.takeWhile isDigit).length + 1 + 1 := by
        rw [List.length_cons] at hcount
        omega
      rw [hwhole, List.drop_take, hafter, hcut, List.take_succ_cons, List.take_succ_cons,
        takeWhile_take_length]
    have hagain : (rest.takeWhile isDigit).takeWhile isDigit = rest.takeWhile isDigit := by
      have hcut := takeWhile_take_of_le (Nat.le_refl (rest.takeWhile isDigit).length)
      rwa [takeWhile_take_length] at hcut
    rw [numberLexeme_of_fraction first hfraction hdigit, hwhole, hagain, hcount]
  · have hnumber : numberLexeme first text = _ :=
      numberLexeme_of_whole first fun digit rest hafter =>
        Bool.eq_false_iff.mpr fun hdigit => h ⟨digit, rest, hafter, hdigit⟩
    have hwhole : (text.take (text.takeWhile isDigit).length).takeWhile isDigit =
        text.takeWhile isDigit := takeWhile_take_of_le (Nat.le_refl _)
    rw [hnumber]
    simp only
    -- nothing is left after the digits
    rw [numberLexeme_of_whole first, hwhole]
    intro digit rest hafter
    rw [hwhole, List.drop_take, Nat.sub_self, List.take_zero] at hafter
    cases hafter

theorem selfContained_wordLexeme (first : Char) : SelfContained (wordLexeme first) := by
  intro text kind _
  have hextra : (wordLexeme first text).extra = (text.takeWhile isWordPart).length := by
    unfold wordLexeme
    simp only
    cases Keyword.ofWord? (String.ofList (first :: text.takeWhile isWordPart)) <;> rfl
  unfold wordLexeme at hextra ⊢
  simp only at hextra ⊢
  rw [hextra, takeWhile_take_of_le (Nat.le_refl _)]

/-- The characters of a token, alone, are recognised as that token. -/
theorem selfContained_lexeme (c : Char) : SelfContained (lexeme c) := by
  unfold lexeme
  cases singleKind? c with
  | some kind => exact selfContained_const ⟨.token kind, 0⟩
  | none =>
    have hword : SelfContained fun text =>
        if isWordStart c then wordLexeme c text else ⟨.stray c, 0⟩ :=
      .ite _ (selfContained_wordLexeme c) (selfContained_const _)
    have hliteral := SelfContained.ite (c = Text.doubleQuote) selfContained_stringLexeme
      (.ite (isDigit c = true) (selfContained_numberLexeme c) hword)
    have hslash := SelfContained.ite (c = '/') selfContained_slashLexeme
      (.ite (c = ' ' ∨ c = '\r' ∨ c = '\t' ∨ c = '\n') (selfContained_const ⟨.gap, 0⟩) hliteral)
    exact .ite _ (selfContained_operatorLexeme _ _) (.ite _ (selfContained_operatorLexeme _ _)
      (.ite _ (selfContained_operatorLexeme _ _) (.ite _ (selfContained_operatorLexeme _ _)
        hslash)))

/-! ### Tokens of texts -/

/-- The kind of the token that a text spells, if it is one token and no more. -/
def spelledKind? (text : String) : Option TokenKind :=
  match text.toList with
  | [] => none
  | c :: rest =>
    match (lexeme c rest).lexeme with
    | .token kind => some kind
    | .gap | .stray _ | .unterminated => none

/-- The lexeme of a token spells its kind. -/
theorem spelledKind?_lexeme {file : Int} {text : String} {t : Token}
    (h : t ∈ (scan file text).tokens) : spelledKind? t.lexeme = some t.kind := by
  obtain ⟨_, _, hstep⟩ := step_of_mem_scan h
  obtain ⟨_, _, c, text, extra, hlexeme, hspelled⟩ := Cursor.token_of_step hstep
  have hkind : (lexeme c text).lexeme = .token t.kind := by rw [hlexeme]
  have halone : (lexeme c (text.take extra)).lexeme = .token t.kind := by
    have hextra : (lexeme c text).extra = extra := by rw [hlexeme]
    rw [← hextra, selfContained_lexeme c text t.kind hkind, hkind]
  simp only [spelledKind?, hspelled, String.toList_ofList, halone]

end Treewalk
