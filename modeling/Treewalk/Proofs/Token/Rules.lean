import Mathlib.Data.List.TakeWhile
import Treewalk.Proofs.Token.Join
import Treewalk.Proofs.Token.Spelling

/-!
# Lexical rules

Which characters spell which lexeme, said apart from scanning: the symbols in a table, strings,
numbers with or without a fraction, keywords, identifiers, blanks and comments. What stands at the
head of a text is the longest beginning that spells something. If nothing can begin with the first
character, that character is astray, and a quote that no other quote follows opens a string without
an end.
-/

namespace Treewalk

/-! ### The rules -/

/-- The tokens that have one spelling and are no words. -/
def symbols : List (TokenKind × List Char) :=
  [(.leftParen, ['(']), (.rightParen, [')']), (.leftBrace, ['\x7b']), (.rightBrace, ['\x7d']),
    (.comma, [',']), (.dot, ['.']), (.minus, ['-']), (.plus, ['+']), (.semicolon, [';']),
    (.slash, ['/']), (.star, ['*']), (.bang, ['!']), (.bangEqual, ['!', '=']), (.equal, ['=']),
    (.equalEqual, ['=', '=']), (.greater, ['>']), (.greaterEqual, ['>', '=']), (.less, ['<']),
    (.lessEqual, ['<', '='])]

/-- The blanks and line ends. -/
def blankChars : List Char := [' ', '\t', '\r', '\n']

/-- The characters that a lexeme may have. -/
inductive Spells : Lexeme → List Char → Prop where
  | symbol {kind : TokenKind} {chars : List Char} (h : (kind, chars) ∈ symbols) :
    Spells (.token kind) chars
  | string {body : List Char} (h : Text.doubleQuote ∉ body) :
    Spells (.token (.string (String.ofList body)))
      (Text.doubleQuote :: (body ++ [Text.doubleQuote]))
  | whole {first : Char} {digits : List Char} (hfirst : isDigit first = true)
    (hdigits : ∀ c ∈ digits, isDigit c = true) :
    Spells (.token (.number (Number.readDigits (first :: digits) []))) (first :: digits)
  | fraction {first next : Char} {digits more : List Char} (hfirst : isDigit first = true)
    (hdigits : ∀ c ∈ digits, isDigit c = true) (hnext : isDigit next = true)
    (hmore : ∀ c ∈ more, isDigit c = true) :
    Spells (.token (.number (Number.readDigits (first :: digits) (next :: more))))
      (first :: (digits ++ '.' :: next :: more))
  | keyword (word : Keyword) : Spells (.token (.keyword word)) word.word.toList
  | identifier {first : Char} {rest : List Char} (hfirst : isWordStart first = true)
    (hrest : ∀ c ∈ rest, isWordPart c = true)
    (hfree : ∀ word : Keyword, word.word.toList ≠ first :: rest) :
    Spells (.token .identifier) (first :: rest)
  | blank {c : Char} (h : c ∈ blankChars) : Spells .gap [c]
  | comment {body : List Char} (h : '\n' ∉ body) : Spells .gap ('/' :: '/' :: body)

/-- The longest beginning of a text that spells something. -/
structure Longest (found : Lexeme) (chars text : List Char) : Prop where
  begins : chars <+: text
  spells : Spells found chars
  longest : ∀ other longer, longer <+: text → Spells other longer → longer.length ≤ chars.length

/-- What stands at the head of a text, and its characters. -/
inductive Leads : List Char → Lexeme → List Char → Prop where
  | longest {text chars : List Char} {found : Lexeme} (h : Longest found chars text) :
    Leads text found chars
  | stray {c : Char} (rest : List Char) (h : ∀ found more, ¬ Spells found (c :: more)) :
    Leads (c :: rest) (.stray c) [c]
  | unterminated {body : List Char} (h : Text.doubleQuote ∉ body) :
    Leads (Text.doubleQuote :: body) .unterminated (Text.doubleQuote :: body)

/-! ### The first character -/

/-- The characters that begin a symbol, a blank, a comment or a string. -/
def leaders : List Char :=
  ['(', ')', '\x7b', '\x7d', ',', '.', '-', '+', ';', '*', '!', '=', '<', '>', '/', ' ', '\r', '\t',
    '\n', Text.doubleQuote]

/-- Any other character begins a number or a word, or nothing. -/
theorem lexeme_of_not_leader {c : Char} (h : c ∉ leaders) (text : List Char) :
    lexeme c text =
      if isDigit c then numberLexeme c text
      else if isWordStart c then wordLexeme c text
      else ⟨.stray c, 0⟩ := by
  have hne : ∀ d ∈ leaders, c ≠ d := fun d hd heq => h (heq ▸ hd)
  have hsingle : singleKind? c = none := by
    unfold singleKind?
    split
    all_goals first | rfl | exact absurd rfl (hne _ (by decide))
  have hblank : ¬ (c = ' ' ∨ c = '\r' ∨ c = '\t' ∨ c = '\n') := by
    rintro (hc | hc | hc | hc) <;> exact hne _ (by decide) hc
  simp only [lexeme, hsingle, if_neg (hne '!' (by decide)), if_neg (hne '=' (by decide)),
    if_neg (hne '<' (by decide)), if_neg (hne '>' (by decide)), if_neg (hne '/' (by decide)),
    if_neg hblank, if_neg (hne Text.doubleQuote (by decide))]

theorem lexeme_of_isDigit {c : Char} (h : isDigit c = true) (text : List Char) :
    lexeme c text = numberLexeme c text := by
  have hleader : c ∉ leaders := by
    intro hc
    have hnone : leaders.all (fun d => !isDigit d) = true := by decide
    have hfalse := List.all_eq_true.mp hnone c hc
    simp [h] at hfalse
  rw [lexeme_of_not_leader hleader, if_pos h]

theorem isDigit_of_isWordStart {c : Char} (h : isWordStart c = true) : isDigit c = false := by
  simp only [isWordStart, Bool.or_eq_true, Bool.and_eq_true, decide_eq_true_eq, beq_iff_eq,
    Char.le_def] at h
  simp only [isDigit, Bool.and_eq_false_iff, decide_eq_false_iff_not, Char.le_def]
  -- letters and the underscore come after the digits
  right
  rcases h with (⟨hle, _⟩ | ⟨hle, _⟩) | rfl
  · exact fun hdigit => absurd (UInt32.le_trans hle hdigit) (by decide)
  · exact fun hdigit => absurd (UInt32.le_trans hle hdigit) (by decide)
  · decide

theorem lexeme_of_isWordStart {c : Char} (h : isWordStart c = true) (text : List Char) :
    lexeme c text = wordLexeme c text := by
  have hleader : c ∉ leaders := by
    intro hc
    have hnone : leaders.all (fun d => !isWordStart d) = true := by decide
    have hfalse := List.all_eq_true.mp hnone c hc
    simp [h] at hfalse
  have hdigit : ¬ isDigit c = true := by
    rw [isDigit_of_isWordStart h]
    exact Bool.false_ne_true
  rw [lexeme_of_not_leader hleader, if_neg hdigit, if_pos h]

/-! ### Characters that spell a lexeme -/

/-- The characters before a quote are those of a string. -/
theorem stringLexeme_of_closed {body : List Char} (h : Text.doubleQuote ∉ body)
    (more : List Char) :
    stringLexeme (body ++ Text.doubleQuote :: more) =
      ⟨.token (.string (String.ofList body)), body.length + 1⟩ := by
  have hbody : ∀ c ∈ body, (c != Text.doubleQuote) = true := by
    intro c hc
    exact bne_iff_ne.mpr fun heq => h (heq ▸ hc)
  have hrun : runLength (· != Text.doubleQuote) (body ++ Text.doubleQuote :: more) =
      body.length := by
    rw [runLength, List.takeWhile_append_of_pos hbody, List.takeWhile_cons_of_neg (by decide),
      List.append_nil]
  have hlonger : body.length < (body ++ Text.doubleQuote :: more).length := by simp
  simp only [stringLexeme, hrun]
  rw [if_pos hlonger, List.take_left]

/-- Without another quote a string has no end. -/
theorem stringLexeme_of_open {body : List Char} (h : Text.doubleQuote ∉ body) :
    stringLexeme body = ⟨.unterminated, body.length⟩ := by
  have hbody : ∀ c ∈ body, (c != Text.doubleQuote) = true := by
    intro c hc
    exact bne_iff_ne.mpr fun heq => h (heq ▸ hc)
  have hrun : runLength (· != Text.doubleQuote) body = body.length := by
    rw [runLength, List.takeWhile_eq_self_iff.mpr hbody]
  simp only [stringLexeme, hrun, Nat.lt_irrefl, if_false]

/-- Digits, a point and further digits begin a number that takes all of them. -/
theorem numberLexeme_of_point (first : Char) {next : Char} {digits : List Char}
    (hdigits : ∀ c ∈ digits, isDigit c = true) (hnext : isDigit next = true) (more : List Char) :
    numberLexeme first (digits ++ '.' :: next :: more) =
      ⟨.token (.number (Number.readDigits (first :: digits) (next :: more.takeWhile isDigit))),
        digits.length + 1 + (next :: more.takeWhile isDigit).length⟩ := by
  have hwhole : (digits ++ '.' :: next :: more).takeWhile isDigit = digits := by
    rw [List.takeWhile_append_of_pos hdigits, List.takeWhile_cons_of_neg (by decide),
      List.append_nil]
  have hafter : (digits ++ '.' :: next :: more).drop
      ((digits ++ '.' :: next :: more).takeWhile isDigit).length = '.' :: next :: more := by
    rw [hwhole, List.drop_left]
  rw [numberLexeme_of_fraction first hafter hnext, hwhole]

theorem extra_wordLexeme (first : Char) (text : List Char) :
    (wordLexeme first text).extra = (text.takeWhile isWordPart).length := by
  unfold wordLexeme
  simp only
  cases Keyword.ofWord? (String.ofList (first :: text.takeWhile isWordPart)) <;> rfl

/-- The spelling of a keyword is a word. -/
theorem Keyword.word_spec (word : Keyword) : ∃ first rest, word.word.toList = first :: rest ∧
    isWordStart first = true ∧ ∀ c ∈ rest, isWordPart c = true := by
  cases word <;> exact ⟨_, _, rfl, rfl, List.all_eq_true.mp rfl⟩

theorem Keyword.ofWord?_word (word : Keyword) : Keyword.ofWord? word.word = some word := by
  cases word <;> decide

theorem Keyword.ofWord?_eq_none_iff (text : List Char) :
    Keyword.ofWord? (String.ofList text) = none ↔
      ∀ word : Keyword, word.word.toList ≠ text := by
  rw [Keyword.ofWord?, List.find?_eq_none]
  constructor
  · intro h word heq
    refine h word (by cases word <;> decide) ?_
    rw [← heq, String.ofList_toList, beq_self_eq_true]
  · intro h word _ heq
    refine h word ?_
    rw [beq_iff_eq.mp heq, String.toList_ofList]

/-- A symbol, alone, is recognised as that symbol, and nothing shorter is before more text. -/
theorem lexeme_symbol {kind : TokenKind} {c : Char} {rest : List Char}
    (h : (kind, c :: rest) ∈ symbols) :
    lexeme c rest = ⟨.token kind, rest.length⟩ ∧
      ∀ more, rest.length ≤ (lexeme c (rest ++ more)).extra := by
  simp only [symbols, List.mem_cons, Prod.mk.injEq, List.cons.injEq, List.not_mem_nil,
    or_false] at h
  rcases h with ⟨rfl, rfl, rfl⟩ | ⟨rfl, rfl, rfl⟩ | ⟨rfl, rfl, rfl⟩ | ⟨rfl, rfl, rfl⟩ |
    ⟨rfl, rfl, rfl⟩ | ⟨rfl, rfl, rfl⟩ | ⟨rfl, rfl, rfl⟩ | ⟨rfl, rfl, rfl⟩ | ⟨rfl, rfl, rfl⟩ |
    ⟨rfl, rfl, rfl⟩ | ⟨rfl, rfl, rfl⟩ | ⟨rfl, rfl, rfl⟩ | ⟨rfl, rfl, rfl⟩ | ⟨rfl, rfl, rfl⟩ |
    ⟨rfl, rfl, rfl⟩ | ⟨rfl, rfl, rfl⟩ | ⟨rfl, rfl, rfl⟩ | ⟨rfl, rfl, rfl⟩ | ⟨rfl, rfl, rfl⟩
  all_goals
    refine ⟨rfl, fun more => ?_⟩
    first | exact Nat.zero_le _ | exact Nat.le_refl 1

/-- Characters that spell a lexeme, alone, are recognised as that lexeme. -/
theorem Spells.lexeme_eq {found : Lexeme} {c : Char} {rest : List Char}
    (h : Spells found (c :: rest)) : lexeme c rest = ⟨found, rest.length⟩ := by
  generalize hchars : c :: rest = chars at h
  cases h with
  | symbol h =>
    obtain rfl := hchars
    exact (lexeme_symbol h).1
  | string h =>
    obtain ⟨rfl, rfl⟩ := List.cons.inj hchars
    have hstring := stringLexeme_of_closed h []
    rw [List.length_append]
    exact hstring
  | @whole first digits hfirst hdigits =>
    obtain ⟨rfl, rfl⟩ := List.cons.inj hchars
    have hself := List.takeWhile_eq_self_iff.mpr hdigits
    rw [lexeme_of_isDigit hfirst, numberLexeme_of_whole, hself]
    intro digit rest' hafter
    rw [hself, List.drop_length] at hafter
    cases hafter
  | @fraction first next digits more hfirst hdigits hnext hmore =>
    obtain ⟨rfl, rfl⟩ := List.cons.inj hchars
    rw [lexeme_of_isDigit hfirst, numberLexeme_of_point c hdigits hnext,
      List.takeWhile_eq_self_iff.mpr hmore]
    simp only [List.length_append, List.length_cons]
    congr 1
    omega
  | keyword word =>
    obtain ⟨first, rest', hword, hfirst, hrest⟩ := word.word_spec
    obtain ⟨rfl, rfl⟩ := List.cons.inj (hchars.trans hword)
    have hspelled : Keyword.ofWord? (String.ofList (c :: rest)) = some word := by
      rw [← hword, String.ofList_toList, word.ofWord?_word]
    simp only [lexeme_of_isWordStart hfirst, wordLexeme, List.takeWhile_eq_self_iff.mpr hrest,
      hspelled]
  | @identifier first rest' hfirst hrest hfree =>
    obtain ⟨rfl, rfl⟩ := List.cons.inj hchars
    have hspelled := (Keyword.ofWord?_eq_none_iff (c :: rest)).mpr hfree
    simp only [lexeme_of_isWordStart hfirst, wordLexeme, List.takeWhile_eq_self_iff.mpr hrest,
      hspelled]
  | blank h =>
    obtain ⟨rfl, rfl⟩ := List.cons.inj hchars
    simp only [blankChars, List.mem_cons, List.not_mem_nil, or_false] at h
    rcases h with rfl | rfl | rfl | rfl <;> rfl
  | @comment body h =>
    obtain ⟨rfl, rfl⟩ := List.cons.inj hchars
    have hbody : ∀ c ∈ body, (c != '\n') = true := by
      intro c hc
      exact bne_iff_ne.mpr fun heq => h (heq ▸ hc)
    have hcomment : lexeme '/' ('/' :: body) = ⟨.gap, 1 + runLength (· != '\n') body⟩ := rfl
    rw [hcomment, runLength, List.takeWhile_eq_self_iff.mpr hbody, List.length_cons, Nat.add_comm]

/-- Every lexeme has a first character. -/
theorem Spells.ne_nil {found : Lexeme} {chars : List Char} (h : Spells found chars) :
    chars ≠ [] := by
  cases h with
  | symbol h =>
    rintro rfl
    simp [symbols] at h
  | keyword word =>
    obtain ⟨first, rest, hword, _⟩ := word.word_spec
    rw [hword]
    exact List.cons_ne_nil _ _
  | string | whole | fraction | identifier | blank | comment => exact List.cons_ne_nil _ _

/-- Characters spell one lexeme at most. -/
theorem Spells.unique {found other : Lexeme} {chars : List Char} (h : Spells found chars)
    (h' : Spells other chars) : found = other := by
  obtain ⟨c, rest, rfl⟩ := List.exists_cons_of_ne_nil h.ne_nil
  exact congrArg Recognised.lexeme (h.lexeme_eq.symm.trans h'.lexeme_eq)

theorem Spells.gap_cases {chars : List Char} (h : Spells .gap chars) :
    (∃ c ∈ blankChars, chars = [c]) ∨ ∃ body, '\n' ∉ body ∧ chars = '/' :: '/' :: body := by
  cases h with
  | blank hc => exact .inl ⟨_, hc, rfl⟩
  | comment hbody => exact .inr ⟨_, hbody, rfl⟩

theorem Leads.ne_nil {text chars : List Char} {found : Lexeme} (h : Leads text found chars) :
    chars ≠ [] := by
  cases h with
  | longest h => exact h.spells.ne_nil
  | stray | unterminated => exact List.cons_ne_nil _ _

/-! ### No spelled beginning is longer -/

theorem length_le_takeWhile {p : Char → Bool} {chars : List Char} (h : ∀ c ∈ chars, p c = true)
    (more : List Char) : chars.length ≤ ((chars ++ more).takeWhile p).length := by
  rw [List.takeWhile_append_of_pos h, List.length_append]
  exact Nat.le_add_right _ _

/-- A run of characters ends where another character stands. -/
theorem takeWhile_append_of_head? {p : Char → Bool} {chars rest : List Char}
    (h : ∀ c ∈ chars, p c = true) (hrest : ∀ c ∈ rest.head?, p c = false) :
    (chars ++ rest).takeWhile p = chars ∧ (chars ++ rest).dropWhile p = rest := by
  rw [List.takeWhile_append_of_pos h, List.dropWhile_append_of_pos h]
  cases rest with
  | nil => exact ⟨List.append_nil _, rfl⟩
  | cons c rest =>
    have hc : ¬ p c = true := by simp [hrest c rfl]
    rw [List.takeWhile_cons_of_neg hc, List.dropWhile_cons_of_neg hc]
    exact ⟨List.append_nil _, rfl⟩

theorem length_takeWhile_le_numberLexeme (first : Char) (text : List Char) :
    (text.takeWhile isDigit).length ≤ (numberLexeme first text).extra := by
  unfold numberLexeme
  simp only
  split
  · split
    · simp only
      omega
    · exact Nat.le_refl _
  · exact Nat.le_refl _

/-- No beginning that spells something is longer than what is recognised. -/
theorem Spells.length_le_lexeme {found : Lexeme} {c : Char} {rest : List Char}
    (h : Spells found (c :: rest)) (more : List Char) :
    rest.length ≤ (lexeme c (rest ++ more)).extra := by
  generalize hchars : c :: rest = chars at h
  cases h with
  | symbol h =>
    obtain rfl := hchars
    exact (lexeme_symbol h).2 more
  | @string body h =>
    obtain ⟨rfl, rfl⟩ := List.cons.inj hchars
    have hstring : lexeme Text.doubleQuote (body ++ Text.doubleQuote :: more) = _ :=
      stringLexeme_of_closed h more
    rw [List.append_assoc, List.singleton_append, hstring, List.length_append]
    exact Nat.le_refl _
  | @whole first digits hfirst hdigits =>
    obtain ⟨rfl, rfl⟩ := List.cons.inj hchars
    rw [lexeme_of_isDigit hfirst]
    exact Nat.le_trans (length_le_takeWhile hdigits more) (length_takeWhile_le_numberLexeme _ _)
  | @fraction first next digits others hfirst hdigits hnext hothers =>
    obtain ⟨rfl, rfl⟩ := List.cons.inj hchars
    have hdecimal : digits ++ '.' :: next :: others ++ more =
        digits ++ '.' :: next :: (others ++ more) := by simp
    have hothers := length_le_takeWhile hothers more
    rw [lexeme_of_isDigit hfirst, hdecimal, numberLexeme_of_point c hdigits hnext]
    simp only [List.length_append, List.length_cons]
    omega
  | keyword word =>
    obtain ⟨first, rest', hword, hfirst, hrest⟩ := word.word_spec
    obtain ⟨rfl, rfl⟩ := List.cons.inj (hchars.trans hword)
    rw [lexeme_of_isWordStart hfirst, extra_wordLexeme]
    exact length_le_takeWhile hrest more
  | @identifier first rest' hfirst hrest hfree =>
    obtain ⟨rfl, rfl⟩ := List.cons.inj hchars
    rw [lexeme_of_isWordStart hfirst, extra_wordLexeme]
    exact length_le_takeWhile hrest more
  | blank h =>
    obtain ⟨rfl, rfl⟩ := List.cons.inj hchars
    exact Nat.zero_le _
  | @comment body h =>
    obtain ⟨rfl, rfl⟩ := List.cons.inj hchars
    have hbody : ∀ c ∈ body, (c != '\n') = true := by
      intro c hc
      exact bne_iff_ne.mpr fun heq => h (heq ▸ hc)
    have hcomment : (lexeme '/' ('/' :: body ++ more)).extra =
        1 + runLength (· != '\n') (body ++ more) := rfl
    have hlength := length_le_takeWhile hbody more
    rw [hcomment, runLength, List.length_cons]
    omega

/-! ### What is recognised is what the rules say -/

/-- What is recognised is spelled, and so it is the longest beginning that is. -/
theorem longest_of_spells {c : Char} {text : List Char}
    (h : Spells (lexeme c text).lexeme (c :: text.take (lexeme c text).extra)) :
    Longest (lexeme c text).lexeme (c :: text.take (lexeme c text).extra) (c :: text) := by
  refine ⟨?_, h, fun other longer hbegins hspells => ?_⟩
  · exact List.cons_prefix_cons.mpr ⟨rfl, List.take_prefix _ _⟩
  · obtain ⟨d, rest, rfl⟩ := List.exists_cons_of_ne_nil hspells.ne_nil
    obtain ⟨rfl, more, rfl⟩ := List.cons_prefix_cons.mp hbegins
    have hle := hspells.length_le_lexeme more
    have hextra := extra_lexeme_le d (rest ++ more)
    rw [List.length_cons, List.length_cons, List.length_take]
    omega

theorem spells_operatorLexeme {alone withEqual : TokenKind} {c : Char}
    (halone : (alone, [c]) ∈ symbols) (hwithEqual : (withEqual, [c, '=']) ∈ symbols)
    (text : List Char) :
    Spells (operatorLexeme alone withEqual text).lexeme
      (c :: text.take (operatorLexeme alone withEqual text).extra) := by
  unfold operatorLexeme
  split
  · exact .symbol hwithEqual
  · exact .symbol halone

theorem spells_slashLexeme (text : List Char) :
    Spells (slashLexeme text).lexeme ('/' :: text.take (slashLexeme text).extra) := by
  unfold slashLexeme
  split
  · rename_i rest
    simp only
    rw [Nat.add_comm, List.take_succ_cons, runLength, takeWhile_take_length]
    exact .comment fun hmem => absurd (List.mem_takeWhile_imp hmem) (by decide)
  · exact (show Spells (.token .slash) ['/'] from .symbol (by simp [symbols]))

theorem spells_numberLexeme {c : Char} (h : isDigit c = true) (text : List Char) :
    Spells (numberLexeme c text).lexeme (c :: text.take (numberLexeme c text).extra) := by
  have hdigits : ∀ (text : List Char), ∀ d ∈ text.takeWhile isDigit, isDigit d = true :=
    fun _ _ => List.mem_takeWhile_imp
  by_cases hpoint : ∃ next more,
      text.drop (text.takeWhile isDigit).length = '.' :: next :: more ∧ isDigit next = true
  · obtain ⟨next, more, hafter, hnext⟩ := hpoint
    have htext : text = text.takeWhile isDigit ++ '.' :: next :: more := by
      have hsplit := List.take_append_drop (text.takeWhile isDigit).length text
      rw [takeWhile_take_length, hafter] at hsplit
      exact hsplit.symm
    rw [numberLexeme_of_fraction c hafter hnext]
    simp only
    -- of the text after the point, the fraction is what the run of digits takes
    have htake : text.take ((text.takeWhile isDigit).length + 1 +
        (next :: more.takeWhile isDigit).length) =
        text.takeWhile isDigit ++ '.' :: next :: more.takeWhile isDigit := by
      generalize text.takeWhile isDigit = digits at htext ⊢
      subst htext
      rw [Nat.add_assoc, List.take_length_add_append, List.length_cons, Nat.add_comm 1,
        List.take_succ_cons, List.take_succ_cons, takeWhile_take_length]
    rw [htake]
    exact .fraction h (hdigits text) hnext (hdigits more)
  · have hwhole : numberLexeme c text = _ :=
      numberLexeme_of_whole c fun next more hafter =>
        Bool.eq_false_iff.mpr fun hnext => hpoint ⟨next, more, hafter, hnext⟩
    rw [hwhole]
    simp only
    rw [takeWhile_take_length]
    exact .whole h (hdigits text)

theorem spells_wordLexeme {c : Char} (h : isWordStart c = true) (text : List Char) :
    Spells (wordLexeme c text).lexeme (c :: text.take (wordLexeme c text).extra) := by
  rw [extra_wordLexeme, takeWhile_take_length]
  unfold wordLexeme
  simp only
  cases hword : Keyword.ofWord? (String.ofList (c :: text.takeWhile isWordPart)) with
  | some word =>
    -- the keyword that was found has the spelling that was looked for
    have hspelled : word.word = String.ofList (c :: text.takeWhile isWordPart) := by
      unfold Keyword.ofWord? at hword
      have hfound := List.find?_some hword
      exact beq_iff_eq.mp hfound
    have hkeyword := Spells.keyword word
    rw [hspelled, String.toList_ofList] at hkeyword
    exact hkeyword
  | none =>
    exact .identifier h (fun _ => List.mem_takeWhile_imp)
      ((Keyword.ofWord?_eq_none_iff _).mp hword)

/-- A string ends at the next quote, or not at all. -/
theorem stringLexeme_leads (text : List Char) :
    Leads (Text.doubleQuote :: text) (stringLexeme text).lexeme
      (Text.doubleQuote :: text.take (stringLexeme text).extra) := by
  by_cases hquote : Text.doubleQuote ∈ text
  · obtain ⟨body, more, rfl, hbody⟩ := List.eq_append_cons_of_mem hquote
    have hstring := stringLexeme_of_closed hbody more
    have hspells : Spells (lexeme Text.doubleQuote (body ++ Text.doubleQuote :: more)).lexeme
        (Text.doubleQuote :: (body ++ Text.doubleQuote :: more).take
          (lexeme Text.doubleQuote (body ++ Text.doubleQuote :: more)).extra) := by
      have hlexeme : lexeme Text.doubleQuote (body ++ Text.doubleQuote :: more) = _ := hstring
      rw [hlexeme, List.take_length_add_append]
      exact .string hbody
    exact .longest (longest_of_spells hspells)
  · rw [stringLexeme_of_open hquote, List.take_length]
    exact .unterminated hquote

/-- What is recognised at the head of a text is what the rules say. -/
theorem lexeme_leads (c : Char) (text : List Char) :
    Leads (c :: text) (lexeme c text).lexeme (c :: text.take (lexeme c text).extra) := by
  by_cases hleader : c ∈ leaders
  · simp only [leaders, List.mem_cons, List.not_mem_nil, or_false] at hleader
    rcases hleader with rfl | rfl | rfl | rfl | rfl | rfl | rfl | rfl | rfl | rfl | rfl | rfl |
      rfl | rfl | rfl | rfl | rfl | rfl | rfl | rfl
    -- symbols that nothing goes on with, then operators, a slash, blanks and a quote
    iterate 10
      exact .longest (longest_of_spells (show Spells (.token _) [_] from
        .symbol (by simp [symbols])))
    iterate 4
      exact .longest (longest_of_spells (spells_operatorLexeme (by simp [symbols])
        (by simp [symbols]) text))
    · exact .longest (longest_of_spells (spells_slashLexeme text))
    iterate 4
      exact .longest (longest_of_spells (show Spells .gap [_] from .blank (by simp [blankChars])))
    · exact stringLexeme_leads text
  · have hlexeme := lexeme_of_not_leader hleader
    by_cases hdigit : isDigit c = true
    · refine .longest (longest_of_spells ?_)
      rw [lexeme_of_isDigit hdigit]
      exact spells_numberLexeme hdigit text
    · by_cases hword : isWordStart c = true
      · refine .longest (longest_of_spells ?_)
        rw [lexeme_of_isWordStart hword]
        exact spells_wordLexeme hword text
      · have hstray : ∀ text, lexeme c text = ⟨.stray c, 0⟩ := by
          intro text
          rw [hlexeme, if_neg hdigit, if_neg hword]
        rw [hstray]
        refine .stray text fun found more hspells => ?_
        -- alone, the character would be recognised as what it begins
        have hfound := hspells.lexeme_eq
        rw [hstray] at hfound
        obtain rfl := congrArg Recognised.lexeme hfound
        cases hspells

/-- Nothing is spelled by the beginning of a string without an end. -/
theorem not_spells_of_open {body chars : List Char} {found : Lexeme}
    (hbody : Text.doubleQuote ∉ body) (hbegins : chars <+: Text.doubleQuote :: body) :
    ¬ Spells found chars := by
  intro hspells
  obtain ⟨c, rest, rfl⟩ := List.exists_cons_of_ne_nil hspells.ne_nil
  obtain ⟨rfl, hrest⟩ := List.cons_prefix_cons.mp hbegins
  have hnone : Text.doubleQuote ∉ rest := fun hmem => hbody (hrest.subset hmem)
  have hlexeme : lexeme Text.doubleQuote rest = _ := stringLexeme_of_open hnone
  obtain rfl := congrArg Recognised.lexeme (hlexeme.symm.trans hspells.lexeme_eq)
  cases hspells

theorem spells_emptyString :
    Spells (.token (.string "")) [Text.doubleQuote, Text.doubleQuote] :=
  Spells.string List.not_mem_nil

/-- The rules put one thing only at the head of a text: what is recognised there. -/
theorem Leads.lexeme_eq {c : Char} {text chars : List Char} {found : Lexeme}
    (h : Leads (c :: text) found chars) :
    found = (lexeme c text).lexeme ∧ chars = c :: text.take (lexeme c text).extra := by
  -- what the rules can say is compared with what is recognised, which they say as well
  have hrecognised := lexeme_leads c text
  generalize (lexeme c text).lexeme = found' at hrecognised ⊢
  generalize c :: text.take (lexeme c text).extra = chars' at hrecognised ⊢
  generalize htext : c :: text = whole at h hrecognised
  cases h with
  | longest h =>
    cases hrecognised with
    | longest h' =>
      have hlength := Nat.le_antisymm (h'.longest _ _ h.begins h.spells)
        (h.longest _ _ h'.begins h'.spells)
      obtain rfl := (List.prefix_of_prefix_length_le h.begins h'.begins
        (Nat.le_of_eq hlength)).eq_of_length hlength
      exact ⟨h.spells.unique h'.spells, rfl⟩
    | stray rest hnone =>
      obtain ⟨d, more, rfl⟩ := List.exists_cons_of_ne_nil h.spells.ne_nil
      obtain ⟨rfl, _⟩ := List.cons_prefix_cons.mp h.begins
      exact absurd h.spells (hnone _ _)
    | unterminated hbody => exact absurd h.spells (not_spells_of_open hbody h.begins)
  | stray rest hnone =>
    cases hrecognised with
    | longest h' =>
      obtain ⟨d, more, rfl⟩ := List.exists_cons_of_ne_nil h'.spells.ne_nil
      obtain ⟨rfl, _⟩ := List.cons_prefix_cons.mp h'.begins
      exact absurd h'.spells (hnone _ _)
    | stray => exact ⟨rfl, rfl⟩
    | unterminated =>
      exact absurd (spells_emptyString) (hnone _ _)
  | unterminated hbody =>
    cases hrecognised with
    | longest h' => exact absurd h'.spells (not_spells_of_open hbody h'.begins)
    | stray rest hnone => exact absurd (spells_emptyString) (hnone _ _)
    | unterminated => exact ⟨rfl, rfl⟩

end Treewalk
