import Treewalk.Token.Basic

/-!
# Lexemes

What stands at the head of a text is decided by its first character and the longest run of
characters that goes on with it: a blank, a comment, an operator, a string, a number, a word, or a
character that starts nothing.

## Main definitions

* `Lexeme` — what stands at the head of a text
* `lexeme` — the lexeme that starts with a character, and how many more characters it takes
-/

namespace Treewalk

/-- Whether a character is an ASCII digit, the only digits that numerals have. -/
def isDigit (c : Char) : Bool := '0' ≤ c && c ≤ '9'

/-- Whether a character can start a word: an ASCII letter or an underscore. -/
def isWordStart (c : Char) : Bool :=
  ('a' ≤ c && c ≤ 'z') || ('A' ≤ c && c ≤ 'Z') || c == '_'

/-- Whether a character can continue a word. -/
def isWordPart (c : Char) : Bool := isWordStart c || isDigit c

/-- What stands at the head of a text. -/
inductive Lexeme where
  /-- A blank, a line end or a comment. -/
  | gap
  | token (kind : TokenKind)
  | stray (c : Char)
  | unterminated
deriving DecidableEq

/-- A lexeme and the number of characters that it takes after its first. -/
structure Recognised where
  lexeme : Lexeme
  extra : Nat
deriving DecidableEq

/-- The number of leading characters of a class. -/
def runLength (p : Char → Bool) (text : List Char) : Nat := (text.takeWhile p).length

/-- One operator before an equals sign, and another elsewhere. -/
def operatorLexeme (alone withEqual : TokenKind) : List Char → Recognised
  | '=' :: _ => ⟨.token withEqual, 1⟩
  | _ => ⟨.token alone, 0⟩

/-- A slash, or a comment up to the end of its line. -/
def slashLexeme : List Char → Recognised
  | '/' :: rest => ⟨.gap, 1 + runLength (· != '\n') rest⟩
  | _ => ⟨.token .slash, 0⟩

/-- The string after an opening quote. It ends at the next quote, on whatever line that stands. -/
def stringLexeme (text : List Char) : Recognised :=
  let length := runLength (· != Text.doubleQuote) text
  if length < text.length then
    ⟨.token (.string (String.ofList (text.take length))), length + 1⟩
  else ⟨.unterminated, length⟩

/-- The number that starts with a digit. A point belongs to it only if a digit follows. -/
def numberLexeme (first : Char) (text : List Char) : Recognised :=
  let whole := text.takeWhile isDigit
  match text.drop whole.length with
  | '.' :: digit :: rest =>
    if isDigit digit then
      let fraction := digit :: rest.takeWhile isDigit
      ⟨.token (.number (Number.readDigits (first :: whole) fraction)),
        whole.length + 1 + fraction.length⟩
    else ⟨.token (.number (Number.readDigits (first :: whole) [])), whole.length⟩
  | _ => ⟨.token (.number (Number.readDigits (first :: whole) [])), whole.length⟩

/-- The word that starts with a letter or an underscore: a keyword or an identifier. -/
def wordLexeme (first : Char) (text : List Char) : Recognised :=
  let rest := text.takeWhile isWordPart
  match Keyword.ofWord? (String.ofList (first :: rest)) with
  | some word => ⟨.token (.keyword word), rest.length⟩
  | none => ⟨.token .identifier, rest.length⟩

/-- The token of a character that is a token by itself. -/
def singleKind? : Char → Option TokenKind
  | '(' => some .leftParen
  | ')' => some .rightParen
  | '\x7b' => some .leftBrace
  | '\x7d' => some .rightBrace
  | ',' => some .comma
  | '.' => some .dot
  | '-' => some .minus
  | '+' => some .plus
  | ';' => some .semicolon
  | '*' => some .star
  | _ => none

/-- The lexeme that starts with a character, given the text after it. -/
def lexeme (c : Char) (text : List Char) : Recognised :=
  match singleKind? c with
  | some kind => ⟨.token kind, 0⟩
  | none =>
    if c = '!' then operatorLexeme .bang .bangEqual text
    else if c = '=' then operatorLexeme .equal .equalEqual text
    else if c = '<' then operatorLexeme .less .lessEqual text
    else if c = '>' then operatorLexeme .greater .greaterEqual text
    else if c = '/' then slashLexeme text
    else if c = ' ' ∨ c = '\r' ∨ c = '\t' ∨ c = '\n' then ⟨.gap, 0⟩
    else if c = Text.doubleQuote then stringLexeme text
    else if isDigit c then numberLexeme c text
    else if isWordStart c then wordLexeme c text
    else ⟨.stray c, 0⟩

end Treewalk
