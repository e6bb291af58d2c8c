import Treewalk.Diagnostic.Cause
import Treewalk.Number.Display
import Treewalk.Number.Nearest

/-!
# Tokens

A token is a lexeme with its kind and its place. Numbers and strings carry the value that they
denote.

## Main definitions

* `Keyword`, `TokenKind`, `Token`
* `Keyword.ofWord?` — the keyword that a word spells
* `Token.describe` — the text of a token in a listing
-/

namespace Treewalk

/-- A reserved word. -/
inductive Keyword where
  | kwAnd | kwClass | kwElse | kwFalse | kwFun | kwFor | kwIf | kwNil
  | kwOr | kwPrint | kwReturn | kwSuper | kwThis | kwTrue | kwVar | kwWhile
deriving DecidableEq, Repr

namespace Keyword

/-- Every reserved word. -/
def all : List Keyword :=
  [.kwAnd, .kwClass, .kwElse, .kwFalse, .kwFun, .kwFor, .kwIf, .kwNil,
   .kwOr, .kwPrint, .kwReturn, .kwSuper, .kwThis, .kwTrue, .kwVar, .kwWhile]

/-- The spelling of a reserved word. -/
def word : Keyword → String
  | .kwAnd => "and"
  | .kwClass => "class"
  | .kwElse => "else"
  | .kwFalse => "false"
  | .kwFun => "fun"
  | .kwFor => "for"
  | .kwIf => "if"
  | .kwNil => "nil"
  | .kwOr => "or"
  | .kwPrint => "print"
  | .kwReturn => "return"
  | .kwSuper => "super"
  | .kwThis => "this"
  | .kwTrue => "true"
  | .kwVar => "var"
  | .kwWhile => "while"

/-- The name of a reserved word in a listing. -/
def name : Keyword → String
  | .kwAnd => "AND"
  | .kwClass => "CLASS"
  | .kwElse => "ELSE"
  | .kwFalse => "FALSE"
  | .kwFun => "FUN"
  | .kwFor => "FOR"
  | .kwIf => "IF"
  | .kwNil => "NIL"
  | .kwOr => "OR"
  | .kwPrint => "PRINT"
  | .kwReturn => "RETURN"
  | .kwSuper => "SUPER"
  | .kwThis => "THIS"
  | .kwTrue => "TRUE"
  | .kwVar => "VAR"
  | .kwWhile => "WHILE"

/-- The keyword that a word spells. -/
def ofWord? (text : String) : Option Keyword := all.find? (·.word == text)

end Keyword

/-- The kind of a token. -/
inductive TokenKind where
  | leftParen | rightParen | leftBrace | rightBrace
  | comma | dot | minus | plus | semicolon | slash | star
  | bang | bangEqual | equal | equalEqual | greater | greaterEqual | less | lessEqual
  | identifier
  | string (value : String)
  | number (value : Float)
  | keyword (word : Keyword)
  | endOfInput
deriving DecidableEq

namespace TokenKind

/-- The name of a kind in a listing. -/
def name : TokenKind → String
  | .leftParen => "LEFT_PAREN"
  | .rightParen => "RIGHT_PAREN"
  | .leftBrace => "LEFT_BRACE"
  | .rightBrace => "RIGHT_BRACE"
  | .comma => "COMMA"
  | .dot => "DOT"
  | .minus => "MINUS"
  | .plus => "PLUS"
  | .semicolon => "SEMICOLON"
  | .slash => "SLASH"
  | .star => "STAR"
  | .bang => "BANG"
  | .bangEqual => "BANG_EQUAL"
  | .equal => "EQUAL"
  | .equalEqual => "EQUAL_EQUAL"
  | .greater => "GREATER"
  | .greaterEqual => "GREATER_EQUAL"
  | .less => "LESS"
  | .lessEqual => "LESS_EQUAL"
  | .identifier => "IDENTIFIER"
  | .string _ => "STRING"
  | .number _ => "NUMBER"
  | .keyword word => word.name
  | .endOfInput => "EOF"

/-- The coarse class of a kind. -/
def category : TokenKind → String
  | .endOfInput => "eof"
  | .number _ | .string _ => "literal"
  | .identifier => "identifier"
  | .keyword _ => "keyword"
  | .leftParen | .rightParen | .leftBrace | .rightBrace | .comma | .dot | .semicolon =>
    "punctuation"
  | _ => "operator"

end TokenKind

/-- A lexeme with its kind and its place. -/
structure Token where
  kind : TokenKind
  lexeme : String
  line : Nat
  column : Nat
  span : Span
deriving DecidableEq

namespace Token

/-- The site of a token. -/
def site (t : Token) : Site := ⟨t.line, some t.span⟩

/-- A token as a grammar problem names it. -/
def found (t : Token) : Found := ⟨t.lexeme, t.site⟩

/-- The value of a literal token, in quotes if it is a string. -/
def literalText? (t : Token) : Option String :=
  match t.kind with
  | .number value => some (Number.numeral value)
  | .string value => some (Text.quoted value)
  | _ => none

/-- The text of a token in a listing. -/
def describe (t : Token) : String :=
  match t.literalText? with
  | some literal => s!"Token({t.kind.name}, '{t.lexeme}', {literal}, line={t.line})"
  | none => s!"Token({t.kind.name}, '{t.lexeme}', line={t.line})"

end Token

end Treewalk
