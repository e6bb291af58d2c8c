import Treewalk.Diagnostic.Basic

/-!
# The causes of diagnostics

Every problem that the three phases can find is a value of one of three types, and each type has
one function that words it. Codes are grouped by phase: 1 for characters, 2 for grammar, 3 for
operations on values, 4 for names.

## Main definitions

* `LexicalError`, `GrammarError`, `RuntimeError` — what went wrong, and where
* `LexicalError.diagnostic`, `GrammarError.diagnostic`, `RuntimeError.diagnostic` — the wording
-/

namespace Treewalk

/-- A problem with the characters of a text. -/
inductive LexicalError where
  | unexpectedCharacter (site : Site) (character : String)
  | unterminatedString (site : Site)
deriving DecidableEq

/-- The token at which a grammar problem was noticed; the end of input has an empty lexeme. -/
structure Found where
  lexeme : String
  site : Site
deriving DecidableEq

/-- A problem with the order of tokens, or with where a construct stands. -/
inductive GrammarError where
  | expectedToken (found : Found) (expectation : String)
  | expectedExpression (found : Found)
  | invalidAssignmentTarget (found : Found)
  | tooManyArguments (found : Found)
  | tooManyParameters (found : Found)
  | misplacedKeyword (found : Found) (reason : String)
deriving DecidableEq

/-- A problem met while a program runs. Kinds of values and operators go by their names. -/
inductive RuntimeError where
  | undefinedVariable (name : String) (site : Site)
  | binaryOperands (operator left right : String) (site : Site)
  | unaryOperand (operator operand : String) (site : Site)
  | invalidSuperclass (name kind : String) (site : Site)
  | notAnInstance (rule kind : String) (site : Site)
  | divisionByZero (site : Site)
  | wrongArity (expected got : Int) (site : Site) (callee : Option String)
      (declaredAt : Option Span)
  | notCallable (kind : String) (site : Site)
  | undefinedProperty (name : String) (site : Site)
deriving DecidableEq

/-- The wording of a problem with characters. -/
def LexicalError.diagnostic : LexicalError → Diagnostic
  | .unexpectedCharacter site character =>
    .atSite .lexical "LAK1001" s!"Unexpected character '{character}'." site
      (some s!"unexpected character '{character}'")
      (some "check for typos or unsupported characters") [("character", .str character)]
  | .unterminatedString site =>
    .atSite .lexical "LAK1002" "Unterminated string." site (some "string starts here")
      (some "add a closing '\"' to terminate the string") []

/-- How a message names a token. -/
def Found.description (found : Found) : String :=
  if found.lexeme = "" then "end of input" else s!"'{found.lexeme}'"

/-- The wording of a grammar problem. -/
def GrammarError.diagnostic : GrammarError → Diagnostic
  | .expectedToken found expectation =>
    .atSite .grammatical "LAK2001" s!"{expectation}, found {found.description}." found.site
      (some "unexpected token") none [("found", .str found.lexeme)]
  | .expectedExpression found =>
    .atSite .grammatical "LAK2002" s!"Expect expression, found {found.description}." found.site
      (some "expected expression here")
      (some "add a valid expression (variable, literal, or function call)")
      [("found", .str found.lexeme)]
  | .invalidAssignmentTarget found =>
    .atSite .grammatical "LAK2003" "Invalid assignment target." found.site
      (some "cannot assign to this expression")
      (some "only variables and instance fields can be assigned to") []
  | .tooManyArguments found =>
    .atSite .grammatical "LAK2004" "Can't have more than 255 arguments." found.site none none []
  | .tooManyParameters found =>
    .atSite .grammatical "LAK2005" "Can't have more than 255 parameters." found.site none none []
  | .misplacedKeyword found reason =>
    .atSite .grammatical "LAK2006" reason found.site (some s!"'{found.lexeme}' not allowed here")
      none []

/-- The note that says how many parameters a callee takes. -/
def arityNote (callee : String) (expected : Int) : String :=
  let noun := if expected = 1 then "parameter" else "parameters"
  s!"'{callee}' takes {expected} {noun}"

/-- The label at the declaration of a callee, beside a primary label at the call. -/
def declarationLabel (callSite : Site) (declaredAt : Option Span) : List Label :=
  match callSite.span, declaredAt with
  | some _, some span => [⟨span, some "declared here", false⟩]
  | _, _ => []

/-- The wording of a runtime problem. -/
def RuntimeError.diagnostic : RuntimeError → Diagnostic
  | .undefinedVariable name site =>
    .atSite .runtime "LAK4001" s!"Undefined variable '{name}'." site (some s!"'{name}' not found")
      (some s!"declare the variable with 'var {name} = value;' before using it")
      [("name", .str name)]
  | .binaryOperands operator left right site =>
    let message :=
      if operator = "+" then
        s!"Operands of '+' must be two numbers or two strings, got {left} and {right}."
      else s!"Operands of '{operator}' must be numbers, got {left} and {right}."
    .atSite .runtime "LAK3001" message site (some s!"{left} {operator} {right}") none
      [("operator", .str operator), ("left", .str left), ("right", .str right)]
  | .unaryOperand operator operand site =>
    .atSite .runtime "LAK3001" s!"Operand of '{operator}' must be a number, got {operand}." site
      (some s!"{operator}{operand}") none [("operator", .str operator), ("operand", .str operand)]
  | .invalidSuperclass name kind site =>
    .atSite .runtime "LAK3004" s!"Superclass must be a class, '{name}' is a {kind}." site
      (some "not a class") (some "a class can only inherit from another class") []
  | .notAnInstance rule kind site =>
    .atSite .runtime "LAK3005" s!"{rule}, got {kind}." site none none []
  | .divisionByZero site =>
    .atSite .runtime "LAK3006" "Division by zero." site none
      (some "ensure the denominator is not zero before dividing") []
  | .wrongArity expected got site callee declaredAt =>
    let call :=
      Diagnostic.atSite .runtime "LAK3003" s!"Expected {expected} arguments but got {got}." site
        (some s!"called with {got}") none [("expected", .int expected), ("got", .int got)]
    { call with
      labels := call.labels ++ declarationLabel site declaredAt
      notes := (callee.map (arityNote · expected)).toList }
  | .notCallable kind site =>
    .atSite .runtime "LAK3002" s!"Can only call functions and classes, got {kind}." site none none
      []
  | .undefinedProperty name site =>
    .atSite .runtime "LAK4002" s!"Undefined property '{name}'." site none none
      [("name", .str name)]

end Treewalk
