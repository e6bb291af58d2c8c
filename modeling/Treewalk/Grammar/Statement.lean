import Treewalk.Grammar.Expression
import Treewalk.Grammar.Recovery

/-!
# The grammar of statements

Statements, declarations and whole programs. A `for` loop has no tree of its own: it stands for a
`while` loop in a block that runs the initializer first, and whose body runs the increment last.

A panic inside a declaration ends that declaration only. Its error is recorded, and recognition
goes on at the next boundary.

## Main definitions

* `declaration` — one declaration or statement, or nothing after a panic
* `statement` — a statement at the head of a token list
* `program` — the statements of a whole token list, and every problem found
-/

namespace Treewalk.Grammar

/-- An expression and its semicolon. -/
def expressionStatement (context : Context) (ts : List Token) : Parsed Stmt ts.length :=
  (expression context ts).andThen fun value rest h =>
    ((expect context .semicolon "Expect ';' after expression" rest).map fun _ =>
      Stmt.expression value).widen (le_of_shorter h)

/-- The rest of a `print` statement. -/
def printStatement (context : Context) (ts : List Token) : Parsed Stmt ts.length :=
  (expression context ts).andThen fun value rest h =>
    ((expect context .semicolon "Expect ';' after value" rest).map fun _ =>
      Stmt.print value).widen (le_of_shorter h)

/-- An optional expression before a token that must follow. -/
def optionalExpression (context : Context) (closing : TokenKind) (expectation : String)
    (ts : List Token) : Parsed (Option Expr) ts.length :=
  if startsWith closing ts then
    (expect context closing expectation ts).map fun _ => none
  else
    (expression context ts).andThen fun value rest h =>
      ((expect context closing expectation rest).map fun _ => some value).widen (le_of_shorter h)

/-- Why a `return` may not stand here, given whether it has a value. -/
def returnMisuse? : FunctionKind → (valued : Bool) → Option String
  | .none, _ => some "Can't return from top-level code."
  | .initializer, true => some "Can't return a value from an initializer."
  | _, _ => none

/-- The rest of a `return` statement. -/
def returnStatement (context : Context) (keyword : Token) (ts : List Token) :
    Parsed Stmt ts.length :=
  ((optionalExpression context .semicolon "Expect ';' after return value" ts).map
    Stmt.returning).after
    (misplaced keyword (returnMisuse? context.function (!startsWith .semicolon ts)))

/-- The rest of a variable declaration. -/
def variableDeclaration (context : Context) (ts : List Token) : Parsed Stmt ts.length :=
  (expect context .identifier "Expect variable name" ts).andThen fun name rest h =>
    match rest, h with
    | [], h =>
      (expect context .semicolon "Expect ';' after variable declaration" []).map
        (fun _ => Stmt.declare name.lexeme none) |>.widen (le_of_shorter h)
    | token :: rest, h =>
      if token.kind = .equal then
        ((expression context rest).andThen fun value rest h =>
          ((expect context .semicolon "Expect ';' after variable declaration" rest).map fun _ =>
            Stmt.declare name.lexeme (some value)).widen (le_of_shorter h)).widen
          (tail_le_of_shorter h)
      else
        ((expect context .semicolon "Expect ';' after variable declaration" (token :: rest)).map
          fun _ => Stmt.declare name.lexeme none).widen (le_of_shorter h)

/-- One parameter or more, after `count` others. -/
def parameterItems (context : Context) (count : Nat) (ts : List Token) :
    Parsed (List String) ts.length :=
  ((expect context .identifier "Expect parameter name" ts).andThen fun name rest h =>
    match rest, h with
    | [], h => .ok [name.lexeme] [] [] h
    | token :: rest, h =>
      if token.kind = .comma then
        ((parameterItems context (count + 1) rest).map (name.lexeme :: ·)).widen
          (tail_le_of_shorter h)
      else .ok [name.lexeme] (token :: rest) [] h).after
    (beyondLimit .tooManyParameters context count ts)
termination_by ts.length
decreasing_by simp at h; omega

/-- The parameters of a function and the closing parenthesis. -/
def parameters (context : Context) (ts : List Token) : Parsed (List String) ts.length :=
  if startsWith .rightParen ts then
    (expect context .rightParen "Expect ')' after parameters" ts).map fun _ => []
  else
    (parameterItems context 0 ts).andThen fun names rest h =>
      ((expect context .rightParen "Expect ')' after parameters" rest).map fun _ => names).widen
        (le_of_shorter h)

/-- What messages call a kind of function. -/
def FunctionKind.noun : FunctionKind → String
  | .none => "none"
  | .function => "function"
  | .method => "method"
  | .initializer => "initializer"

/-- The kind of function that a name makes of a declaration. -/
def FunctionKind.named (kind : FunctionKind) (name : String) : FunctionKind :=
  if kind = .method ∧ name = "init" then .initializer else kind

/-- The name, the parameters and the opening brace of a function. -/
def functionHead (context : Context) (kind : FunctionKind) (ts : List Token) :
    Parsed (Token × List String) ts.length :=
  let noun := kind.noun
  (expect context .identifier s!"Expect {noun} name" ts).andThen fun name rest h =>
    ((expect context .leftParen s!"Expect '(' after {noun} name" rest).andThen fun _ rest h =>
      ((parameters context rest).andThen fun names rest h =>
        ((expect context .leftBrace s!"Expect '\x7b' before {noun} body" rest).map fun _ =>
          (name, names)).widen (le_of_shorter h)).widen (le_of_shorter h)).widen (le_of_shorter h)

/-- The superclass of a class with a given name, if it has one. -/
def superclassClause (context : Context) (name : Token) (ts : List Token) :
    Parsed (Option Reference) (ts.length + 1) :=
  match ts with
  | [] => .ok none [] [] length_nil_lt_succ
  | token :: rest =>
    if token.kind = .less then
      ((expect context .identifier "Expect superclass name" rest).andThen fun parent rest h =>
        let reason :=
          if parent.lexeme = name.lexeme then some "A class can't inherit from itself." else none
        .ok (some ⟨parent.lexeme, parent.anchor, .global⟩) rest (misplaced parent reason) h).widen
        (length_le_cons_succ token rest)
    else .ok none (token :: rest) [] (length_cons_lt_succ token rest)

/-- The name, the superclass and the opening brace of a class. -/
def classHead (context : Context) (ts : List Token) :
    Parsed (Token × Option Reference) ts.length :=
  (expect context .identifier "Expect class name" ts).andThen fun name rest h =>
    ((superclassClause context name rest).andThen fun superclass rest h =>
      ((expect context .leftBrace "Expect '\x7b' before class body" rest).map fun _ =>
        (name, superclass)).widen (Nat.le_of_lt h)).widen h

/-- The initializer clause of a `for` loop. -/
def loopInitializer (context : Context) (ts : List Token) : Parsed (Option Stmt) ts.length :=
  match ts with
  | [] => (expressionStatement context []).map some
  | token :: rest =>
    if token.kind = .semicolon then .ok none rest [] (length_lt_cons token rest)
    else if token.kind = .keyword .kwVar then
      ((variableDeclaration context rest).map some).widen (length_le_cons token rest)
    else (expressionStatement context (token :: rest)).map some

/-- The three clauses of a `for` loop. -/
structure LoopClauses where
  initializer : Option Stmt
  condition : Option Expr
  increment : Option Expr

/-- The clauses of a `for` loop between its parentheses. -/
def loopClauses (context : Context) (ts : List Token) : Parsed LoopClauses ts.length :=
  (expect context .leftParen "Expect '(' after 'for'" ts).andThen fun _ rest h =>
    ((loopInitializer context rest).andThen fun initializer rest h =>
      ((optionalExpression context .semicolon "Expect ';' after loop condition" rest).andThen
        fun condition rest h =>
          ((optionalExpression context .rightParen "Expect ')' after for clauses" rest).map
            fun increment => LoopClauses.mk initializer condition increment).widen
            (le_of_shorter h)).widen (le_of_shorter h)).widen (le_of_shorter h)

/-- What a `for` loop stands for. -/
def LoopClauses.expand (clauses : LoopClauses) (body : Stmt) : Stmt :=
  let body :=
    match clauses.increment with
    | some increment => .block [body, .expression increment]
    | none => body
  let loop := .loop (clauses.condition.getD (.literal (.bool true))) body
  match clauses.initializer with
  | some initializer => .block [initializer, loop]
  | none => loop

/-- A condition between parentheses. -/
def condition (context : Context) (opening closing : String) (ts : List Token) :
    Parsed Expr ts.length :=
  (expect context .leftParen opening ts).andThen fun _ rest h =>
    ((expression context rest).andThen fun value rest h =>
      ((expect context .rightParen closing rest).map fun _ => value).widen
        (le_of_shorter h)).widen (le_of_shorter h)

/-- The outcome of a declaration: nothing is declared after a panic. At most `n` tokens are left. -/
structure Declared (n : Nat) where
  stmt? : Option Stmt
  rest : List Token
  reports : List GrammarError
  bound : rest.length ≤ n

/-- Records a panic and goes on at the next boundary. -/
def Declared.settle {n : Nat} : Parsed Stmt (n + 1) → Declared n
  | .ok stmt rest reports bound => ⟨some stmt, rest, reports, Nat.le_of_lt_succ bound⟩
  | .panic error rest reports bound =>
    ⟨none, recover rest, reports ++ [error], length_recover_le bound⟩

mutual

/-- One declaration or statement that starts with `token`. -/
def declaration (context : Context) (token : Token) (ts : List Token) : Declared ts.length :=
  match token.kind with
  | .keyword .kwClass => .settle ((classDeclaration context ts).widen (Nat.le_succ _))
  | .keyword .kwFun =>
    .settle (((functionDeclaration context .function ts).map Stmt.function).widen (Nat.le_succ _))
  | .keyword .kwVar => .settle ((variableDeclaration context ts).widen (Nat.le_succ _))
  | _ => .settle (statement context (token :: ts))
termination_by (ts.length + 1) * 4 + 2
decreasing_by all_goals grind

/-- A statement at the head of a token list. -/
def statement (context : Context) (ts : List Token) : Parsed Stmt ts.length :=
  match ts with
  | [] => expressionStatement context []
  | token :: rest =>
    match token.kind with
    | .keyword .kwFor =>
      ((loopClauses context rest).andThen fun clauses rest h =>
        ((statement context rest).map clauses.expand).widen (le_of_shorter h)).widen
        (length_le_cons token rest)
    | .keyword .kwIf => (ifStatement context rest).widen (length_le_cons token rest)
    | .keyword .kwPrint => (printStatement context rest).widen (length_le_cons token rest)
    | .keyword .kwReturn => (returnStatement context token rest).widen (length_le_cons token rest)
    | .keyword .kwWhile =>
      ((condition context "Expect '(' after 'while'" "Expect ')' after condition" rest).andThen
        fun test rest h =>
          ((statement context rest).map (Stmt.loop test)).widen (le_of_shorter h)).widen
        (length_le_cons token rest)
    | .leftBrace => ((block context rest).map Stmt.block).widen (length_le_cons token rest)
    | _ => expressionStatement context (token :: rest)
termination_by ts.length * 4 + 1
decreasing_by all_goals grind

/-- The rest of an `if` statement. An `else` belongs to the nearest `if`. -/
def ifStatement (context : Context) (ts : List Token) : Parsed Stmt ts.length :=
  (condition context "Expect '(' after 'if'" "Expect ')' after if condition" ts).andThen
    fun test rest h =>
      ((statement context rest).andThen fun body rest h =>
        match rest, h with
        | [], h => .ok (.ifThen test body) [] [] h
        | token :: rest, h =>
          if token.kind = .keyword .kwElse then
            ((statement context rest).map (Stmt.ifElse test body)).widen (tail_le_of_shorter h)
          else .ok (.ifThen test body) (token :: rest) [] h).widen (le_of_shorter h)
termination_by ts.length * 4
decreasing_by all_goals grind

/-- The statements of a block and its closing brace. -/
def block (context : Context) (ts : List Token) : Parsed (List Stmt) ts.length :=
  match ts with
  | [] => .panic (.expectedToken context.ending "Expect '\x7d' after block") [] [] (Nat.le_refl _)
  | token :: rest =>
    if token.kind = .rightBrace then .ok [] rest [] (length_lt_cons token rest)
    else
      let first := declaration context token rest
      have := first.bound
      (((block context first.rest).map (first.stmt?.toList ++ ·)).after first.reports).widen
        (by simp; omega)
termination_by ts.length * 4 + 3
decreasing_by all_goals grind

/-- A function from its name on. -/
def functionDeclaration (context : Context) (kind : FunctionKind) (ts : List Token) :
    Parsed FunctionDecl ts.length :=
  (functionHead context kind ts).andThen fun (name, params) rest h =>
    ((block { context with function := kind.named name.lexeme } rest).map fun body =>
      FunctionDecl.mk name.lexeme params body name.anchor).widen (le_of_shorter h)
termination_by ts.length * 4
decreasing_by all_goals grind

/-- A class from its name on. -/
def classDeclaration (context : Context) (ts : List Token) : Parsed Stmt ts.length :=
  (classHead context ts).andThen fun (name, superclass) rest h =>
    let enclosing := if superclass.isSome then ClassKind.subclass else ClassKind.plain
    ((methods { context with enclosing := enclosing } rest).map fun methods =>
      Stmt.classDecl name.lexeme superclass methods).widen (le_of_shorter h)
termination_by ts.length * 4
decreasing_by all_goals grind

/-- The methods of a class and its closing brace. -/
def methods (context : Context) (ts : List Token) : Parsed (List FunctionDecl) ts.length :=
  match ts with
  | [] =>
    .panic (.expectedToken context.ending "Expect '\x7d' after class body") [] [] (Nat.le_refl _)
  | token :: rest =>
    if token.kind = .rightBrace then .ok [] rest [] (length_lt_cons token rest)
    else
      (functionDeclaration context .method (token :: rest)).andThen fun method rest h =>
        ((methods context rest).map (method :: ·)).widen (le_of_shorter h)
termination_by ts.length * 4 + 1
decreasing_by all_goals grind

end

/-- The result of recognising a whole program. -/
structure Recognition where
  program : Program
  errors : List GrammarError

/-- The statements of a token list, and every problem found, in the order of discovery. -/
def program (context : Context) (ts : List Token) : Recognition :=
  match ts with
  | [] => ⟨[], []⟩
  | token :: rest =>
    let first := declaration context token rest
    have := (declaration context token rest).bound
    let others := program context first.rest
    ⟨first.stmt?.toList ++ others.program, first.reports ++ others.errors⟩
termination_by ts.length
decreasing_by grind

end Treewalk.Grammar

namespace Treewalk

/-- Recognises a program in a token list that ends with the given token. -/
def recognise (tokens : List Token) (ending : Token) : Grammar.Recognition :=
  Grammar.program { ending := ending.found } tokens

end Treewalk
