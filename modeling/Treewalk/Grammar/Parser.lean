import Treewalk.Grammar.Statement
import Treewalk.Token.Scan

/-!
# Parsing a stream of tokens

A parser takes its tokens from a source one at a time, whenever it needs the next one. It holds the
current token, the one before it, the errors recorded so far, and the kinds of the function and of
the class that it is in. Two ways lead out of a construct: a panic, which ends the declaration
around it, and the end of the source, which would end the whole parse. On the way out the kinds are
set back to what they were.

Constructs call each other at most `budget` deep, and `TokenSource.budget` gives enough for all the
tokens of a source.

## Main definitions

* `TokenSource` — where tokens come from
* `Parser` — the state of a parser
* `Parser.declaration` — one declaration or statement, or nothing after a panic
* `Parser.parse` — the statements of a whole source
-/

namespace Treewalk

/-- Where tokens come from: a list of them, or a pass over a text. -/
inductive TokenSource where
  | listed (tokens : List Token)
  | scanning (scanner : Scanner) (pass : Pass)

namespace TokenSource

/-- The next token, if there is one. -/
def next : TokenSource → Option Token × TokenSource
  | .listed [] => (none, .listed [])
  | .listed (token :: rest) => (some token, .listed rest)
  | .scanning scanner pass =>
    let (token?, pass, scanner) := scanner.next pass
    (token?, .scanning scanner pass)

/-- The lexical errors met on the way to the tokens given so far. -/
def errors : TokenSource → List LexicalError
  | .listed _ => []
  | .scanning scanner _ => scanner.errors

/-- More tokens than this do not come. -/
def size : TokenSource → Nat
  | .listed tokens => tokens.length
  | .scanning scanner .untouched => scanner.text.length + 1
  | .scanning scanner .running => scanner.pending.length + scanner.cursor.rest.length + 1
  | .scanning _ .finished => 0

/-- How deep constructs may nest in the tokens of a source. -/
def budget (source : TokenSource) : Nat := 32 * source.size

end TokenSource

/-- The state of a parser. -/
structure Parser where
  source : TokenSource
  current : Token
  previous : Token
  errors : List GrammarError := []
  functionKind : Grammar.FunctionKind := .none
  classKind : Grammar.ClassKind := .none

/-- What ends a construct early. -/
inductive Interruption where
  | panic (error : GrammarError)
  | noMoreTokens
  | exhausted

/-- A computation of a parser. -/
abbrev ParseM := EStateM Interruption Parser

namespace Parser

open Grammar

/-- A parser at the first token of a source. -/
def begin? (source : TokenSource) : Option Parser :=
  match source.next with
  | (some token, source) => some { source, current := token, previous := token }
  | (none, _) => none

/-! ### Tokens -/

/-- Whether the parser is at the token that ends the input. -/
def isAtEnd (p : Parser) : Bool := p.current.kind == .endOfInput

/-- Whether the current token has a given kind. -/
def isAt (p : Parser) (kind : TokenKind) : Bool := !p.isAtEnd && p.current.kind == kind

/-- The current token. -/
def peek : ParseM Token := fun p => .ok p.current p

/-- Whether the input ends here. -/
def atEnd : ParseM Bool := fun p => .ok p.isAtEnd p

/-- Whether a token of a given kind stands here. -/
def check (kind : TokenKind) : ParseM Bool := fun p => .ok (p.isAt kind) p

/-- Takes the current token, unless it ends the input. -/
def advance : ParseM Token := fun p =>
  if p.isAtEnd then .ok p.previous p
  else
    match p.source.next with
    | (some token, source) =>
      .ok p.current { p with source, current := token, previous := p.current }
    -- the source is drained, and no token has ended the input
    | (none, source) => .error .noMoreTokens { p with source, previous := p.current }

/-- Takes the current token if it serves. -/
def accept? {α : Type} (serves? : Token → Option α) : ParseM (Option α) := do
  if ← atEnd then return none
  match serves? (← peek) with
  | none => return none
  | some value =>
    let _ ← advance
    return some value

/-- A token of a given kind serves. -/
def ofKind (kind : TokenKind) (token : Token) : Option Token :=
  if token.kind = kind then some token else none

/-- Does without a construct before a token of a given kind. -/
def unlessAt {α : Type} (kind : TokenKind) (absent : α) (x : ParseM α) : ParseM α := do
  if ← check kind then return absent else x

/-- Takes a token of a given kind, or panics. -/
def consume (kind : TokenKind) (expectation : String) : ParseM Token := do
  if ← check kind then advance
  else throw (.panic (.expectedToken (← peek).found expectation))

/-! ### Errors and surroundings -/

/-- Records errors without stopping. -/
def report (errors : List GrammarError) : ParseM Unit := fun p =>
  .ok () { p with errors := p.errors ++ errors }

/-- Reports an item beyond the limit. -/
def reportBeyond (error : Found → GrammarError) (count : Nat) : ParseM Unit := do
  if maxArguments ≤ count then report [error (← peek).found]

/-- What a computation ends with, and a last change to the parser, however it ended. -/
def finishing {α : Type} (last : Parser → Parser) :
    EStateM.Result Interruption Parser α → EStateM.Result Interruption Parser α
  | .ok value p => .ok value (last p)
  | .error interruption p => .error interruption (last p)

/-- A construct inside a function. Afterwards the kind of function around it is set back. -/
def withFunctionKind {α : Type} (kind : FunctionKind) (x : ParseM α) : ParseM α := fun p =>
  finishing ({ · with functionKind := p.functionKind }) (x { p with functionKind := kind })

/-- A construct inside a class. Afterwards the kind of class around it is set back. -/
def withClassKind {α : Type} (kind : ClassKind) (x : ParseM α) : ParseM α := fun p =>
  finishing ({ · with classKind := p.classKind }) (x { p with classKind := kind })

/-- Whether a declaration can begin here: the input ends, a semicolon was passed, or a keyword
begins a declaration or a statement. -/
def atBoundary : ParseM Bool := fun p =>
  .ok (p.isAtEnd || p.previous.kind == .semicolon || beginsStatement p.current) p

/-- Takes tokens up to the next boundary. -/
def skip : (budget : Nat) → ParseM Unit
  | 0 => throw .exhausted
  | budget + 1 => do
    if ← atBoundary then return
    else
      let _ ← advance
      skip budget

/-- Goes on at the next boundary after the current token. -/
def synchronize (budget : Nat) : ParseM Unit := do
  let _ ← advance
  skip budget

/-- A declaration, or nothing after a panic. A panic is recorded, and the parser goes on at the next
boundary. -/
def settling (budget : Nat) (x : ParseM Stmt) : ParseM (Option Stmt) := fun p =>
  match x p with
  | .ok stmt q => .ok (some stmt) q
  | .error (.panic error) q =>
    (do report [error]; synchronize budget; return none : ParseM (Option Stmt)) q
  -- there is no boundary to go on at
  | .error interruption q => .error interruption q

/-! ### Expressions -/

/-- The method access after `super`. -/
def superAccess (keyword : Token) : ParseM Expr := do
  report (misplaced keyword (superMisuse? (← get).classKind))
  let _ ← consume .dot "Expect '.' after 'super'"
  let method ← consume .identifier "Expect superclass method name"
  return .super method.lexeme keyword.anchor .global

mutual

/-- An assignment, or an expression of a tighter level. -/
def assignment : (budget : Nat) → ParseM Expr
  | 0 => throw .exhausted
  | budget + 1 => do
    let target ← binary budget .disjunction
    match ← accept? (ofKind .equal) with
    | none => return target
    | some equals =>
      let value ← assignment budget
      match assignTo? target value with
      | some assigned => return assigned
      | none =>
        report [.invalidAssignmentTarget equals.found]
        return target

/-- Operands of one level joined from the left. -/
def binary : (budget : Nat) → (level : Precedence) → ParseM Expr
  | 0, _ => throw .exhausted
  | budget + 1, level => do
    let left ← operand budget level
    binaryTail budget level left

/-- The operators of one level and their right operands, after a left operand. -/
def binaryTail : (budget : Nat) → (level : Precedence) → (left : Expr) → ParseM Expr
  | 0, _, _ => throw .exhausted
  | budget + 1, level, left => do
    match ← accept? level.join? with
    | none => return left
    | some join =>
      let right ← operand budget level
      binaryTail budget level (join left right)

/-- An operand of one level. -/
def operand : (budget : Nat) → (level : Precedence) → ParseM Expr
  | 0, _ => throw .exhausted
  | budget + 1, level =>
    match level.tighter? with
    | some next => binary budget next
    | none => unary budget

/-- Prefix operators before a call. -/
def unary : (budget : Nat) → ParseM Expr
  | 0 => throw .exhausted
  | budget + 1 => do
    match ← accept? fun token => (unaryOp? token).map (·, token) with
    | none => call budget
    | some (op, token) =>
      let value ← unary budget
      return .unary op value token.anchor

/-- An atom with calls and property accesses. -/
def call : (budget : Nat) → ParseM Expr
  | 0 => throw .exhausted
  | budget + 1 => do
    let callee ← atom budget
    callTail budget callee

/-- The calls and property accesses after a callee. -/
def callTail : (budget : Nat) → (callee : Expr) → ParseM Expr
  | 0, _ => throw .exhausted
  | budget + 1, callee => do
    match ← accept? (ofKind .leftParen) with
    | some _ =>
      let (items, paren) ← arguments budget
      callTail budget (.call callee items paren.anchor)
    | none =>
      match ← accept? (ofKind .dot) with
      | some _ =>
        let name ← consume .identifier "Expect property name after '.'"
        callTail budget (.get callee name.lexeme name.anchor)
      | none => return callee

/-- The arguments of a call and its closing parenthesis. -/
def arguments : (budget : Nat) → ParseM (List Expr × Token)
  | 0 => throw .exhausted
  | budget + 1 => do
    let items ← unlessAt .rightParen [] (argumentItems budget 0)
    let paren ← consume .rightParen "Expect ')' after arguments"
    return (items, paren)

/-- One argument or more, after `count` others. -/
def argumentItems : (budget : Nat) → (count : Nat) → ParseM (List Expr)
  | 0, _ => throw .exhausted
  | budget + 1, count => do
    reportBeyond .tooManyArguments count
    let item ← assignment budget
    match ← accept? (ofKind .comma) with
    | none => return [item]
    | some _ =>
      let items ← argumentItems budget (count + 1)
      return item :: items

/-- A constant, a name, `this`, an access through `super`, or an expression in parentheses. -/
def atom : (budget : Nat) → ParseM Expr
  | 0 => throw .exhausted
  | budget + 1 => do
    match ← accept? literal? with
    | some value => return .literal value
    | none =>
      let token ← peek
      match token.kind with
      | .keyword .kwSuper =>
        let _ ← advance
        superAccess token
      | .keyword .kwThis =>
        let _ ← advance
        report (misplaced token (thisMisuse? (← get).classKind))
        return .this token.anchor .global
      | .identifier =>
        let _ ← advance
        return .variable ⟨token.lexeme, token.anchor, .global⟩
      | .leftParen =>
        let _ ← advance
        let inner ← assignment budget
        let _ ← consume .rightParen "Expect ')' after expression"
        return .grouping inner
      | _ => throw (.panic (.expectedExpression token.found))

end

/-! ### Statements -/

/-- An expression and its semicolon. -/
def expressionStatement (budget : Nat) : ParseM Stmt := do
  let value ← assignment budget
  let _ ← consume .semicolon "Expect ';' after expression"
  return .expression value

/-- The rest of a `print` statement. -/
def printStatement (budget : Nat) : ParseM Stmt := do
  let value ← assignment budget
  let _ ← consume .semicolon "Expect ';' after value"
  return .print value

/-- An optional expression before a token that must follow. -/
def optionalExpression (budget : Nat) (closing : TokenKind) (expectation : String) :
    ParseM (Option Expr) := do
  let value ← unlessAt closing none (some <$> assignment budget)
  let _ ← consume closing expectation
  return value

/-- The rest of a `return` statement. -/
def returnStatement (budget : Nat) (keyword : Token) : ParseM Stmt := do
  let valued := !(← check .semicolon)
  report (misplaced keyword (returnMisuse? (← get).functionKind valued))
  let value ← optionalExpression budget .semicolon "Expect ';' after return value"
  return .returning value

/-- The initial value of a variable, if it has one. -/
def initialValue (budget : Nat) : ParseM (Option Expr) := do
  match ← accept? (ofKind .equal) with
  | none => return none
  | some _ => some <$> assignment budget

/-- The rest of a variable declaration. -/
def variableDeclaration (budget : Nat) : ParseM Stmt := do
  let name ← consume .identifier "Expect variable name"
  let value ← initialValue budget
  let _ ← consume .semicolon "Expect ';' after variable declaration"
  return .declare name.lexeme value

/-- One parameter or more, after `count` others. -/
def parameterItems : (budget : Nat) → (count : Nat) → ParseM (List String)
  | 0, _ => throw .exhausted
  | budget + 1, count => do
    reportBeyond .tooManyParameters count
    let name ← consume .identifier "Expect parameter name"
    match ← accept? (ofKind .comma) with
    | none => return [name.lexeme]
    | some _ =>
      let names ← parameterItems budget (count + 1)
      return name.lexeme :: names

/-- The parameters of a function and the closing parenthesis. -/
def parameters (budget : Nat) : ParseM (List String) := do
  let names ← unlessAt .rightParen [] (parameterItems budget 0)
  let _ ← consume .rightParen "Expect ')' after parameters"
  return names

/-- The name, the parameters and the opening brace of a function. -/
def functionHead (budget : Nat) (kind : FunctionKind) : ParseM (Token × List String) := do
  let noun := kind.noun
  let name ← consume .identifier s!"Expect {noun} name"
  let _ ← consume .leftParen s!"Expect '(' after {noun} name"
  let names ← parameters budget
  let _ ← consume .leftBrace s!"Expect '\x7b' before {noun} body"
  return (name, names)

/-- The superclass of a class with a given name, if it has one. -/
def superclassClause (name : Token) : ParseM (Option Reference) := do
  match ← accept? (ofKind .less) with
  | none => return none
  | some _ =>
    let parent ← consume .identifier "Expect superclass name"
    let reason :=
      if parent.lexeme = name.lexeme then some "A class can't inherit from itself." else none
    report (misplaced parent reason)
    return some ⟨parent.lexeme, parent.anchor, .global⟩

/-- The name, the superclass and the opening brace of a class. -/
def classHead : ParseM (Token × Option Reference) := do
  let name ← consume .identifier "Expect class name"
  let superclass ← superclassClause name
  let _ ← consume .leftBrace "Expect '\x7b' before class body"
  return (name, superclass)

/-- The initializer clause of a `for` loop. -/
def loopInitializer (budget : Nat) : ParseM (Option Stmt) := do
  match ← accept? (ofKind .semicolon) with
  | some _ => return none
  | none =>
    match ← accept? (ofKind (.keyword .kwVar)) with
    | some _ => some <$> variableDeclaration budget
    | none => some <$> expressionStatement budget

/-- The clauses of a `for` loop between its parentheses. -/
def loopClauses (budget : Nat) : ParseM LoopClauses := do
  let _ ← consume .leftParen "Expect '(' after 'for'"
  let initializer ← loopInitializer budget
  let condition ← optionalExpression budget .semicolon "Expect ';' after loop condition"
  let increment ← optionalExpression budget .rightParen "Expect ')' after for clauses"
  return ⟨initializer, condition, increment⟩

/-- A condition between parentheses. -/
def condition (budget : Nat) (opening closing : String) : ParseM Expr := do
  let _ ← consume .leftParen opening
  let value ← assignment budget
  let _ ← consume .rightParen closing
  return value

/-- Whether the body of a block or class ends here. -/
def bodyEnds : ParseM Bool := fun p => .ok (p.isAt .rightBrace || p.isAtEnd) p

mutual

/-- One declaration or statement, or nothing after a panic. -/
def declaration : (budget : Nat) → ParseM (Option Stmt)
  | 0 => throw .exhausted
  | budget + 1 => settling budget do
    match (← peek).kind with
    | .keyword .kwClass =>
      let _ ← advance
      classDeclaration budget
    | .keyword .kwFun =>
      let _ ← advance
      Stmt.function <$> functionDeclaration budget .function
    | .keyword .kwVar =>
      let _ ← advance
      variableDeclaration budget
    | _ => statement budget

/-- A statement. -/
def statement : (budget : Nat) → ParseM Stmt
  | 0 => throw .exhausted
  | budget + 1 => do
    let token ← peek
    match token.kind with
    | .keyword .kwFor =>
      let _ ← advance
      let clauses ← loopClauses budget
      clauses.expand <$> statement budget
    | .keyword .kwIf =>
      let _ ← advance
      ifStatement budget
    | .keyword .kwPrint =>
      let _ ← advance
      printStatement budget
    | .keyword .kwReturn =>
      let _ ← advance
      returnStatement budget token
    | .keyword .kwWhile =>
      let _ ← advance
      let test ← condition budget "Expect '(' after 'while'" "Expect ')' after condition"
      Stmt.loop test <$> statement budget
    | .leftBrace =>
      let _ ← advance
      Stmt.block <$> block budget
    | _ => expressionStatement budget

/-- The rest of an `if` statement. An `else` belongs to the nearest `if`. -/
def ifStatement : (budget : Nat) → ParseM Stmt
  | 0 => throw .exhausted
  | budget + 1 => do
    let test ← condition budget "Expect '(' after 'if'" "Expect ')' after if condition"
    let body ← statement budget
    match ← accept? (ofKind (.keyword .kwElse)) with
    | none => return .ifThen test body
    | some _ => Stmt.ifElse test body <$> statement budget

/-- The statements of a block and its closing brace. -/
def block : (budget : Nat) → ParseM (List Stmt)
  | 0 => throw .exhausted
  | budget + 1 => do
    if ← bodyEnds then
      let _ ← consume .rightBrace "Expect '\x7d' after block"
      return []
    else
      let stmt? ← declaration budget
      let others ← block budget
      return stmt?.toList ++ others

/-- A function from its name on. -/
def functionDeclaration : (budget : Nat) → (kind : FunctionKind) → ParseM FunctionDecl
  | 0, _ => throw .exhausted
  | budget + 1, kind => do
    let (name, params) ← functionHead budget kind
    let body ← withFunctionKind (kind.named name.lexeme) (block budget)
    return .mk name.lexeme params body name.anchor

/-- A class from its name on. The closing brace is outside the class already. -/
def classDeclaration : (budget : Nat) → ParseM Stmt
  | 0 => throw .exhausted
  | budget + 1 => do
    let (name, superclass) ← classHead
    let kind := if superclass.isSome then ClassKind.subclass else ClassKind.plain
    let methods ← withClassKind kind (methods budget)
    let _ ← consume .rightBrace "Expect '\x7d' after class body"
    return .classDecl name.lexeme superclass methods

/-- The methods of a class. -/
def methods : (budget : Nat) → ParseM (List FunctionDecl)
  | 0 => throw .exhausted
  | budget + 1 => do
    if ← bodyEnds then return []
    else
      let method ← functionDeclaration budget .method
      let others ← methods budget
      return method :: others

end

/-- The declarations up to the end of the input. -/
def declarations : (budget : Nat) → ParseM Program
  | 0 => throw .exhausted
  | budget + 1 => do
    if ← atEnd then return []
    else
      let stmt? ← declaration budget
      let others ← declarations budget
      return stmt?.toList ++ others

/-- The statements of a whole source, and the parser at its end. -/
def parse (source : TokenSource) : Except Interruption (Program × Parser) :=
  match begin? source with
  | none => .error .noMoreTokens
  | some p =>
    match declarations source.budget p with
    | .ok stmts q => .ok (stmts, q)
    | .error interruption _ => .error interruption

end Parser

end Treewalk
