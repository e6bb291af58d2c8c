import Treewalk.Grammar.Statement

/-!
# Derivations

The grammar of the language, written down apart from the recognition of programs. A derivation
relates a nonterminal and a list of tokens to the tree that they spell. The rules carry what a
context-free grammar cannot say: how many arguments and parameters there may be, where `return`,
`this` and `super` may stand, that no class is its own superclass, and that an `else` belongs to
the nearest `if`.

Every rule for an operator extends its left operand, so that operators of one level group to the
left; the rules for assignment extend the value, so that assignments group to the right.
-/

/-- The use of a name, before names are bound. -/
def Treewalk.Token.reference (name : Treewalk.Token) : Treewalk.Reference :=
  ⟨name.lexeme, name.anchor, .global⟩

namespace Treewalk.Grammar

/-! ### Expressions -/

/-- The nonterminals of expressions; `items` stands for the arguments of a call, one or more. -/
inductive ExprSymbol where
  | assignment
  | level (level : Precedence)
  | unary
  | call
  | primary
  | items
deriving DecidableEq, Repr

/-- What a nonterminal of expressions derives: an expression, or the items of an argument list. -/
inductive ExprPhrase where
  | one (e : Expr)
  | many (items : List Expr)

/-- The nonterminal of the operands of a level. -/
def Precedence.operandSymbol : Precedence → ExprSymbol
  | .disjunction => .level .conjunction
  | .conjunction => .level .equality
  | .equality => .level .comparison
  | .comparison => .level .sum
  | .sum => .level .product
  | .product => .unary

/-- The tokens of a level that stand for operators on two values. -/
def Precedence.operators : Precedence → List (TokenKind × BinaryOp)
  | .disjunction | .conjunction => []
  | .equality => [(.bangEqual, .notEqual), (.equalEqual, .equal)]
  | .comparison =>
    [(.greater, .greater), (.greaterEqual, .greaterEqual), (.less, .less), (.lessEqual, .lessEqual)]
  | .sum => [(.minus, .subtract), (.plus, .add)]
  | .product => [(.slash, .divide), (.star, .multiply)]

/-- A token of a level joins two operands into a tree. -/
inductive Precedence.Joins : Precedence → Token → Expr → Expr → Expr → Prop where
  | or {token : Token} {left right : Expr} (hkind : token.kind = .keyword .kwOr) :
    Joins .disjunction token left right (.logical .or left right)
  | and {token : Token} {left right : Expr} (hkind : token.kind = .keyword .kwAnd) :
    Joins .conjunction token left right (.logical .and left right)
  | binary {level : Precedence} {token : Token} {op : BinaryOp} {left right : Expr}
    (hkind : (token.kind, op) ∈ level.operators) :
    Joins level token left right (.binary op left right token.anchor)

/-- A kind of token denotes a constant. -/
inductive Denotes : TokenKind → Literal → Prop where
  | true : Denotes (.keyword .kwTrue) (.bool true)
  | false : Denotes (.keyword .kwFalse) (.bool false)
  | nil : Denotes (.keyword .kwNil) .nil
  | number (value : Float) : Denotes (.number value) (.number value)
  | string (value : String) : Denotes (.string value) (.string value)

/-- A prefix operator and the kind of token that stands for it. -/
inductive PrefixOf : TokenKind → UnaryOp → Prop where
  | not : PrefixOf .bang .not
  | negate : PrefixOf .minus .negate

/-- Derivations of expressions in a class of a given kind, or outside every class. -/
inductive DerivesExpr (enclosing : ClassKind) : ExprSymbol → List Token → ExprPhrase → Prop where
  | assignVariable {name equals : Token} {ts : List Token} {value : Expr}
    (hname : name.kind = .identifier) (hequals : equals.kind = .equal)
    (hvalue : DerivesExpr enclosing .assignment ts (.one value)) :
    DerivesExpr enclosing .assignment (name :: equals :: ts)
      (.one (.assign name.reference value))
  | assignProperty {dot name equals : Token} {os ts : List Token} {object value : Expr}
    (hobject : DerivesExpr enclosing .call os (.one object)) (hdot : dot.kind = .dot)
    (hname : name.kind = .identifier) (hequals : equals.kind = .equal)
    (hvalue : DerivesExpr enclosing .assignment ts (.one value)) :
    DerivesExpr enclosing .assignment (os ++ dot :: name :: equals :: ts)
      (.one (.set object name.lexeme value name.anchor))
  | noAssignment {ts : List Token} {e : Expr}
    (h : DerivesExpr enclosing (.level .disjunction) ts (.one e)) :
    DerivesExpr enclosing .assignment ts (.one e)
  | operand {level : Precedence} {ts : List Token} {e : Expr}
    (h : DerivesExpr enclosing level.operandSymbol ts (.one e)) :
    DerivesExpr enclosing (.level level) ts (.one e)
  | join {level : Precedence} {ls rs : List Token} {token : Token} {left right e : Expr}
    (hleft : DerivesExpr enclosing (.level level) ls (.one left))
    (hjoin : level.Joins token left right e)
    (hright : DerivesExpr enclosing level.operandSymbol rs (.one right)) :
    DerivesExpr enclosing (.level level) (ls ++ token :: rs) (.one e)
  | prefixed {token : Token} {op : UnaryOp} {ts : List Token} {operand : Expr}
    (hop : PrefixOf token.kind op) (h : DerivesExpr enclosing .unary ts (.one operand)) :
    DerivesExpr enclosing .unary (token :: ts) (.one (.unary op operand token.anchor))
  | noPrefix {ts : List Token} {e : Expr} (h : DerivesExpr enclosing .call ts (.one e)) :
    DerivesExpr enclosing .unary ts (.one e)
  | noCall {ts : List Token} {e : Expr} (h : DerivesExpr enclosing .primary ts (.one e)) :
    DerivesExpr enclosing .call ts (.one e)
  | callEmpty {opening closing : Token} {cs : List Token} {callee : Expr}
    (hcallee : DerivesExpr enclosing .call cs (.one callee))
    (hopening : opening.kind = .leftParen) (hclosing : closing.kind = .rightParen) :
    DerivesExpr enclosing .call (cs ++ [opening, closing]) (.one (.call callee [] closing.anchor))
  | callItems {opening closing : Token} {cs ts : List Token} {callee : Expr} {items : List Expr}
    (hcallee : DerivesExpr enclosing .call cs (.one callee))
    (hopening : opening.kind = .leftParen)
    (hitems : DerivesExpr enclosing .items ts (.many items)) (hlimit : items.length ≤ 255)
    (hclosing : closing.kind = .rightParen) :
    DerivesExpr enclosing .call (cs ++ opening :: (ts ++ [closing]))
      (.one (.call callee items closing.anchor))
  | property {dot name : Token} {os : List Token} {object : Expr}
    (hobject : DerivesExpr enclosing .call os (.one object)) (hdot : dot.kind = .dot)
    (hname : name.kind = .identifier) :
    DerivesExpr enclosing .call (os ++ [dot, name]) (.one (.get object name.lexeme name.anchor))
  | literal {token : Token} {value : Literal} (h : Denotes token.kind value) :
    DerivesExpr enclosing .primary [token] (.one (.literal value))
  | variable {name : Token} (hname : name.kind = .identifier) :
    DerivesExpr enclosing .primary [name] (.one (.variable name.reference))
  | this {keyword : Token} (hkeyword : keyword.kind = .keyword .kwThis)
    (hplace : enclosing ≠ .none) :
    DerivesExpr enclosing .primary [keyword] (.one (.this keyword.anchor .global))
  | super {keyword dot method : Token} (hkeyword : keyword.kind = .keyword .kwSuper)
    (hdot : dot.kind = .dot) (hmethod : method.kind = .identifier)
    (hplace : enclosing = .subclass) :
    DerivesExpr enclosing .primary [keyword, dot, method]
      (.one (.super method.lexeme keyword.anchor .global))
  | grouping {opening closing : Token} {ts : List Token} {inner : Expr}
    (hopening : opening.kind = .leftParen)
    (h : DerivesExpr enclosing .assignment ts (.one inner))
    (hclosing : closing.kind = .rightParen) :
    DerivesExpr enclosing .primary (opening :: (ts ++ [closing])) (.one (.grouping inner))
  | lastItem {ts : List Token} {item : Expr}
    (h : DerivesExpr enclosing .assignment ts (.one item)) :
    DerivesExpr enclosing .items ts (.many [item])
  | consItem {comma : Token} {ts rs : List Token} {item : Expr} {items : List Expr}
    (hitem : DerivesExpr enclosing .assignment ts (.one item)) (hcomma : comma.kind = .comma)
    (hitems : DerivesExpr enclosing .items rs (.many items)) :
    DerivesExpr enclosing .items (ts ++ comma :: rs) (.many (item :: items))

/-! ### Statements -/

/-- Where a construct stands: in a function of a kind, and in a class of a kind. -/
structure Place where
  function : FunctionKind := .none
  enclosing : ClassKind := .none

/-- A derivation of an expression. -/
def Place.Expression (place : Place) (ts : List Token) (e : Expr) : Prop :=
  DerivesExpr place.enclosing .assignment ts (.one e)

/-- An expression that may be left out. -/
inductive OptionalExpression (place : Place) : List Token → Option Expr → Prop where
  | none : OptionalExpression place [] none
  | some {ts : List Token} {e : Expr} (h : place.Expression ts e) :
    OptionalExpression place ts (some e)

/-- An expression and its semicolon. -/
inductive ExpressionStmt (place : Place) : List Token → Stmt → Prop where
  | mk {ts : List Token} {e : Expr} {semicolon : Token} (h : place.Expression ts e)
    (hsemicolon : semicolon.kind = .semicolon) :
    ExpressionStmt place (ts ++ [semicolon]) (.expression e)

/-- The declaration of a variable. -/
inductive VariableDecl (place : Place) : List Token → Stmt → Prop where
  | bare {keyword name semicolon : Token} (hkeyword : keyword.kind = .keyword .kwVar)
    (hname : name.kind = .identifier) (hsemicolon : semicolon.kind = .semicolon) :
    VariableDecl place [keyword, name, semicolon] (.declare name.lexeme none)
  | initialized {keyword name equals semicolon : Token} {ts : List Token} {value : Expr}
    (hkeyword : keyword.kind = .keyword .kwVar) (hname : name.kind = .identifier)
    (hequals : equals.kind = .equal) (hvalue : place.Expression ts value)
    (hsemicolon : semicolon.kind = .semicolon) :
    VariableDecl place (keyword :: name :: equals :: (ts ++ [semicolon]))
      (.declare name.lexeme (some value))

/-- The first clause of a `for` loop, with its semicolon. -/
inductive LoopStart (place : Place) : List Token → Option Stmt → Prop where
  | none {semicolon : Token} (hsemicolon : semicolon.kind = .semicolon) :
    LoopStart place [semicolon] none
  | variable {ts : List Token} {s : Stmt} (h : VariableDecl place ts s) :
    LoopStart place ts (some s)
  | expression {ts : List Token} {s : Stmt} (h : ExpressionStmt place ts s) :
    LoopStart place ts (some s)

/-- The tree of a `for` loop: a `while` loop whose body ends with the increment, in a block that
starts with the initializer. A missing condition is true. -/
def loopTree (initializer : Option Stmt) (condition increment : Option Expr) (body : Stmt) : Stmt :=
  let round :=
    match increment with
    | some increment => Stmt.block [body, .expression increment]
    | none => body
  let loop := Stmt.loop (condition.getD (.literal (.bool true))) round
  match initializer with
  | some initializer => .block [initializer, loop]
  | none => loop

/-- The parameters of a function, one or more. -/
inductive ParameterNames : List Token → List String → Prop where
  | last {name : Token} (hname : name.kind = .identifier) : ParameterNames [name] [name.lexeme]
  | cons {name comma : Token} {ts : List Token} {names : List String}
    (hname : name.kind = .identifier) (hcomma : comma.kind = .comma)
    (h : ParameterNames ts names) :
    ParameterNames (name :: comma :: ts) (name.lexeme :: names)

/-- The parameters of a function, none or up to 255. -/
inductive Parameters : List Token → List String → Prop where
  | none : Parameters [] []
  | some {ts : List Token} {names : List String} (h : ParameterNames ts names)
    (hlimit : names.length ≤ 255) : Parameters ts names

/-- The superclass of a class with a given name: none, or one of another name. -/
inductive SuperclassClause (name : Token) : List Token → Option Reference → Prop where
  | none : SuperclassClause name [] none
  | some {less parent : Token} (hless : less.kind = .less) (hparent : parent.kind = .identifier)
    (hother : parent.lexeme ≠ name.lexeme) :
    SuperclassClause name [less, parent] (some parent.reference)

/-- The kind of a function, given whether it is a method, and its name. -/
def bodyKind (method : Bool) (name : String) : FunctionKind :=
  if method then if name = "init" then .initializer else .method else .function

/-- The kind of a class, given its superclass. -/
def classKind (superclass : Option Reference) : ClassKind :=
  match superclass with
  | some _ => .subclass
  | none => .plain

/-- The nonterminals of statements. A statement is dangling if it ends with an `if` that has no
`else`, which an `else` after it would join. -/
inductive StmtSymbol where
  | declarations
  | declaration
  | statement (dangling : Bool)
  | function (method : Bool)
  | methods
deriving DecidableEq, Repr

/-- What a nonterminal of statements derives. -/
inductive StmtPhrase where
  | stmts (body : List Stmt)
  | stmt (s : Stmt)
  | function (declaration : FunctionDecl)
  | functions (methods : List FunctionDecl)

/-- Derivations of statements and declarations at a place. -/
inductive DerivesStmt : Place → StmtSymbol → List Token → StmtPhrase → Prop where
  | noDeclarations {place : Place} : DerivesStmt place .declarations [] (.stmts [])
  | consDeclaration {place : Place} {ts rs : List Token} {s : Stmt} {body : List Stmt}
    (hfirst : DerivesStmt place .declaration ts (.stmt s))
    (hrest : DerivesStmt place .declarations rs (.stmts body)) :
    DerivesStmt place .declarations (ts ++ rs) (.stmts (s :: body))
  | classDecl {place : Place} {keyword name opening closing : Token} {cs ms : List Token}
    {superclass : Option Reference} {methods : List FunctionDecl}
    (hkeyword : keyword.kind = .keyword .kwClass) (hname : name.kind = .identifier)
    (hsuperclass : SuperclassClause name cs superclass) (hopening : opening.kind = .leftBrace)
    (hmethods : DerivesStmt { place with enclosing := classKind superclass } .methods ms
      (.functions methods))
    (hclosing : closing.kind = .rightBrace) :
    DerivesStmt place .declaration (keyword :: name :: (cs ++ opening :: (ms ++ [closing])))
      (.stmt (.classDecl name.lexeme superclass methods))
  | functionDecl {place : Place} {keyword : Token} {ts : List Token} {declaration : FunctionDecl}
    (hkeyword : keyword.kind = .keyword .kwFun)
    (h : DerivesStmt place (.function false) ts (.function declaration)) :
    DerivesStmt place .declaration (keyword :: ts) (.stmt (.function declaration))
  | variableDecl {place : Place} {ts : List Token} {s : Stmt} (h : VariableDecl place ts s) :
    DerivesStmt place .declaration ts (.stmt s)
  | statement {place : Place} {dangling : Bool} {ts : List Token} {s : Stmt}
    (h : DerivesStmt place (.statement dangling) ts (.stmt s)) :
    DerivesStmt place .declaration ts (.stmt s)
  | expression {place : Place} {ts : List Token} {s : Stmt} (h : ExpressionStmt place ts s) :
    DerivesStmt place (.statement false) ts (.stmt s)
  | forLoop {place : Place} {keyword opening semicolon closing : Token}
    {is cs us bs : List Token} {initializer : Option Stmt} {condition increment : Option Expr}
    {body : Stmt} {dangling : Bool} (hkeyword : keyword.kind = .keyword .kwFor)
    (hopening : opening.kind = .leftParen) (hinitializer : LoopStart place is initializer)
    (hcondition : OptionalExpression place cs condition)
    (hsemicolon : semicolon.kind = .semicolon)
    (hincrement : OptionalExpression place us increment) (hclosing : closing.kind = .rightParen)
    (hbody : DerivesStmt place (.statement dangling) bs (.stmt body)) :
    DerivesStmt place (.statement dangling)
      (keyword :: opening :: (is ++ (cs ++ semicolon :: (us ++ closing :: bs))))
      (.stmt (loopTree initializer condition increment body))
  | ifThen {place : Place} {keyword opening closing : Token} {cs bs : List Token}
    {condition : Expr} {body : Stmt} {dangling : Bool} (hkeyword : keyword.kind = .keyword .kwIf)
    (hopening : opening.kind = .leftParen) (hcondition : place.Expression cs condition)
    (hclosing : closing.kind = .rightParen)
    (hbody : DerivesStmt place (.statement dangling) bs (.stmt body)) :
    DerivesStmt place (.statement true) (keyword :: opening :: (cs ++ closing :: bs))
      (.stmt (.ifThen condition body))
  | ifElse {place : Place} {keyword opening closing otherwise : Token} {cs bs es : List Token}
    {condition : Expr} {body alternative : Stmt} {dangling : Bool}
    (hkeyword : keyword.kind = .keyword .kwIf) (hopening : opening.kind = .leftParen)
    (hcondition : place.Expression cs condition) (hclosing : closing.kind = .rightParen)
    (hbody : DerivesStmt place (.statement false) bs (.stmt body))
    (hotherwise : otherwise.kind = .keyword .kwElse)
    (halternative : DerivesStmt place (.statement dangling) es (.stmt alternative)) :
    DerivesStmt place (.statement dangling)
      (keyword :: opening :: (cs ++ closing :: (bs ++ otherwise :: es)))
      (.stmt (.ifElse condition body alternative))
  | print {place : Place} {keyword semicolon : Token} {ts : List Token} {value : Expr}
    (hkeyword : keyword.kind = .keyword .kwPrint) (hvalue : place.Expression ts value)
    (hsemicolon : semicolon.kind = .semicolon) :
    DerivesStmt place (.statement false) (keyword :: (ts ++ [semicolon])) (.stmt (.print value))
  | returning {place : Place} {keyword semicolon : Token} {ts : List Token} {value : Option Expr}
    (hkeyword : keyword.kind = .keyword .kwReturn) (hplace : place.function ≠ .none)
    (hvalue : OptionalExpression place ts value)
    (hinitializer : place.function = .initializer → value = none)
    (hsemicolon : semicolon.kind = .semicolon) :
    DerivesStmt place (.statement false) (keyword :: (ts ++ [semicolon]))
      (.stmt (.returning value))
  | whileLoop {place : Place} {keyword opening closing : Token} {cs bs : List Token}
    {condition : Expr} {body : Stmt} {dangling : Bool}
    (hkeyword : keyword.kind = .keyword .kwWhile) (hopening : opening.kind = .leftParen)
    (hcondition : place.Expression cs condition) (hclosing : closing.kind = .rightParen)
    (hbody : DerivesStmt place (.statement dangling) bs (.stmt body)) :
    DerivesStmt place (.statement dangling) (keyword :: opening :: (cs ++ closing :: bs))
      (.stmt (.loop condition body))
  | block {place : Place} {opening closing : Token} {ts : List Token} {body : List Stmt}
    (hopening : opening.kind = .leftBrace)
    (h : DerivesStmt place .declarations ts (.stmts body)) (hclosing : closing.kind = .rightBrace) :
    DerivesStmt place (.statement false) (opening :: (ts ++ [closing])) (.stmt (.block body))
  | function {place : Place} {method : Bool} {name opening closing start finish : Token}
    {ps bs : List Token} {params : List String} {body : List Stmt}
    (hname : name.kind = .identifier) (hopening : opening.kind = .leftParen)
    (hparams : Parameters ps params) (hclosing : closing.kind = .rightParen)
    (hstart : start.kind = .leftBrace)
    (hbody : DerivesStmt { place with function := bodyKind method name.lexeme } .declarations bs
      (.stmts body))
    (hfinish : finish.kind = .rightBrace) :
    DerivesStmt place (.function method)
      (name :: opening :: (ps ++ closing :: start :: (bs ++ [finish])))
      (.function (.mk name.lexeme params body name.anchor))
  | noMethods {place : Place} : DerivesStmt place .methods [] (.functions [])
  | consMethod {place : Place} {ts rs : List Token} {method : FunctionDecl}
    {methods : List FunctionDecl}
    (hfirst : DerivesStmt place (.function true) ts (.function method))
    (hrest : DerivesStmt place .methods rs (.functions methods)) :
    DerivesStmt place .methods (ts ++ rs) (.functions (method :: methods))

/-- A token list spells a program: declarations outside every function and class. -/
def DerivesProgram (ts : List Token) (program : Program) : Prop :=
  DerivesStmt {} .declarations ts (.stmts program)

end Treewalk.Grammar
