import Treewalk.Source.Span

/-!
# Syntax trees

Expressions and statements of the language. A node that a diagnostic can name has an anchor: the
place of one of its tokens, such as the operator of a binary expression, the name of a variable or
the closing parenthesis of a call. A use of a name carries its binding, which says how many scopes
outward the name is declared; a name without a local declaration is global.

## Main definitions

* `Binding` — where a name that is used is declared
* `Expr`, `Stmt`, `FunctionDecl` — the trees
-/

namespace Treewalk

/-- The place by which a diagnostic names a node. A node built by hand has line zero and no span. -/
structure Anchor where
  line : Nat := 0
  column : Nat := 0
  span : Option Span := none
deriving DecidableEq

/-- The site that an anchor gives to a diagnostic. -/
def Anchor.site (anchor : Anchor) : Site := ⟨anchor.line, anchor.span⟩

/-- Where a name that is used is declared: `hops` scopes outward, or globally. -/
inductive Binding where
  | global
  | enclosing (hops : Nat)
deriving DecidableEq, Repr

/-- A use of a name. -/
structure Reference where
  name : String
  anchor : Anchor
  binding : Binding := .global
deriving DecidableEq

/-- A constant of the language. -/
inductive Literal where
  | nil
  | bool (value : Bool)
  | number (value : Float)
  | string (value : String)
deriving DecidableEq

/-- An operator with one operand. -/
inductive UnaryOp where
  | negate
  | not
  | other (symbol : String)
deriving DecidableEq, Repr

/-- An operator on two evaluated operands. -/
inductive BinaryOp where
  | equal | notEqual
  | add | subtract | multiply | divide
  | greater | greaterEqual | less | lessEqual
  | other (symbol : String)
deriving DecidableEq, Repr

/-- An operator whose right operand is evaluated only if the left one does not decide. -/
inductive LogicalOp where
  | or
  | and
  | other (symbol : String)
deriving DecidableEq, Repr

namespace UnaryOp

/-- The symbol of an operator. -/
def symbol : UnaryOp → String
  | .negate => "-"
  | .not => "!"
  | .other symbol => symbol

/-- The operator with a symbol. -/
def ofSymbol (symbol : String) : UnaryOp :=
  if symbol = "-" then .negate else if symbol = "!" then .not else .other symbol

end UnaryOp

namespace BinaryOp

/-- The operators that the language has. -/
def known : List BinaryOp :=
  [.equal, .notEqual, .add, .subtract, .multiply, .divide, .greater, .greaterEqual, .less,
    .lessEqual]

/-- The symbol of an operator. -/
def symbol : BinaryOp → String
  | .equal => "=="
  | .notEqual => "!="
  | .add => "+"
  | .subtract => "-"
  | .multiply => "*"
  | .divide => "/"
  | .greater => ">"
  | .greaterEqual => ">="
  | .less => "<"
  | .lessEqual => "<="
  | .other symbol => symbol

/-- The operator with a symbol. -/
def ofSymbol (symbol : String) : BinaryOp :=
  (known.find? fun op => op.symbol == symbol).getD (.other symbol)

end BinaryOp

namespace LogicalOp

/-- The symbol of an operator. -/
def symbol : LogicalOp → String
  | .or => "or"
  | .and => "and"
  | .other symbol => symbol

/-- The operator with a symbol. -/
def ofSymbol (symbol : String) : LogicalOp :=
  if symbol = "or" then .or else if symbol = "and" then .and else .other symbol

end LogicalOp

/-- An expression. -/
inductive Expr where
  | literal (value : Literal)
  | variable (reference : Reference)
  | assign (target : Reference) (value : Expr)
  | unary (op : UnaryOp) (operand : Expr) (anchor : Anchor)
  | binary (op : BinaryOp) (left right : Expr) (anchor : Anchor)
  | logical (op : LogicalOp) (left right : Expr)
  | grouping (inner : Expr)
  | call (callee : Expr) (arguments : List Expr) (anchor : Anchor)
  | get (object : Expr) (name : String) (anchor : Anchor)
  | set (object : Expr) (name : String) (value : Expr) (anchor : Anchor)
  | this (anchor : Anchor) (binding : Binding)
  | super (method : String) (anchor : Anchor) (binding : Binding)

mutual

/-- A statement. -/
inductive Stmt where
  | expression (value : Expr)
  | print (value : Expr)
  | declare (name : String) (initializer : Option Expr)
  | block (body : List Stmt)
  | ifThen (condition : Expr) (body : Stmt)
  | ifElse (condition : Expr) (body alternative : Stmt)
  | loop (condition : Expr) (body : Stmt)
  | function (declaration : FunctionDecl)
  | returning (value : Option Expr)
  | classDecl (name : String) (superclass : Option Reference) (methods : List FunctionDecl)

/-- The declaration of a function or method. -/
inductive FunctionDecl where
  | mk (name : String) (params : List String) (body : List Stmt) (anchor : Anchor)

end

namespace FunctionDecl

/-- The name of a function. -/
def name : FunctionDecl → String
  | .mk name _ _ _ => name

/-- The names of its parameters. -/
def params : FunctionDecl → List String
  | .mk _ params _ _ => params

/-- Its body. -/
def body : FunctionDecl → List Stmt
  | .mk _ _ body _ => body

/-- The place of its name. -/
def anchor : FunctionDecl → Anchor
  | .mk _ _ _ anchor => anchor

end FunctionDecl

/-- A program is a list of statements. -/
abbrev Program := List Stmt

end Treewalk
