import Treewalk.Tree.Basic
import Treewalk.Number.Display

/-!
# The text of a tree

A tree is shown in parenthesised prefix form, which makes its grouping visible: `1 + 2 * 3` is
`(+ 1 (* 2 3))`. A program has one line per statement.

## Main definitions

* `Expr.text`, `Stmt.text` — the text of a tree
* `Program.text` — the text of a program
-/

namespace Treewalk

/-- A head and the texts of its parts between parentheses. -/
def parenthesised (head : String) (parts : List String) : String :=
  "(" ++ " ".intercalate (head :: parts) ++ ")"

/-- The text of a constant. -/
def Literal.text : Literal → String
  | .nil => "nil"
  | .bool true => "true"
  | .bool false => "false"
  | .number value => Number.display value
  | .string value => "\"" ++ value ++ "\""

mutual

/-- The text of an expression. -/
def Expr.text : Expr → String
  | .literal value => value.text
  | .variable reference => reference.name
  | .assign target value => parenthesised s!"= {target.name}" [value.text]
  | .unary op operand _ => parenthesised op.symbol [operand.text]
  | .binary op left right _ => parenthesised op.symbol [left.text, right.text]
  | .logical op left right => parenthesised op.symbol [left.text, right.text]
  | .grouping inner => parenthesised "group" [inner.text]
  | .call callee arguments _ => parenthesised "call" (callee.text :: Expr.texts arguments)
  | .get object name _ => parenthesised s!". {name}" [object.text]
  | .set object name value _ => parenthesised s!".= {name}" [object.text, value.text]
  | .this _ _ => "this"
  | .super method _ _ => s!"(super {method})"

/-- The texts of expressions. -/
def Expr.texts : List Expr → List String
  | [] => []
  | e :: rest => e.text :: Expr.texts rest

end

mutual

/-- The text of a statement. -/
def Stmt.text : Stmt → String
  | .expression value => parenthesised ";" [value.text]
  | .print value => parenthesised "print" [value.text]
  | .declare name none => s!"(var {name})"
  | .declare name (some value) => parenthesised s!"var {name}" [value.text]
  | .block body => parenthesised "block" (Stmt.texts body)
  | .ifThen condition body => parenthesised "if" [condition.text, body.text]
  | .ifElse condition body alternative =>
    parenthesised "if-else" [condition.text, body.text, alternative.text]
  | .loop condition body => parenthesised "while" [condition.text, body.text]
  | .function declaration => declaration.text
  | .returning none => "(return)"
  | .returning (some value) => parenthesised "return" [value.text]
  | .classDecl name none methods => parenthesised s!"class {name}" (FunctionDecl.texts methods)
  | .classDecl name (some superclass) methods =>
    parenthesised s!"class {name} < {superclass.name}" (FunctionDecl.texts methods)

/-- The texts of statements. -/
def Stmt.texts : List Stmt → List String
  | [] => []
  | s :: rest => s.text :: Stmt.texts rest

/-- The text of a function. -/
def FunctionDecl.text : FunctionDecl → String
  | .mk name params body _ =>
    let list := " ".intercalate params
    parenthesised s!"fun {name}({list})" (Stmt.texts body)

/-- The texts of functions. -/
def FunctionDecl.texts : List FunctionDecl → List String
  | [] => []
  | f :: rest => f.text :: FunctionDecl.texts rest

end

/-- The text of a program: one statement per line. -/
def Program.text (program : Program) : String :=
  "\n".intercalate (Stmt.texts program)

end Treewalk
