import Treewalk.Tree.Basic

/-!
# Lexical binding

Before a program runs, every use of a name is bound to the nearest enclosing local scope that
declares the name before the use. Blocks and function calls open scopes; the methods of a class see
a scope that holds `this`, and outside it one that holds `super` if the class has a superclass. A
variable is declared only after its initializer, a function or class before its own body. What no
local scope declares is global and is looked up when it is used.

## Main definitions

* `StaticScopes` — the names that are declared in the scopes around a node
* `Expr.bindNames`, `Stmt.bindNames`, `Program.bindNames` — the tree with its bindings
* `Program.localUses` — the local uses of a bound program, in the order of binding
-/

namespace Treewalk

/-- The names declared so far in the local scopes around a node, innermost first. -/
abbrev StaticScopes := List (List String)

namespace StaticScopes

/-- The binding of a name that is used here. -/
def binding (scopes : StaticScopes) (name : String) : Binding :=
  match scopes.findIdx? (·.contains name) with
  | some hops => .enclosing hops
  | none => .global

/-- Declares a name in the innermost scope. Outside all scopes nothing is recorded. -/
def declare (scopes : StaticScopes) (name : String) : StaticScopes :=
  match scopes with
  | [] => []
  | scope :: outer => (name :: scope) :: outer

end StaticScopes

/-- A use of a name bound in the scopes around it. -/
def Reference.bindName (scopes : StaticScopes) (reference : Reference) : Reference :=
  { reference with binding := scopes.binding reference.name }

mutual

/-- An expression with the bindings of its names. -/
def Expr.bindNames (scopes : StaticScopes) : Expr → Expr
  | .literal value => .literal value
  | .variable reference => .variable (reference.bindName scopes)
  | .assign target value => .assign (target.bindName scopes) (value.bindNames scopes)
  | .unary op operand anchor => .unary op (operand.bindNames scopes) anchor
  | .binary op left right anchor =>
    .binary op (left.bindNames scopes) (right.bindNames scopes) anchor
  | .logical op left right => .logical op (left.bindNames scopes) (right.bindNames scopes)
  | .grouping inner => .grouping (inner.bindNames scopes)
  | .call callee arguments anchor =>
    .call (callee.bindNames scopes) (Expr.bindAll scopes arguments) anchor
  | .get object name anchor => .get (object.bindNames scopes) name anchor
  | .set object name value anchor =>
    .set (object.bindNames scopes) name (value.bindNames scopes) anchor
  | .this anchor _ => .this anchor (scopes.binding "this")
  | .super method anchor _ => .super method anchor (scopes.binding "super")

/-- Expressions with the bindings of their names. -/
def Expr.bindAll (scopes : StaticScopes) : List Expr → List Expr
  | [] => []
  | e :: rest => e.bindNames scopes :: Expr.bindAll scopes rest

end

/-- The scopes around the methods of a class. -/
def methodScopes (scopes : StaticScopes) (superclass : Option Reference) : StaticScopes :=
  match superclass with
  | some _ => ["this"] :: ["super"] :: scopes
  | none => ["this"] :: scopes

mutual

/-- A statement with the bindings of its names, and the scopes after it. -/
def Stmt.bindNames (scopes : StaticScopes) : Stmt → Stmt × StaticScopes
  | .expression value => (.expression (value.bindNames scopes), scopes)
  | .print value => (.print (value.bindNames scopes), scopes)
  | .declare name initializer =>
    (.declare name (initializer.map (·.bindNames scopes)), scopes.declare name)
  | .block body => (.block (Stmt.bindAll ([] :: scopes) body), scopes)
  | .ifThen condition body =>
    let (body, scopes') := body.bindNames scopes
    (.ifThen (condition.bindNames scopes) body, scopes')
  | .ifElse condition body alternative =>
    let (body, scopes') := body.bindNames scopes
    let (alternative, scopes'') := alternative.bindNames scopes'
    (.ifElse (condition.bindNames scopes) body alternative, scopes'')
  | .loop condition body =>
    let (body, scopes') := body.bindNames scopes
    (.loop (condition.bindNames scopes) body, scopes')
  | .function declaration =>
    let scopes' := scopes.declare declaration.name
    (.function (declaration.bindNames scopes'), scopes')
  | .returning value => (.returning (value.map (·.bindNames scopes)), scopes)
  | .classDecl name superclass methods =>
    let scopes' := scopes.declare name
    let methods := FunctionDecl.bindAll (methodScopes scopes' superclass) methods
    (.classDecl name (superclass.map (·.bindName scopes')) methods, scopes')

/-- Statements in turn with the bindings of their names. -/
def Stmt.bindAll (scopes : StaticScopes) : List Stmt → List Stmt
  | [] => []
  | s :: rest =>
    let (s, scopes') := s.bindNames scopes
    s :: Stmt.bindAll scopes' rest

/-- A function with the bindings of its names. Parameters and body share one scope. -/
def FunctionDecl.bindNames (scopes : StaticScopes) : FunctionDecl → FunctionDecl
  | .mk name params body anchor => .mk name params (Stmt.bindAll (params :: scopes) body) anchor

/-- Functions with the bindings of their names. -/
def FunctionDecl.bindAll (scopes : StaticScopes) : List FunctionDecl → List FunctionDecl
  | [] => []
  | f :: rest => f.bindNames scopes :: FunctionDecl.bindAll scopes rest

end

/-- A program with the bindings of its names. -/
def Program.bindNames (program : Program) : Program := Stmt.bindAll [] program

/-! ### The order of binding -/

/-- What a use of a local name does with it. -/
inductive UseKind where
  | read
  | write
  | receiver
  | superclass
deriving DecidableEq, Repr

/-- A use of a name that is bound `hops` scopes outward; an access through `super` goes by the name
of the method. -/
structure LocalUse where
  kind : UseKind
  name : String
  anchor : Anchor
  hops : Nat
deriving DecidableEq

/-- A step of binding a program: a local use was bound, or a list of statements was finished. -/
inductive BindingStep where
  | bound (use : LocalUse)
  | listDone
deriving DecidableEq

/-- The local use of a name with a binding. -/
def localUse (kind : UseKind) (name : String) (anchor : Anchor) : Binding → List LocalUse
  | .global => []
  | .enclosing hops => [⟨kind, name, anchor, hops⟩]

mutual

/-- The local uses in a bound expression. An assigned value is bound before the target. -/
def Expr.localUses : Expr → List LocalUse
  | .literal _ => []
  | .variable reference => localUse .read reference.name reference.anchor reference.binding
  | .assign target value =>
    value.localUses ++ localUse .write target.name target.anchor target.binding
  | .unary _ operand _ => operand.localUses
  | .binary _ left right _ => left.localUses ++ right.localUses
  | .logical _ left right => left.localUses ++ right.localUses
  | .grouping inner => inner.localUses
  | .call callee arguments _ => callee.localUses ++ Expr.localUsesAll arguments
  | .get object _ _ => object.localUses
  | .set object _ value _ => object.localUses ++ value.localUses
  | .this anchor binding => localUse .receiver "this" anchor binding
  | .super method anchor binding => localUse .superclass method anchor binding

/-- The local uses in bound expressions. -/
def Expr.localUsesAll : List Expr → List LocalUse
  | [] => []
  | e :: rest => e.localUses ++ Expr.localUsesAll rest

end

/-- The steps of binding an expression. -/
def Expr.bindingSteps (e : Expr) : List BindingStep := e.localUses.map .bound

mutual

/-- The steps of binding a statement. -/
def Stmt.bindingSteps : Stmt → List BindingStep
  | .expression value => value.bindingSteps
  | .print value => value.bindingSteps
  | .declare _ none => []
  | .declare _ (some value) => value.bindingSteps
  | .block body => Stmt.bindingStepsAll body ++ [.listDone]
  | .ifThen condition body => condition.bindingSteps ++ body.bindingSteps
  | .ifElse condition body alternative =>
    condition.bindingSteps ++ body.bindingSteps ++ alternative.bindingSteps
  | .loop condition body => condition.bindingSteps ++ body.bindingSteps
  | .function declaration => declaration.bindingSteps
  | .returning none => []
  | .returning (some value) => value.bindingSteps
  | .classDecl _ none methods => FunctionDecl.bindingStepsAll methods
  | .classDecl _ (some superclass) methods =>
    (Expr.variable superclass).bindingSteps ++ FunctionDecl.bindingStepsAll methods

/-- The steps of binding statements in turn. -/
def Stmt.bindingStepsAll : List Stmt → List BindingStep
  | [] => []
  | s :: rest => s.bindingSteps ++ Stmt.bindingStepsAll rest

/-- The steps of binding a function. -/
def FunctionDecl.bindingSteps : FunctionDecl → List BindingStep
  | .mk _ _ body _ => Stmt.bindingStepsAll body ++ [.listDone]

/-- The steps of binding functions in turn. -/
def FunctionDecl.bindingStepsAll : List FunctionDecl → List BindingStep
  | [] => []
  | f :: rest => f.bindingSteps ++ FunctionDecl.bindingStepsAll rest

end

/-- The steps of binding a program, which is itself a list of statements. -/
def Program.bindingSteps (program : Program) : List BindingStep :=
  Stmt.bindingStepsAll program ++ [.listDone]

/-- The local uses of a bound program, in the order of binding. -/
def Program.localUses (program : Program) : List LocalUse :=
  program.bindingSteps.filterMap fun
    | .bound use => some use
    | .listDone => none

/-- How many local uses were bound when each list of statements was finished. -/
def runningTotals (total : Nat) : List BindingStep → List Nat
  | [] => []
  | .bound _ :: rest => runningTotals (total + 1) rest
  | .listDone :: rest => total :: runningTotals total rest

end Treewalk
