import Treewalk.Tree.Binding

/-!
# Moving code to other places

A move says where the places of code go. It changes the anchors of a tree and nothing else. Binding
names looks at no anchor, so it does not matter whether names are bound before or after a move.
-/

namespace Treewalk

/-- Where the places of code go. The line of a place may depend on the span beside it. -/
structure Move where
  line : Nat → Option Span → Nat
  column : Nat → Nat
  span : Span → Span

namespace Move

variable (m : Move)

/-- Where an anchor goes. -/
def anchor (a : Anchor) : Anchor := ⟨m.line a.line a.span, m.column a.column, a.span.map m.span⟩

/-- Where the line of a diagnostic goes. No token stands on a line below zero; such a line keeps its
distance from line zero. -/
def row : Int → Option Span → Int
  | .ofNat line, span => m.line line span
  | .negSucc line, span => m.line 0 span + .negSucc line

/-- Where the site of a diagnostic goes. -/
def site (s : Site) : Site := ⟨m.row s.line s.span, s.span.map m.span⟩

@[simp] theorem span_anchor (a : Anchor) : (m.anchor a).span = a.span.map m.span := rfl

end Move

variable (m : Move)

/-! ### Trees -/

/-- A use of a name elsewhere. -/
def Reference.move (reference : Reference) : Reference :=
  { reference with anchor := m.anchor reference.anchor }

mutual

/-- An expression elsewhere. -/
def Expr.move : Expr → Expr
  | .literal value => .literal value
  | .variable reference => .variable (reference.move m)
  | .assign target value => .assign (target.move m) value.move
  | .unary op operand anchor => .unary op operand.move (m.anchor anchor)
  | .binary op left right anchor => .binary op left.move right.move (m.anchor anchor)
  | .logical op left right => .logical op left.move right.move
  | .grouping inner => .grouping inner.move
  | .call callee arguments anchor => .call callee.move (Expr.moveAll arguments) (m.anchor anchor)
  | .get object name anchor => .get object.move name (m.anchor anchor)
  | .set object name value anchor => .set object.move name value.move (m.anchor anchor)
  | .this anchor binding => .this (m.anchor anchor) binding
  | .super method anchor binding => .super method (m.anchor anchor) binding

/-- Expressions elsewhere. -/
def Expr.moveAll : List Expr → List Expr
  | [] => []
  | e :: rest => e.move :: Expr.moveAll rest

end

mutual

/-- A statement elsewhere. -/
def Stmt.move : Stmt → Stmt
  | .expression value => .expression (value.move m)
  | .print value => .print (value.move m)
  | .declare name initializer => .declare name (initializer.map (·.move m))
  | .block body => .block (Stmt.moveAll body)
  | .ifThen condition body => .ifThen (condition.move m) body.move
  | .ifElse condition body alternative => .ifElse (condition.move m) body.move alternative.move
  | .loop condition body => .loop (condition.move m) body.move
  | .function declaration => .function declaration.move
  | .returning value => .returning (value.map (·.move m))
  | .classDecl name superclass methods =>
    .classDecl name (superclass.map (·.move m)) (FunctionDecl.moveAll methods)

/-- Statements elsewhere. -/
def Stmt.moveAll : List Stmt → List Stmt
  | [] => []
  | s :: rest => s.move :: Stmt.moveAll rest

/-- A function elsewhere. -/
def FunctionDecl.move : FunctionDecl → FunctionDecl
  | .mk name params body anchor => .mk name params (Stmt.moveAll body) (m.anchor anchor)

/-- Functions elsewhere. -/
def FunctionDecl.moveAll : List FunctionDecl → List FunctionDecl
  | [] => []
  | f :: rest => f.move :: FunctionDecl.moveAll rest

end

/-- A program elsewhere. -/
def Program.move (program : Program) : Program := Stmt.moveAll m program

theorem Expr.moveAll_eq_map (es : List Expr) : Expr.moveAll m es = es.map (Expr.move m) := by
  induction es with
  | nil => rfl
  | cons e rest ih => rw [moveAll, ih, List.map_cons]

theorem Stmt.moveAll_eq_map (body : List Stmt) : Stmt.moveAll m body = body.map (Stmt.move m) := by
  induction body with
  | nil => rfl
  | cons s rest ih => rw [moveAll, ih, List.map_cons]

theorem FunctionDecl.moveAll_eq_map (fs : List FunctionDecl) :
    FunctionDecl.moveAll m fs = fs.map (FunctionDecl.move m) := by
  induction fs with
  | nil => rfl
  | cons f rest ih => rw [moveAll, ih, List.map_cons]

namespace FunctionDecl

variable (f : FunctionDecl)

@[simp] theorem name_move : (f.move m).name = f.name := by
  cases f; rfl

@[simp] theorem params_move : (f.move m).params = f.params := by
  cases f; rfl

@[simp] theorem body_move : (f.move m).body = Stmt.moveAll m f.body := by
  cases f; rfl

@[simp] theorem anchor_move : (f.move m).anchor = m.anchor f.anchor := by
  cases f; rfl

end FunctionDecl

/-! ### Binding -/

theorem Reference.bindName_move (scopes : StaticScopes) (reference : Reference) :
    (reference.move m).bindName scopes = (reference.bindName scopes).move m := rfl

mutual

theorem Expr.bindNames_move (scopes : StaticScopes) (e : Expr) :
    (e.move m).bindNames scopes = (e.bindNames scopes).move m := by
  match e with
  | .literal _ | .variable _ | .this _ _ | .super _ _ _ => rfl
  | .assign target value =>
    simp only [Expr.move, Expr.bindNames, value.bindNames_move, target.bindName_move]
  | .unary _ operand _ => simp only [Expr.move, Expr.bindNames, operand.bindNames_move]
  | .binary _ left right _ | .logical _ left right =>
    simp only [Expr.move, Expr.bindNames, left.bindNames_move, right.bindNames_move]
  | .grouping inner => simp only [Expr.move, Expr.bindNames, inner.bindNames_move]
  | .call callee arguments _ =>
    simp only [Expr.move, Expr.bindNames, callee.bindNames_move, Expr.bindAll_move scopes arguments]
  | .get object _ _ => simp only [Expr.move, Expr.bindNames, object.bindNames_move]
  | .set object _ value _ =>
    simp only [Expr.move, Expr.bindNames, object.bindNames_move, value.bindNames_move]

theorem Expr.bindAll_move (scopes : StaticScopes) (es : List Expr) :
    Expr.bindAll scopes (Expr.moveAll m es) = Expr.moveAll m (Expr.bindAll scopes es) := by
  match es with
  | [] => rfl
  | e :: rest =>
    simp only [Expr.moveAll, Expr.bindAll, e.bindNames_move, Expr.bindAll_move scopes rest]

end

mutual

/-- A statement is bound in the same way wherever it stands, and declares the same names. -/
theorem Stmt.bindNames_move (scopes : StaticScopes) (s : Stmt) :
    (s.move m).bindNames scopes = ((s.bindNames scopes).1.move m, (s.bindNames scopes).2) := by
  match s with
  | .expression value | .print value =>
    simp only [Stmt.move, Stmt.bindNames, value.bindNames_move]
  | .declare name none | .returning none => rfl
  | .declare name (some value) | .returning (some value) =>
    simp only [Stmt.move, Stmt.bindNames, Option.map_some, value.bindNames_move]
  | .block body => simp only [Stmt.move, Stmt.bindNames, Stmt.bindAll_move _ body]
  | .ifThen condition body | .loop condition body =>
    simp only [Stmt.move, Stmt.bindNames, condition.bindNames_move, body.bindNames_move]
  | .ifElse condition body alternative =>
    simp only [Stmt.move, Stmt.bindNames, condition.bindNames_move, body.bindNames_move,
      alternative.bindNames_move]
  | .function declaration =>
    simp only [Stmt.move, Stmt.bindNames, FunctionDecl.name_move, declaration.bindNames_move]
  | .classDecl name none methods =>
    simp only [Stmt.move, Stmt.bindNames, Option.map_none, FunctionDecl.bindAll_move _ methods]
  | .classDecl name (some parent) methods =>
    simp only [Stmt.move, Stmt.bindNames, Option.map_some, parent.bindName_move, methodScopes,
      FunctionDecl.bindAll_move _ methods]

theorem Stmt.bindAll_move (scopes : StaticScopes) (body : List Stmt) :
    Stmt.bindAll scopes (Stmt.moveAll m body) = Stmt.moveAll m (Stmt.bindAll scopes body) := by
  match body with
  | [] => rfl
  | s :: rest =>
    simp only [Stmt.moveAll, Stmt.bindAll, s.bindNames_move, Stmt.bindAll_move _ rest]

theorem FunctionDecl.bindNames_move (scopes : StaticScopes) (f : FunctionDecl) :
    (f.move m).bindNames scopes = (f.bindNames scopes).move m := by
  match f with
  | .mk name params body anchor =>
    simp only [FunctionDecl.move, FunctionDecl.bindNames, Stmt.bindAll_move _ body]

theorem FunctionDecl.bindAll_move (scopes : StaticScopes) (fs : List FunctionDecl) :
    FunctionDecl.bindAll scopes (FunctionDecl.moveAll m fs) =
      FunctionDecl.moveAll m (FunctionDecl.bindAll scopes fs) := by
  match fs with
  | [] => rfl
  | f :: rest =>
    simp only [FunctionDecl.moveAll, FunctionDecl.bindAll, f.bindNames_move,
      FunctionDecl.bindAll_move _ rest]

end

/-- A program is bound in the same way wherever it stands. -/
theorem Program.bindNames_move (program : Program) :
    (program.move m).bindNames = program.bindNames.move m :=
  Stmt.bindAll_move m [] program

/-! ### Programs in parts -/

/-- Outside all scopes, a statement leaves nothing for the next one. -/
theorem Stmt.bindNames_nil (s : Stmt) : (s.bindNames []).2 = [] := by
  match s with
  | .ifThen _ body | .loop _ body => exact body.bindNames_nil
  | .ifElse _ body alternative =>
    simp only [Stmt.bindNames]
    rw [body.bindNames_nil, alternative.bindNames_nil]
  | .expression _ | .print _ | .declare _ _ | .block _ | .function _ | .returning _
  | .classDecl _ _ _ => rfl

/-- The parts of a program are bound independently. -/
theorem Program.bindNames_append (program rest : Program) :
    (program ++ rest).bindNames = program.bindNames ++ rest.bindNames := by
  induction program with
  | nil => rfl
  | cons s program ih =>
    unfold Program.bindNames at ih ⊢
    simp only [List.cons_append, Stmt.bindAll, s.bindNames_nil, ih]

end Treewalk
