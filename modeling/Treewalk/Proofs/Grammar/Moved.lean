import Treewalk.Proofs.Grammar.Derivation
import Treewalk.Proofs.Tree.Move

/-!
# Derivations do not look at places

A move acts on tokens as it does on trees. A derivation asks for the kinds and the texts of tokens
only, so moved tokens spell the moved tree.
-/

namespace Treewalk

/-- A token elsewhere. -/
def Token.move (m : Move) (t : Token) : Token :=
  { t with line := m.line t.line (some t.span), column := m.column t.column, span := m.span t.span }

namespace Grammar

/-! ### Expressions -/

theorem Precedence.Joins.move {level : Precedence} {token : Token} {left right e : Expr}
    (h : level.Joins token left right e) (m : Move) :
    level.Joins (token.move m) (left.move m) (right.move m) (e.move m) := by
  cases h with
  | or hkind => exact .or hkind
  | and hkind => exact .and hkind
  | binary hkind => exact .binary hkind

/-- What a nonterminal of expressions derives, elsewhere. -/
def ExprPhrase.move (m : Move) : ExprPhrase → ExprPhrase
  | .one e => .one (e.move m)
  | .many items => .many (Expr.moveAll m items)

theorem DerivesExpr.move {enclosing : ClassKind} {symbol : ExprSymbol} {ts : List Token}
    {phrase : ExprPhrase} (h : DerivesExpr enclosing symbol ts phrase) (m : Move) :
    DerivesExpr enclosing symbol (ts.map (Token.move m)) (phrase.move m) := by
  induction h with
  | assignVariable hname hequals _ ih => exact .assignVariable hname hequals ih
  | assignProperty _ hdot hname hequals _ ihobject ihvalue =>
    rw [List.map_append]
    exact .assignProperty ihobject hdot hname hequals ihvalue
  | noAssignment _ ih => exact .noAssignment ih
  | operand _ ih => exact .operand ih
  | join _ hjoin _ ihleft ihright =>
    rw [List.map_append]
    exact .join ihleft (hjoin.move m) ihright
  | prefixed hop _ ih => exact .prefixed hop ih
  | noPrefix _ ih => exact .noPrefix ih
  | noCall _ ih => exact .noCall ih
  | callEmpty _ hopening hclosing ih =>
    rw [List.map_append]
    exact .callEmpty ih hopening hclosing
  | callItems _ hopening _ hlimit hclosing ih ihitems =>
    rw [List.map_append, List.map_cons, List.map_append]
    refine .callItems ih hopening ihitems ?_ hclosing
    rw [Expr.moveAll_eq_map, List.length_map]
    exact hlimit
  | property _ hdot hname ih =>
    rw [List.map_append]
    exact .property ih hdot hname
  | literal hvalue => exact .literal hvalue
  | «variable» hname => exact .variable hname
  | this hkeyword hplace => exact .this hkeyword hplace
  | super hkeyword hdot hmethod hplace => exact .super hkeyword hdot hmethod hplace
  | grouping hopening _ hclosing ih =>
    rw [List.map_cons, List.map_append]
    exact .grouping hopening ih hclosing
  | lastItem _ ih => exact .lastItem ih
  | consItem _ hcomma _ ih ihitems =>
    rw [List.map_append]
    exact .consItem ih hcomma ihitems

/-! ### Parts of statements -/

section Parts

variable {place : Place} {ts : List Token}

theorem OptionalExpression.move {value : Option Expr} (h : OptionalExpression place ts value)
    (m : Move) :
    OptionalExpression place (ts.map (Token.move m)) (value.map (Expr.move m)) := by
  cases h with
  | none => exact .none
  | some h => exact .some (DerivesExpr.move h m)

theorem ExpressionStmt.move {s : Stmt} (h : ExpressionStmt place ts s) (m : Move) :
    ExpressionStmt place (ts.map (Token.move m)) (s.move m) := by
  cases h with
  | mk h hsemicolon =>
    rw [List.map_append]
    exact .mk (DerivesExpr.move h m) hsemicolon

theorem VariableDecl.move {s : Stmt} (h : VariableDecl place ts s) (m : Move) :
    VariableDecl place (ts.map (Token.move m)) (s.move m) := by
  cases h with
  | bare hkeyword hname hsemicolon => exact .bare hkeyword hname hsemicolon
  | initialized hkeyword hname hequals hvalue hsemicolon =>
    simp only [List.map_cons, List.map_append]
    exact .initialized hkeyword hname hequals (DerivesExpr.move hvalue m) hsemicolon

theorem LoopStart.move {initializer : Option Stmt} (h : LoopStart place ts initializer)
    (m : Move) : LoopStart place (ts.map (Token.move m)) (initializer.map (Stmt.move m)) := by
  cases h with
  | none hsemicolon => exact .none hsemicolon
  | «variable» h => exact .variable (h.move m)
  | expression h => exact .expression (h.move m)

theorem move_loopTree (m : Move) (initializer : Option Stmt) (condition increment : Option Expr)
    (body : Stmt) :
    (loopTree initializer condition increment body).move m =
      loopTree (initializer.map (Stmt.move m)) (condition.map (Expr.move m))
        (increment.map (Expr.move m)) (body.move m) := by
  cases initializer <;> cases condition <;> cases increment <;> rfl

theorem ParameterNames.move {names : List String} (h : ParameterNames ts names) (m : Move) :
    ParameterNames (ts.map (Token.move m)) names := by
  induction h with
  | last hname => exact .last hname
  | cons hname hcomma _ ih => exact .cons hname hcomma ih

theorem Parameters.move {names : List String} (h : Parameters ts names) (m : Move) :
    Parameters (ts.map (Token.move m)) names := by
  cases h with
  | none => exact .none
  | some h hlimit => exact .some (h.move m) hlimit

theorem SuperclassClause.move {name : Token} {superclass : Option Reference}
    (h : SuperclassClause name ts superclass) (m : Move) :
    SuperclassClause (name.move m) (ts.map (Token.move m))
      (superclass.map (Reference.move m)) := by
  cases h with
  | none => exact .none
  | some hless hparent hother => exact .some hless hparent hother

theorem classKind_map (superclass : Option Reference) (f : Reference → Reference) :
    classKind (superclass.map f) = classKind superclass := by
  cases superclass <;> rfl

end Parts

/-! ### Statements -/

/-- What a nonterminal of statements derives, elsewhere. -/
def StmtPhrase.move (m : Move) : StmtPhrase → StmtPhrase
  | .stmts body => .stmts (Stmt.moveAll m body)
  | .stmt s => .stmt (s.move m)
  | .function declaration => .function (declaration.move m)
  | .functions methods => .functions (FunctionDecl.moveAll m methods)

theorem DerivesStmt.move {place : Place} {symbol : StmtSymbol} {ts : List Token}
    {phrase : StmtPhrase} (h : DerivesStmt place symbol ts phrase) (m : Move) :
    DerivesStmt place symbol (ts.map (Token.move m)) (phrase.move m) := by
  induction h with
  | noDeclarations => exact .noDeclarations
  | consDeclaration _ _ ihfirst ihrest =>
    rw [List.map_append]
    exact .consDeclaration ihfirst ihrest
  | @classDecl _ _ _ _ _ _ _ superclass _ hkeyword hname hsuperclass hopening _ hclosing ih =>
    simp only [List.map_cons, List.map_append]
    refine .classDecl hkeyword hname (hsuperclass.move m) hopening ?_ hclosing
    rw [classKind_map]
    exact ih
  | functionDecl hkeyword _ ih => exact .functionDecl hkeyword ih
  | variableDecl h => exact .variableDecl (h.move m)
  | statement _ ih => exact .statement ih
  | expression h => exact .expression (h.move m)
  | forLoop hkeyword hopening hinitializer hcondition hsemicolon hincrement hclosing _ ih =>
    simp only [List.map_cons, List.map_append, StmtPhrase.move, move_loopTree]
    exact .forLoop hkeyword hopening (hinitializer.move m) (hcondition.move m) hsemicolon
      (hincrement.move m) hclosing ih
  | ifThen hkeyword hopening hcondition hclosing _ ih =>
    simp only [List.map_cons, List.map_append]
    exact .ifThen hkeyword hopening (DerivesExpr.move hcondition m) hclosing ih
  | ifElse hkeyword hopening hcondition hclosing _ hotherwise _ ihbody ihalternative =>
    simp only [List.map_cons, List.map_append]
    exact .ifElse hkeyword hopening (DerivesExpr.move hcondition m) hclosing ihbody hotherwise
      ihalternative
  | print hkeyword hvalue hsemicolon =>
    simp only [List.map_cons, List.map_append]
    exact .print hkeyword (DerivesExpr.move hvalue m) hsemicolon
  | returning hkeyword hplace hvalue hinitializer hsemicolon =>
    simp only [List.map_cons, List.map_append]
    refine .returning hkeyword hplace (hvalue.move m) (fun hkind => ?_) hsemicolon
    rw [hinitializer hkind, Option.map_none]
  | whileLoop hkeyword hopening hcondition hclosing _ ih =>
    simp only [List.map_cons, List.map_append]
    exact .whileLoop hkeyword hopening (DerivesExpr.move hcondition m) hclosing ih
  | block hopening _ hclosing ih =>
    simp only [List.map_cons, List.map_append]
    exact .block hopening ih hclosing
  | function hname hopening hparams hclosing hstart _ hfinish ih =>
    simp only [List.map_cons, List.map_append]
    exact .function hname hopening (hparams.move m) hclosing hstart ih hfinish
  | noMethods => exact .noMethods
  | consMethod _ _ ihfirst ihrest =>
    rw [List.map_append]
    exact .consMethod ihfirst ihrest

/-- The tokens of a program, moved, spell the moved program. -/
theorem DerivesProgram.move {ts : List Token} {program : Program} (h : DerivesProgram ts program)
    (m : Move) : DerivesProgram (ts.map (Token.move m)) (program.move m) :=
  DerivesStmt.move h m

end Grammar

end Treewalk
