import Treewalk.Proofs.Grammar.Derivation

/-!
# Legal trees

What the grammar guarantees of a tree, said of the tree alone. Evaluation relies on it: a `return`
stands in a function, `this` in a class and `super` in a class with a superclass; the operators are
those of the language; the branches of an `if` and the body of a loop declare nothing in the scope
around them; and no declared name is `this` or `super`.
-/

namespace Treewalk

open Grammar (FunctionKind ClassKind Place bodyKind classKind)

/-- A name that a program can declare and use: neither `this` nor `super`. -/
def IsName (name : String) : Prop :=
  name ≠ "this" ∧ name ≠ "super"

mutual

/-- Everything in an expression may stand in a class of a kind, or outside every class. -/
def Expr.Legal (enclosing : ClassKind) : Expr → Prop
  | .literal _ => True
  | .variable reference => IsName reference.name
  | .assign target value => IsName target.name ∧ value.Legal enclosing
  | .unary _ operand _ => operand.Legal enclosing
  | .binary op left right _ =>
    op ∈ BinaryOp.known ∧ left.Legal enclosing ∧ right.Legal enclosing
  | .logical _ left right => left.Legal enclosing ∧ right.Legal enclosing
  | .grouping inner => inner.Legal enclosing
  | .call callee arguments _ => callee.Legal enclosing ∧ Expr.AllLegal enclosing arguments
  | .get object _ _ => object.Legal enclosing
  | .set object _ value _ => object.Legal enclosing ∧ value.Legal enclosing
  | .this _ _ => enclosing ≠ .none
  | .super _ _ _ => enclosing = .subclass

/-- Legal expressions. -/
def Expr.AllLegal (enclosing : ClassKind) : List Expr → Prop
  | [] => True
  | e :: rest => e.Legal enclosing ∧ Expr.AllLegal enclosing rest

end

/-- A statement that declares nothing in the scope in which it stands. -/
def Stmt.Plain : Stmt → Prop
  | .declare _ _ | .function _ | .classDecl _ _ _ => False
  | _ => True

mutual

/-- Everything in a statement may stand at a place. -/
def Stmt.Legal (place : Place) : Stmt → Prop
  | .expression value => value.Legal place.enclosing
  | .print value => value.Legal place.enclosing
  | .declare name none => IsName name
  | .declare name (some value) => IsName name ∧ value.Legal place.enclosing
  | .block body => Stmt.AllLegal place body
  | .ifThen condition body => condition.Legal place.enclosing ∧ body.Plain ∧ body.Legal place
  | .ifElse condition body alternative =>
    condition.Legal place.enclosing ∧ body.Plain ∧ body.Legal place ∧
      alternative.Plain ∧ alternative.Legal place
  | .loop condition body => condition.Legal place.enclosing ∧ body.Plain ∧ body.Legal place
  | .function declaration => declaration.Legal place false
  | .returning none => place.function ≠ .none
  | .returning (some value) =>
    place.function ≠ .none ∧ place.function ≠ .initializer ∧ value.Legal place.enclosing
  | .classDecl name superclass methods =>
    IsName name ∧ (∀ parent ∈ superclass, IsName parent.name ∧ parent.name ≠ name) ∧
      FunctionDecl.AllLegal { place with enclosing := classKind superclass } true methods

/-- Legal statements. -/
def Stmt.AllLegal (place : Place) : List Stmt → Prop
  | [] => True
  | s :: rest => s.Legal place ∧ Stmt.AllLegal place rest

/-- A function, or a method, with a legal body. -/
def FunctionDecl.Legal (place : Place) (method : Bool) : FunctionDecl → Prop
  | .mk name params body _ =>
    IsName name ∧ (∀ param ∈ params, IsName param) ∧
      Stmt.AllLegal { place with function := bodyKind method name } body

/-- Legal functions or methods. -/
def FunctionDecl.AllLegal (place : Place) (method : Bool) : List FunctionDecl → Prop
  | [] => True
  | f :: rest => f.Legal place method ∧ FunctionDecl.AllLegal place method rest

end

namespace Grammar

/-! ### Derivations of legal trees -/

/-- The identifiers among the tokens are names. -/
def NamesOnly (ts : List Token) : Prop :=
  ∀ token ∈ ts, token.kind = .identifier → IsName token.lexeme

@[simp] theorem namesOnly_cons_iff {token : Token} {ts : List Token} :
    NamesOnly (token :: ts) ↔ (token.kind = .identifier → IsName token.lexeme) ∧ NamesOnly ts :=
  List.forall_mem_cons

@[simp] theorem namesOnly_append_iff {ts rs : List Token} :
    NamesOnly (ts ++ rs) ↔ NamesOnly ts ∧ NamesOnly rs :=
  List.forall_mem_append

theorem Precedence.Joins.legal {level : Precedence} {token : Token} {left right e : Expr}
    {enclosing : ClassKind} (h : level.Joins token left right e) (hleft : left.Legal enclosing)
    (hright : right.Legal enclosing) : e.Legal enclosing := by
  cases h with
  | or | and => exact ⟨hleft, hright⟩
  | @binary _ _ op _ _ hkind =>
    refine ⟨?_, hleft, hright⟩
    -- the loosest two levels have keywords for operators, and no symbols
    cases level with
    | disjunction | conjunction => exact absurd hkind List.not_mem_nil
    | equality | comparison | sum | product =>
      simp only [Precedence.operators, List.mem_cons, Prod.mk.injEq, List.not_mem_nil,
        or_false] at hkind
      simp only [BinaryOp.known, List.mem_cons]
      grind

/-- What derivations of expressions derive is legal. -/
def ExprPhrase.Legal (enclosing : ClassKind) : ExprPhrase → Prop
  | .one e => e.Legal enclosing
  | .many items => Expr.AllLegal enclosing items

theorem DerivesExpr.legal {enclosing : ClassKind} {symbol : ExprSymbol} {ts : List Token}
    {phrase : ExprPhrase} (h : DerivesExpr enclosing symbol ts phrase) (hnames : NamesOnly ts) :
    phrase.Legal enclosing := by
  induction h with
  | assignVariable hname _ _ ih =>
    obtain ⟨hisName, _, hvalue⟩ := by simpa using hnames
    exact ⟨hisName hname, ih hvalue⟩
  | assignProperty _ _ _ _ _ ihobject ihvalue =>
    exact ⟨ihobject (by simp_all), ihvalue (by simp_all)⟩
  | noAssignment _ ih | operand _ ih | noPrefix _ ih | noCall _ ih => exact ih hnames
  | join _ hjoin _ ihleft ihright =>
    exact hjoin.legal (ihleft (by simp_all)) (ihright (by simp_all))
  | prefixed _ _ ih => exact ih (by simp_all)
  | callEmpty _ _ _ ih => exact ⟨ih (by simp_all), trivial⟩
  | callItems _ _ _ _ _ ihcallee ihitems => exact ⟨ihcallee (by simp_all), ihitems (by simp_all)⟩
  | property _ _ _ ih => exact ih (by simp_all)
  | literal => trivial
  | «variable» hname => exact hnames _ List.mem_cons_self hname
  | this _ hplace => exact hplace
  | super _ _ _ hplace => exact hplace
  | grouping _ _ _ ih => exact ih (by simp_all)
  | lastItem _ ih => exact ⟨ih hnames, trivial⟩
  | consItem _ _ _ ihitem ihitems => exact ⟨ihitem (by simp_all), ihitems (by simp_all)⟩

theorem OptionalExpression.legal {place : Place} {ts : List Token} {value : Option Expr}
    (h : OptionalExpression place ts value) (hnames : NamesOnly ts) :
    ∀ e ∈ value, e.Legal place.enclosing := by
  cases h with
  | none => exact fun e he => absurd he (by simp)
  | some h =>
    rintro e ⟨⟩
    exact DerivesExpr.legal h hnames

theorem ExpressionStmt.legal {place : Place} {ts : List Token} {s : Stmt}
    (h : ExpressionStmt place ts s) (hnames : NamesOnly ts) : s.Legal place ∧ s.Plain := by
  cases h with
  | mk h _ => exact ⟨DerivesExpr.legal h (by simp_all), trivial⟩

theorem VariableDecl.legal {place : Place} {ts : List Token} {s : Stmt}
    (h : VariableDecl place ts s) (hnames : NamesOnly ts) : s.Legal place := by
  cases h with
  | bare _ hname _ => exact hnames _ (by simp) hname
  | initialized _ hname _ hvalue _ =>
    exact ⟨hnames _ (by simp) hname, DerivesExpr.legal hvalue (by simp_all)⟩

theorem LoopStart.legal {place : Place} {ts : List Token} {initializer : Option Stmt}
    (h : LoopStart place ts initializer) (hnames : NamesOnly ts) :
    ∀ s ∈ initializer, s.Legal place := by
  cases h with
  | none => exact fun s hs => absurd hs (by simp)
  | «variable» h =>
    rintro s ⟨⟩
    exact h.legal hnames
  | expression h =>
    rintro s ⟨⟩
    exact (h.legal hnames).1

theorem ParameterNames.isName {ts : List Token} {names : List String} (h : ParameterNames ts names)
    (hnames : NamesOnly ts) : ∀ name ∈ names, IsName name := by
  induction h with
  | last hname => simpa using hnames _ (by simp) hname
  | cons hname _ _ ih =>
    rw [List.forall_mem_cons]
    exact ⟨hnames _ (by simp) hname, ih (by simp_all)⟩

theorem Parameters.isName {ts : List Token} {names : List String} (h : Parameters ts names)
    (hnames : NamesOnly ts) : ∀ name ∈ names, IsName name := by
  cases h with
  | none => exact fun name hname => absurd hname List.not_mem_nil
  | some h _ => exact h.isName hnames

theorem SuperclassClause.isName {name : Token} {ts : List Token} {superclass : Option Reference}
    (h : SuperclassClause name ts superclass) (hnames : NamesOnly ts) :
    ∀ parent ∈ superclass, IsName parent.name ∧ parent.name ≠ name.lexeme := by
  cases h with
  | none => exact fun parent hparent => absurd hparent (by simp)
  | some _ hparent hother =>
    rintro parent ⟨⟩
    exact ⟨hnames _ (by simp) hparent, hother⟩

/-- The tree of a `for` loop is legal if its parts are. -/
theorem loopTree_legal {place : Place} {initializer : Option Stmt}
    {condition increment : Option Expr} {body : Stmt}
    (hinitializer : ∀ s ∈ initializer, s.Legal place)
    (hcondition : ∀ e ∈ condition, e.Legal place.enclosing)
    (hincrement : ∀ e ∈ increment, e.Legal place.enclosing)
    (hbody : body.Legal place ∧ body.Plain) :
    (loopTree initializer condition increment body).Legal place ∧
      (loopTree initializer condition increment body).Plain := by
  -- a clause that is left out adds no node, apart from the condition, which is then `true`
  have htest : (condition.getD (.literal (.bool true))).Legal place.enclosing := by
    cases condition with
    | none => trivial
    | some e => exact hcondition e rfl
  have hround : ∀ round : Stmt, round.Legal place ∧ round.Plain →
      (Stmt.loop (condition.getD (.literal (.bool true))) round).Legal place :=
    fun round hround => ⟨htest, hround.2, hround.1⟩
  have hloop : ∀ loop : Stmt, loop.Legal place → ∀ s ∈ initializer,
      (Stmt.block [s, loop]).Legal place :=
    fun loop hloop s hs => ⟨hinitializer s hs, hloop, trivial⟩
  have hlast : ∀ e ∈ increment, (Stmt.block [body, .expression e]).Legal place :=
    fun e he => ⟨hbody.1, hincrement e he, trivial⟩
  cases initializer with
  | none =>
    cases increment with
    | none => exact ⟨hround body hbody, trivial⟩
    | some e => exact ⟨hround _ ⟨hlast e rfl, trivial⟩, trivial⟩
  | some s =>
    cases increment with
    | none => exact ⟨hloop _ (hround body hbody) s rfl, trivial⟩
    | some e => exact ⟨hloop _ (hround _ ⟨hlast e rfl, trivial⟩) s rfl, trivial⟩

/-- What derivations of a nonterminal of statements derive is legal. -/
def StmtSymbol.Legal (place : Place) : StmtSymbol → StmtPhrase → Prop
  | .declarations, .stmts body => Stmt.AllLegal place body
  | .declaration, .stmt s => s.Legal place
  | .statement _, .stmt s => s.Legal place ∧ s.Plain
  | .function method, .function f => f.Legal place method
  | .methods, .functions fs => FunctionDecl.AllLegal place true fs
  | _, _ => False

theorem DerivesStmt.legal {place : Place} {symbol : StmtSymbol} {ts : List Token}
    {phrase : StmtPhrase} (h : DerivesStmt place symbol ts phrase) (hnames : NamesOnly ts) :
    symbol.Legal place phrase := by
  induction h with
  | noDeclarations | noMethods => trivial
  | consDeclaration _ _ ihfirst ihrest | consMethod _ _ ihfirst ihrest =>
    exact ⟨ihfirst (by simp_all), ihrest (by simp_all)⟩
  | classDecl _ hname hsuperclass _ _ _ ih =>
    exact ⟨hnames _ (by simp) hname, hsuperclass.isName (by simp_all), ih (by simp_all)⟩
  | functionDecl _ _ ih => exact ih (by simp_all)
  | variableDecl h => exact h.legal hnames
  | statement _ ih => exact (ih hnames).1
  | expression h => exact h.legal hnames
  | forLoop _ _ hinitializer hcondition _ hincrement _ _ ih =>
    exact loopTree_legal (hinitializer.legal (by simp_all)) (hcondition.legal (by simp_all))
      (hincrement.legal (by simp_all)) (ih (by simp_all))
  | ifThen _ _ hcondition _ _ ih | whileLoop _ _ hcondition _ _ ih =>
    obtain ⟨hbody, hplain⟩ := ih (by simp_all)
    exact ⟨⟨DerivesExpr.legal hcondition (by simp_all), hplain, hbody⟩, trivial⟩
  | ifElse _ _ hcondition _ _ _ _ ihbody ihalternative =>
    obtain ⟨hbody, hplain⟩ := ihbody (by simp_all)
    obtain ⟨halternative, hplain'⟩ := ihalternative (by simp_all)
    exact ⟨⟨DerivesExpr.legal hcondition (by simp_all), hplain, hbody, hplain', halternative⟩,
      trivial⟩
  | print _ hvalue _ => exact ⟨DerivesExpr.legal hvalue (by simp_all), trivial⟩
  | @returning place _ _ _ value _ hplace hvalue hinitializer _ =>
    refine ⟨?_, trivial⟩
    cases value with
    | none => exact hplace
    | some e =>
      refine ⟨hplace, fun hkind => ?_, hvalue.legal (by simp_all) e rfl⟩
      cases hinitializer hkind
  | block _ _ _ ih => exact ⟨ih (by simp_all), trivial⟩
  | function hname _ hparams _ _ _ _ ih =>
    exact ⟨hnames _ (by simp) hname, hparams.isName (by simp_all), ih (by simp_all)⟩

/-- The trees of the grammar are legal. -/
theorem DerivesProgram.legal {ts : List Token} {program : Program} (h : DerivesProgram ts program)
    (hnames : NamesOnly ts) : Stmt.AllLegal {} program :=
  DerivesStmt.legal h hnames

end Grammar

end Treewalk
