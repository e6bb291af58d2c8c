import Treewalk.Proofs.Grammar.Legality

/-!
# Trees over a vocabulary

A tree has its names, its constants and its places from the tokens that it was derived from, and
nothing else. So whatever holds of the words, the constants and the places of tokens holds of those
of their tree: that names are identifiers, or that no name has escape characters in it.
-/

namespace Treewalk

open Grammar (ClassKind Place)

/-- What the words, the constants and the places of a tree may be. A loop without a condition has a
constant for one. -/
structure Vocabulary where
  word : String → Prop
  constant : Literal → Prop
  anchor : Anchor → Prop
  endless : constant (.bool true)

/-- The vocabulary of all trees. -/
def Vocabulary.any : Vocabulary := ⟨fun _ => True, fun _ => True, fun _ => True, trivial⟩

section Vocabulary

variable (v : Vocabulary)

/-- A use of a name over a vocabulary, before names are bound. -/
structure Reference.Over (reference : Reference) : Prop where
  word : v.word reference.name
  anchor : v.anchor reference.anchor
  binding : reference.binding = .global

mutual

/-- An expression over a vocabulary, before names are bound. -/
def Expr.Over : Expr → Prop
  | .literal value => v.constant value
  | .variable reference => reference.Over v
  | .assign target value => target.Over v ∧ value.Over
  | .unary op operand anchor => (op = .negate ∨ op = .not) ∧ operand.Over ∧ v.anchor anchor
  | .binary op left right anchor =>
    op ∈ BinaryOp.known ∧ left.Over ∧ right.Over ∧ v.anchor anchor
  | .logical op left right => (op = .or ∨ op = .and) ∧ left.Over ∧ right.Over
  | .grouping inner => inner.Over
  | .call callee arguments anchor => callee.Over ∧ Expr.AllOver arguments ∧ v.anchor anchor
  | .get object name anchor => object.Over ∧ v.word name ∧ v.anchor anchor
  | .set object name value anchor => object.Over ∧ v.word name ∧ value.Over ∧ v.anchor anchor
  | .this anchor binding => v.anchor anchor ∧ binding = .global
  | .super method anchor binding => v.word method ∧ v.anchor anchor ∧ binding = .global

/-- Expressions over a vocabulary. -/
def Expr.AllOver : List Expr → Prop
  | [] => True
  | e :: rest => e.Over ∧ Expr.AllOver rest

end

mutual

/-- A statement over a vocabulary. -/
def Stmt.Over : Stmt → Prop
  | .expression value => value.Over v
  | .print value => value.Over v
  | .declare name initializer => v.word name ∧ ∀ value ∈ initializer, value.Over v
  | .block body => Stmt.AllOver body
  | .ifThen condition body => condition.Over v ∧ body.Over
  | .ifElse condition body alternative => condition.Over v ∧ body.Over ∧ alternative.Over
  | .loop condition body => condition.Over v ∧ body.Over
  | .function declaration => declaration.Over
  | .returning value => ∀ e ∈ value, e.Over v
  | .classDecl name superclass methods =>
    v.word name ∧ (∀ parent ∈ superclass, parent.Over v) ∧ FunctionDecl.AllOver methods

/-- Statements over a vocabulary. -/
def Stmt.AllOver : List Stmt → Prop
  | [] => True
  | s :: rest => s.Over ∧ Stmt.AllOver rest

/-- A function over a vocabulary. -/
def FunctionDecl.Over : FunctionDecl → Prop
  | .mk name params body anchor =>
    v.word name ∧ (∀ param ∈ params, v.word param) ∧ Stmt.AllOver body ∧ v.anchor anchor

/-- Functions over a vocabulary. -/
def FunctionDecl.AllOver : List FunctionDecl → Prop
  | [] => True
  | f :: rest => f.Over ∧ FunctionDecl.AllOver rest

end

/-! ### Derivations -/

/-- A token over a vocabulary. -/
structure Token.Over (t : Token) : Prop where
  word : t.kind = .identifier → v.word t.lexeme
  constant : ∀ value, Grammar.Denotes t.kind value → v.constant value
  anchor : v.anchor t.anchor

variable {v}

theorem Token.Over.reference {name : Token} (h : name.Over v) (hkind : name.kind = .identifier) :
    name.reference.Over v :=
  ⟨h.word hkind, h.anchor, rfl⟩

namespace Grammar

/-- Tokens over a vocabulary. -/
def AllOver (v : Vocabulary) (ts : List Token) : Prop := ∀ t ∈ ts, t.Over v

@[simp] theorem allOver_cons_iff {t : Token} {ts : List Token} :
    AllOver v (t :: ts) ↔ t.Over v ∧ AllOver v ts :=
  List.forall_mem_cons

@[simp] theorem allOver_append_iff {ts rs : List Token} :
    AllOver v (ts ++ rs) ↔ AllOver v ts ∧ AllOver v rs :=
  List.forall_mem_append

theorem Precedence.Joins.over {level : Precedence} {token : Token} {left right e : Expr}
    (h : level.Joins token left right e) (htoken : token.Over v) (hleft : left.Over v)
    (hright : right.Over v) : e.Over v := by
  cases h with
  | or => exact ⟨.inl rfl, hleft, hright⟩
  | and => exact ⟨.inr rfl, hleft, hright⟩
  | @binary _ _ op _ _ hkind =>
    -- the operators of a level are known, whatever their operands are
    have hlegal : (Expr.binary op (.literal .nil) (.literal .nil) token.anchor).Legal .none :=
      (Precedence.Joins.binary hkind).legal trivial trivial
    exact ⟨hlegal.1, hleft, hright, htoken.anchor⟩

theorem PrefixOf.op_eq {kind : TokenKind} {op : UnaryOp} (h : PrefixOf kind op) :
    op = .negate ∨ op = .not := by
  cases h with
  | not => exact .inr rfl
  | negate => exact .inl rfl

/-- What derivations of expressions derive is over a vocabulary. -/
def ExprPhrase.Over (v : Vocabulary) : ExprPhrase → Prop
  | .one e => e.Over v
  | .many items => Expr.AllOver v items

theorem DerivesExpr.over {enclosing : ClassKind} {symbol : ExprSymbol} {ts : List Token}
    {phrase : ExprPhrase} (h : DerivesExpr enclosing symbol ts phrase) (hts : AllOver v ts) :
    phrase.Over v := by
  -- a node has its names and its place from the tokens of the rule that it is derived by
  induction h with
  | assignVariable hname _ _ ih =>
    simp only [allOver_cons_iff] at hts
    exact ⟨hts.1.reference hname, ih hts.2.2⟩
  | assignProperty _ _ hname _ _ ihobject ihvalue =>
    simp only [allOver_cons_iff, allOver_append_iff] at hts
    obtain ⟨hobject, _, hnamed, _, hvalue⟩ := hts
    exact ⟨ihobject hobject, hnamed.word hname, ihvalue hvalue, hnamed.anchor⟩
  | noAssignment _ ih | operand _ ih | noPrefix _ ih | noCall _ ih => exact ih hts
  | join _ hjoin _ ihleft ihright =>
    simp only [allOver_cons_iff, allOver_append_iff] at hts
    obtain ⟨hleft, htoken, hright⟩ := hts
    exact hjoin.over htoken (ihleft hleft) (ihright hright)
  | prefixed hop _ ih =>
    rw [allOver_cons_iff] at hts
    exact ⟨hop.op_eq, ih hts.2, hts.1.anchor⟩
  | callEmpty _ _ _ ih =>
    simp only [allOver_cons_iff, allOver_append_iff] at hts
    obtain ⟨hcallee, _, hclosing, _⟩ := hts
    exact ⟨ih hcallee, trivial, hclosing.anchor⟩
  | callItems _ _ _ _ _ ihcallee ihitems =>
    simp only [allOver_cons_iff, allOver_append_iff] at hts
    obtain ⟨hcallee, _, hitems, hclosing, _⟩ := hts
    exact ⟨ihcallee hcallee, ihitems hitems, hclosing.anchor⟩
  | property _ _ hname ih =>
    simp only [allOver_cons_iff, allOver_append_iff] at hts
    obtain ⟨hobject, _, hnamed, _⟩ := hts
    exact ⟨ih hobject, hnamed.word hname, hnamed.anchor⟩
  | literal h => exact (hts _ List.mem_cons_self).constant _ h
  | «variable» hname => exact (hts _ List.mem_cons_self).reference hname
  | this _ _ => exact ⟨(hts _ List.mem_cons_self).anchor, rfl⟩
  | super _ _ hmethod _ =>
    simp only [allOver_cons_iff] at hts
    obtain ⟨hkeyword, _, hnamed, _⟩ := hts
    exact ⟨hnamed.word hmethod, hkeyword.anchor, rfl⟩
  | grouping _ _ _ ih => exact ih (by simp_all)
  | lastItem _ ih => exact ⟨ih hts, trivial⟩
  | consItem _ _ _ ihitem ihitems => exact ⟨ihitem (by simp_all), ihitems (by simp_all)⟩

theorem OptionalExpression.over {place : Place} {ts : List Token} {value : Option Expr}
    (h : OptionalExpression place ts value) (hts : AllOver v ts) : ∀ e ∈ value, e.Over v := by
  cases h with
  | none => exact fun e he => absurd he (by simp)
  | some h =>
    rintro e ⟨⟩
    exact DerivesExpr.over h hts

theorem ExpressionStmt.over {place : Place} {ts : List Token} {s : Stmt}
    (h : ExpressionStmt place ts s) (hts : AllOver v ts) : s.Over v := by
  cases h with
  | mk h _ => exact DerivesExpr.over h (allOver_append_iff.mp hts).1

theorem VariableDecl.over {place : Place} {ts : List Token} {s : Stmt}
    (h : VariableDecl place ts s) (hts : AllOver v ts) : s.Over v := by
  cases h with
  | bare _ hname _ =>
    exact ⟨(hts _ (by simp)).word hname, fun e he => absurd he (by simp)⟩
  | initialized _ hname _ hvalue _ =>
    refine ⟨(hts _ (by simp)).word hname, ?_⟩
    rintro e ⟨⟩
    exact DerivesExpr.over hvalue (by simp_all)

theorem LoopStart.over {place : Place} {ts : List Token} {initializer : Option Stmt}
    (h : LoopStart place ts initializer) (hts : AllOver v ts) : ∀ s ∈ initializer, s.Over v := by
  cases h with
  | none => exact fun s hs => absurd hs (by simp)
  | «variable» h =>
    rintro s ⟨⟩
    exact h.over hts
  | expression h =>
    rintro s ⟨⟩
    exact h.over hts

theorem ParameterNames.words {ts : List Token} {names : List String}
    (h : ParameterNames ts names) (hts : AllOver v ts) : ∀ name ∈ names, v.word name := by
  induction h with
  | last hname => simpa using (hts _ (by simp)).word hname
  | cons hname _ _ ih =>
    rw [List.forall_mem_cons]
    exact ⟨(hts _ (by simp)).word hname, ih (by simp_all)⟩

theorem Parameters.words {ts : List Token} {names : List String} (h : Parameters ts names)
    (hts : AllOver v ts) : ∀ name ∈ names, v.word name := by
  cases h with
  | none => exact fun name hname => absurd hname List.not_mem_nil
  | some h _ => exact h.words hts

theorem SuperclassClause.over {name : Token} {ts : List Token} {superclass : Option Reference}
    (h : SuperclassClause name ts superclass) (hts : AllOver v ts) :
    ∀ parent ∈ superclass, parent.Over v := by
  cases h with
  | none => exact fun parent hparent => absurd hparent (by simp)
  | some _ hparent _ =>
    rintro parent ⟨⟩
    exact (hts _ (by simp)).reference hparent

/-- The tree of a `for` loop is over a vocabulary if its parts are. -/
theorem loopTree_over {initializer : Option Stmt} {condition increment : Option Expr}
    {body : Stmt} (hinitializer : ∀ s ∈ initializer, s.Over v)
    (hcondition : ∀ e ∈ condition, e.Over v) (hincrement : ∀ e ∈ increment, e.Over v)
    (hbody : body.Over v) :
    (loopTree initializer condition increment body).Over v := by
  -- the condition that stands for a missing one is a constant
  have htest : (condition.getD (.literal (.bool true))).Over v := by
    cases condition with
    | none => exact v.endless
    | some e => exact hcondition e rfl
  cases initializer with
  | none =>
    cases increment with
    | none => exact ⟨htest, hbody⟩
    | some e => exact ⟨htest, hbody, hincrement e rfl, trivial⟩
  | some s =>
    have hfirst := hinitializer s rfl
    cases increment with
    | none => exact ⟨hfirst, ⟨htest, hbody⟩, trivial⟩
    | some e => exact ⟨hfirst, ⟨htest, hbody, hincrement e rfl, trivial⟩, trivial⟩

/-- What derivations of statements derive is over a vocabulary. -/
def StmtPhrase.Over (v : Vocabulary) : StmtPhrase → Prop
  | .stmts body => Stmt.AllOver v body
  | .stmt s => s.Over v
  | .function f => f.Over v
  | .functions fs => FunctionDecl.AllOver v fs

theorem DerivesStmt.over {place : Place} {symbol : StmtSymbol} {ts : List Token}
    {phrase : StmtPhrase} (h : DerivesStmt place symbol ts phrase) (hts : AllOver v ts) :
    phrase.Over v := by
  induction h with
  | noDeclarations | noMethods => trivial
  | consDeclaration _ _ ihfirst ihrest | consMethod _ _ ihfirst ihrest =>
    exact ⟨ihfirst (by simp_all), ihrest (by simp_all)⟩
  | classDecl _ hname hsuperclass _ _ _ ih =>
    exact ⟨(hts _ (by simp)).word hname, hsuperclass.over (by simp_all), ih (by simp_all)⟩
  | functionDecl _ _ ih => exact ih (by simp_all)
  | variableDecl h => exact h.over hts
  | statement _ ih => exact ih hts
  | expression h => exact h.over hts
  | forLoop _ _ hinitializer hcondition _ hincrement _ _ ih =>
    exact loopTree_over (hinitializer.over (by simp_all)) (hcondition.over (by simp_all))
      (hincrement.over (by simp_all)) (ih (by simp_all))
  | ifThen _ _ hcondition _ _ ih | whileLoop _ _ hcondition _ _ ih =>
    exact ⟨DerivesExpr.over hcondition (by simp_all), ih (by simp_all)⟩
  | ifElse _ _ hcondition _ _ _ _ ihbody ihalternative =>
    exact ⟨DerivesExpr.over hcondition (by simp_all), ihbody (by simp_all),
      ihalternative (by simp_all)⟩
  | print _ hvalue _ => exact DerivesExpr.over hvalue (by simp_all)
  | returning _ _ hvalue _ _ => exact hvalue.over (by simp_all)
  | block _ _ _ ih => exact ih (by simp_all)
  | function hname _ hparams _ _ _ _ ih =>
    simp only [allOver_cons_iff, allOver_append_iff] at hts
    obtain ⟨hnamed, _, hps, _, _, hbs, _⟩ := hts
    exact ⟨hnamed.word hname, hparams.words hps, ih hbs, hnamed.anchor⟩

/-- The trees of the grammar are over a vocabulary if their tokens are. -/
theorem DerivesProgram.over {ts : List Token} {program : Program} (h : DerivesProgram ts program)
    (hts : AllOver v ts) : Stmt.AllOver v program :=
  DerivesStmt.over h hts

end Grammar

end Vocabulary

end Treewalk
