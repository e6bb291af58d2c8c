import Mathlib.Data.List.Nodup
import Treewalk.Proofs.Binding.Layout
import Treewalk.Proofs.Token.Places

/-!
# Every use of a name has a place of its own

The node of a use of a name is anchored at a token: the name itself, or `this`, or `super`. Each
token of a program serves at most one use, so the anchors of the resolutions of a program are
distinct, although the clauses of a `for` loop do not keep their order in the tree.
-/

namespace Treewalk

/-- The place of a use of a name. -/
def Resolution.anchor (r : Resolution) : Anchor :=
  match r.node with
  | .variable reference | .assign reference _ => reference.anchor
  | .this anchor _ | .super _ anchor _ => anchor
  | _ => {}

namespace Grammar

/-- How many uses of names are anchored at a place. -/
def usesAt (anchor : Anchor) (resolutions : List Resolution) : Nat :=
  (resolutions.map Resolution.anchor).count anchor

/-- How many tokens stand at a place. -/
def tokensAt (anchor : Anchor) (ts : List Token) : Nat :=
  (ts.map Token.anchor).count anchor

section Counting

variable (anchor : Anchor)

@[simp] theorem usesAt_nil : usesAt anchor [] = 0 := rfl

@[simp] theorem usesAt_append (rs rs' : List Resolution) :
    usesAt anchor (rs ++ rs') = usesAt anchor rs + usesAt anchor rs' := by
  simp [usesAt]

@[simp] theorem usesAt_cons (r : Resolution) (rs : List Resolution) :
    usesAt anchor (r :: rs) = usesAt anchor rs + if r.anchor == anchor then 1 else 0 :=
  List.count_cons

@[simp] theorem tokensAt_nil : tokensAt anchor [] = 0 := rfl

@[simp] theorem tokensAt_append (ts ts' : List Token) :
    tokensAt anchor (ts ++ ts') = tokensAt anchor ts + tokensAt anchor ts' := by
  simp [tokensAt]

@[simp] theorem tokensAt_cons (token : Token) (ts : List Token) :
    tokensAt anchor (token :: ts) =
      tokensAt anchor ts + if token.anchor == anchor then 1 else 0 :=
  List.count_cons

end Counting

/-- The uses of names in what a derivation of expressions derives. -/
def ExprPhrase.resolutions (layout : Layout) : ExprPhrase → List Resolution
  | .one e => e.resolutions layout
  | .many items => Expr.resolutionsAll layout items

theorem Precedence.Joins.resolutions {level : Precedence} {token : Token} {left right e : Expr}
    (h : level.Joins token left right e) (layout : Layout) :
    e.resolutions layout = left.resolutions layout ++ right.resolutions layout := by
  cases h <;> rfl

/-- Each token of an expression serves at most one use of a name. -/
theorem DerivesExpr.usesAt_le {enclosing : ClassKind} {symbol : ExprSymbol} {ts : List Token}
    {phrase : ExprPhrase} (h : DerivesExpr enclosing symbol ts phrase) (layout : Layout)
    (anchor : Anchor) : usesAt anchor (phrase.resolutions layout) ≤ tokensAt anchor ts := by
  induction h with
  | @assignVariable name _ _ value _ _ _ ih =>
    have hanchor : Resolution.anchor ⟨.assign (name.reference.bindName layout.names)
        (value.bindNames layout.names), layout, none⟩ = name.anchor := rfl
    simp only [ExprPhrase.resolutions, Expr.resolutions] at ih ⊢
    simp only [usesAt_append, usesAt_cons, usesAt_nil, tokensAt_cons, hanchor]
    omega
  | assignProperty _ _ _ _ _ ihobject ihvalue =>
    simp only [ExprPhrase.resolutions, Expr.resolutions] at ihobject ihvalue ⊢
    simp only [usesAt_append, tokensAt_append, tokensAt_cons]
    omega
  | noAssignment _ ih | operand _ ih | noPrefix _ ih | noCall _ ih => exact ih
  | join _ hjoin _ ihleft ihright =>
    simp only [ExprPhrase.resolutions, hjoin.resolutions] at ihleft ihright ⊢
    simp only [usesAt_append, tokensAt_append, tokensAt_cons]
    omega
  | prefixed _ _ ih => exact Nat.le_trans ih (by simp)
  | callEmpty _ _ _ ih =>
    simp only [ExprPhrase.resolutions, Expr.resolutions, Expr.resolutionsAll] at ih ⊢
    simp only [List.append_nil, tokensAt_append]
    omega
  | callItems _ _ _ _ _ ihcallee ihitems =>
    simp only [ExprPhrase.resolutions, Expr.resolutions] at ihcallee ihitems ⊢
    simp only [usesAt_append, tokensAt_append, tokensAt_cons]
    omega
  | property _ _ _ ih => exact Nat.le_trans ih (by simp)
  | literal => exact Nat.zero_le _
  | «variable» _ => exact Nat.le_refl _
  | this => exact Nat.le_refl _
  | @super keyword _ method _ _ _ _ =>
    have hanchor : Resolution.anchor ⟨.super method.lexeme keyword.anchor
        (layout.names.binding "super"), layout, none⟩ = keyword.anchor := rfl
    simp only [ExprPhrase.resolutions, Expr.resolutions, usesAt_cons, usesAt_nil, tokensAt_cons,
      tokensAt_nil, hanchor]
    omega
  | grouping _ _ _ ih =>
    refine Nat.le_trans ih ?_
    simp only [tokensAt_append, tokensAt_cons]
    omega
  | lastItem _ ih =>
    simpa only [ExprPhrase.resolutions, Expr.resolutionsAll, List.append_nil] using ih
  | consItem _ _ _ ihitem ihitems =>
    simp only [ExprPhrase.resolutions, Expr.resolutionsAll] at ihitem ihitems ⊢
    simp only [usesAt_append, tokensAt_append, tokensAt_cons]
    omega

/-- The uses of names in an expression that may be left out. -/
def optionalResolutions (layout : Layout) : Option Expr → List Resolution
  | none => []
  | some e => e.resolutions layout

theorem OptionalExpression.usesAt_le {place : Place} {ts : List Token} {value : Option Expr}
    (h : OptionalExpression place ts value) (layout : Layout) (anchor : Anchor) :
    usesAt anchor (optionalResolutions layout value) ≤ tokensAt anchor ts := by
  cases h with
  | none => exact Nat.zero_le _
  | some h => exact DerivesExpr.usesAt_le h layout anchor

theorem ExpressionStmt.usesAt_le {place : Place} {ts : List Token} {s : Stmt}
    (h : ExpressionStmt place ts s) (layout : Layout) (anchor : Anchor) :
    usesAt anchor (s.resolutions layout) ≤ tokensAt anchor ts := by
  cases h with
  | mk h _ => exact Nat.le_trans (DerivesExpr.usesAt_le h layout anchor) (by simp)

theorem VariableDecl.usesAt_le {place : Place} {ts : List Token} {s : Stmt}
    (h : VariableDecl place ts s) (layout : Layout) (anchor : Anchor) :
    usesAt anchor (s.resolutions layout) ≤ tokensAt anchor ts := by
  cases h with
  | bare => exact Nat.zero_le _
  | initialized _ _ _ hvalue _ =>
    refine Nat.le_trans (DerivesExpr.usesAt_le hvalue layout anchor) ?_
    simp only [tokensAt_append, tokensAt_cons]
    omega

/-- The uses of names in the first clause of a loop. -/
def startResolutions (layout : Layout) : Option Stmt → List Resolution
  | none => []
  | some s => s.resolutions layout

theorem LoopStart.usesAt_le {place : Place} {ts : List Token} {initializer : Option Stmt}
    (h : LoopStart place ts initializer) (layout : Layout) (anchor : Anchor) :
    usesAt anchor (startResolutions layout initializer) ≤ tokensAt anchor ts := by
  cases h with
  | none => exact Nat.zero_le _
  | «variable» h => exact h.usesAt_le layout anchor
  | expression h => exact h.usesAt_le layout anchor

theorem SuperclassClause.usesAt_le {name : Token} {ts : List Token} {superclass : Option Reference}
    (h : SuperclassClause name ts superclass) (layout : Layout) (anchor : Anchor) :
    usesAt anchor (superclassResolutions layout name.lexeme superclass) ≤ tokensAt anchor ts := by
  cases h with
  | none => exact Nat.zero_le _
  | @some _ parent _ _ _ =>
    have hanchor : Resolution.anchor ⟨.variable (parent.reference.bindName layout.names), layout,
        Option.some name.lexeme⟩ = parent.anchor := rfl
    simp only [superclassResolutions, usesAt_cons, usesAt_nil, tokensAt_cons, tokensAt_nil, hanchor]
    omega

/-- The tree of a `for` loop holds the uses of names of its four parts, each once. The increment
goes after the body. -/
theorem usesAt_loopTree_le {initializer : Option Stmt} {condition increment : Option Expr}
    {body : Stmt} {anchor : Anchor} {is cs us bs : Nat}
    (hinitializer : ∀ layout, usesAt anchor (startResolutions layout initializer) ≤ is)
    (hcondition : ∀ layout, usesAt anchor (optionalResolutions layout condition) ≤ cs)
    (hincrement : ∀ layout, usesAt anchor (optionalResolutions layout increment) ≤ us)
    (hbody : ∀ layout, usesAt anchor (body.resolutions layout) ≤ bs) (layout : Layout) :
    usesAt anchor ((loopTree initializer condition increment body).resolutions layout) ≤
      is + (cs + (us + bs)) := by
  have htest : ∀ test, usesAt anchor
      ((condition.getD (.literal (.bool true))).resolutions test) ≤ cs := by
    intro test
    cases condition with
    | none => exact Nat.zero_le _
    | some e => exact hcondition test
  -- the loop without its first clause, in whatever scope that clause leaves it
  have hloop : ∀ layout, usesAt anchor
      ((loopTree none condition increment body).resolutions layout) ≤ cs + (us + bs) := by
    intro layout
    have htest := htest layout
    cases increment with
    | none =>
      have hround := hbody layout
      simp only [loopTree, Stmt.resolutions, usesAt_append]
      omega
    | some step =>
      have hround := hbody (layout.openBlock (Stmt.bindAll ([] :: layout.names)
        [body, .expression step]))
      have hstep := hincrement (body.layoutAfter (layout.openBlock
        (Stmt.bindAll ([] :: layout.names) [body, .expression step])))
      simp only [loopTree, optionalResolutions, Stmt.resolutions, Stmt.resolutionsAll,
        usesAt_append, usesAt_nil] at hround hstep ⊢
      omega
  cases initializer with
  | none => exact Nat.le_trans (hloop layout) (Nat.le_add_left _ _)
  | some s =>
    have hrest := fun layout => hloop layout
    simp only [loopTree, Stmt.resolutions, Stmt.resolutionsAll, usesAt_append,
      usesAt_nil] at hrest ⊢
    exact Nat.add_le_add (hinitializer _) (hrest _)

/-- The uses of names in what a derivation of statements derives. -/
def StmtPhrase.resolutions (layout : Layout) : StmtPhrase → List Resolution
  | .stmts body => Stmt.resolutionsAll layout body
  | .stmt s => s.resolutions layout
  | .function f => f.resolutions layout
  | .functions fs => FunctionDecl.resolutionsAll layout fs

/-- Each token of a statement serves at most one use of a name. -/
theorem DerivesStmt.usesAt_le {place : Place} {symbol : StmtSymbol} {ts : List Token}
    {phrase : StmtPhrase} (h : DerivesStmt place symbol ts phrase) (anchor : Anchor) :
    ∀ layout, usesAt anchor (phrase.resolutions layout) ≤ tokensAt anchor ts := by
  induction h with
  | noDeclarations | noMethods => exact fun _ => Nat.zero_le _
  | @consDeclaration _ _ _ s _ _ _ ihfirst ihrest =>
    intro layout
    have hfirst := ihfirst layout
    have hrest := ihrest (s.layoutAfter layout)
    simp only [StmtPhrase.resolutions, Stmt.resolutionsAll] at hfirst hrest ⊢
    rw [usesAt_append, tokensAt_append]
    omega
  | consMethod _ _ ihfirst ihrest =>
    intro layout
    have hfirst := ihfirst layout
    have hrest := ihrest layout
    simp only [StmtPhrase.resolutions, FunctionDecl.resolutionsAll] at hfirst hrest ⊢
    rw [usesAt_append, tokensAt_append]
    omega
  | @classDecl _ _ name _ _ _ _ superclass methods _ _ hsuperclass _ _ _ ih =>
    intro layout
    have hparent := hsuperclass.usesAt_le (layout.declare name.lexeme) anchor
    have hmethods := ih ((layout.declare name.lexeme).openClass superclass)
    simp only [StmtPhrase.resolutions, Stmt.resolutions] at hmethods ⊢
    simp only [usesAt_append, tokensAt_append, tokensAt_cons]
    omega
  | @functionDecl _ _ _ declaration _ _ ih =>
    intro layout
    exact Nat.le_trans (ih (layout.declare declaration.name)) (by simp)
  | variableDecl h => exact fun layout => h.usesAt_le layout anchor
  | statement _ ih => exact ih
  | expression h => exact fun layout => h.usesAt_le layout anchor
  | forLoop _ _ hinitializer hcondition _ hincrement _ _ ih =>
    intro layout
    refine Nat.le_trans (usesAt_loopTree_le (hinitializer.usesAt_le · anchor)
      (hcondition.usesAt_le · anchor) (hincrement.usesAt_le · anchor) ih layout) ?_
    simp only [tokensAt_append, tokensAt_cons]
    omega
  | ifThen _ _ hcondition _ _ ih | whileLoop _ _ hcondition _ _ ih =>
    intro layout
    have htest := DerivesExpr.usesAt_le hcondition layout anchor
    have hbody := ih layout
    simp only [StmtPhrase.resolutions, ExprPhrase.resolutions, Stmt.resolutions] at htest hbody ⊢
    simp only [usesAt_append, tokensAt_append, tokensAt_cons]
    omega
  | @ifElse _ _ _ _ _ _ _ _ _ body _ _ _ _ hcondition _ _ _ _ ihbody ihalternative =>
    intro layout
    have htest := DerivesExpr.usesAt_le hcondition layout anchor
    have hbody := ihbody layout
    have halternative := ihalternative (body.layoutAfter layout)
    simp only [StmtPhrase.resolutions, ExprPhrase.resolutions, Stmt.resolutions]
      at htest hbody halternative ⊢
    simp only [usesAt_append, tokensAt_append, tokensAt_cons]
    omega
  | print _ hvalue _ =>
    intro layout
    refine Nat.le_trans (DerivesExpr.usesAt_le hvalue layout anchor) ?_
    simp only [tokensAt_append, tokensAt_cons]
    omega
  | @returning _ _ _ _ value _ _ hvalue _ _ =>
    intro layout
    have hreturned := hvalue.usesAt_le layout anchor
    have hsame : (Stmt.returning value).resolutions layout = optionalResolutions layout value := by
      cases value <;> rfl
    simp only [StmtPhrase.resolutions, hsame, tokensAt_append, tokensAt_cons]
    omega
  | block _ _ _ ih =>
    intro layout
    refine Nat.le_trans (ih _) ?_
    simp only [tokensAt_append, tokensAt_cons]
    omega
  | function _ _ _ _ _ _ _ ih =>
    intro layout
    refine Nat.le_trans (ih _) ?_
    simp only [tokensAt_append, tokensAt_cons]
    omega

section Program

variable {ts : List Token} {program : Program}

/-- Every use of a name in a program is anchored at a token. -/
theorem DerivesProgram.mem_anchors (h : DerivesProgram ts program) {r : Resolution}
    (hr : r ∈ program.resolutions) : ∃ token ∈ ts, token.anchor = r.anchor := by
  have hcount : usesAt r.anchor program.resolutions ≤ tokensAt r.anchor ts :=
    DerivesStmt.usesAt_le h r.anchor []
  have hpos : 0 < usesAt r.anchor program.resolutions :=
    List.count_pos_iff.mpr (List.mem_map_of_mem hr)
  exact List.mem_map.mp (List.count_pos_iff.mp (Nat.lt_of_lt_of_le hpos hcount))

/-- No two uses of names in a program have one anchor, if no two tokens do. -/
theorem DerivesProgram.nodup_anchors (h : DerivesProgram ts program)
    (hts : (ts.map Token.anchor).Nodup) : (program.resolutions.map Resolution.anchor).Nodup := by
  -- counted by place, so that the order of the clauses of a loop does not matter
  rw [List.nodup_iff_count_le_one] at hts ⊢
  intro anchor
  exact Nat.le_trans (DerivesStmt.usesAt_le h anchor []) (hts anchor)

end Program

end Grammar

end Treewalk
