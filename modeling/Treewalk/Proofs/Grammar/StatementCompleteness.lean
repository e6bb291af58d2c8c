import Treewalk.Proofs.Grammar.StatementViolations

/-!
# Derivable programs are recognised

Whatever the grammar derives has a loose derivation with the same tree and without violations, so it
is recognised, and nothing is reported. Together with the other direction, recognition accepts
exactly the programs of the grammar.

Derivations are carried over rule by rule. Only assignment has another shape in the two grammars:
the strict rules name the target, while a loose target is any expression of the loosest level.
-/

namespace Treewalk.Grammar

open Violation

/-! ### Expressions -/

/-- Loose derivations without violations, with the first tokens of arguments left out. -/
def Loose.Unbroken (enclosing : ClassKind) (symbol : ExprSymbol) (ts : List Token) :
    Grammar.ExprPhrase → Prop
  | .one e => Loose.DerivesExpr enclosing symbol ts (.one e) []
  | .many items =>
    ∃ firsts, firsts.map Prod.snd = items ∧
      Loose.DerivesExpr enclosing symbol ts (.many firsts) []

variable {enclosing : ClassKind} {place : Place} {ts : List Token}

theorem Loose.extraArguments_eq_nil {limit : Nat} {items : List (Token × Expr)}
    (h : items.length ≤ limit) : Loose.extraArguments limit items = [] := by
  rw [Loose.extraArguments, List.drop_eq_nil_of_le h, List.map_nil]

theorem DerivesExpr.loose {symbol : ExprSymbol} {phrase : ExprPhrase}
    (h : DerivesExpr enclosing symbol ts phrase) : Loose.Unbroken enclosing symbol ts phrase := by
  induction h with
  | assignVariable hname hequals _ ih =>
    exact .assignVariable (.disjunction_of_call (.noCall (.variable hname))) hequals ih
  | assignProperty _ hdot hname hequals _ iho ihv =>
    have htarget := (Loose.DerivesExpr.property iho hdot hname).disjunction_of_call
    have h := Loose.DerivesExpr.assignProperty htarget hequals ihv
    rwa [List.append_assoc] at h
  | noAssignment _ ih => exact .noAssignment ih
  | operand _ ih => exact .operand ih
  | join _ hjoin _ ihl ihr => exact .join ihl hjoin ihr
  | prefixed hop _ ih => exact .prefixed hop ih
  | noPrefix _ ih => exact .noPrefix ih
  | noCall _ ih => exact .noCall ih
  | callEmpty _ hopening hclosing ih => exact .callEmpty ih hopening hclosing
  | callItems _ hopening _ hlimit hclosing ih ihitems =>
    obtain ⟨firsts, rfl, hitems⟩ := ihitems
    have h := Loose.DerivesExpr.callItems ih hopening hitems hclosing
    -- the limit of the strict rule is the one beyond which arguments are violations
    rw [List.length_map] at hlimit
    rwa [Loose.extraArguments_eq_nil hlimit] at h
  | property _ hdot hname ih => exact .property ih hdot hname
  | literal hvalue => exact .literal hvalue
  | «variable» hname => exact .variable hname
  | this hkeyword hplace =>
    have h : Loose.DerivesExpr enclosing _ _ _ _ := .this hkeyword
    rwa [breach_of_not hplace] at h
  | super hkeyword hdot hmethod hplace =>
    subst hplace
    exact .super hkeyword hdot hmethod
  | grouping hopening _ hclosing ih => exact .grouping hopening ih hclosing
  | lastItem _ ih =>
    obtain ⟨first, others, rfl, _⟩ := Loose.DerivesExpr.exists_head ih
    exact ⟨[(first, _)], rfl, .lastItem ih⟩
  | consItem _ hcomma _ ih ihitems =>
    obtain ⟨first, others, rfl, _⟩ := Loose.DerivesExpr.exists_head ih
    obtain ⟨firsts, rfl, hitems⟩ := ihitems
    exact ⟨(first, _) :: firsts, rfl, .consItem ih hcomma hitems⟩

/-! ### Statements -/

theorem OptionalExpression.loose {value : Option Expr} (h : OptionalExpression place ts value) :
    Loose.OptionalExpression place ts value [] := by
  cases h with
  | none => exact .none
  | some h => exact .some h.loose

theorem ExpressionStmt.loose {s : Stmt} (h : ExpressionStmt place ts s) :
    Loose.ExpressionStmt place ts s [] := by
  cases h with
  | mk h hsemicolon => exact .mk h.loose hsemicolon

theorem VariableDecl.loose {s : Stmt} (h : VariableDecl place ts s) :
    Loose.VariableDecl place ts s [] := by
  cases h with
  | bare hkeyword hname hsemicolon => exact .bare hkeyword hname hsemicolon
  | initialized hkeyword hname hequals hvalue hsemicolon =>
    exact .initialized hkeyword hname hequals hvalue.loose hsemicolon

theorem LoopStart.loose {initializer : Option Stmt} (h : LoopStart place ts initializer) :
    Loose.LoopStart place ts initializer [] := by
  cases h with
  | none hsemicolon => exact .none hsemicolon
  | «variable» h => exact .variable h.loose
  | expression h => exact .expression h.loose

theorem ParameterNames.loose {names : List String} (h : ParameterNames ts names) :
    ∃ tokens, tokens.map Token.lexeme = names ∧ Loose.ParameterNames ts tokens := by
  induction h with
  | @last name hname => exact ⟨[name], rfl, .last hname⟩
  | @cons name comma _ _ hname hcomma _ ih =>
    obtain ⟨tokens, rfl, h⟩ := ih
    exact ⟨name :: tokens, rfl, .cons hname hcomma h⟩

theorem Parameters.loose {names : List String} (h : Parameters ts names) :
    Loose.Parameters ts names [] := by
  cases h with
  | none => exact .none
  | some h hlimit =>
    obtain ⟨tokens, rfl, hnames⟩ := h.loose
    have h := Loose.Parameters.some hnames
    rw [List.length_map] at hlimit
    rwa [Loose.extraParameters, List.drop_eq_nil_of_le hlimit] at h

theorem SuperclassClause.loose {name : Token} {superclass : Option Reference}
    (h : SuperclassClause name ts superclass) : Loose.SuperclassClause name ts superclass [] := by
  cases h with
  | none => exact .none
  | some hless hparent hother =>
    have h : Loose.SuperclassClause name _ _ _ := .some hless hparent
    rwa [breach_of_not hother] at h

/-- What the strict grammar derives has a loose derivation without violations. -/
theorem DerivesStmt.loose {symbol : StmtSymbol} {phrase : StmtPhrase}
    (h : DerivesStmt place symbol ts phrase) : Loose.DerivesStmt place symbol ts phrase [] := by
  induction h with
  | noDeclarations => exact .noDeclarations
  | consDeclaration _ _ ihfirst ihrest => exact .consDeclaration ihfirst ihrest
  | classDecl hkeyword hname hsuperclass hopening _ hclosing ih =>
    exact .classDecl hkeyword hname hsuperclass.loose hopening ih hclosing
  | functionDecl hkeyword _ ih => exact .functionDecl hkeyword ih
  | variableDecl h => exact .variableDecl h.loose
  | statement _ ih => exact .statement ih
  | expression h => exact .expression h.loose
  | forLoop hkeyword hopening hinitializer hcondition hsemicolon hincrement hclosing _ ih =>
    exact .forLoop hkeyword hopening hinitializer.loose hcondition.loose hsemicolon
      hincrement.loose hclosing ih
  | ifThen hkeyword hopening hcondition hclosing _ ih =>
    exact .ifThen hkeyword hopening hcondition.loose hclosing ih
  | ifElse hkeyword hopening hcondition hclosing _ hotherwise _ ihbody ihalternative =>
    exact .ifElse hkeyword hopening hcondition.loose hclosing ihbody hotherwise ihalternative
  | print hkeyword hvalue hsemicolon => exact .print hkeyword hvalue.loose hsemicolon
  | @returning place keyword _ _ value hkeyword hplace hvalue hinitializer hsemicolon =>
    have h := Loose.DerivesStmt.returning hkeyword hvalue.loose hsemicolon
    have hvalued : ¬ (place.function = .initializer ∧ value.isSome) := by
      rintro ⟨hkind, hsome⟩
      rw [hinitializer hkind] at hsome
      cases hsome
    rwa [breach_of_not hplace, breach_of_not hvalued] at h
  | whileLoop hkeyword hopening hcondition hclosing _ ih =>
    exact .whileLoop hkeyword hopening hcondition.loose hclosing ih
  | block hopening _ hclosing ih => exact .block hopening ih hclosing
  | function hname hopening hparams hclosing hstart _ hfinish ih =>
    exact .function hname hopening hparams.loose hclosing hstart ih hfinish
  | noMethods => exact .noMethods
  | consMethod _ _ ihfirst ihrest => exact .consMethod ihfirst ihrest

/-! ### Programs -/

theorem DerivesProgram.recognise_eq {p : Program} (h : DerivesProgram ts p) (ending : Token) :
    recognise ts ending = ⟨p, []⟩ := by
  have hloose : Loose.DerivesProgram ts p [] := h.loose
  obtain ⟨rfl, herrors⟩ := hloose.recognise_finds ending
  rw [← herrors.eq_nil]

/-- Tokens spell at most one program. -/
theorem DerivesProgram.eq {program other : Program} (h : DerivesProgram ts program)
    (hother : DerivesProgram ts other) : program = other := by
  let ending : Token := ⟨.endOfInput, "", 0, 0, .ofLength 0 0 0⟩
  have heq := (h.recognise_eq ending).symm.trans (hother.recognise_eq ending)
  exact congrArg Recognition.program heq

/-- Recognition accepts exactly the programs of the grammar: it ends without errors when the
tokens have a derivation, and then its result is the tree of every derivation that they have. -/
theorem recognise_errors_eq_nil_iff (tokens : List Token) (ending : Token) :
    ((recognise tokens ending).errors = [] ↔ ∃ p, DerivesProgram tokens p) ∧
      ∀ p, DerivesProgram tokens p ↔ recognise tokens ending = ⟨p, []⟩ := by
  have hiff : ∀ p, DerivesProgram tokens p ↔ recognise tokens ending = ⟨p, []⟩ :=
    fun p => ⟨fun h => h.recognise_eq ending, derivesProgram_of_recognise_eq⟩
  refine ⟨⟨fun herrors => ?_, fun ⟨p, hp⟩ => ?_⟩, hiff⟩
  · refine ⟨(recognise tokens ending).program, (hiff _).mpr ?_⟩
    rw [← herrors]
  · rw [(hiff p).mp hp]

end Treewalk.Grammar
