import Treewalk.Proofs.Grammar.ExpressionViolations
import Treewalk.Proofs.Grammar.StatementSoundness

/-!
# Violations in programs

A program that breaks rules which are not about its shape is still recognised as a whole: no
statement is lost, recognition never panics, and what is reported is exactly the violations of its
loose derivation, up to order. Where a keyword stands, inside which function and which class,
travels in the context of recognition and in the place of the derivation; the two agree all along.

A dangling statement must not be followed by `else`, and neither must a declaration; nothing else
that follows a statement matters, since every statement ends with a token of its own.
-/

namespace Treewalk.Grammar

open Parsed Violation

variable {context : Context} {ts middle others rest : List Token} {vs ws : List Violation}

/-! ### Reports and violations -/

theorem misplaced_returnMisuse? (kind : FunctionKind) (valued : Bool) (keyword : Token) :
    misplaced keyword (returnMisuse? kind valued) =
      (breach (kind = .none) (.strayReturn keyword) ++
        breach (kind = .initializer ∧ valued = true) (.initializerValue keyword)).map
          Violation.error := by
  cases kind <;> cases valued <;> rfl

theorem misplaced_selfInheritance (parent name : Token) :
    misplaced parent
        (if parent.lexeme = name.lexeme then some "A class can't inherit from itself." else none) =
      (breach (parent.lexeme = name.lexeme) (.selfInheritance parent)).map Violation.error := by
  unfold breach
  split <;> rfl

/-! ### Outcomes of recognition -/

/-- A declaration that is recognised and reports some violations. -/
def Declared.Finds {n : Nat} (d : Declared n) (s : Stmt) (rest : List Token)
    (vs : List Violation) : Prop :=
  d.stmt? = some s ∧ d.rest = rest ∧ d.reports.Perm (vs.map Violation.error)

/-- A program that is recognised and whose errors are some violations. -/
def Recognition.Finds (r : Recognition) (p : Program) (vs : List Violation) : Prop :=
  r.program = p ∧ r.errors.Perm (vs.map Violation.error)

theorem declaration_finds {token : Token} {s : Stmt}
    (h : (construct context token ts).Finds s rest vs) :
    (declaration context token ts).Finds s rest vs := by
  obtain ⟨reports, bound, heq, hreports⟩ := h
  rw [declaration_eq_settle, heq]
  exact ⟨rfl, rfl, hreports⟩

theorem block_finds_cons {token : Token} {s : Stmt} {body : List Stmt}
    (htoken : token.kind ≠ .rightBrace) (hs : (declaration context token others).Finds s middle vs)
    (hbody : (block context middle).Finds body rest ws) :
    (block context (token :: others)).Finds (s :: body) rest (vs ++ ws) := by
  obtain ⟨hstmt, rfl, hreports⟩ := hs
  rw [block, if_neg htoken]
  dsimp only
  rw [hstmt]
  exact ((hbody.map _).after hreports).widen

theorem program_finds_cons {token : Token} {s : Stmt} {p : Program}
    (hs : (declaration context token others).Finds s rest vs)
    (hrest : (program context rest).Finds p ws) :
    (program context (token :: others)).Finds (s :: p) (vs ++ ws) := by
  obtain ⟨hstmt, rfl, hreports⟩ := hs
  obtain ⟨rfl, herrors⟩ := hrest
  rw [program]
  refine ⟨?_, ?_⟩
  · dsimp only
    rw [hstmt]
    rfl
  · rw [List.map_append]
    exact hreports.append herrors

theorem ifStatement_finds {test : Expr} {body : Stmt}
    (htest : (condition context "Expect '(' after 'if'" "Expect ')' after if condition" ts).Finds
      test middle vs)
    (hbody : (statement context middle).Finds body rest ws)
    (helse : startsWith (.keyword .kwElse) rest = false) :
    (ifStatement context ts).Finds (.ifThen test body) rest (vs ++ ws) := by
  rw [ifStatement]
  refine htest.andThen fun _ => (hbody.andThen_clean fun _ => ?_).widen
  cases rest with
  | nil => exact finds_ok rfl
  | cons token others =>
    have htoken : token.kind ≠ .keyword .kwElse := by simpa [startsWith] using helse
    dsimp only
    rw [if_neg htoken]
    exact finds_ok rfl

theorem ifStatement_finds_else {otherwise : Token} {test : Expr} {body alternative : Stmt}
    {us : List Violation}
    (htest : (condition context "Expect '(' after 'if'" "Expect ')' after if condition" ts).Finds
      test middle vs)
    (hbody : (statement context middle).Finds body (otherwise :: others) ws)
    (hotherwise : otherwise.kind = .keyword .kwElse)
    (halternative : (statement context others).Finds alternative rest us) :
    (ifStatement context ts).Finds (.ifElse test body alternative) rest (vs ++ (ws ++ us)) := by
  rw [ifStatement]
  refine htest.andThen fun _ => (hbody.andThen fun _ => ?_).widen
  dsimp only
  rw [if_pos hotherwise]
  exact (halternative.map _).widen

namespace Loose

/-! ### The first token of a statement -/

theorem ExpressionStmt.exists_head {place : Place} {s : Stmt}
    (h : ExpressionStmt place ts s vs) :
    ∃ token others, ts = token :: others ∧ startsExpression token.kind = true := by
  cases h with
  | mk h _ =>
    obtain ⟨token, others, rfl, hstart⟩ := h.exists_head
    exact ⟨token, _, rfl, hstart⟩

theorem DerivesStmt.statement_head {place : Place} {dangling : Bool} {phrase : StmtPhrase}
    (h : DerivesStmt place (.statement dangling) ts phrase vs) :
    ∃ token others, ts = token :: others ∧ startsStatement token.kind = true := by
  cases h with
  | expression h =>
    obtain ⟨token, others, rfl, hstart⟩ := h.exists_head
    exact ⟨token, others, rfl, startsStatement_of_startsExpression hstart⟩
  | forLoop hkeyword | ifThen hkeyword | ifElse hkeyword | print hkeyword | returning hkeyword
  | whileLoop hkeyword | block hkeyword => exact ⟨_, _, rfl, by rw [hkeyword]; rfl⟩

theorem DerivesStmt.declaration_head {place : Place} {phrase : StmtPhrase}
    (h : DerivesStmt place .declaration ts phrase vs) :
    ∃ token others, ts = token :: others ∧ startsDeclaration token.kind = true := by
  cases h with
  | classDecl hkeyword | functionDecl hkeyword => exact ⟨_, _, rfl, by rw [hkeyword]; rfl⟩
  | variableDecl h => cases h with
    | bare hkeyword | initialized hkeyword => exact ⟨_, _, rfl, by rw [hkeyword]; rfl⟩
  | statement h =>
    obtain ⟨token, others, rfl, hstart⟩ := h.statement_head
    exact ⟨token, others, rfl, startsDeclaration_of_startsStatement hstart⟩

theorem DerivesStmt.function_head {place : Place} {method : Bool} {phrase : StmtPhrase}
    (h : DerivesStmt place (.function method) ts phrase vs) :
    ∃ token others, ts = token :: others ∧ token.kind = .identifier := by
  cases h with
  | function hname => exact ⟨_, _, rfl, hname⟩

/-- Declarations do not start with `else`. -/
theorem DerivesStmt.startsWith_else {place : Place} {phrase : StmtPhrase}
    (h : DerivesStmt place .declarations ts phrase vs) (rest : List Token)
    (hrest : startsWith (.keyword .kwElse) rest = false) :
    startsWith (.keyword .kwElse) (ts ++ rest) = false := by
  cases h with
  | noDeclarations => exact hrest
  | consDeclaration hfirst _ =>
    obtain ⟨token, others, rfl, hstart⟩ := hfirst.declaration_head
    exact startsWith_eq_false_of_starts hstart rfl _

/-! ### Parts of statements -/

theorem Expression.finds {e : Expr} (h : Expression context.place ts e vs) (hends : Ends rest) :
    (expression context (ts ++ rest)).Finds e rest vs :=
  DerivesExpr.completes h rest hends

theorem ExpressionStmt.finds {s : Stmt} (h : ExpressionStmt context.place ts s vs)
    (rest : List Token) : (expressionStatement context (ts ++ rest)).Finds s rest vs := by
  cases h with
  | mk h hsemicolon =>
    rw [List.append_assoc]
    exact (h.finds (ends_of_kind hsemicolon (by simp) rest)).closed hsemicolon

/-- Whether an expression was left out shows in the token before which it would stand. -/
theorem OptionalExpression.startsWith_closing {place : Place} {closing : TokenKind} {token : Token}
    {value : Option Expr} (h : OptionalExpression place ts value vs)
    (htoken : token.kind = closing) (hclosing : closing ∈ [TokenKind.rightParen, .semicolon])
    (rest : List Token) : startsWith closing (ts ++ token :: rest) = !value.isSome := by
  cases h with
  | none => simp [startsWith, htoken]
  | some h =>
    obtain ⟨first, others, rfl, hstart⟩ := h.exists_head
    have hstop : startsExpression closing = false := by
      simp only [List.mem_cons, List.not_mem_nil, or_false] at hclosing
      rcases hclosing with rfl | rfl <;> rfl
    exact startsWith_eq_false_of_starts hstart hstop _

theorem OptionalExpression.finds {closing : TokenKind} {expectation : String} {token : Token}
    {value : Option Expr} (h : OptionalExpression context.place ts value vs)
    (htoken : token.kind = closing) (hclosing : closing ∈ [TokenKind.rightParen, .semicolon]) :
    (optionalExpression context closing expectation (ts ++ token :: rest)).Finds value rest
      vs := by
  rw [optionalExpression, h.startsWith_closing htoken hclosing]
  cases h with
  | none => exact (expect_finds htoken).map _
  | some h =>
    have hends : Ends (token :: rest) := ends_of_kind htoken (by grind) rest
    exact (h.finds hends).closed htoken

theorem condition_finds {opening closing : String} {left right : Token} {e : Expr}
    (hleft : left.kind = .leftParen) (h : Expression context.place ts e vs)
    (hright : right.kind = .rightParen) :
    (condition context opening closing (left :: (ts ++ right :: rest))).Finds e rest vs := by
  have he := h.finds (ends_of_kind hright (by simp) rest)
  exact finds_opened hleft fun _ => (he.closed hright).widen

theorem VariableDecl.finds {s : Stmt} (h : VariableDecl context.place ts s vs)
    (rest : List Token) :
    ∃ keyword others, ts = keyword :: others ∧ keyword.kind = .keyword .kwVar ∧
      (variableDeclaration context (others ++ rest)).Finds s rest vs := by
  cases h with
  | @bare keyword name semicolon hkeyword hname hsemicolon =>
    refine ⟨keyword, _, rfl, hkeyword, ?_⟩
    have hequal : semicolon.kind ≠ .equal := by simp [hsemicolon]
    rw [List.cons_append, List.singleton_append]
    refine finds_opened hname fun _ => ?_
    dsimp only
    rw [if_neg hequal]
    exact ((expect_finds hsemicolon).map _).widen
  | @initialized keyword name equals semicolon ts value vs hkeyword hname hequals hvalue
      hsemicolon =>
    refine ⟨keyword, _, rfl, hkeyword, ?_⟩
    have he := hvalue.finds (ends_of_kind hsemicolon (by simp) rest)
    rw [List.cons_append, List.cons_append, List.append_assoc]
    refine finds_opened hname fun _ => ?_
    dsimp only
    rw [if_pos hequals]
    exact (he.closed hsemicolon).widen

theorem ParameterNames.finds {names : List Token} {closing : Token} (h : ParameterNames ts names)
    (hclosing : closing.kind = .rightParen) (count : Nat) :
    (parameterItems context count (ts ++ closing :: rest)).Finds (names.map Token.lexeme)
      (closing :: rest) (extraParameters (255 - count) names) := by
  -- the limit is on the number of parameters so far, which `count` carries along the list
  induction h generalizing count with
  | @last name hname =>
    rw [extraParameters, map_drop_cons, List.cons_append, List.nil_append, parameterItems]
    have hcomma : closing.kind ≠ .comma := by simp [hclosing]
    refine Finds.after ?_ (.of_eq (beyondLimit_eq_breach rfl context count _))
    refine finds_opened hname fun _ => ?_
    dsimp only
    rw [if_neg hcomma]
    exact finds_ok (by simp)
  | @cons name comma ts names hname hcomma _ ih =>
    rw [extraParameters, map_drop_cons, List.cons_append, List.cons_append, parameterItems]
    refine Finds.after ?_ (.of_eq (beyondLimit_eq_breach rfl context count _))
    refine finds_opened hname fun _ => ?_
    dsimp only
    rw [if_pos hcomma]
    exact ((ih (count + 1)).map _).widen

theorem Parameters.finds {names : List String} {closing : Token} (h : Parameters ts names vs)
    (hclosing : closing.kind = .rightParen) :
    (parameters context (ts ++ closing :: rest)).Finds names rest vs := by
  cases h with
  | none =>
    have hstart : startsWith .rightParen (closing :: rest) = true := by simp [startsWith, hclosing]
    rw [List.nil_append, parameters, if_pos hstart]
    exact (expect_finds hclosing).map _
  | some h =>
    have hstart : startsWith .rightParen (ts ++ closing :: rest) = false := by
      cases h with
      | last hname | cons hname => simp [startsWith, hname]
    rw [parameters, hstart]
    exact (h.finds hclosing 0).closed hclosing

theorem functionHead_finds {kind : FunctionKind} {name opening closing start : Token}
    {params : List String} (hname : name.kind = .identifier) (hopening : opening.kind = .leftParen)
    (hparams : Parameters ts params vs) (hclosing : closing.kind = .rightParen)
    (hstart : start.kind = .leftBrace) :
    (functionHead context kind (name :: opening :: (ts ++ closing :: start :: rest))).Finds
      (name, params) rest vs := by
  rw [functionHead]
  refine finds_opened hname fun _ => ?_
  refine (finds_opened hopening fun _ => ?_).widen
  exact ((hparams.finds hclosing).closed hstart).widen

theorem SuperclassClause.finds {name opening : Token} {superclass : Option Reference}
    (h : SuperclassClause name ts superclass vs) (hopening : opening.kind = .leftBrace) :
    (superclassClause context name (ts ++ opening :: rest)).Finds superclass (opening :: rest)
      vs := by
  cases h with
  | none =>
    have hless : opening.kind ≠ .less := by simp [hopening]
    rw [List.nil_append, superclassClause, if_neg hless]
    exact finds_ok rfl
  | @some less parent hless hparent =>
    rw [List.cons_append, superclassClause, if_pos hless]
    refine (finds_opened hparent fun _ => ?_).widen
    exact finds_ok (misplaced_selfInheritance parent name)

theorem classHead_finds {name opening : Token} {superclass : Option Reference}
    (hname : name.kind = .identifier) (hsuperclass : SuperclassClause name ts superclass vs)
    (hopening : opening.kind = .leftBrace) :
    (classHead context (name :: (ts ++ opening :: rest))).Finds (name, superclass) rest vs := by
  rw [classHead]
  refine finds_opened hname fun _ => ?_
  exact ((hsuperclass.finds hopening).closed hopening).widen

theorem LoopStart.finds {initializer : Option Stmt}
    (h : LoopStart context.place ts initializer vs) :
    (loopInitializer context (ts ++ rest)).Finds initializer rest vs := by
  cases h with
  | none hsemicolon =>
    rw [List.singleton_append, loopInitializer, if_pos hsemicolon]
    exact finds_ok rfl
  | «variable» h =>
    obtain ⟨keyword, others, rfl, hkeyword, hs⟩ := h.finds rest
    have hsemicolon : keyword.kind ≠ .semicolon := by simp [hkeyword]
    rw [List.cons_append, loopInitializer, if_neg hsemicolon, if_pos hkeyword]
    exact (hs.map _).widen
  | expression h =>
    have hs := h.finds rest
    obtain ⟨token, others, rfl, hstart⟩ := h.exists_head
    rw [List.cons_append] at hs ⊢
    rw [loopInitializer, if_neg (kind_ne_of_starts hstart rfl),
      if_neg (kind_ne_of_starts hstart rfl)]
    exact hs.map _

theorem loopClauses_finds {opening semicolon closing : Token} {is cs us : List Token}
    {initializer : Option Stmt} {condition increment : Option Expr} {xs : List Violation}
    (hopening : opening.kind = .leftParen)
    (hinitializer : LoopStart context.place is initializer vs)
    (hcondition : OptionalExpression context.place cs condition ws)
    (hsemicolon : semicolon.kind = .semicolon)
    (hincrement : OptionalExpression context.place us increment xs)
    (hclosing : closing.kind = .rightParen) :
    (loopClauses context (opening :: (is ++ (cs ++ semicolon :: (us ++ closing :: rest))))).Finds
      ⟨initializer, condition, increment⟩ rest (vs ++ (ws ++ xs)) := by
  rw [loopClauses]
  refine finds_opened hopening fun _ => (hinitializer.finds.andThen fun _ => ?_).widen
  refine Finds.widen (Finds.andThen (hcondition.finds hsemicolon (by simp)) fun _ => ?_)
  exact ((hincrement.finds hclosing (by simp)).map _).widen

/-! ### Statements -/

/-- What recognition does with a loosely derivable list of tokens and what follows it. -/
def StmtCompletes (place : Place) :
    StmtSymbol → List Token → StmtPhrase → List Violation → Prop
  | .declarations, ts, .stmts body, vs =>
    ∀ context : Context, context.place = place →
      (program context ts).Finds body vs ∧
      ∀ (closing : Token) (rest : List Token), closing.kind = .rightBrace →
        (block context (ts ++ closing :: rest)).Finds body rest vs
  | .declaration, ts, .stmt s, vs =>
    ∀ context : Context, context.place = place →
      ∀ (token : Token) (others rest : List Token), ts = token :: others →
        startsWith (.keyword .kwElse) rest = false →
        (declaration context token (others ++ rest)).Finds s rest vs
  | .statement dangling, ts, .stmt s, vs =>
    ∀ context : Context, context.place = place →
      ∀ rest : List Token, (dangling = true → startsWith (.keyword .kwElse) rest = false) →
        (statement context (ts ++ rest)).Finds s rest vs
  | .function method, ts, .function declaration, vs =>
    ∀ context : Context, context.place = place →
      ∀ rest : List Token,
        (functionDeclaration context (if method then .method else .function) (ts ++ rest)).Finds
          declaration rest vs
  | .methods, ts, .functions declarations, vs =>
    ∀ context : Context, context.place = place →
      ∀ (closing : Token) (rest : List Token), closing.kind = .rightBrace →
        (methods context (ts ++ closing :: rest)).Finds declarations rest vs
  | _, _, _, _ => False

section Rules

variable {place : Place}

theorem StmtCompletes.consDeclaration {rs : List Token} {s : Stmt} {body : List Stmt}
    (hfirst : DerivesStmt place .declaration ts (.stmt s) vs)
    (hrest : DerivesStmt place .declarations rs (.stmts body) ws)
    (ihfirst : StmtCompletes place .declaration ts (.stmt s) vs)
    (ihrest : StmtCompletes place .declarations rs (.stmts body) ws) :
    StmtCompletes place .declarations (ts ++ rs) (.stmts (s :: body)) (vs ++ ws) := by
  intro context hcontext
  obtain ⟨token, others, rfl, hstart⟩ := hfirst.declaration_head
  -- at the top the declarations end with the tokens, in a block with its closing brace
  obtain ⟨hprogram, hblock⟩ := ihrest context hcontext
  constructor
  · have helse : startsWith (.keyword .kwElse) rs = false := by
      have := hrest.startsWith_else [] rfl
      rwa [List.append_nil] at this
    exact program_finds_cons (ihfirst context hcontext token others rs rfl helse) hprogram
  · intro closing rest hclosing
    have helse := hrest.startsWith_else (closing :: rest) (by simp [startsWith, hclosing])
    have hs := ihfirst context hcontext token others _ rfl helse
    rw [List.append_assoc]
    exact block_finds_cons (kind_ne_of_starts hstart rfl) hs (hblock closing rest hclosing)

theorem StmtCompletes.classDecl {keyword name opening closing : Token} {cs ms : List Token}
    {superclass : Option Reference} {declarations : List FunctionDecl}
    (hkeyword : keyword.kind = .keyword .kwClass) (hname : name.kind = .identifier)
    (hsuperclass : SuperclassClause name cs superclass vs) (hopening : opening.kind = .leftBrace)
    (ih : StmtCompletes { place with enclosing := classKind superclass } .methods ms
      (.functions declarations) ws)
    (hclosing : closing.kind = .rightBrace) :
    StmtCompletes place .declaration (keyword :: name :: (cs ++ opening :: (ms ++ [closing])))
      (.stmt (.classDecl name.lexeme superclass declarations)) (vs ++ ws) := by
  rintro context rfl token others rest heq -
  cases heq
  have htokens : name :: (cs ++ opening :: (ms ++ [closing])) ++ rest =
      name :: (cs ++ opening :: (ms ++ closing :: rest)) := by simp
  apply declaration_finds
  rw [construct, hkeyword, htokens]
  dsimp only
  rw [classDeclaration]
  refine ((classHead_finds hname hsuperclass hopening).andThen fun _ => ?_).widen
  dsimp only
  rw [enclosing_eq_classKind]
  exact ((ih _ rfl closing rest hclosing).map _).widen

theorem StmtCompletes.functionDecl {keyword : Token} {declaration : FunctionDecl}
    (hkeyword : keyword.kind = .keyword .kwFun)
    (ih : StmtCompletes place (.function false) ts (.function declaration) vs) :
    StmtCompletes place .declaration (keyword :: ts) (.stmt (.function declaration)) vs := by
  rintro context hcontext token others rest heq -
  cases heq
  apply declaration_finds
  rw [construct, hkeyword]
  exact ((ih context hcontext rest).map _).widen

theorem StmtCompletes.variableDecl {s : Stmt} (h : VariableDecl place ts s vs) :
    StmtCompletes place .declaration ts (.stmt s) vs := by
  rintro context rfl token others rest rfl -
  obtain ⟨keyword, others', heq, hkeyword, hs⟩ := h.finds rest
  cases heq
  apply declaration_finds
  rw [construct, hkeyword]
  exact hs.widen

theorem StmtCompletes.ofStatement {dangling : Bool} {s : Stmt}
    (h : DerivesStmt place (.statement dangling) ts (.stmt s) vs)
    (ih : StmtCompletes place (.statement dangling) ts (.stmt s) vs) :
    StmtCompletes place .declaration ts (.stmt s) vs := by
  rintro context hcontext token others rest rfl helse
  have hs := ih context hcontext rest fun _ => helse
  obtain ⟨_, _, heq, hstart⟩ := h.statement_head
  cases heq
  -- a statement starts with no keyword of a declaration
  apply declaration_finds
  rw [construct]
  split
  · exact absurd ‹_› (kind_ne_of_starts hstart rfl)
  · exact absurd ‹_› (kind_ne_of_starts hstart rfl)
  · exact absurd ‹_› (kind_ne_of_starts hstart rfl)
  · exact hs

theorem StmtCompletes.expression {s : Stmt} (h : ExpressionStmt place ts s vs) :
    StmtCompletes place (.statement false) ts (.stmt s) vs := by
  rintro context rfl rest -
  have hs := h.finds rest
  obtain ⟨token, others, rfl, hstart⟩ := h.exists_head
  -- an expression starts with no keyword of another statement
  rw [List.cons_append] at hs ⊢
  rw [statement]
  split
  case h_7 => exact hs
  all_goals exact absurd ‹_› (kind_ne_of_starts hstart rfl)

theorem StmtCompletes.forLoop {keyword opening semicolon closing : Token}
    {is cs us bs : List Token} {initializer : Option Stmt} {condition increment : Option Expr}
    {body : Stmt} {dangling : Bool} {xs ys : List Violation}
    (hkeyword : keyword.kind = .keyword .kwFor) (hopening : opening.kind = .leftParen)
    (hinitializer : LoopStart place is initializer vs)
    (hcondition : OptionalExpression place cs condition ws)
    (hsemicolon : semicolon.kind = .semicolon)
    (hincrement : OptionalExpression place us increment xs) (hclosing : closing.kind = .rightParen)
    (ih : StmtCompletes place (.statement dangling) bs (.stmt body) ys) :
    StmtCompletes place (.statement dangling)
      (keyword :: opening :: (is ++ (cs ++ semicolon :: (us ++ closing :: bs))))
      (.stmt (loopTree initializer condition increment body)) (vs ++ (ws ++ (xs ++ ys))) := by
  rintro context rfl rest helse
  have htokens :
      keyword :: opening :: (is ++ (cs ++ semicolon :: (us ++ closing :: bs))) ++ rest =
        keyword :: opening :: (is ++ (cs ++ semicolon :: (us ++ closing :: (bs ++ rest)))) := by
    simp
  have hviolations : vs ++ (ws ++ (xs ++ ys)) = vs ++ (ws ++ xs) ++ ys := by simp
  rw [htokens, hviolations, statement]
  simp only [hkeyword]
  exact Finds.widen ((loopClauses_finds hopening hinitializer hcondition hsemicolon hincrement
    hclosing).followed (ih context rfl rest helse))

theorem StmtCompletes.ifThen {keyword opening closing : Token} {cs bs : List Token}
    {condition : Expr} {body : Stmt} {dangling : Bool} (hkeyword : keyword.kind = .keyword .kwIf)
    (hopening : opening.kind = .leftParen) (hcondition : Expression place cs condition vs)
    (hclosing : closing.kind = .rightParen)
    (ih : StmtCompletes place (.statement dangling) bs (.stmt body) ws) :
    StmtCompletes place (.statement true) (keyword :: opening :: (cs ++ closing :: bs))
      (.stmt (.ifThen condition body)) (vs ++ ws) := by
  rintro context rfl rest helse
  have htokens : keyword :: opening :: (cs ++ closing :: bs) ++ rest =
      keyword :: opening :: (cs ++ closing :: (bs ++ rest)) := by simp
  rw [htokens, statement]
  simp only [hkeyword]
  exact (ifStatement_finds (condition_finds hopening hcondition hclosing)
    (ih context rfl rest fun _ => helse rfl) (helse rfl)).widen

theorem StmtCompletes.ifElse {keyword opening closing otherwise : Token}
    {cs bs es : List Token} {condition : Expr} {body alternative : Stmt} {dangling : Bool}
    {xs : List Violation} (hkeyword : keyword.kind = .keyword .kwIf)
    (hopening : opening.kind = .leftParen) (hcondition : Expression place cs condition vs)
    (hclosing : closing.kind = .rightParen)
    (ihbody : StmtCompletes place (.statement false) bs (.stmt body) ws)
    (hotherwise : otherwise.kind = .keyword .kwElse)
    (ihalternative : StmtCompletes place (.statement dangling) es (.stmt alternative) xs) :
    StmtCompletes place (.statement dangling)
      (keyword :: opening :: (cs ++ closing :: (bs ++ otherwise :: es)))
      (.stmt (.ifElse condition body alternative)) (vs ++ (ws ++ xs)) := by
  rintro context rfl rest helse
  have htokens : keyword :: opening :: (cs ++ closing :: (bs ++ otherwise :: es)) ++ rest =
      keyword :: opening :: (cs ++ closing :: (bs ++ otherwise :: (es ++ rest))) := by simp
  -- the first branch is not dangling, so the `else` after it may follow
  have hbody := ihbody context rfl (otherwise :: (es ++ rest)) (fun h => absurd h (by decide))
  rw [htokens, statement]
  simp only [hkeyword]
  exact (ifStatement_finds_else (condition_finds hopening hcondition hclosing) hbody hotherwise
    (ihalternative context rfl rest helse)).widen

theorem StmtCompletes.print {keyword semicolon : Token} {value : Expr}
    (hkeyword : keyword.kind = .keyword .kwPrint) (hvalue : Expression place ts value vs)
    (hsemicolon : semicolon.kind = .semicolon) :
    StmtCompletes place (.statement false) (keyword :: (ts ++ [semicolon]))
      (.stmt (.print value)) vs := by
  rintro context rfl rest -
  have htokens : keyword :: (ts ++ [semicolon]) ++ rest = keyword :: (ts ++ semicolon :: rest) := by
    simp
  have he := hvalue.finds (ends_of_kind hsemicolon (by simp) rest)
  rw [htokens, statement]
  simp only [hkeyword]
  exact Finds.widen (he.closed hsemicolon)

theorem StmtCompletes.returning {keyword semicolon : Token} {value : Option Expr}
    (hkeyword : keyword.kind = .keyword .kwReturn) (hvalue : OptionalExpression place ts value vs)
    (hsemicolon : semicolon.kind = .semicolon) :
    StmtCompletes place (.statement false) (keyword :: (ts ++ [semicolon]))
      (.stmt (.returning value))
      (breach (place.function = .none) (.strayReturn keyword) ++
        (breach (place.function = .initializer ∧ value.isSome) (.initializerValue keyword) ++
          vs)) := by
  rintro context rfl rest -
  have htokens : keyword :: (ts ++ [semicolon]) ++ rest = keyword :: (ts ++ semicolon :: rest) := by
    simp
  -- the token after the keyword tells whether there is a value, before the value is read
  have hstart := hvalue.startsWith_closing hsemicolon (by simp) rest
  rw [htokens, ← List.append_assoc, statement]
  simp only [hkeyword]
  rw [returnStatement, hstart, Bool.not_not]
  exact (((hvalue.finds hsemicolon (by simp)).map _).after
    (.of_eq (misplaced_returnMisuse? _ _ _))).widen

theorem StmtCompletes.whileLoop {keyword opening closing : Token} {cs bs : List Token}
    {condition : Expr} {body : Stmt} {dangling : Bool}
    (hkeyword : keyword.kind = .keyword .kwWhile) (hopening : opening.kind = .leftParen)
    (hcondition : Expression place cs condition vs) (hclosing : closing.kind = .rightParen)
    (ih : StmtCompletes place (.statement dangling) bs (.stmt body) ws) :
    StmtCompletes place (.statement dangling) (keyword :: opening :: (cs ++ closing :: bs))
      (.stmt (.loop condition body)) (vs ++ ws) := by
  rintro context rfl rest helse
  have htokens : keyword :: opening :: (cs ++ closing :: bs) ++ rest =
      keyword :: opening :: (cs ++ closing :: (bs ++ rest)) := by simp
  rw [htokens, statement]
  simp only [hkeyword]
  exact Finds.widen
    ((condition_finds hopening hcondition hclosing).followed (ih context rfl rest helse))

theorem StmtCompletes.block {opening closing : Token} {body : List Stmt}
    (hopening : opening.kind = .leftBrace)
    (ih : StmtCompletes place .declarations ts (.stmts body) vs)
    (hclosing : closing.kind = .rightBrace) :
    StmtCompletes place (.statement false) (opening :: (ts ++ [closing]))
      (.stmt (.block body)) vs := by
  rintro context hcontext rest -
  have htokens : opening :: (ts ++ [closing]) ++ rest = opening :: (ts ++ closing :: rest) := by
    simp
  rw [htokens, statement]
  simp only [hopening]
  exact (((ih context hcontext).2 closing rest hclosing).map _).widen

theorem StmtCompletes.function {method : Bool} {name opening closing start finish : Token}
    {ps bs : List Token} {params : List String} {body : List Stmt}
    (hname : name.kind = .identifier) (hopening : opening.kind = .leftParen)
    (hparams : Parameters ps params vs) (hclosing : closing.kind = .rightParen)
    (hstart : start.kind = .leftBrace)
    (ih : StmtCompletes { place with function := bodyKind method name.lexeme } .declarations bs
      (.stmts body) ws)
    (hfinish : finish.kind = .rightBrace) :
    StmtCompletes place (.function method)
      (name :: opening :: (ps ++ closing :: start :: (bs ++ [finish])))
      (.function (.mk name.lexeme params body name.anchor)) (vs ++ ws) := by
  rintro context rfl rest
  have htokens : name :: opening :: (ps ++ closing :: start :: (bs ++ [finish])) ++ rest =
      name :: opening :: (ps ++ closing :: start :: (bs ++ finish :: rest)) := by simp
  rw [htokens, functionDeclaration]
  refine (functionHead_finds hname hopening hparams hclosing hstart).andThen fun _ => ?_
  dsimp only
  rw [named_eq_bodyKind]
  exact (((ih _ rfl).2 finish rest hfinish).map _).widen

theorem StmtCompletes.consMethod {rs : List Token} {method : FunctionDecl}
    {declarations : List FunctionDecl}
    (hfirst : DerivesStmt place (.function true) ts (.function method) vs)
    (ihfirst : StmtCompletes place (.function true) ts (.function method) vs)
    (ihrest : StmtCompletes place .methods rs (.functions declarations) ws) :
    StmtCompletes place .methods (ts ++ rs) (.functions (method :: declarations)) (vs ++ ws) := by
  intro context hcontext closing rest hclosing
  have hmethod := ihfirst context hcontext (rs ++ closing :: rest)
  obtain ⟨token, others, rfl, hname⟩ := hfirst.function_head
  have hbrace : token.kind ≠ .rightBrace := by simp [hname]
  rw [List.append_assoc, List.cons_append, methods, if_neg hbrace]
  exact Finds.followed hmethod (ihrest context hcontext closing rest hclosing)

end Rules

/-- Every loosely derivable list of tokens is recognised, with the tree of its derivation, and
exactly the violations of the derivation are reported. -/
theorem DerivesStmt.completes {place : Place} {symbol : StmtSymbol} {phrase : StmtPhrase}
    (h : DerivesStmt place symbol ts phrase vs) : StmtCompletes place symbol ts phrase vs := by
  induction h with
  | noDeclarations =>
    refine fun context _ => ⟨?_, fun closing rest hclosing => ?_⟩
    · rw [program_nil]
      exact ⟨rfl, .refl _⟩
    · rw [List.nil_append, Grammar.block, if_pos hclosing]
      exact finds_ok rfl
  | consDeclaration hfirst hrest ihfirst ihrest =>
    exact .consDeclaration hfirst hrest ihfirst ihrest
  | classDecl hkeyword hname hsuperclass hopening _ hclosing ih =>
    exact .classDecl hkeyword hname hsuperclass hopening ih hclosing
  | functionDecl hkeyword _ ih => exact .functionDecl hkeyword ih
  | variableDecl h => exact .variableDecl h
  | statement h ih => exact .ofStatement h ih
  | expression h => exact .expression h
  | forLoop hkeyword hopening hinitializer hcondition hsemicolon hincrement hclosing _ ih =>
    exact .forLoop hkeyword hopening hinitializer hcondition hsemicolon hincrement hclosing ih
  | ifThen hkeyword hopening hcondition hclosing _ ih =>
    exact .ifThen hkeyword hopening hcondition hclosing ih
  | ifElse hkeyword hopening hcondition hclosing _ hotherwise _ ihbody ihalternative =>
    exact .ifElse hkeyword hopening hcondition hclosing ihbody hotherwise ihalternative
  | print hkeyword hvalue hsemicolon => exact .print hkeyword hvalue hsemicolon
  | returning hkeyword hvalue hsemicolon => exact .returning hkeyword hvalue hsemicolon
  | whileLoop hkeyword hopening hcondition hclosing _ ih =>
    exact .whileLoop hkeyword hopening hcondition hclosing ih
  | block hopening _ hclosing ih => exact .block hopening ih hclosing
  | function hname hopening hparams hclosing hstart _ hfinish ih =>
    exact .function hname hopening hparams hclosing hstart ih hfinish
  | noMethods =>
    intro context _ closing rest hclosing
    rw [List.nil_append, methods, if_pos hclosing]
    exact finds_ok rfl
  | consMethod hfirst _ ihfirst ihrest => exact .consMethod hfirst ihfirst ihrest

/-! ### Programs -/

theorem DerivesProgram.recognise_finds {p : Program} (h : DerivesProgram ts p vs)
    (ending : Token) : (recognise ts ending).Finds p vs :=
  (h.completes _ rfl).1

end Loose

end Treewalk.Grammar
