import Treewalk.Proofs.Grammar.ExpressionSoundness

/-!
# Recognised programs are derivable

What the recognisers of statements, declarations and programs do with their tokens. Every statement
that is recognised cleanly has a derivation on the tokens that it took. A statement that stopped
before an `else` is not dangling, since a dangling one would have taken the `else` with it.

A panic ends at the declaration around it, so every error that stops recognition is the last word
of a declaration that gave up.
-/

namespace Treewalk.Grammar

open Parsed

/-- Where a construct that is recognised in a context stands. -/
def Context.place (context : Context) : Place :=
  { function := context.function, enclosing := context.enclosing }

theorem named_eq_bodyKind (method : Bool) (name : String) :
    (if method then FunctionKind.method else .function).named name = bodyKind method name := by
  cases method <;> simp [FunctionKind.named, bodyKind]

theorem enclosing_eq_classKind (superclass : Option Reference) :
    (if superclass.isSome then ClassKind.subclass else .plain) = classKind superclass := by
  cases superclass <;> rfl

theorem unescaped_returnMisuse (kind : FunctionKind) (valued : Bool) :
    ∀ text ∈ returnMisuse? kind valued, Unescaped text := by
  cases kind <;> cases valued <;> decide

theorem FunctionKind.unescaped_noun (kind : FunctionKind) : Unescaped kind.noun := by
  cases kind <;> decide

/-! ### Parts of statements -/

/-- A condition between parentheses. -/
inductive Parenthesized (place : Place) : List Token → Expr → Prop where
  | mk {opening closing : Token} {ts : List Token} {e : Expr} (hopening : opening.kind = .leftParen)
    (h : place.Expression ts e) (hclosing : closing.kind = .rightParen) :
    Parenthesized place (opening :: (ts ++ [closing])) e

/-- The clauses of a `for` loop between parentheses. -/
inductive LoopHead (place : Place) : List Token → LoopClauses → Prop where
  | mk {opening semicolon closing : Token} {is cs us : List Token} {clauses : LoopClauses}
    (hopening : opening.kind = .leftParen) (hinitializer : LoopStart place is clauses.initializer)
    (hcondition : OptionalExpression place cs clauses.condition)
    (hsemicolon : semicolon.kind = .semicolon)
    (hincrement : OptionalExpression place us clauses.increment)
    (hclosing : closing.kind = .rightParen) :
    LoopHead place (opening :: (is ++ (cs ++ semicolon :: (us ++ [closing])))) clauses

/-- The name, the parameters and the opening brace of a function. -/
inductive FunctionHead : List Token → Token → List String → Prop where
  | mk {name opening closing start : Token} {ps : List Token} {params : List String}
    (hname : name.kind = .identifier) (hopening : opening.kind = .leftParen)
    (hparams : Parameters ps params) (hclosing : closing.kind = .rightParen)
    (hstart : start.kind = .leftBrace) :
    FunctionHead (name :: opening :: (ps ++ [closing, start])) name params

/-- The name, the superclass and the opening brace of a class. -/
inductive ClassHead : List Token → Token → Option Reference → Prop where
  | mk {name opening : Token} {cs : List Token} {superclass : Option Reference}
    (hname : name.kind = .identifier) (hsuperclass : SuperclassClause name cs superclass)
    (hopening : opening.kind = .leftBrace) :
    ClassHead (name :: (cs ++ [opening])) name superclass

section Parts

variable (context : Context)

theorem reads_expressionStatement (ts : List Token) :
    (expressionStatement context ts).Reads context ts fun read s _ =>
      ExpressionStmt context.place read s := by
  unfold expressionStatement
  exact (reads_expression context ts).closed (by decide)
    fun _ _ _ _ he hsemicolon => .mk he hsemicolon

theorem reads_printStatement {keyword : Token} (hkeyword : keyword.kind = .keyword .kwPrint)
    (ts : List Token) :
    (printStatement context ts).Reads context ts fun read s _ =>
      DerivesStmt context.place (.statement false) (keyword :: read) (.stmt s) := by
  unfold printStatement
  exact (reads_expression context ts).closed (by decide)
    fun _ _ _ _ he hsemicolon => .print hkeyword he hsemicolon

/-- There is no expression exactly if the token that must follow comes first. -/
theorem reads_optionalExpression (closing : TokenKind) {expectation : String}
    (h : Unescaped expectation) (ts : List Token) :
    (optionalExpression context closing expectation ts).Reads context ts fun read value _ =>
      (startsWith closing ts = true → value = none) ∧
        ∃ es token, read = es ++ [token] ∧ token.kind = closing ∧
          OptionalExpression context.place es value := by
  unfold optionalExpression
  refine .ite (fun _ => .map ((reads_expect context _ h ts).imp ?_)) fun hstart =>
    (reads_expression context ts).closed h ?_
  · rintro _ token _ _ ⟨rfl, hkind⟩
    exact ⟨fun _ => rfl, [], token, rfl, hkind, .none⟩
  · intro read e token _ he hkind
    exact ⟨fun h => absurd h hstart, read, token, rfl, hkind, .some he⟩

theorem reads_returnStatement {keyword : Token} (hkeyword : keyword.kind = .keyword .kwReturn)
    (ts : List Token) :
    (returnStatement context keyword ts).Reads context (keyword :: ts) fun read s _ =>
      DerivesStmt context.place (.statement false) read (.stmt s) := by
  unfold returnStatement
  refine .after ?_ (noticed_misplaced List.mem_cons_self (unescaped_returnMisuse _ _))
  refine .skip (.map ((reads_optionalExpression context _ (by decide) ts).imp ?_))
  rintro _ value _ _ ⟨hstart, es, semicolon, rfl, hsemicolon, hvalue⟩ hplace
  have hmisuse := eq_none_of_misplaced hplace
  refine .returning hkeyword (fun hnone => ?_) hvalue (fun hinitializer => hstart ?_) hsemicolon
  · rw [show context.function = .none from hnone] at hmisuse
    cases hmisuse
  · -- in an initializer a semicolon comes next, so there is no value
    rw [show context.function = .initializer from hinitializer] at hmisuse
    cases h : startsWith .semicolon ts with
    | true => rfl
    | false =>
      rw [h] at hmisuse
      cases hmisuse

theorem reads_variableDeclaration {keyword : Token} (hkeyword : keyword.kind = .keyword .kwVar)
    (ts : List Token) :
    (variableDeclaration context ts).Reads context ts fun read s _ =>
      VariableDecl context.place (keyword :: read) s := by
  unfold variableDeclaration
  refine .opened (by decide) ?_
  rintro name rest _ rfl hname
  have hbare : ∀ read semicolon left, OneToken .semicolon read semicolon left →
      VariableDecl context.place (keyword :: name :: read) (.declare name.lexeme none) := by
    rintro _ semicolon _ ⟨rfl, hsemicolon⟩
    exact .bare hkeyword hname hsemicolon
  refine .skip ?_
  cases rest with
  | nil =>
    exact .widen (.map ((reads_expect context _ (by decide) []).imp
      fun read semicolon left _ h => hbare read semicolon left h))
  | cons equals rest =>
    refine .ite (fun hequals => .widen (.skip ?_)) fun _ => .widen (.map ?_)
    · exact (reads_expression context rest).closed (by decide)
        fun _ _ _ _ he hsemicolon => .initialized hkeyword hname hequals he hsemicolon
    · exact (reads_expect context _ (by decide) (equals :: rest)).imp
        fun read semicolon left _ h => hbare read semicolon left h

theorem reads_parameterItems (count : Nat) (ts : List Token) :
    (parameterItems context count ts).Reads context ts fun read names _ =>
      ParameterNames read names ∧ count + names.length ≤ 255 := by
  rw [parameterItems]
  refine .after ?_ (noticed_beyondLimit (fun _ => rfl) (fun _ => rfl) (fun _ => rfl) count)
  refine .opened (by decide) ?_
  rintro name rest h rfl hname
  refine .skip ?_
  have hlast : (Parsed.ok [name.lexeme] rest [] h).Reads context rest fun more names _ =>
      beyondLimit .tooManyParameters context count (name :: rest) = [] →
        ParameterNames (name :: more) names ∧ count + names.length ≤ 255 :=
    .clean [] rfl fun hlimit => ⟨.last hname, lt_of_beyondLimit hlimit⟩
  cases rest with
  | nil => exact hlast
  | cons comma rest =>
    refine .ite (fun hcomma => .widen (.map (.skip ?_))) fun _ => hlast
    refine (reads_parameterItems (count + 1) rest).imp ?_
    rintro more names _ _ ⟨hnames, hlimit⟩ _
    refine ⟨.cons hname hcomma hnames, ?_⟩
    rw [List.length_cons]
    omega
termination_by ts.length

theorem reads_parameters (ts : List Token) :
    (parameters context ts).Reads context ts fun read names _ =>
      ∃ ps closing, read = ps ++ [closing] ∧ closing.kind = .rightParen ∧ Parameters ps names := by
  unfold parameters
  refine .ite (fun _ => .map ((reads_expect context _ (by decide) ts).imp ?_)) fun _ =>
    (reads_parameterItems context 0 ts).closed (by decide) ?_
  · rintro _ closing _ _ ⟨rfl, hclosing⟩
    exact ⟨[], closing, rfl, hclosing, .none⟩
  · rintro ps names closing _ ⟨hnames, hlimit⟩ hclosing
    rw [Nat.zero_add] at hlimit
    exact ⟨ps, closing, rfl, hclosing, .some hnames hlimit⟩

theorem reads_functionHead (kind : FunctionKind) (ts : List Token) :
    (functionHead context kind ts).Reads context ts fun read head _ =>
      FunctionHead read head.1 head.2 := by
  have hnoun := kind.unescaped_noun
  unfold functionHead
  refine .opened (by simp +decide [hnoun]) ?_
  rintro name rest _ rfl hname
  refine .skip (.widen (.opened (by simp +decide [hnoun]) ?_))
  rintro opening inner _ rfl hopening
  refine .skip (.widen ((reads_parameters context inner).closed (by simp +decide [hnoun]) ?_))
  rintro _ params start _ ⟨ps, closing, rfl, hclosing, hparams⟩ hstart
  rw [List.append_assoc]
  exact .mk hname hopening hparams hclosing hstart

theorem reads_superclassClause (name : Token) (ts : List Token) :
    (superclassClause context name ts).Reads context ts fun read superclass _ =>
      SuperclassClause name read superclass := by
  cases ts with
  | nil => exact .clean [] rfl .none
  | cons less rest =>
    unfold superclassClause
    refine .ite (fun hless => .widen (.skip (.opened (by decide) ?_))) fun _ =>
      .clean [] rfl .none
    rintro parent left _ rfl hparent
    refine .ok (List.singleton_append).symm (noticed_misplaced List.mem_cons_self ?_) ?_
    · split <;> decide
    · intro hmisplaced
      refine .some hless hparent fun hsame => ?_
      have hreason := eq_none_of_misplaced hmisplaced
      rw [if_pos hsame] at hreason
      cases hreason

theorem reads_classHead (ts : List Token) :
    (classHead context ts).Reads context ts fun read head _ => ClassHead read head.1 head.2 := by
  unfold classHead
  refine .opened (by decide) ?_
  rintro name rest _ rfl hname
  refine .skip (.widen ((reads_superclassClause context name rest).closed (by decide) ?_))
  exact fun _ _ _ _ hsuperclass hopening => .mk hname hsuperclass hopening

theorem reads_loopInitializer (ts : List Token) :
    (loopInitializer context ts).Reads context ts fun read initializer _ =>
      LoopStart context.place read initializer := by
  cases ts with
  | nil =>
    exact .map ((reads_expressionStatement context []).imp fun _ _ _ _ h => .expression h)
  | cons token rest =>
    unfold loopInitializer
    refine .ite (fun hsemicolon => .clean [token] rfl (.none hsemicolon)) fun _ =>
      .ite (fun hkeyword => .widen (.map (.skip ?_))) fun _ => .map ?_
    · exact (reads_variableDeclaration context hkeyword rest).imp fun _ _ _ _ h => .variable h
    · exact (reads_expressionStatement context (token :: rest)).imp
        fun _ _ _ _ h => .expression h

theorem reads_loopClauses (ts : List Token) :
    (loopClauses context ts).Reads context ts fun read clauses _ =>
      LoopHead context.place read clauses := by
  unfold loopClauses
  refine .opened (by decide) ?_
  rintro opening rest _ rfl hopening
  refine .skip (.widen ((reads_loopInitializer context rest).andThen fun _ inner _ => ?_))
  refine .widen ((reads_optionalExpression context _ (by decide) inner).andThen fun _ left _ => ?_)
  refine .widen (.map ((reads_optionalExpression context _ (by decide) left).imp ?_))
  rintro _ _ _ _ ⟨_, us, closing, rfl, hclosing, hincrement⟩ _
    ⟨_, cs, semicolon, rfl, hsemicolon, hcondition⟩ is hinitializer
  rw [List.append_assoc, List.singleton_append]
  exact .mk hopening hinitializer hcondition hsemicolon hincrement hclosing

theorem reads_condition {opening closing : String} (hopening : Unescaped opening)
    (hclosing : Unescaped closing) (ts : List Token) :
    (condition context opening closing ts).Reads context ts fun read e _ =>
      Parenthesized context.place read e := by
  unfold condition
  refine .opened hopening ?_
  rintro left rest _ rfl hleft
  refine .skip (.widen ((reads_expression context rest).closed hclosing ?_))
  exact fun _ _ _ _ he hright => .mk hleft he hright

end Parts

/-! ### Declarations -/

/-- What a declaration that starts with `token` recognises, before a panic is settled. -/
def construct (context : Context) (token : Token) (ts : List Token) : Parsed Stmt (ts.length + 1) :=
  match token.kind with
  | .keyword .kwClass => (classDeclaration context ts).widen (length_le_cons token ts)
  | .keyword .kwFun =>
    ((functionDeclaration context .function ts).map Stmt.function).widen (length_le_cons token ts)
  | .keyword .kwVar => (variableDeclaration context ts).widen (length_le_cons token ts)
  | _ => statement context (token :: ts)

theorem declaration_eq_settle (context : Context) (token : Token) (ts : List Token) :
    declaration context token ts = .settle (construct context token ts) := by
  rw [declaration, construct]
  split <;> simp only [*]

theorem suffix_resume (dropped : Token) (ts : List Token) : resume dropped ts <:+ ts := by
  induction ts generalizing dropped with
  | nil => exact List.suffix_refl _
  | cons token rest ih =>
    rw [resume]
    split
    · exact List.suffix_refl _
    · exact (ih token).trans (List.suffix_cons _ _)

theorem suffix_recover (ts : List Token) : recover ts <:+ ts := by
  cases ts with
  | nil => exact List.suffix_refl _
  | cons token rest => exact (suffix_resume token rest).trans (List.suffix_cons _ _)

variable {context : Context} {token : Token} {ts : List Token}

/-- The tokens that were read derive a statement, and one that stops before an `else` is not
dangling. -/
def Stated (context : Context) (read : List Token) (s : Stmt) (rest : List Token) : Prop :=
  ∃ dangling, DerivesStmt context.place (.statement dangling) read (.stmt s) ∧
    (startsWith (.keyword .kwElse) rest = true → dangling = false)

/-- The tokens that were read derive the statements of a block, up to the closing brace. -/
def Braced (context : Context) (read : List Token) (body : List Stmt) (_ : List Token) : Prop :=
  ∃ bs closing, read = bs ++ [closing] ∧ closing.kind = .rightBrace ∧
    DerivesStmt context.place .declarations bs (.stmts body)

/-- The tokens that were read derive the methods of a class, up to the closing brace. -/
def BracedMethods (context : Context) (read : List Token) (methods : List FunctionDecl)
    (_ : List Token) : Prop :=
  ∃ ms closing, read = ms ++ [closing] ∧ closing.kind = .rightBrace ∧
    DerivesStmt context.place .methods ms (.functions methods)

/-- The tokens that were read derive a declaration. -/
def Declares (context : Context) (read : List Token) (s : Stmt) (_ : List Token) : Prop :=
  DerivesStmt context.place .declaration read (.stmt s)

/-- What a declaration leaves is a last part of its tokens, the first one apart, what it notices
belongs to them, and if it notices nothing, it has a tree that is derivable. -/
structure DeclarationReads (context : Context) (token : Token) (ts : List Token) : Prop where
  rest : (declaration context token ts).rest <:+ ts
  reports : ∀ error ∈ (declaration context token ts).reports,
    Noticed context.ending (token :: ts) error
  sound : (declaration context token ts).reports = [] →
    ∃ s, (declaration context token ts).stmt? = some s ∧
      ∀ read, token :: ts = read ++ (declaration context token ts).rest →
        DerivesStmt context.place .declaration read (.stmt s)

theorem suffix_of_length_le {rest : List Token} (h : rest <:+ token :: ts)
    (hlength : rest.length ≤ ts.length) : rest <:+ ts := by
  rcases List.suffix_cons_iff.mp h with rfl | hrest
  · exact absurd hlength (Nat.not_succ_le_self _)
  · exact hrest

theorem DeclarationReads.of_construct
    (h : (construct context token ts).Reads context (token :: ts) (Declares context)) :
    DeclarationReads context token ts := by
  have hsettle := declaration_eq_settle context token ts
  have hbound := (declaration context token ts).bound
  cases hresult : construct context token ts with
  | ok stmt rest reports bound =>
    rw [hresult] at h hsettle
    cases h with
    | @ok read _ _ _ _ htokens hreports hvalue =>
      have hleft : (declaration context token ts).rest = rest := by
        rw [hsettle]
        rfl
      have hsuffix : (declaration context token ts).rest <:+ token :: ts :=
        ⟨read, by rw [hleft, htokens]⟩
      refine ⟨suffix_of_length_le hsuffix hbound, ?_, fun hnone => ⟨stmt, ?_, ?_⟩⟩
      · rw [hsettle]
        exact hreports
      · rw [hsettle]
        rfl
      · intro read' hread
        rw [hsettle] at hnone
        rw [hleft, htokens] at hread
        rw [← List.append_cancel_right hread]
        exact hvalue hnone
  | panic error rest reports bound =>
    have hgives : (declaration context token ts).GivesUp error := by
      rw [hsettle, hresult]
      exact ⟨rfl, List.getLast?_concat⟩
    rw [hresult] at h hsettle
    cases h with
    | panic hrest hstops hfound hremark hreports =>
      have hleft : (declaration context token ts).rest <:+ token :: ts := by
        rw [hsettle]
        exact (suffix_recover rest).trans hrest
      refine ⟨suffix_of_length_le hleft hbound, ?_, fun hnone => ?_⟩
      · rw [hsettle]
        refine List.forall_mem_append.mpr ⟨hreports, ?_⟩
        -- the declaration itself is the one that gives up with the error of the panic
        intro last hlast
        obtain rfl := List.mem_singleton.mp hlast
        refine ⟨?_, hremark, fun _ => ⟨context, token, ts, rfl, List.suffix_refl _, hgives⟩⟩
        rw [hfound]
        rcases context.here_named rest with hending | ⟨t, ht, hhere⟩
        · exact .inl hending
        · exact .inr ⟨t, hrest.mem ht, hhere⟩
      · rw [hsettle] at hnone
        exact absurd hnone (List.append_ne_nil_of_right_ne_nil _ (List.cons_ne_nil _ _))

mutual

theorem reads_construct (context : Context) (token : Token) (ts : List Token) :
    (construct context token ts).Reads context (token :: ts) (Declares context) := by
  rw [construct]
  split
  · rename_i hkind
    exact .skip (reads_classDeclaration context hkind ts).widen
  · rename_i hkind
    refine .skip (.widen (.map ?_))
    exact (reads_functionDeclaration context false ts).imp fun _ _ _ _ h => .functionDecl hkind h
  · rename_i hkind
    refine .skip (.widen ?_)
    exact (reads_variableDeclaration context hkind ts).imp fun _ _ _ _ h => .variableDecl h
  · refine (reads_statement context (token :: ts)).imp ?_
    rintro _ _ _ _ ⟨_, h, _⟩
    exact .statement h
termination_by (ts.length + 1) * 4 + 2
decreasing_by all_goals grind

theorem reads_statement (context : Context) (ts : List Token) :
    (statement context ts).Reads context ts (Stated context) := by
  cases ts with
  | nil =>
    rw [statement]
    exact (reads_expressionStatement context []).imp
      fun _ _ _ _ h => ⟨false, .expression h, fun _ => rfl⟩
  | cons token rest =>
    rw [statement]
    split
    · rename_i hkind
      refine .widen (.skip ((reads_loopClauses context rest).andThen fun clauses left h => ?_))
      refine .widen (.map ((reads_statement context left).imp ?_))
      rintro bs body _ _ ⟨dangling, hbody, helse⟩ _ hhead
      cases hhead with
      | mk hopening hinitializer hcondition hsemicolon hincrement hclosing =>
        refine ⟨dangling, ?_, helse⟩
        simp only [List.cons_append, List.append_assoc, List.nil_append]
        exact .forLoop hkind hopening hinitializer hcondition hsemicolon hincrement hclosing hbody
    · rename_i hkind
      exact .widen (.skip (reads_ifStatement context hkind rest))
    · rename_i hkind
      refine .widen (.skip ((reads_printStatement context hkind rest).imp ?_))
      exact fun _ _ _ _ h => ⟨false, h, fun _ => rfl⟩
    · rename_i hkind
      refine .widen ((reads_returnStatement context hkind rest).imp ?_)
      exact fun _ _ _ _ h => ⟨false, h, fun _ => rfl⟩
    · rename_i hkind
      refine .widen (.skip ((reads_condition context (by decide) (by decide) rest).andThen
        fun test left h => ?_))
      refine .widen (.map ((reads_statement context left).imp ?_))
      rintro bs body _ _ ⟨dangling, hbody, helse⟩ _ hcondition
      cases hcondition with
      | mk hopening hcondition hclosing =>
        refine ⟨dangling, ?_, helse⟩
        simp only [List.cons_append, List.append_assoc, List.nil_append]
        exact .whileLoop hkind hopening hcondition hclosing hbody
    · rename_i hkind
      refine .widen (.map (.skip ((reads_block context rest).imp ?_)))
      rintro _ body _ _ ⟨bs, closing, rfl, hclosing, hbody⟩
      exact ⟨false, .block hkind hbody hclosing, fun _ => rfl⟩
    · exact (reads_expressionStatement context (token :: rest)).imp
        fun _ _ _ _ h => ⟨false, .expression h, fun _ => rfl⟩
termination_by ts.length * 4 + 1
decreasing_by all_goals grind

theorem reads_ifStatement (context : Context) {keyword : Token}
    (hkeyword : keyword.kind = .keyword .kwIf) (ts : List Token) :
    (ifStatement context ts).Reads context ts fun read => Stated context (keyword :: read) := by
  rw [ifStatement]
  refine (reads_condition context (by decide) (by decide) ts).andThen fun test rest h => ?_
  refine .widen ((reads_statement context rest).andThen fun body left h' => ?_)
  have hthen (hstop : startsWith (.keyword .kwElse) left = false) :
      (Parsed.ok (.ifThen test body) left [] h').Reads context left fun more s rest' =>
        ∀ bs, Stated context bs body left → ∀ cs, Parenthesized context.place cs test →
          Stated context (keyword :: (cs ++ (bs ++ more))) s rest' := by
    refine .clean [] rfl ?_
    rintro bs ⟨_, hbody, _⟩ _ hcondition
    cases hcondition with
    | mk hopening hcondition hclosing =>
      -- with an `else` ahead, recognition would have gone on
      refine ⟨true, ?_, fun hstart => absurd (hstart.symm.trans hstop) (by decide)⟩
      simp only [List.cons_append, List.append_assoc, List.nil_append, List.append_nil]
      exact .ifThen hkeyword hopening hcondition hclosing hbody
  cases left with
  | nil => exact hthen rfl
  | cons otherwise left =>
    refine .ite (fun hkind => .widen (.map (.skip ?_))) fun hkind => hthen (by
      simpa [startsWith] using hkind)
    refine (reads_statement context left).imp ?_
    rintro es alternative _ _ ⟨dangling, halternative, helse⟩ bs ⟨_, hbody, hstop⟩ _ hcondition
    -- the first branch stopped before an `else`, so it is not dangling
    obtain rfl := hstop (by simp [startsWith, hkind])
    cases hcondition with
    | mk hopening hcondition hclosing =>
      refine ⟨dangling, ?_, helse⟩
      simp only [List.cons_append, List.append_assoc, List.nil_append]
      exact .ifElse hkeyword hopening hcondition hclosing hbody hkind halternative
termination_by ts.length * 4
decreasing_by all_goals grind

theorem reads_block (context : Context) (ts : List Token) :
    (block context ts).Reads context ts (Braced context) := by
  cases ts with
  | nil =>
    rw [block]
    exact .stop rfl rfl (show Unescaped "Expect '\x7d' after block" by decide)
  | cons token rest =>
    rw [block]
    refine .ite (fun hclosing => .clean [token] rfl ⟨[], token, rfl, hclosing, .noDeclarations⟩)
      fun _ => ?_
    -- a declaration in the block settles its own panic, so the block goes on behind it
    have hfirst := DeclarationReads.of_construct (reads_construct context token rest)
    have hbound := (declaration context token rest).bound
    obtain ⟨read, hread⟩ := hfirst.rest
    have htokens : token :: rest = token :: read ++ (declaration context token rest).rest := by
      rw [List.cons_append, hread]
    refine .widen (.after (.behind (token :: read) htokens (.map ?_)) hfirst.reports)
    refine (reads_block context (declaration context token rest).rest).imp ?_
    rintro _ body _ _ ⟨bs, closing, rfl, hclosing, hbody⟩ hnone
    obtain ⟨s, hs, hderives⟩ := hfirst.sound hnone
    rw [hs]
    exact ⟨token :: read ++ bs, closing, by simp, hclosing,
      .consDeclaration (hderives _ htokens) hbody⟩
termination_by ts.length * 4 + 3
decreasing_by all_goals grind

theorem reads_functionDeclaration (context : Context) (method : Bool) (ts : List Token) :
    (functionDeclaration context (if method then .method else .function) ts).Reads context ts
      fun read declaration _ =>
        DerivesStmt context.place (.function method) read (.function declaration) := by
  rw [functionDeclaration]
  refine (reads_functionHead context _ ts).andThen ?_
  rintro ⟨name, params⟩ rest h
  dsimp only
  refine .widen (.map (.within ((reads_block _ rest).imp ?_) ?_))
  · rintro _ body _ _ ⟨bs, finish, rfl, hfinish, hbody⟩ _ hhead
    rw [named_eq_bodyKind] at hbody
    cases hhead with
    | mk hname hopening hparams hclosing hstart =>
      simp only [List.cons_append, List.append_assoc, List.nil_append]
      exact .function hname hopening hparams hclosing hstart hbody hfinish
  · rfl
termination_by ts.length * 4
decreasing_by all_goals grind

theorem reads_classDeclaration (context : Context) {keyword : Token}
    (hkeyword : keyword.kind = .keyword .kwClass) (ts : List Token) :
    (classDeclaration context ts).Reads context ts fun read =>
      Declares context (keyword :: read) := by
  rw [classDeclaration]
  refine (reads_classHead context ts).andThen ?_
  rintro ⟨name, superclass⟩ rest h
  dsimp only
  refine .widen (.map (.within ((reads_methods _ rest).imp ?_) ?_))
  · rintro _ methods _ _ ⟨ms, closing, rfl, hclosing, hmethods⟩ _ hhead
    rw [enclosing_eq_classKind] at hmethods
    cases hhead with
    | mk hname hsuperclass hopening =>
      simp only [List.cons_append, List.append_assoc, List.nil_append]
      exact .classDecl hkeyword hname hsuperclass hopening hmethods hclosing
  · rfl
termination_by ts.length * 4
decreasing_by all_goals grind

theorem reads_methods (context : Context) (ts : List Token) :
    (methods context ts).Reads context ts (BracedMethods context) := by
  cases ts with
  | nil =>
    rw [methods]
    exact .stop rfl rfl (show Unescaped "Expect '\x7d' after class body" by decide)
  | cons token rest =>
    rw [methods]
    refine .ite (fun hclosing => .clean [token] rfl ⟨[], token, rfl, hclosing, .noMethods⟩)
      fun _ => ?_
    refine (reads_functionDeclaration context true (token :: rest)).andThen fun _ left h => ?_
    refine .widen (.map ((reads_methods context left).imp ?_))
    rintro _ methods _ _ ⟨ms, closing, rfl, hclosing, hmethods⟩ read hmethod
    exact ⟨read ++ ms, closing, by simp, hclosing, .consMethod hmethod hmethods⟩
termination_by ts.length * 4 + 1
decreasing_by all_goals grind

end

/-- A declaration reads its first token whatever happens. -/
theorem reads_declaration (context : Context) (token : Token) (ts : List Token) :
    DeclarationReads context token ts :=
  .of_construct (reads_construct context token ts)

/-- A declaration that gives up ends with a panic at some token, or at the end, and recognition goes
on where recovery from there leads. -/
theorem Declared.GivesUp.recovers {error : GrammarError}
    (h : (declaration context token ts).GivesUp error) :
    ∃ left, left <:+ token :: ts ∧ error.stops = true ∧ error.found = context.here left ∧
      (declaration context token ts).rest = recover left := by
  have hreads := reads_construct context token ts
  rw [declaration_eq_settle] at h ⊢
  generalize construct context token ts = outcome at h hreads ⊢
  cases hreads with
  | ok => cases h.1
  | @panic last left _ _ hleft hstops hfound _ _ =>
    obtain rfl : last = error := Option.some.inj (List.getLast?_concat.symm.trans h.2)
    exact ⟨left, hleft, hstops, hfound, rfl⟩

/-! ### Programs -/

theorem program_nil (context : Context) : program context [] = ⟨[], []⟩ := by
  rw [program]

theorem derives_of_program_errors_eq_nil (context : Context) (ts : List Token)
    (h : (program context ts).errors = []) :
    DerivesStmt context.place .declarations ts (.stmts (program context ts).program) := by
  cases ts with
  | nil =>
    rw [program_nil]
    exact .noDeclarations
  | cons token rest =>
    have hfirst := reads_declaration context token rest
    have hbound := (declaration context token rest).bound
    rw [program] at h ⊢
    obtain ⟨hnone, hothers⟩ := List.append_eq_nil_iff.mp h
    obtain ⟨s, hs, hderives⟩ := hfirst.sound hnone
    obtain ⟨read, hread⟩ := hfirst.rest
    have htokens : token :: rest = token :: read ++ (declaration context token rest).rest := by
      rw [List.cons_append, hread]
    rw [hs]
    nth_rewrite 1 [htokens]
    exact .consDeclaration (hderives _ htokens) (derives_of_program_errors_eq_nil context _ hothers)
termination_by ts.length
decreasing_by grind

/-- A program that is recognised without errors has a derivation. -/
theorem derivesProgram_of_recognise_eq {ending : Token} {p : Program}
    (h : recognise ts ending = ⟨p, []⟩) : DerivesProgram ts p := by
  have hderives := derives_of_program_errors_eq_nil { ending := ending.found } ts
    (congrArg Recognition.errors h)
  rw [show program { ending := ending.found } ts = ⟨p, []⟩ from h] at hderives
  exact hderives

end Treewalk.Grammar
