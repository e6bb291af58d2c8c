import Treewalk.Proofs.Grammar.Pulling
import Treewalk.Proofs.Grammar.StatementSoundness

/-!
# Parsing programs token by token

Statements, declarations and programs are parsed token by token as they are recognised on the list
of all tokens. A panic unwinds through the functions and classes around it, and the parser is
outside all of them again when it goes on.
-/

namespace Treewalk.Parser

open Grammar

variable {ending : Token} {last : TokenSource} {context : Context} {α β : Type} {m n : Nat}
  {x : ParseM α} {p : Parsed α n} {token : Token} {ts rest : List Token}

/-! ### Statements without parts -/

theorem pulls_expressionStatement {budget : Nat} (h : ts.length * 32 + 15 < budget) :
    Pulls ending last context (expressionStatement budget) ts
      (Grammar.expressionStatement context ts) :=
  .bind (pulls_assignment budget context ts h) fun _ _ _ => (Pulls.consume _ _).bind_pure.widen _

theorem pulls_printStatement {budget : Nat} (h : ts.length * 32 + 15 < budget) :
    Pulls ending last context (printStatement budget) ts (Grammar.printStatement context ts) :=
  .bind (pulls_assignment budget context ts h) fun _ _ _ => (Pulls.consume _ _).bind_pure.widen _

theorem pulls_optionalExpression {budget : Nat} (closing : TokenKind) (expectation : String)
    (h : ts.length * 32 + 15 < budget) :
    Pulls ending last context (optionalExpression budget closing expectation) ts
      (Grammar.optionalExpression context closing expectation ts) := by
  unfold optionalExpression Grammar.optionalExpression
  refine .unlessAt (fun hat => ?_) fun helse => ?_
  · rw [if_pos hat]
    exact (Pulls.consume _ _).bind_pure
  · rw [if_neg (Bool.not_eq_true _ ▸ helse), bind_map_left]
    exact .bind (pulls_assignment budget context ts h) fun _ _ _ =>
      (Pulls.consume _ _).bind_pure.widen _

theorem pulls_returnStatement {budget : Nat} (keyword : Token) (h : ts.length * 32 + 15 < budget) :
    Pulls ending last context (returnStatement budget keyword) ts
      (Grammar.returnStatement context keyword ts) := by
  refine .check (.surroundings fun s hfunction _ => ?_)
  rw [hfunction]
  exact .report (pulls_optionalExpression _ _ h).bind_pure _

theorem pulls_variableDeclaration {budget : Nat} (h : ts.length * 32 + 15 < budget) :
    Pulls ending last context (variableDeclaration budget) ts
      (Grammar.variableDeclaration context ts) := by
  refine .bind (.consume _ _) fun name rest hrest => ?_
  rw [initialValue, bind_assoc]
  cases rest with
  | nil =>
    refine .accept?_nil ?_
    simp only [pure_bind]
    exact (Pulls.consume _ _).bind_pure.widen _
  | cons token rest =>
    have hshorter : rest.length + 1 < ts.length := hrest
    refine .accept?_kind (fun hkind => ?_) fun hkind => ?_
    · simp only [if_neg hkind, pure_bind]
      exact (Pulls.consume _ _).bind_pure.widen _
    · simp only [if_pos hkind, bind_map_left]
      refine .widen (.bind (pulls_assignment budget context rest (by omega)) ?_) _
      exact fun _ _ _ => (Pulls.consume _ _).bind_pure.widen _

theorem pulls_parameterItems (budget : Nat) (count : Nat) (ts : List Token)
    (h : ts.length < budget) :
    Pulls ending last context (parameterItems budget count) ts
      (Grammar.parameterItems context count ts) := by
  induction budget generalizing count ts with
  | zero => omega
  | succ budget ih =>
    rw [parameterItems, Grammar.parameterItems]
    refine .reportBeyond (.bind (.consume _ _) fun name rest hrest => ?_) _ _
    cases rest with
    | nil => exact .accept?_nil (.pure _ _)
    | cons token rest =>
      have hshorter : rest.length + 1 < ts.length := hrest
      refine .accept?_kind (fun hkind => ?_) fun hkind => ?_
      · simp only [if_neg hkind]
        exact .pure _ _
      · simp only [if_pos hkind]
        exact (ih (count + 1) rest (by omega)).bind_pure.widen _

theorem pulls_parameters {budget : Nat} (h : ts.length < budget) :
    Pulls ending last context (parameters budget) ts (Grammar.parameters context ts) := by
  unfold parameters Grammar.parameters
  refine .unlessAt (fun hat => ?_) fun helse => ?_
  · rw [if_pos hat]
    exact (Pulls.consume _ _).bind_pure
  · rw [if_neg (Bool.not_eq_true _ ▸ helse)]
    exact .bind (pulls_parameterItems budget 0 ts h) fun _ _ _ =>
      (Pulls.consume _ _).bind_pure.widen _

theorem pulls_functionHead {budget : Nat} (kind : FunctionKind) (h : ts.length < budget) :
    Pulls ending last context (functionHead budget kind) ts
      (Grammar.functionHead context kind ts) := by
  refine .bind (.consume _ _) fun name rest hname => .widen (.bind (.consume _ _) ?_) _
  intro _ rest hparen
  refine .widen (.bind (pulls_parameters (by omega)) fun names rest _ => ?_) _
  exact (Pulls.consume _ _).bind_pure.widen _

theorem pulls_superclassClause (name : Token) :
    Pulls ending last context (superclassClause name) ts
      (Grammar.superclassClause context name ts) := by
  unfold superclassClause Grammar.superclassClause
  cases ts with
  | nil => exact .accept?_nil (.pure _ _)
  | cons token rest =>
    refine .accept?_kind (fun hkind => ?_) fun hkind => ?_
    · simp only [if_neg hkind]
      exact .pure _ _
    · simp only [if_pos hkind]
      exact .widen (.bind (.consume _ _) fun _ _ _ => .report_pure _ _ _) _

theorem pulls_classHead :
    Pulls ending last context classHead ts (Grammar.classHead context ts) := by
  refine .bind (.consume _ _) fun name rest _ => .widen (.bind (pulls_superclassClause name) ?_) _
  exact fun _ _ _ => (Pulls.consume _ _).bind_pure.widen _

theorem pulls_loopInitializer {budget : Nat} (h : ts.length * 32 + 15 < budget) :
    Pulls ending last context (loopInitializer budget) ts
      (Grammar.loopInitializer context ts) := by
  unfold loopInitializer Grammar.loopInitializer
  cases ts with
  | nil => exact .accept?_nil (.accept?_nil (pulls_expressionStatement h).map)
  | cons token rest =>
    have hrest : rest.length * 32 + 15 < budget := by rw [List.length_cons] at h; omega
    refine .accept?_kind (fun hsemicolon => ?_) fun hsemicolon => ?_
    · simp only [if_neg hsemicolon]
      refine .accept?_kind (fun hvar => ?_) fun hvar => ?_
      · rw [if_neg hvar]
        exact (pulls_expressionStatement h).map
      · rw [if_pos hvar]
        exact (pulls_variableDeclaration hrest).map.widen _
    · simp only [if_pos hsemicolon]
      exact .pure _ _

theorem pulls_loopClauses {budget : Nat} (h : ts.length * 32 + 15 < budget) :
    Pulls ending last context (loopClauses budget) ts (Grammar.loopClauses context ts) := by
  refine .bind (.consume _ _) fun _ rest hparen => ?_
  refine .widen (.bind (pulls_loopInitializer (by omega)) fun initializer rest hinit => ?_) _
  refine .widen (.bind (pulls_optionalExpression _ _ (by omega)) fun condition rest hcond => ?_) _
  exact (pulls_optionalExpression _ _ (by omega)).bind_pure.widen _

theorem pulls_condition {budget : Nat} (opening closing : String)
    (h : ts.length * 32 + 15 < budget) :
    Pulls ending last context (condition budget opening closing) ts
      (Grammar.condition context opening closing ts) := by
  refine .bind (.consume _ _) fun _ rest hparen => ?_
  refine .widen (.bind (pulls_assignment budget context rest (by omega)) fun _ _ _ => ?_) _
  exact (Pulls.consume _ _).bind_pure.widen _

/-! ### Functions and classes -/

/-- Inside a function the parser is in the context of the function, and afterwards in the context
where it was. -/
theorem Pulls.withFunctionKind {kind : FunctionKind}
    (hx : Pulls ending last { context with function := kind } x ts p) :
    Pulls ending last context (Parser.withFunctionKind kind x) ts p := by
  intro s hs
  have hinside := hx { s with functionKind := kind }
    ⟨hs.tokens, hs.ended, hs.inside, hs.found, rfl, hs.enclosing⟩
  unfold Parser.withFunctionKind
  generalize x { s with functionKind := kind } = r at hinside ⊢
  -- either way out, the kind is set back to the one of `s`
  cases hinside with
  | ok hq herrors =>
    exact .ok ⟨hq.tokens, hq.ended, hq.inside, hq.found, hs.function, hq.enclosing⟩ herrors
  | panic hq herrors =>
    exact .panic ⟨hq.tokens, hq.ended, hq.inside, hq.found, hs.function, hq.enclosing⟩ herrors

theorem Pulls.withClassKind {kind : ClassKind}
    (hx : Pulls ending last { context with enclosing := kind } x ts p) :
    Pulls ending last context (Parser.withClassKind kind x) ts p := by
  intro s hs
  have hinside := hx { s with classKind := kind }
    ⟨hs.tokens, hs.ended, hs.inside, hs.found, hs.function, rfl⟩
  unfold Parser.withClassKind
  generalize x { s with classKind := kind } = r at hinside ⊢
  cases hinside with
  | ok hq herrors =>
    exact .ok ⟨hq.tokens, hq.ended, hq.inside, hq.found, hq.function, hs.enclosing⟩ herrors
  | panic hq herrors =>
    exact .panic ⟨hq.tokens, hq.ended, hq.inside, hq.found, hq.function, hs.enclosing⟩ herrors

/-- Taking a token does not look at the kind of class. -/
theorem consume_setClass (kind : TokenKind) (expectation : String) (cls : ClassKind) (s : Parser) :
    consume kind expectation { s with classKind := cls } =
      finishing ({ · with classKind := cls }) (consume kind expectation s) := by
  have hopen : ∀ s : Parser, consume kind expectation s = if s.isAt kind then advance s
      else .error (.panic (.expectedToken s.current.found expectation)) s := by
    intro s
    change (if s.isAt kind = true then _ else _ : ParseM _) s = _
    split <;> rfl
  rw [hopen, hopen]
  change (if s.isAt kind = true then _ else _) = _
  split
  · unfold advance
    change (if s.isAtEnd = true then _ else _) = _
    split
    · rfl
    · cases hnext : s.source.next with
      | mk token? source => cases token? <;> rfl
  · rfl

/-- It makes no difference whether the kind of class is set back before or after a token is
taken. -/
theorem withClassKind_bind_consume {cls : ClassKind} {kind : TokenKind} {expectation : String}
    {f : α → β} :
    (withClassKind cls x >>= fun value => consume kind expectation >>= fun _ => pure (f value)) =
      withClassKind cls (x >>= fun value => consume kind expectation >>= fun _ =>
        pure (f value)) := by
  funext s
  change EStateM.bind (withClassKind cls x) _ s =
    finishing _ (EStateM.bind x _ { s with classKind := cls })
  unfold EStateM.bind withClassKind
  cases x { s with classKind := cls } with
  -- after an interruption no token is taken
  | error interruption q => rfl
  | ok value q =>
    change EStateM.bind (consume kind expectation) _ { q with classKind := s.classKind } =
      finishing _ (EStateM.bind (consume kind expectation) _ q)
    unfold EStateM.bind
    rw [consume_setClass]
    cases consume kind expectation q <;> rfl

/-! ### Recovery -/

/-- A declaration, recognised or given up, leaves the parser where recognition goes on. -/
def Settles (ending : Token) (last : TokenSource) (context : Context) (x : ParseM (Option Stmt))
    (ts : List Token) (d : Declared n) : Prop :=
  ∀ s : Parser, s.Stands ending last context ts → ∃ q, x s = .ok d.stmt? q ∧
    q.Stands ending last context d.rest ∧ q.errors = s.errors ++ d.reports

theorem Stands.skip {budget : Nat} {dropped : Token} {s : Parser}
    (hs : s.Stands ending last context ts) (hdropped : s.previous = dropped)
    (h : ts.length < budget) :
    ∃ q, Parser.skip budget s = .ok () q ∧ q.Stands ending last context (resume dropped ts) ∧
      q.errors = s.errors := by
  induction ts generalizing budget dropped s with
  | nil =>
    cases budget with
    | zero => omega
    | succ budget =>
      refine ⟨s, ?_, hs, rfl⟩
      simp [Parser.skip, atBoundary, bind, EStateM.bind, hs.isAtEnd_nil, pure, EStateM.pure]
  | cons token rest ih =>
    cases budget with
    | zero => omega
    | succ budget =>
      rw [resume]
      by_cases hstop : dropped.kind = .semicolon ∨ beginsStatement token = true
      · rw [if_pos hstop]
        refine ⟨s, ?_, hs, rfl⟩
        simp [Parser.skip, atBoundary, bind, EStateM.bind, hs.isAtEnd_cons, hs.current_cons,
          hdropped, hstop, pure, EStateM.pure]
      · obtain ⟨later, hadvance, hlater, hprevious, herrors⟩ := hs.advance_cons
        obtain ⟨q, hskip, hq, hsame⟩ := ih hlater hprevious (Nat.lt_of_succ_lt_succ h)
        rw [if_neg hstop]
        refine ⟨q, ?_, hq, hsame.trans herrors⟩
        simp [Parser.skip, atBoundary, bind, EStateM.bind, hs.isAtEnd_cons, hs.current_cons,
          hdropped, hstop, hadvance, hskip]

theorem Stands.synchronize {budget : Nat} {s : Parser} (hs : s.Stands ending last context ts)
    (h : ts.length ≤ budget) (hpos : 0 < budget) :
    ∃ q, Parser.synchronize budget s = .ok () q ∧ q.Stands ending last context (recover ts) ∧
      q.errors = s.errors := by
  change ∃ q, EStateM.bind advance _ s = _ ∧ _
  cases ts with
  | nil =>
    -- the end is never taken, so the parser stays where it is
    have hadvance : advance s = .ok s.previous s := by rw [advance, hs.isAtEnd_nil]; rfl
    rw [EStateM.bind, hadvance]
    exact hs.skip rfl hpos
  | cons token rest =>
    obtain ⟨later, hadvance, hlater, hprevious, herrors⟩ := hs.advance_cons
    rw [EStateM.bind, hadvance, ← herrors]
    exact hlater.skip hprevious h

theorem Pulls.settling {x : ParseM Stmt} {p : Parsed Stmt (n + 1)} {budget : Nat}
    (hx : Pulls ending last context x ts p) (h : n < budget) :
    Settles ending last context (Parser.settling budget x) ts (Declared.settle p) := by
  intro s hs
  have hfirst := hx s hs
  unfold Parser.settling
  generalize x s = r at hfirst ⊢
  cases hfirst with
  | ok hq herrors => exact ⟨_, rfl, hq, herrors⟩
  | @panic error q rest reports bound hq herrors =>
    obtain ⟨later, hsync, hlater, hsame⟩ :=
      (hq.report [error]).synchronize (Nat.le_trans bound h) (Nat.zero_lt_of_lt h)
    refine ⟨later, ?_, hlater, ?_⟩
    · simp only [Parser.report, Bind.bind, EStateM.bind, hsync, Pure.pure, EStateM.pure]
      rfl
    · rw [hsame, herrors, Declared.settle, List.append_assoc]

theorem Settles.bind {y : ParseM (Option Stmt)} {d : Declared m} {f : Option Stmt → ParseM α}
    (hy : Settles ending last context y ts d)
    (hf : Pulls ending last context (f d.stmt?) d.rest p) :
    Pulls ending last context (y >>= f) ts (p.after d.reports) := by
  intro s hs
  obtain ⟨q, hsettled, hq, herrors⟩ := hy s hs
  change Follows _ _ _ _ (EStateM.bind y f s) _
  rw [EStateM.bind, hsettled]
  exact (herrors ▸ hf q hq).after

/-! ### Declarations -/

/-- Where the body of a block or class ends, said of the list. -/
theorem Pulls.bodyEnds_nil {f : Bool → ParseM α} (hf : Pulls ending last context (f true) [] p) :
    Pulls ending last context (Parser.bodyEnds >>= f) [] p :=
  .step (fun s hs => ⟨s, by rw [Parser.bodyEnds, hs.isAtEnd_nil, Bool.or_true], hs, rfl⟩) hf

theorem Pulls.bodyEnds_cons {f : Bool → ParseM α}
    (hbrace : token.kind = .rightBrace → Pulls ending last context (f true) (token :: rest) p)
    (hother : token.kind ≠ .rightBrace → Pulls ending last context (f false) (token :: rest) p) :
    Pulls ending last context (Parser.bodyEnds >>= f) (token :: rest) p := by
  by_cases h : token.kind = .rightBrace
  · refine .step (fun s hs => ⟨s, ?_, hs, rfl⟩) (hbrace h)
    rw [Parser.bodyEnds, hs.isAt_eq, startsWith, beq_iff_eq.mpr h, Bool.true_or]
  · refine .step (fun s hs => ⟨s, ?_, hs, rfl⟩) (hother h)
    rw [Parser.bodyEnds, hs.isAt_eq, startsWith, beq_eq_false_iff_ne.mpr h, hs.isAtEnd_cons,
      Bool.or_false]

mutual

/-- A declaration is settled as on a list. -/
theorem settles_declaration (budget : Nat) (context : Context) (token : Token) (ts : List Token)
    (h : (ts.length + 1) * 32 + 17 < budget) :
    Settles ending last context (declaration budget) (token :: ts)
      (Grammar.declaration context token ts) := by
  cases budget with
  | zero => omega
  | succ budget =>
    rw [declaration, declaration_eq_settle]
    refine Pulls.settling (.peek_cons ?_) (by omega)
    rw [construct]
    have hstatement := pulls_statement budget context (token :: ts)
      (by rw [List.length_cons]; omega)
    generalize token.kind = kind
    cases kind with
    | keyword keyword =>
      cases keyword with
      | kwClass =>
        exact .advance ((pulls_classDeclaration budget context ts (by omega)).widen _)
      | kwFun =>
        exact .advance
          ((pulls_functionDeclaration budget context .function ts (by omega)).map.widen _)
      | kwVar => exact .advance ((pulls_variableDeclaration (by omega)).widen _)
      | _ => exact hstatement
    | _ => exact hstatement
termination_by budget

theorem pulls_statement (budget : Nat) (context : Context) (ts : List Token)
    (h : ts.length * 32 + 16 < budget) :
    Pulls ending last context (statement budget) ts (Grammar.statement context ts) := by
  cases budget with
  | zero => omega
  | succ budget =>
    have hexpression : Pulls ending last context (expressionStatement budget) ts
        (Grammar.expressionStatement context ts) := pulls_expressionStatement (by omega)
    rw [statement, Grammar.statement.eq_def]
    cases ts with
    | nil =>
      refine .peek_nil fun hkind _ => ?_
      simp only [hkind]
      exact hexpression
    | cons token rest =>
      rw [List.length_cons] at h
      refine .peek_cons ?_
      simp only
      generalize token.kind = kind
      cases kind with
      | leftBrace => exact .advance ((pulls_block budget context rest (by omega)).map.widen _)
      | keyword keyword =>
        cases keyword with
        | kwFor =>
          refine .advance (.widen (.bind (pulls_loopClauses (by omega)) ?_) _)
          exact fun _ rest _ => (pulls_statement budget context rest (by omega)).map.widen _
        | kwIf => exact .advance ((pulls_ifStatement budget context rest (by omega)).widen _)
        | kwPrint => exact .advance ((pulls_printStatement (by omega)).widen _)
        | kwReturn => exact .advance ((pulls_returnStatement token (by omega)).widen _)
        | kwWhile =>
          refine .advance (.widen (.bind (pulls_condition _ _ (by omega)) ?_) _)
          exact fun _ rest _ => (pulls_statement budget context rest (by omega)).map.widen _
        | _ => exact hexpression
      | _ => exact hexpression
termination_by budget

theorem pulls_ifStatement (budget : Nat) (context : Context) (ts : List Token)
    (h : ts.length * 32 + 16 < budget) :
    Pulls ending last context (ifStatement budget) ts (Grammar.ifStatement context ts) := by
  cases budget with
  | zero => omega
  | succ budget =>
    rw [ifStatement, Grammar.ifStatement]
    refine .bind (pulls_condition _ _ (by omega)) fun test rest htest => ?_
    refine .widen (.bind (pulls_statement budget context rest (by omega)) ?_) _
    intro body after hbody
    cases after with
    | nil => exact .accept?_nil (.pure _ _)
    | cons token after =>
      have hshorter : after.length + 1 < rest.length := hbody
      refine .accept?_kind (fun hkind => ?_) fun hkind => ?_
      · simp only [if_neg hkind]
        exact .pure _ _
      · simp only [if_pos hkind]
        exact (pulls_statement budget context after (by omega)).map.widen _
termination_by budget

theorem pulls_block (budget : Nat) (context : Context) (ts : List Token)
    (h : ts.length * 32 + 18 < budget) :
    Pulls ending last context (block budget) ts (Grammar.block context ts) := by
  cases budget with
  | zero => omega
  | succ budget =>
    rw [block, Grammar.block.eq_def]
    cases ts with
    | nil => exact .bodyEnds_nil (Pulls.consume _ _).bind_pure
    | cons token rest =>
      rw [List.length_cons] at h
      refine .bodyEnds_cons (fun hkind => ?_) fun hkind => ?_
      · simp only [if_pos hkind]
        exact (Pulls.consume_of_kind hkind _).bind_pure
      · have hbound := (Grammar.declaration context token rest).bound
        simp only [if_neg hkind]
        refine .widen ((settles_declaration budget context token rest (by omega)).bind ?_) _
        exact (pulls_block budget context _ (by omega)).bind_pure
termination_by budget

theorem pulls_functionDeclaration (budget : Nat) (context : Context) (kind : FunctionKind)
    (ts : List Token) (h : ts.length * 32 + 17 < budget) :
    Pulls ending last context (functionDeclaration budget kind) ts
      (Grammar.functionDeclaration context kind ts) := by
  cases budget with
  | zero => omega
  | succ budget =>
    rw [functionDeclaration, Grammar.functionDeclaration]
    refine .bind (pulls_functionHead kind (by omega)) fun head rest hrest => ?_
    exact (Pulls.withFunctionKind (pulls_block budget _ rest (by omega))).bind_pure.widen _
termination_by budget

theorem pulls_classDeclaration (budget : Nat) (context : Context) (ts : List Token)
    (h : ts.length * 32 + 17 < budget) :
    Pulls ending last context (classDeclaration budget) ts
      (Grammar.classDeclaration context ts) := by
  cases budget with
  | zero => omega
  | succ budget =>
    rw [classDeclaration, Grammar.classDeclaration]
    refine .bind pulls_classHead fun head rest hrest => ?_
    obtain ⟨name, superclass⟩ := head
    -- recognition takes the closing brace with the methods, where the class is not left yet
    have hclass := Pulls.withClassKind (pulls_methods budget
      { context with enclosing := if superclass.isSome then .subclass else .plain } rest (by omega))
    rw [← withClassKind_bind_consume] at hclass
    have hstmt := hclass.bind_pure (f := Stmt.classDecl name.lexeme superclass)
    simp only [bind_assoc, pure_bind] at hstmt
    exact hstmt.widen _
termination_by budget

theorem pulls_methods (budget : Nat) (context : Context) (ts : List Token)
    (h : ts.length * 32 + 18 < budget) :
    Pulls ending last context
      (methods budget >>= fun items =>
        consume .rightBrace "Expect '\x7d' after class body" >>= fun _ => pure items) ts
      (Grammar.methods context ts) := by
  cases budget with
  | zero => omega
  | succ budget =>
    rw [methods, Grammar.methods.eq_def, bind_assoc]
    cases ts with
    | nil => exact .bodyEnds_nil (Pulls.consume _ _).bind_pure
    | cons token rest =>
      rw [List.length_cons] at h
      refine .bodyEnds_cons (fun hkind => ?_) fun hkind => ?_
      · simp only [if_pos hkind]
        exact (Pulls.consume_of_kind hkind _).bind_pure
      · have hmethod := pulls_functionDeclaration budget context .method (token :: rest)
          (by rw [List.length_cons]; omega)
        simp only [if_neg hkind, Bool.false_eq_true, if_false, bind_assoc, pure_bind]
        refine .bind hmethod fun method later hlater => ?_
        rw [List.length_cons] at hlater
        have hothers :=
          (pulls_methods budget context later (by omega)).bind_pure (f := (method :: ·))
        simp only [bind_assoc, pure_bind] at hothers
        exact hothers.widen _
termination_by budget

end

end Treewalk.Parser
