import Treewalk.Proofs.Grammar.ExpressionSoundness
import Treewalk.Proofs.Grammar.Follow
import Treewalk.Proofs.Grammar.Violations

/-!
# Violations in expressions

Tokens with a loose derivation as an expression are recognised, with the tree of the derivation,
and what is reported is exactly its violations. Reports come in the order in which recognition
notices things, which is not that of the text: an argument is counted before it is read, and a
wrong target is noticed after the value that follows it. So they are compared up to order.

What recognition does with the tokens of a nonterminal and what follows them is said by
`Loose.Completes`, and each rule of the grammar preserves it. What may follow depends on the
nonterminal: an operand must not be followed by an operator of a tighter level, and a callee may be
followed by anything.
-/

namespace Treewalk.Grammar

namespace Parsed

variable {α β γ : Type} {m n : Nat} {a value : α} {middle rest : List Token}
  {vs ws : List Violation}

/-- Success that reports some violations, in any order. -/
def Finds (p : Parsed α n) (value : α) (rest : List Token) (vs : List Violation) : Prop :=
  ∃ reports bound, p = .ok value rest reports bound ∧ reports.Perm (vs.map Violation.error)

theorem finds_ok {reports : List GrammarError} {bound : rest.length < n}
    (h : reports = vs.map Violation.error) :
    (ok value rest reports bound).Finds value rest vs :=
  ⟨reports, bound, rfl, .of_eq h⟩

namespace Finds

theorem perm {p : Parsed α n} (h : p.Finds value rest vs) (hperm : vs.Perm ws) :
    p.Finds value rest ws := by
  obtain ⟨reports, bound, heq, hreports⟩ := h
  exact ⟨reports, bound, heq, hreports.trans (hperm.map _)⟩

theorem widen {p : Parsed α m} (h : p.Finds value rest vs) {hle : m ≤ n} :
    (p.widen hle).Finds value rest vs := by
  obtain ⟨reports, bound, rfl, hreports⟩ := h
  exact ⟨reports, _, rfl, hreports⟩

theorem map {p : Parsed α n} (h : p.Finds value rest vs) (f : α → β) :
    (p.map f).Finds (f value) rest vs := by
  obtain ⟨reports, bound, rfl, hreports⟩ := h
  exact ⟨reports, bound, rfl, hreports⟩

theorem after {p : Parsed α n} {earlier : List GrammarError} (h : p.Finds value rest ws)
    (hearlier : earlier.Perm (vs.map Violation.error)) :
    (p.after earlier).Finds value rest (vs ++ ws) := by
  obtain ⟨reports, bound, rfl, hreports⟩ := h
  refine ⟨earlier ++ reports, bound, rfl, ?_⟩
  rw [List.map_append]
  exact hearlier.append hreports

/-- Nothing is found but what was found before. -/
theorem after_clean {p : Parsed α n} {earlier : List GrammarError} (h : p.Finds value rest [])
    (hearlier : earlier = vs.map Violation.error) : (p.after earlier).Finds value rest vs := by
  rw [← List.append_nil vs]
  exact h.after (.of_eq hearlier)

theorem andThen {p : Parsed α n} {f : α → (rest : List Token) → rest.length < n → Parsed β n}
    {value : β} (h : p.Finds a middle vs)
    (hf : ∀ bound, (f a middle bound).Finds value rest ws) :
    (p.andThen f).Finds value rest (vs ++ ws) := by
  obtain ⟨reports, bound, rfl, hreports⟩ := h
  exact (hf bound).after hreports

/-- Nothing more is found in what follows. -/
theorem andThen_clean {p : Parsed α n}
    {f : α → (rest : List Token) → rest.length < n → Parsed β n} {value : β}
    (h : p.Finds a middle vs) (hf : ∀ bound, (f a middle bound).Finds value rest []) :
    (p.andThen f).Finds value rest vs := by
  rw [← List.append_nil vs]
  exact h.andThen hf

/-- A construct followed by another one. -/
theorem followed {p : Parsed α n} {q : α → (middle : List Token) → Parsed β middle.length}
    {f : α → β → γ} {b : β} (h : p.Finds a middle vs) (hq : (q a middle).Finds b rest ws) :
    (p.andThen fun a middle h => ((q a middle).map (f a)).widen (Nat.le_of_lt h)).Finds
      (f a b) rest (vs ++ ws) :=
  h.andThen fun _ => (hq.map _).widen

end Finds

end Parsed

open Parsed

theorem expect_finds {context : Context} {kind : TokenKind} {expectation : String} {token : Token}
    {rest : List Token} (hkind : token.kind = kind) :
    (expect context kind expectation (token :: rest)).Finds token rest [] := by
  rw [expect, if_pos hkind]
  exact finds_ok rfl

/-- A construct followed by one token of a given kind. -/
theorem Parsed.Finds.closed {α β : Type} {n : Nat} {context : Context} {kind : TokenKind}
    {expectation : String} {p : Parsed α n} {f : α → Token → β} {a : α} {token : Token}
    {rest : List Token} {vs : List Violation} (h : p.Finds a (token :: rest) vs)
    (hkind : token.kind = kind) :
    (p.andThen fun a middle h =>
      ((expect context kind expectation middle).map (f a)).widen (Nat.le_of_lt h)).Finds
        (f a token) rest vs :=
  h.andThen_clean fun _ => ((expect_finds hkind).map _).widen

/-- One token of a given kind followed by a construct. -/
theorem finds_opened {β : Type} {context : Context} {kind : TokenKind} {expectation : String}
    {token : Token} {others rest : List Token} {value : β} {vs : List Violation}
    {f : Token → (rest : List Token) → rest.length < (token :: others).length →
      Parsed β (token :: others).length}
    (hkind : token.kind = kind) (h : ∀ bound, (f token others bound).Finds value rest vs) :
    ((expect context kind expectation (token :: others)).andThen f).Finds value rest vs :=
  (expect_finds hkind).andThen h

/-! ### Reports and violations -/

namespace Violation

variable {p : Prop} [Decidable p] {v : Violation}

theorem breach_of (h : p) : breach p v = [v] :=
  if_pos h

theorem breach_of_not (h : ¬ p) : breach p v = [] :=
  if_neg h

end Violation

open Violation

theorem misplaced_thisMisuse? (enclosing : ClassKind) (keyword : Token) :
    misplaced keyword (thisMisuse? enclosing) =
      (breach (enclosing = .none) (.strayThis keyword)).map Violation.error := by
  cases enclosing <;> rfl

theorem misplaced_superMisuse? (enclosing : ClassKind) (keyword : Token) :
    misplaced keyword (superMisuse? enclosing) =
      (breach (enclosing = .none) (.straySuper keyword) ++
        breach (enclosing = .plain) (.superlessSuper keyword)).map Violation.error := by
  cases enclosing <;> rfl

/-- An item behind as many others as the limit is reported. -/
theorem beyondLimit_eq_breach {report : Found → GrammarError} {v : Violation} {first : Token}
    (hv : v.error = report first.found) (context : Context) (count : Nat) (others : List Token) :
    beyondLimit report context count (first :: others) =
      (breach (255 ≤ count) v).map Violation.error := by
  unfold beyondLimit breach
  split <;> simp_all [maxArguments, Context.here]

/-- The items beyond the limit, when `count` items stand before the list. -/
theorem map_drop_cons {α : Type} (f : α → Violation) (count : Nat) (item : α) (items : List α) :
    ((item :: items).drop (255 - count)).map f =
      breach (255 ≤ count) (f item) ++ (items.drop (255 - (count + 1))).map f := by
  by_cases hcount : 255 ≤ count
  · have hzero : 255 - count = 0 := by omega
    have hzero' : 255 - (count + 1) = 0 := by omega
    rw [breach_of hcount, hzero, hzero']
    rfl
  · have hsucc : 255 - count = 255 - (count + 1) + 1 := by omega
    rw [breach_of_not hcount, hsucc, List.drop_succ_cons]
    rfl

/-! ### Outcomes of recognition -/

section Outcomes

variable {context : Context} {level : Precedence} {ts middle others rest : List Token}
  {e : Expr} {token : Token} {vs ws us : List Violation}

theorem assignment_finds (h : (binary context .disjunction ts).Finds e rest vs)
    (hstop : startsWith .equal rest = false) : (assignment context ts).Finds e rest vs := by
  rw [assignment]
  refine h.andThen_clean fun bound => ?_
  cases rest with
  | nil => exact finds_ok rfl
  | cons token others =>
    have hequals : token.kind ≠ .equal := by simpa [startsWith] using hstop
    dsimp only
    rw [if_neg hequals]
    exact finds_ok rfl

/-- The target is judged when the value has been read: either the two make an assignment, or the
target alone is kept. -/
theorem assignment_finds_of_equal {equals : Token} {target value : Expr}
    (htarget : (binary context .disjunction ts).Finds target (equals :: others) vs)
    (hequals : equals.kind = .equal) (hvalue : (assignment context others).Finds value rest ws) :
    (assignment context ts).Finds ((assignTo? target value).getD target) rest
      (vs ++ (breach (assignTo? target value = none) (.wrongTarget equals) ++ ws)) := by
  rw [assignment]
  refine htarget.andThen fun bound => ?_
  dsimp only
  rw [if_pos hequals]
  -- so the report on the target comes behind those on the value
  refine (hvalue.widen.andThen fun bound' => ?_).perm List.perm_append_comm
  cases assignTo? target value with
  | none => exact finds_ok rfl
  | some assigned => exact finds_ok rfl

/-- No operator of a level comes next. -/
theorem binaryTail_finds_of_quiet (h : Quiet level.rank rest) :
    (binaryTail context level e rest).Finds e rest [] := by
  cases rest with
  | nil =>
    rw [binaryTail]
    exact finds_ok rfl
  | cons token rest =>
    rw [binaryTail, (h token rfl).2.2 level (Nat.le_refl _)]
    exact finds_ok rfl

/-- Neither a call nor a property comes next. -/
theorem callTail_finds_of_quiet (h : Quiet 0 rest) :
    (callTail context e rest).Finds e rest [] := by
  cases rest with
  | nil =>
    rw [callTail]
    exact finds_ok rfl
  | cons token rest =>
    obtain ⟨hopening, hdot, _⟩ := h token rfl
    rw [callTail, if_neg hopening, if_neg hdot]
    exact finds_ok rfl

theorem binary_finds {left : Expr} (hleft : (operand context level ts).Finds left middle vs)
    (htail : (binaryTail context level left middle).Finds e rest ws) :
    (binary context level ts).Finds e rest (vs ++ ws) := by
  rw [binary]
  exact hleft.andThen fun _ => htail.widen

theorem binaryTail_finds_join {join : Expr → Expr → Expr} {left right : Expr}
    (hjoin : level.join? token = some join)
    (hright : (operand context level others).Finds right middle vs)
    (htail : (binaryTail context level (join left right) middle).Finds e rest ws) :
    (binaryTail context level left (token :: others)).Finds e rest (vs ++ ws) := by
  rw [binaryTail]
  simp only [hjoin]
  exact (hright.andThen fun _ => htail.widen).widen

theorem unary_finds_prefixed {op : UnaryOp} (hop : unaryOp? token = some op)
    (h : (unary context others).Finds e rest vs) :
    (unary context (token :: others)).Finds (.unary op e token.anchor) rest vs := by
  rw [unary]
  simp only [hop]
  exact (h.map _).widen

theorem unary_finds_call (hop : unaryOp? token = none)
    (h : (call context (token :: others)).Finds e rest vs) :
    (unary context (token :: others)).Finds e rest vs := by
  rw [unary]
  simp only [hop]
  exact h

theorem call_finds {callee : Expr} (hcallee : (atom context ts).Finds callee middle vs)
    (htail : (callTail context callee middle).Finds e rest ws) :
    (call context ts).Finds e rest (vs ++ ws) := by
  rw [call]
  exact hcallee.andThen fun _ => htail.widen

theorem callTail_finds_arguments {callee : Expr} {items : List Expr} {closing : Token}
    (hopening : token.kind = .leftParen)
    (hitems : (arguments context others).Finds (items, closing) middle vs)
    (htail : (callTail context (.call callee items closing.anchor) middle).Finds e rest ws) :
    (callTail context callee (token :: others)).Finds e rest (vs ++ ws) := by
  rw [callTail, if_pos hopening]
  exact (hitems.andThen fun _ => htail.widen).widen

theorem callTail_finds_property {callee : Expr} {name : Token} (hdot : token.kind = .dot)
    (hname : name.kind = .identifier)
    (htail : (callTail context (.get callee name.lexeme name.anchor) others).Finds e rest vs) :
    (callTail context callee (token :: name :: others)).Finds e rest vs := by
  have hopening : token.kind ≠ .leftParen := by simp [hdot]
  rw [callTail, if_neg hopening, if_pos hdot]
  exact (finds_opened hname fun _ => htail.widen).widen

theorem arguments_finds {items : List Expr} {closing : Token}
    (hstart : startsWith .rightParen ts = false)
    (hitems : (argumentItems context 0 ts).Finds items (closing :: rest) vs)
    (hclosing : closing.kind = .rightParen) :
    (arguments context ts).Finds (items, closing) rest vs := by
  cases ts with
  | nil =>
    obtain ⟨_, bound, _⟩ := hitems
    exact absurd bound (Nat.not_lt_zero _)
  | cons token others =>
    have htoken : token.kind ≠ .rightParen := by simpa [startsWith] using hstart
    rw [arguments, if_neg htoken]
    exact hitems.closed hclosing

theorem argumentItems_finds_last {count : Nat} (hitem : (assignment context ts).Finds e rest vs)
    (hstop : startsWith .comma rest = false)
    (hbeyond : beyondLimit .tooManyArguments context count ts = us.map Violation.error) :
    (argumentItems context count ts).Finds [e] rest (us ++ vs) := by
  rw [argumentItems]
  refine (hitem.andThen_clean fun bound => ?_).after (.of_eq hbeyond)
  cases rest with
  | nil => exact finds_ok rfl
  | cons token others =>
    have hcomma : token.kind ≠ .comma := by simpa [startsWith] using hstop
    dsimp only
    rw [if_neg hcomma]
    exact finds_ok rfl

theorem argumentItems_finds_cons {count : Nat} {comma : Token} {items : List Expr}
    (hitem : (assignment context ts).Finds e (comma :: others) vs) (hcomma : comma.kind = .comma)
    (hitems : (argumentItems context (count + 1) others).Finds items rest ws)
    (hbeyond : beyondLimit .tooManyArguments context count ts = us.map Violation.error) :
    (argumentItems context count ts).Finds (e :: items) rest (us ++ (vs ++ ws)) := by
  rw [argumentItems]
  refine (hitem.andThen fun bound => ?_).after (.of_eq hbeyond)
  dsimp only
  rw [if_pos hcomma]
  exact (hitems.map _).widen

theorem atom_finds_variable (hname : token.kind = .identifier) :
    (atom context (token :: rest)).Finds (.variable token.reference) rest [] := by
  have hliteral : literal? token = none := by simp [literal?, hname]
  rw [atom]
  simp only [hliteral, hname]
  exact finds_ok rfl

theorem atom_finds_this (hkeyword : token.kind = .keyword .kwThis) :
    (atom context (token :: rest)).Finds (.this token.anchor .global) rest
      (breach (context.enclosing = .none) (.strayThis token)) := by
  have hliteral : literal? token = none := by simp [literal?, hkeyword]
  rw [atom]
  simp only [hliteral, hkeyword]
  exact finds_ok (misplaced_thisMisuse? _ _)

theorem atom_finds_super {dot method : Token} (hkeyword : token.kind = .keyword .kwSuper)
    (hdot : dot.kind = .dot) (hmethod : method.kind = .identifier) :
    (atom context (token :: dot :: method :: rest)).Finds
      (.super method.lexeme token.anchor .global) rest
      (breach (context.enclosing = .none) (.straySuper token) ++
        breach (context.enclosing = .plain) (.superlessSuper token)) := by
  have hliteral : literal? token = none := by simp [literal?, hkeyword]
  rw [atom]
  simp only [hliteral, hkeyword]
  rw [superAccess]
  refine ((finds_opened hdot fun _ => ?_).after_clean (misplaced_superMisuse? _ _)).widen
  exact ((expect_finds hmethod).map _).widen

theorem atom_finds_grouping {closing : Token} (hopening : token.kind = .leftParen)
    (hinner : (assignment context others).Finds e (closing :: rest) vs)
    (hclosing : closing.kind = .rightParen) :
    (atom context (token :: others)).Finds (.grouping e) rest vs := by
  have hliteral : literal? token = none := by simp [literal?, hopening]
  rw [atom]
  simp only [hliteral, hopening]
  exact hinner.widen.closed hclosing

end Outcomes

namespace Loose

/-! ### The first token of an expression -/

theorem DerivesExpr.exists_head {enclosing : ClassKind} {symbol : ExprSymbol} {ts : List Token}
    {phrase : ExprPhrase} {vs : List Violation} (h : DerivesExpr enclosing symbol ts phrase vs) :
    ∃ token others, ts = token :: others ∧ startsExpression token.kind = true := by
  induction h with
  | assignVariable _ _ _ ih _ | assignProperty _ _ _ ih _ | assignOther _ _ _ _ _ ih _
  | join _ _ _ ih _ | callEmpty _ _ _ ih | callItems _ _ _ _ ih _ | property _ _ _ ih =>
    obtain ⟨token, others, rfl, hstart⟩ := ih
    exact ⟨token, _, rfl, hstart⟩
  | noAssignment _ ih | operand _ ih | noPrefix _ ih | noCall _ ih | lastItem _ ih => exact ih
  | consItem _ _ _ ih _ =>
    obtain ⟨token, others, heq, hstart⟩ := ih
    exact ⟨token, _, by rw [heq]; rfl, hstart⟩
  | @prefixed token _ _ _ _ hop _ _ =>
    refine ⟨token, _, rfl, ?_⟩
    generalize token.kind = kind at hop
    cases hop <;> rfl
  | @literal token _ hvalue =>
    refine ⟨token, [], rfl, ?_⟩
    generalize token.kind = kind at hvalue
    cases hvalue <;> rfl
  | «variable» hname => exact ⟨_, _, rfl, by rw [hname]; rfl⟩
  | this hkeyword => exact ⟨_, _, rfl, by rw [hkeyword]; rfl⟩
  | super hkeyword _ _ => exact ⟨_, _, rfl, by rw [hkeyword]; rfl⟩
  | grouping hopening _ _ _ => exact ⟨_, _, rfl, by rw [hopening]; rfl⟩

/-- A call starts with no prefix operator. -/
theorem DerivesExpr.head_not_operator {enclosing : ClassKind} {symbol : ExprSymbol}
    {ts : List Token} {phrase : ExprPhrase} {vs : List Violation}
    (h : DerivesExpr enclosing symbol ts phrase vs) (hsymbol : symbol = .call ∨ symbol = .primary) :
    ∃ token others, ts = token :: others ∧ unaryOp? token = none := by
  induction h with
  | callEmpty _ _ _ ih | callItems _ _ _ _ ih _ | property _ _ _ ih =>
    obtain ⟨token, others, rfl, hstart⟩ := ih (.inl rfl)
    exact ⟨token, _, rfl, hstart⟩
  | noCall _ ih => exact ih (.inr rfl)
  | @literal token _ hvalue =>
    refine ⟨token, [], rfl, ?_⟩
    unfold unaryOp?
    generalize token.kind = kind at hvalue
    cases hvalue <;> rfl
  | «variable» hname => exact ⟨_, _, rfl, by simp [unaryOp?, hname]⟩
  | this hkeyword => exact ⟨_, _, rfl, by simp [unaryOp?, hkeyword]⟩
  | super hkeyword _ _ => exact ⟨_, _, rfl, by simp [unaryOp?, hkeyword]⟩
  | grouping hopening _ _ _ => exact ⟨_, _, rfl, by simp [unaryOp?, hopening]⟩
  | _ => exact absurd hsymbol (by simp)

/-! ### Completeness -/

/-- What recognition does with a list of tokens that a nonterminal derives, and what follows. A
level and a call are open to the right, so there the violations of what follows are added. -/
def Completes (context : Context) :
    ExprSymbol → List Token → ExprPhrase → List Violation → Prop
  | .assignment, ts, .one e, vs =>
    ∀ rest, Ends rest → (assignment context (ts ++ rest)).Finds e rest vs
  | .level level, ts, .one e, vs =>
    ∀ ⦃rest e' rest' ws⦄, Quiet (level.rank - 1) rest →
      (binaryTail context level e rest).Finds e' rest' ws →
      (binary context level (ts ++ rest)).Finds e' rest' (vs ++ ws)
  | .unary, ts, .one e, vs =>
    ∀ rest, Quiet 0 rest → (unary context (ts ++ rest)).Finds e rest vs
  | .call, ts, .one e, vs =>
    ∀ ⦃rest e' rest' ws⦄, (callTail context e rest).Finds e' rest' ws →
      (call context (ts ++ rest)).Finds e' rest' (vs ++ ws)
  | .primary, ts, .one e, vs => ∀ rest, (atom context (ts ++ rest)).Finds e rest vs
  | .items, ts, .many items, vs =>
    ∀ count rest, startsWith .comma rest = false → Ends rest →
      (argumentItems context count (ts ++ rest)).Finds (items.map Prod.snd) rest
        (vs ++ extraArguments (255 - count) items)
  | _, _, _, _ => True

section Completeness

variable {context : Context} {level : Precedence} {ts rest : List Token} {e : Expr}
  {vs ws : List Violation}

theorem Completes.binary_finds (h : Completes context (.level level) ts (.one e) vs)
    (hquiet : Quiet level.rank rest) : (binary context level (ts ++ rest)).Finds e rest vs := by
  rw [← List.append_nil vs]
  exact h (hquiet.mono (Nat.sub_le _ _)) (binaryTail_finds_of_quiet hquiet)

theorem Completes.operand_finds (h : Completes context level.operandSymbol ts (.one e) vs)
    (hquiet : Quiet (level.rank - 1) rest) :
    (operand context level (ts ++ rest)).Finds e rest vs := by
  cases level with
  -- below the tightest level come the prefix operators, which take no operator from the rest
  | product =>
    rw [operand_eq_unary rfl]
    exact h rest hquiet
  | disjunction | conjunction | equality | comparison | sum =>
    rw [operand_eq_binary rfl]
    exact Completes.binary_finds h hquiet

theorem Completes.unary_of_call
    (hhead : ∃ token others, ts = token :: others ∧ unaryOp? token = none)
    (h : Completes context .call ts (.one e) vs) : Completes context .unary ts (.one e) vs := by
  intro rest hquiet
  obtain ⟨token, others, rfl, hop⟩ := hhead
  -- the rest goes on with no call, so nothing is found behind the callee
  rw [← List.append_nil vs]
  exact unary_finds_call hop (h (callTail_finds_of_quiet hquiet))

/-- A target, an equals sign and a value. -/
theorem Completes.assign {rs : List Token} {equals : Token} {target value : Expr}
    (htarget : Completes context (.level .disjunction) ts (.one target) vs)
    (hequals : equals.kind = .equal) (hvalue : Completes context .assignment rs (.one value) ws) :
    Completes context .assignment (ts ++ equals :: rs)
      (.one ((assignTo? target value).getD target))
      (vs ++ (breach (assignTo? target value = none) (.wrongTarget equals) ++ ws)) := by
  intro rest hends
  rw [List.append_assoc]
  have htarget' := htarget.binary_finds (quiet_of_equal hequals (rs ++ rest))
  exact assignment_finds_of_equal htarget' hequals (hvalue rest hends)

theorem assignTo?_eq_none {target : Expr} (hvariable : ∀ reference, target ≠ .variable reference)
    (hproperty : ∀ object name anchor, target ≠ .get object name anchor) (value : Expr) :
    assignTo? target value = none := by
  cases target with
  | «variable» reference => exact absurd rfl (hvariable reference)
  | get object name anchor => exact absurd rfl (hproperty object name anchor)
  | _ => rfl

/-- The arguments of a call that has some. -/
theorem Completes.arguments_finds {closing : Token} {items : List (Token × Expr)}
    (hhead : ∃ token others, ts = token :: others ∧ startsExpression token.kind = true)
    (h : Completes context .items ts (.many items) vs) (hclosing : closing.kind = .rightParen) :
    (arguments context (ts ++ closing :: rest)).Finds (items.map Prod.snd, closing) rest
      (vs ++ extraArguments 255 items) := by
  have hitems := h 0 (closing :: rest) (by simp [startsWith, hclosing])
    (ends_of_kind hclosing (by simp) rest)
  refine Grammar.arguments_finds ?_ hitems hclosing
  -- an argument does not start with a closing parenthesis
  obtain ⟨token, others, rfl, hstart⟩ := hhead
  simp only [startsWith, List.cons_append, beq_eq_false_iff_ne]
  intro hkind
  rw [hkind] at hstart
  cases hstart

theorem Completes.lastItem {first : Token} {item : Expr}
    (h : Completes context .assignment (first :: ts) (.one item) vs) :
    Completes context .items (first :: ts) (.many [(first, item)]) vs := by
  intro count rest hstop hends
  have hbeyond := beyondLimit_eq_breach (v := .extraArgument first) rfl context count (ts ++ rest)
  refine (argumentItems_finds_last (h rest hends) hstop hbeyond).perm ?_
  rw [extraArguments, map_drop_cons]
  -- the argument was counted before it was read
  simpa using List.perm_append_comm

theorem Completes.consItem {first comma : Token} {rs : List Token} {item : Expr}
    {items : List (Token × Expr)}
    (hitem : Completes context .assignment (first :: ts) (.one item) vs)
    (hcomma : comma.kind = .comma) (hitems : Completes context .items rs (.many items) ws) :
    Completes context .items (first :: ts ++ comma :: rs) (.many ((first, item) :: items))
      (vs ++ ws) := by
  intro count rest hstop hends
  rw [List.append_assoc]
  have hfirst := hitem (comma :: (rs ++ rest)) (ends_of_kind hcomma (by simp) _)
  have hbeyond := beyondLimit_eq_breach (v := .extraArgument first) rfl context count
    (ts ++ comma :: (rs ++ rest))
  have hrest := hitems (count + 1) rest hstop hends
  refine (argumentItems_finds_cons hfirst hcomma hrest hbeyond).perm ?_
  rw [extraArguments, extraArguments, map_drop_cons]
  -- again the argument was counted before it was read
  refine List.perm_iff_count.mpr fun v => ?_
  simp only [List.count_append]
  omega

/-- Every loosely derivable list of tokens is recognised, with the tree of its derivation, and
exactly the violations of the derivation are reported. -/
theorem DerivesExpr.completes {symbol : ExprSymbol} {phrase : ExprPhrase}
    (h : DerivesExpr context.enclosing symbol ts phrase vs) :
    Completes context symbol ts phrase vs := by
  induction h with
  | assignVariable _ hequals _ iht ihv => exact iht.assign hequals ihv
  | assignProperty _ hequals _ iht ihv => exact iht.assign hequals ihv
  | @assignOther equals ts rs target value vs ws _ hvariable hproperty hequals _ iht ihv =>
    have hassign := iht.assign hequals ihv
    have hnone := assignTo?_eq_none hvariable hproperty value
    rw [breach_of hnone, hnone] at hassign
    exact hassign
  | noAssignment _ ih =>
    intro rest hends
    exact assignment_finds (Completes.binary_finds ih hends.1) hends.2
  | operand _ ih =>
    intro rest e' rest' ws hquiet htail
    exact binary_finds (ih.operand_finds hquiet) htail
  | join _ hjoin _ ihl ihr =>
    intro rest e' rest' us hquiet htail
    -- the left operand stops at the operator, which the loop of its own level then takes
    obtain ⟨join, htoken, rfl⟩ := Precedence.join?_of_joins hjoin
    rw [List.append_assoc, List.append_assoc]
    exact ihl (Quiet.of_join? htoken _)
      (binaryTail_finds_join htoken (ihr.operand_finds hquiet) htail)
  | prefixed hop _ ih =>
    intro rest hquiet
    exact unary_finds_prefixed (unaryOp?_of_prefixOf hop) (ih rest hquiet)
  | noPrefix h ih => exact Completes.unary_of_call (h.head_not_operator (.inl rfl)) ih
  | noCall _ ih =>
    intro rest e' rest' ws htail
    exact call_finds (ih rest) htail
  | @callEmpty _ closing _ _ _ _ hopening hclosing ih =>
    intro rest e' rest' ws htail
    have harguments : (arguments context (closing :: rest)).Finds ([], closing) rest [] :=
      by
        rw [arguments, if_pos hclosing]
        exact finds_ok rfl
    rw [List.append_assoc]
    exact ih (callTail_finds_arguments hopening harguments htail)
  | callItems _ hopening hitems hclosing ih ihitems =>
    intro rest e' rest' us htail
    rw [List.append_assoc, List.append_assoc, List.cons_append, List.append_assoc]
    exact ih (callTail_finds_arguments hopening
      (ihitems.arguments_finds hitems.exists_head hclosing) htail)
  | property _ hdot hname ih =>
    intro rest e' rest' ws htail
    rw [List.append_assoc]
    exact ih (callTail_finds_property hdot hname htail)
  | literal hvalue =>
    intro rest
    rw [List.singleton_append, atom, literal?_of_denotes hvalue]
    exact finds_ok rfl
  | «variable» hname => exact fun rest => atom_finds_variable hname
  | this hkeyword => exact fun rest => atom_finds_this hkeyword
  | super hkeyword hdot hmethod => exact fun rest => atom_finds_super hkeyword hdot hmethod
  | @grouping opening closing ts inner _ hopening _ hclosing ih =>
    intro rest
    have hinner := ih (closing :: rest) (ends_of_kind hclosing (by simp) rest)
    rw [List.cons_append, List.append_assoc]
    exact atom_finds_grouping hopening hinner hclosing
  | lastItem _ ih => exact ih.lastItem
  | consItem _ hcomma _ ih ihitems => exact ih.consItem hcomma ihitems

end Completeness

end Loose

end Treewalk.Grammar
