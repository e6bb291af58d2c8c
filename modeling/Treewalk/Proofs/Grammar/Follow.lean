import Treewalk.Proofs.Grammar.Derivation

/-!
# The tokens around a construct

What recognition makes of a list of tokens depends on the token that follows a construct: an operand
must not be followed by an operator of a tighter level, nor an expression by anything that could go
on with it. It also depends on the first token, which tells the constructs apart.
-/

namespace Treewalk.Grammar

/-! ### Operators and constants -/

theorem Precedence.join?_of_joins {level : Precedence} {token : Token} {left right e : Expr}
    (h : level.Joins token left right e) :
    ∃ join, level.join? token = some join ∧ join left right = e := by
  cases h with
  | or hkind => exact ⟨_, by simp [Precedence.join?, hkind], rfl⟩
  | and hkind => exact ⟨_, by simp [Precedence.join?, hkind], rfl⟩
  | @binary _ _ op _ _ hkind =>
    refine ⟨fun left right => .binary op left right token.anchor, ?_, rfl⟩
    simp only [Precedence.operators] at hkind
    cases level with
    | disjunction | conjunction => exact absurd hkind List.not_mem_nil
    | equality | sum | product =>
      simp only [List.mem_cons, Prod.mk.injEq, List.not_mem_nil, or_false] at hkind
      rcases hkind with ⟨hkind, rfl⟩ | ⟨hkind, rfl⟩ <;> simp [Precedence.join?, hkind]
    | comparison =>
      simp only [List.mem_cons, Prod.mk.injEq, List.not_mem_nil, or_false] at hkind
      rcases hkind with ⟨hkind, rfl⟩ | ⟨hkind, rfl⟩ | ⟨hkind, rfl⟩ | ⟨hkind, rfl⟩ <;>
        simp [Precedence.join?, hkind]

theorem literal?_of_denotes {token : Token} {value : Literal} (h : Denotes token.kind value) :
    literal? token = some value := by
  generalize hkind : token.kind = kind at h
  cases h <;> simp [literal?, hkind]

theorem unaryOp?_of_prefixOf {token : Token} {op : UnaryOp} (h : PrefixOf token.kind op) :
    unaryOp? token = some op := by
  generalize hkind : token.kind = kind at h
  cases h <;> simp [unaryOp?, hkind]

/-- An operator of a level belongs to no other level, and starts neither a call nor a property. -/
theorem Precedence.kind_of_join? {level : Precedence} {token : Token} {join : Expr → Expr → Expr}
    (h : level.join? token = some join) :
    token.kind ≠ .leftParen ∧ token.kind ≠ .dot ∧
      ∀ other : Precedence, other ≠ level → other.join? token = none := by
  unfold Precedence.join? at h
  dsimp only at h
  split at h
  case h_13 => cases h
  all_goals
    rename_i hkind
    refine ⟨by simp [hkind], by simp [hkind], fun other hother => ?_⟩
    cases other <;> first
      | exact absurd rfl hother
      | simp [Precedence.join?, hkind]

/-! ### What follows an expression -/

/-- The first token is no operator of a level of at most the given rank, and begins neither a call
nor a property access. -/
def Quiet (rank : Nat) (rest : List Token) : Prop :=
  ∀ token ∈ rest.head?, token.kind ≠ .leftParen ∧ token.kind ≠ .dot ∧
    ∀ level : Precedence, level.rank ≤ rank → level.join? token = none

/-- The first token cannot go on with an expression. -/
def Ends (rest : List Token) : Prop :=
  Quiet 6 rest ∧ startsWith .equal rest = false

theorem Quiet.mono {low high : Nat} {rest : List Token} (h : Quiet high rest) (hle : low ≤ high) :
    Quiet low rest :=
  fun token htoken =>
    ⟨(h token htoken).1, (h token htoken).2.1,
      fun level hlevel => (h token htoken).2.2 level (Nat.le_trans hlevel hle)⟩

theorem Quiet.of_join? {level : Precedence} {token : Token} {join : Expr → Expr → Expr}
    (h : level.join? token = some join) (rest : List Token) :
    Quiet (level.rank - 1) (token :: rest) := by
  intro first hfirst
  obtain rfl := Option.some.inj hfirst
  obtain ⟨hparen, hdot, hother⟩ := Precedence.kind_of_join? h
  refine ⟨hparen, hdot, fun other hrank => hother other ?_⟩
  rintro rfl
  have := other.rank_pos
  omega

/-- The tokens that stand right after an expression end it. -/
theorem ends_of_kind {token : Token} {kind : TokenKind} (hkind : token.kind = kind)
    (h : kind ∈ [TokenKind.rightParen, .semicolon, .comma]) (rest : List Token) :
    Ends (token :: rest) := by
  simp only [List.mem_cons, List.not_mem_nil, or_false] at h
  refine ⟨fun first hfirst => ?_, ?_⟩
  · obtain rfl := Option.some.inj hfirst
    rcases h with rfl | rfl | rfl
    all_goals
      refine ⟨by simp [hkind], by simp [hkind], fun level _ => ?_⟩
      cases level <;> simp [Precedence.join?, hkind]
  · rcases h with rfl | rfl | rfl <;> simp [startsWith, hkind]

theorem quiet_of_equal {token : Token} (hkind : token.kind = .equal) (rest : List Token) :
    Quiet 6 (token :: rest) := by
  intro first hfirst
  obtain rfl := Option.some.inj hfirst
  refine ⟨by simp [hkind], by simp [hkind], fun level _ => ?_⟩
  cases level <;> simp [Precedence.join?, hkind]

/-! ### First tokens -/

/-- Whether an expression can start with a kind of token. -/
def startsExpression : TokenKind → Bool
  | .bang | .minus | .leftParen | .identifier | .number _ | .string _ => true
  | .keyword .kwTrue | .keyword .kwFalse | .keyword .kwNil => true
  | .keyword .kwThis | .keyword .kwSuper => true
  | _ => false

/-- Whether a statement can start with a kind of token. -/
def startsStatement : TokenKind → Bool
  | .keyword .kwFor | .keyword .kwIf | .keyword .kwPrint | .keyword .kwReturn => true
  | .keyword .kwWhile | .leftBrace => true
  | kind => startsExpression kind

/-- Whether a declaration can start with a kind of token. -/
def startsDeclaration : TokenKind → Bool
  | .keyword .kwClass | .keyword .kwFun | .keyword .kwVar => true
  | kind => startsStatement kind

/-- Two kinds of token differ when only one of them can start a construct. -/
theorem kind_ne_of_starts {starts : TokenKind → Bool} {token : Token} {kind : TokenKind}
    (htoken : starts token.kind = true) (hkind : starts kind = false) : token.kind ≠ kind := by
  intro heq
  rw [heq, hkind] at htoken
  cases htoken

theorem startsWith_eq_false_of_starts {starts : TokenKind → Bool} {token : Token}
    {kind : TokenKind} (htoken : starts token.kind = true) (hkind : starts kind = false)
    (others : List Token) : startsWith kind (token :: others) = false := by
  simpa [startsWith] using kind_ne_of_starts htoken hkind

theorem startsStatement_of_startsExpression {kind : TokenKind}
    (h : startsExpression kind = true) : startsStatement kind = true := by
  unfold startsStatement
  split <;> first | rfl | exact h

theorem startsDeclaration_of_startsStatement {kind : TokenKind}
    (h : startsStatement kind = true) : startsDeclaration kind = true := by
  unfold startsDeclaration
  split <;> first | rfl | exact h

end Treewalk.Grammar
