import Treewalk.Grammar.Parser
import Treewalk.Proofs.Grammar.ExpressionSoundness

/-!
# Parsing expressions token by token

A parser that takes its tokens one at a time does what recognition does on the list of all of them.
It stands before the tokens of the list that are left, and it is in the function and the class that
surround them. A construct moves it on, and leaves it in the function and the class where it was,
whether the construct is recognised or panics.
-/

namespace Treewalk

/-- A source gives these tokens when it is asked for one after another, and is left so. -/
inductive TokenSource.Gives : TokenSource → List Token → TokenSource → Prop where
  | done {source : TokenSource} : Gives source [] source
  | more {source later last : TokenSource} {token : Token} {tokens : List Token}
    (h : source.next = (some token, later)) (hrest : Gives later tokens last) :
    Gives source (token :: tokens) last

namespace Parser

open Grammar

/-- A parser stands before a list of tokens and the end of the input. Its kinds of function and
class are those of the context. -/
structure Stands (ending : Token) (last : TokenSource) (context : Context) (ts : List Token)
    (p : Parser) : Prop where
  tokens : ∃ later, p.source.Gives later last ∧ p.current :: later = ts ++ [ending]
  ended : ending.kind = .endOfInput
  inside : ∀ token ∈ ts, token.kind ≠ .endOfInput
  found : context.ending = ending.found
  function : p.functionKind = context.function
  enclosing : p.classKind = context.enclosing

/-- A parser that had recorded some errors before ends as an outcome on a list of tokens says. -/
inductive Follows (ending : Token) (last : TokenSource) (context : Context)
    (earlier : List GrammarError) {α : Type} {n : Nat} :
    EStateM.Result Interruption Parser α → Parsed α n → Prop where
  | ok {value : α} {q : Parser} {rest : List Token} {reports : List GrammarError}
    {bound : rest.length < n} (hq : q.Stands ending last context rest)
    (herrors : q.errors = earlier ++ reports) :
    Follows ending last context earlier (.ok value q) (.ok value rest reports bound)
  | panic {error : GrammarError} {q : Parser} {rest : List Token} {reports : List GrammarError}
    {bound : rest.length ≤ n} (hq : q.Stands ending last context rest)
    (herrors : q.errors = earlier ++ reports) :
    Follows ending last context earlier (.error (.panic error) q) (.panic error rest reports bound)

/-- A computation does on a source what an outcome on a list of tokens says. -/
def Pulls (ending : Token) (last : TokenSource) (context : Context) {α : Type} {n : Nat}
    (x : ParseM α) (ts : List Token) (p : Parsed α n) : Prop :=
  ∀ s : Parser, s.Stands ending last context ts → Follows ending last context s.errors (x s) p

variable {ending : Token} {last : TokenSource} {context : Context} {α β : Type} {m n : Nat}
  {x : ParseM α} {p : Parsed α n} {token : Token} {ts rest : List Token}

/-! ### Where a parser stands -/

namespace Stands

variable {s : Parser}

theorem current_nil (hs : s.Stands ending last context []) :
    s.current = ending ∧ s.source = last := by
  obtain ⟨later, hgives, htokens⟩ := hs.tokens
  cases htokens
  cases hgives
  exact ⟨rfl, rfl⟩

theorem isAtEnd_nil (hs : s.Stands ending last context []) : s.isAtEnd = true := by
  rw [isAtEnd, hs.current_nil.1, hs.ended]
  rfl

theorem current_cons (hs : s.Stands ending last context (token :: rest)) :
    s.current = token := by
  obtain ⟨later, _, htokens⟩ := hs.tokens
  exact (List.cons.inj htokens).1

theorem isAtEnd_cons (hs : s.Stands ending last context (token :: rest)) : s.isAtEnd = false := by
  rw [isAtEnd, hs.current_cons, beq_eq_false_iff_ne]
  exact hs.inside token List.mem_cons_self

/-- Whether a token of some kind stands here, said of the list. -/
theorem isAt_eq (hs : s.Stands ending last context ts) (kind : TokenKind) :
    s.isAt kind = startsWith kind ts := by
  cases ts with
  | nil => rw [isAt, hs.isAtEnd_nil]; rfl
  | cons token rest => rw [isAt, hs.isAtEnd_cons, hs.current_cons]; rfl

/-- The token that a problem here names. -/
theorem found_current (hs : s.Stands ending last context ts) :
    s.current.found = context.here ts := by
  cases ts with
  | nil => rw [hs.current_nil.1, Context.here, hs.found]
  | cons token rest => rw [hs.current_cons]; rfl

/-- Taking a token moves the parser on in the list. -/
theorem advance_cons (hs : s.Stands ending last context (token :: rest)) :
    ∃ q, advance s = .ok token q ∧ q.Stands ending last context rest ∧ q.previous = token ∧
      q.errors = s.errors := by
  obtain ⟨later, hgives, htokens⟩ := hs.tokens
  obtain ⟨hcurrent, hlater⟩ := List.cons.inj htokens
  rw [advance, hs.isAtEnd_cons]
  have hinside : ∀ other ∈ rest, other.kind ≠ .endOfInput :=
    fun other hother => hs.inside other (List.mem_cons_of_mem _ hother)
  cases hgives with
  | done =>
    -- the end of the input is still to come, so the source is not drained yet
    exact absurd hlater.symm (by simp)
  | @more _ source' _ next tokens hnext hrest =>
    simp only [hnext, Bool.false_eq_true, if_false, hcurrent]
    exact ⟨_, rfl, ⟨⟨tokens, hrest, hlater⟩, hs.ended, hinside, hs.found, hs.function,
      hs.enclosing⟩, rfl, rfl⟩

/-- Recording errors does not move the parser. -/
theorem report (hs : s.Stands ending last context ts) (errors : List GrammarError) :
    ({ s with errors := s.errors ++ errors } : Parser).Stands ending last context ts :=
  ⟨hs.tokens, hs.ended, hs.inside, hs.found, hs.function, hs.enclosing⟩

end Stands

/-! ### Outcomes -/

namespace Follows

variable {earlier : List GrammarError} {r : EStateM.Result Interruption Parser α}

theorem widen (hr : Follows ending last context earlier r p) (h : n ≤ m) :
    Follows ending last context earlier r (p.widen h) := by
  cases hr with
  | ok hq herrors => exact .ok hq herrors
  | panic hq herrors => exact .panic hq herrors

theorem after {reports : List GrammarError}
    (hr : Follows ending last context (earlier ++ reports) r p) :
    Follows ending last context earlier r (p.after reports) := by
  cases hr with
  | ok hq herrors => exact .ok hq (by rw [herrors, List.append_assoc])
  | panic hq herrors => exact .panic hq (by rw [herrors, List.append_assoc])

end Follows

/-! ### Computations -/

namespace Pulls

theorem pure (value : α) (bound : rest.length < n) :
    Pulls ending last context (Pure.pure value) rest (Parsed.ok value rest [] bound) :=
  fun _ hs => .ok hs (List.append_nil _).symm

theorem panic (error : GrammarError) (bound : rest.length ≤ n) :
    Pulls ending last context (throw (.panic error) : ParseM α) rest
      (Parsed.panic error rest [] bound) :=
  fun _ hs => .panic hs (List.append_nil _).symm

theorem widen (hx : Pulls ending last context x ts p) (h : n ≤ m) :
    Pulls ending last context x ts (p.widen h) :=
  fun s hs => (hx s hs).widen h

/-- What follows a construct. -/
theorem bind {f : α → ParseM β} {g : α → (rest : List Token) → rest.length < n → Parsed β n}
    (hx : Pulls ending last context x ts p)
    (hf : ∀ value rest h, Pulls ending last context (f value) rest (g value rest h)) :
    Pulls ending last context (x >>= f) ts (p.andThen g) := by
  intro s hs
  have hfirst := hx s hs
  change Follows _ _ _ _ (EStateM.bind x f s) _
  unfold EStateM.bind
  generalize x s = r at hfirst ⊢
  -- a panic passes `f` by, and what was reported before it stays
  cases hfirst with
  | ok hq herrors => exact (herrors ▸ hf _ _ _ _ hq).after
  | panic hq herrors => exact .panic hq herrors

theorem map {f : α → β} (hx : Pulls ending last context x ts p) :
    Pulls ending last context (f <$> x) ts (p.map f) := by
  intro s hs
  have hfirst := hx s hs
  change Follows _ _ _ _ (EStateM.map f x s) _
  unfold EStateM.map
  generalize x s = r at hfirst ⊢
  cases hfirst with
  | ok hq herrors => exact .ok hq herrors
  | panic hq herrors => exact .panic hq herrors

theorem bind_pure {f : α → β} (hx : Pulls ending last context x ts p) :
    Pulls ending last context (x >>= fun value => Pure.pure (f value)) ts (p.map f) := by
  rw [← map_eq_pure_bind]
  exact hx.map

/-- A report comes before what is found later. -/
theorem report (hx : Pulls ending last context x ts p) (errors : List GrammarError) :
    Pulls ending last context (Parser.report errors >>= fun _ => x) ts (p.after errors) := by
  intro s hs
  exact (hx _ (hs.report errors)).after

theorem report_pure (errors : List GrammarError) (value : α) (bound : rest.length < n) :
    Pulls ending last context (Parser.report errors >>= fun _ => Pure.pure value) rest
      (Parsed.ok value rest errors bound) := by
  intro s hs
  have hreport := report (pure value bound) errors s hs
  rw [Parsed.after, List.append_nil] at hreport
  exact hreport

theorem reportBeyond (hx : Pulls ending last context x ts p) (error : Found → GrammarError)
    (count : Nat) :
    Pulls ending last context (Parser.reportBeyond error count >>= fun _ => x) ts
      (p.after (beyondLimit error context count ts)) := by
  intro s hs
  unfold Parser.reportBeyond beyondLimit
  split
  · change Follows _ _ _ _ ((Parser.report [error s.current.found] >>= fun _ => x) s) _
    rw [hs.found_current]
    exact hx.report _ s hs
  · exact Follows.after (by rw [List.append_nil]; exact hx s hs)

/-! #### Tokens -/

/-- A computation that succeeds without a report only moves the parser on. -/
theorem step {y : ParseM β} {value : β} {f : β → ParseM α}
    (hy : ∀ s : Parser, s.Stands ending last context ts →
      ∃ q, y s = .ok value q ∧ q.Stands ending last context rest ∧ q.errors = s.errors)
    (hf : Pulls ending last context (f value) rest p) :
    Pulls ending last context (y >>= f) ts p := by
  intro s hs
  obtain ⟨q, hvalue, hq, herrors⟩ := hy s hs
  change Follows _ _ _ _ (EStateM.bind y f s) _
  rw [EStateM.bind, hvalue, ← herrors]
  exact hf q hq

theorem peek_nil {f : Token → ParseM α}
    (hf : ending.kind = .endOfInput → context.ending = ending.found →
      Pulls ending last context (f ending) [] p) :
    Pulls ending last context (peek >>= f) [] p := by
  intro s hs
  exact step (fun s hs => ⟨s, by rw [peek, hs.current_nil.1], hs, rfl⟩) (hf hs.ended hs.found) s hs

theorem peek_cons {f : Token → ParseM α}
    (hf : Pulls ending last context (f token) (token :: rest) p) :
    Pulls ending last context (peek >>= f) (token :: rest) p :=
  step (fun s hs => ⟨s, by rw [peek, hs.current_cons], hs, rfl⟩) hf

theorem advance {f : Token → ParseM α} (hf : Pulls ending last context (f token) rest p) :
    Pulls ending last context (Parser.advance >>= f) (token :: rest) p := by
  refine step (fun s hs => ?_) hf
  obtain ⟨q, hadvance, hq, _, herrors⟩ := hs.advance_cons
  exact ⟨q, hadvance, hq, herrors⟩

theorem check {kind : TokenKind} {f : Bool → ParseM α}
    (hf : Pulls ending last context (f (startsWith kind ts)) ts p) :
    Pulls ending last context (Parser.check kind >>= f) ts p :=
  step (fun s hs => ⟨s, by rw [Parser.check, hs.isAt_eq], hs, rfl⟩) hf

theorem accept?_nil {serves? : Token → Option β} {f : Option β → ParseM α}
    (hf : Pulls ending last context (f none) [] p) :
    Pulls ending last context (accept? serves? >>= f) [] p := by
  refine step (fun s hs => ⟨s, ?_, hs, rfl⟩) hf
  simp [accept?, atEnd, Bind.bind, EStateM.bind, hs.isAtEnd_nil, Pure.pure, EStateM.pure]

theorem accept?_cons {serves? : Token → Option β} {f : Option β → ParseM α}
    (hnone : serves? token = none → Pulls ending last context (f none) (token :: rest) p)
    (hsome : ∀ value, serves? token = some value →
      Pulls ending last context (f (some value)) rest p) :
    Pulls ending last context (accept? serves? >>= f) (token :: rest) p := by
  cases hserves : serves? token with
  | none =>
    refine step (fun s hs => ⟨s, ?_, hs, rfl⟩) (hnone hserves)
    simp [accept?, atEnd, peek, Bind.bind, EStateM.bind, hs.isAtEnd_cons, hs.current_cons, hserves,
      Pure.pure, EStateM.pure]
  | some value =>
    refine step (fun s hs => ?_) (hsome value hserves)
    obtain ⟨q, hadvance, hq, _, herrors⟩ := hs.advance_cons
    refine ⟨q, ?_, hq, herrors⟩
    simp [accept?, atEnd, peek, Bind.bind, EStateM.bind, hs.isAtEnd_cons, hs.current_cons, hserves,
      hadvance, Pure.pure, EStateM.pure]

/-- A token of a kind is taken if it stands here. -/
theorem accept?_kind {kind : TokenKind} {f : Option Token → ParseM α}
    (hnone : token.kind ≠ kind → Pulls ending last context (f none) (token :: rest) p)
    (hsome : token.kind = kind → Pulls ending last context (f (some token)) rest p) :
    Pulls ending last context (accept? (ofKind kind) >>= f) (token :: rest) p := by
  apply accept?_cons
  · intro h
    exact hnone fun hkind => by rw [ofKind, if_pos hkind] at h; cases h
  · intro value h
    by_cases hkind : token.kind = kind
    · rw [ofKind, if_pos hkind] at h
      cases h
      exact hsome hkind
    · rw [ofKind, if_neg hkind] at h
      cases h

theorem unlessAt {kind : TokenKind} {absent : α} {f : α → ParseM β} {p : Parsed β n}
    (hat : startsWith kind ts = true → Pulls ending last context (f absent) ts p)
    (helse : startsWith kind ts = false → Pulls ending last context (x >>= f) ts p) :
    Pulls ending last context (Parser.unlessAt kind absent x >>= f) ts p := by
  unfold Parser.unlessAt
  rw [bind_assoc]
  apply check
  cases h : startsWith kind ts with
  | true => exact hat h
  | false => exact helse h

/-- Taking a token of a kind, or panicking. -/
theorem consume (kind : TokenKind) (expectation : String) :
    Pulls ending last context (Parser.consume kind expectation) ts
      (expect context kind expectation ts) := by
  intro s hs
  have hopen : Parser.consume kind expectation s =
      (if startsWith kind ts = true then Parser.advance
        else throw (.panic (.expectedToken (context.here ts) expectation)) : ParseM Token) s := by
    change (if s.isAt kind = true then _ else _ : ParseM _) s = _
    rw [hs.isAt_eq, ← hs.found_current]
    split <;> rfl
  rw [hopen]
  cases ts with
  | nil => exact .panic hs (List.append_nil _).symm
  | cons token rest =>
    rw [expect, startsWith]
    by_cases h : token.kind = kind
    · obtain ⟨q, hadvance, hq, _, herrors⟩ := hs.advance_cons
      rw [if_pos (beq_iff_eq.mpr h), if_pos h, hadvance]
      exact .ok hq (by rw [herrors, List.append_nil])
    · rw [if_neg (fun hkind => h (beq_iff_eq.mp hkind)), if_neg h]
      exact .panic hs (List.append_nil _).symm

theorem consume_of_kind {kind : TokenKind} {expectation : String} (h : token.kind = kind)
    (bound : rest.length < n) :
    Pulls ending last context (Parser.consume kind expectation) (token :: rest)
      (Parsed.ok token rest [] bound) := by
  intro s hs
  have hconsume := consume kind expectation s hs
  rw [expect, if_pos h] at hconsume
  exact hconsume.widen bound

/-- What surrounds the parser is what the context says. -/
theorem surroundings {f : Parser → ParseM α}
    (hf : ∀ s : Parser, s.functionKind = context.function → s.classKind = context.enclosing →
      Pulls ending last context (f s) ts p) :
    Pulls ending last context (get >>= f) ts p :=
  fun s hs => hf s hs.function hs.enclosing s hs

end Pulls

/-! ### Expressions -/

theorem pulls_superAccess (keyword : Token) (ts : List Token) :
    Pulls ending last context (superAccess keyword) ts
      (Grammar.superAccess context keyword ts) := by
  refine .surroundings fun s _ hclass => ?_
  rw [hclass]
  refine .report (.bind (.consume _ _) fun _ rest h => ?_) _
  exact (Pulls.consume _ _).bind_pure.widen _

theorem unary_nil (context : Context) :
    Grammar.unary context [] =
      .panic (.expectedExpression context.ending) [] [] (Nat.le_refl _) := by
  rw [Grammar.unary, Grammar.call, Grammar.atom]
  rfl

theorem binary_nil (context : Context) (level : Precedence) :
    Grammar.binary context level [] =
      .panic (.expectedExpression context.ending) [] [] (Nat.le_refl _) := by
  cases hnext : level.tighter? with
  | some next =>
    have hrank := Precedence.rank_lt_of_tighter? hnext
    rw [Grammar.binary, operand_eq_binary hnext, binary_nil context next]
    rfl
  | none =>
    rw [Grammar.binary, operand_eq_unary hnext, unary_nil]
    rfl
termination_by level.rank

theorem argumentItems_nil (context : Context) :
    Grammar.argumentItems context 0 [] =
      .panic (.expectedExpression context.ending) [] [] (Nat.le_refl _) := by
  rw [Grammar.argumentItems, Grammar.assignment, binary_nil]
  rfl

-- The induction is on the budget, as the recursion is. A token is worth 32 of it, more than the
-- constructs that can follow each other before one is taken, so the rest of the list always has
-- enough. Within one token the bound of a level grows with its rank.
mutual

theorem pulls_assignment (budget : Nat) (context : Context) (ts : List Token)
    (h : ts.length * 32 + 15 < budget) :
    Pulls ending last context (assignment budget) ts (Grammar.assignment context ts) := by
  cases budget with
  | zero => omega
  | succ budget =>
    rw [assignment, Grammar.assignment]
    refine .bind (pulls_binary budget context .disjunction ts (by rw [Precedence.rank]; omega)) ?_
    intro target rest hrest
    cases rest with
    | nil => exact .accept?_nil (.pure _ _)
    | cons token rest =>
      have hshorter : rest.length + 1 < ts.length := hrest
      have hvalue := pulls_assignment budget context rest (by omega)
      refine .accept?_kind (fun hkind => ?_) fun hkind => ?_
      · simp only [if_neg hkind]
        exact .pure _ _
      · simp only [if_pos hkind]
        refine .bind (hvalue.widen _) fun value rest hrest => ?_
        cases assignTo? target value with
        | some assigned => exact .pure _ _
        | none => exact .report_pure _ _ _
termination_by budget

theorem pulls_binary (budget : Nat) (context : Context) (level : Precedence) (ts : List Token)
    (h : ts.length * 32 + 2 * level.rank + 2 < budget) :
    Pulls ending last context (binary budget level) ts (Grammar.binary context level ts) := by
  cases budget with
  | zero => omega
  | succ budget =>
    rw [binary, Grammar.binary]
    refine .bind (pulls_operand budget context level ts (by omega)) fun left rest hrest => ?_
    exact (pulls_binaryTail budget context level left rest (by omega)).widen _
termination_by budget

theorem pulls_binaryTail (budget : Nat) (context : Context) (level : Precedence) (left : Expr)
    (ts : List Token) (h : ts.length * 32 + 15 < budget) :
    Pulls ending last context (binaryTail budget level left) ts
      (Grammar.binaryTail context level left ts) := by
  cases budget with
  | zero => omega
  | succ budget =>
    rw [binaryTail, Grammar.binaryTail.eq_def]
    cases ts with
    | nil => exact .accept?_nil (.pure _ _)
    | cons token rest =>
      rw [List.length_cons] at h
      have hrank := level.rank_le
      refine .accept?_cons (fun hjoin => ?_) fun join hjoin => ?_
      · simp only [hjoin]
        exact .pure _ _
      · simp only [hjoin]
        refine .widen (.bind (pulls_operand budget context level rest (by omega)) ?_) _
        intro right rest hrest
        exact (pulls_binaryTail budget context level (join left right) rest (by omega)).widen _
termination_by budget

theorem pulls_operand (budget : Nat) (context : Context) (level : Precedence) (ts : List Token)
    (h : ts.length * 32 + 2 * level.rank + 1 < budget) :
    Pulls ending last context (operand budget level) ts (Grammar.operand context level ts) := by
  cases budget with
  | zero => omega
  | succ budget =>
    have hpos := level.rank_pos
    rw [operand]
    cases hnext : level.tighter? with
    | some next =>
      have hrank := Precedence.rank_lt_of_tighter? hnext
      rw [operand_eq_binary hnext]
      exact pulls_binary budget context next ts (by omega)
    | none =>
      rw [operand_eq_unary hnext]
      exact pulls_unary budget context ts (by omega)
termination_by budget

theorem pulls_unary (budget : Nat) (context : Context) (ts : List Token)
    (h : ts.length * 32 + 2 < budget) :
    Pulls ending last context (unary budget) ts (Grammar.unary context ts) := by
  cases budget with
  | zero => omega
  | succ budget =>
    rw [unary, Grammar.unary.eq_def]
    cases ts with
    | nil => exact .accept?_nil (pulls_call budget context [] (by omega))
    | cons token rest =>
      refine .accept?_cons (fun hop => ?_) fun value hop => ?_
      · simp only [Option.map_eq_none_iff.mp hop]
        exact pulls_call budget context _ (by omega)
      · rw [List.length_cons] at h
        obtain ⟨op, htoken, rfl⟩ := Option.map_eq_some_iff.mp hop
        simp only [htoken]
        exact (pulls_unary budget context rest (by omega)).bind_pure.widen _
termination_by budget

theorem pulls_call (budget : Nat) (context : Context) (ts : List Token)
    (h : ts.length * 32 + 1 < budget) :
    Pulls ending last context (call budget) ts (Grammar.call context ts) := by
  cases budget with
  | zero => omega
  | succ budget =>
    rw [call, Grammar.call]
    refine .bind (pulls_atom budget context ts (by omega)) fun callee rest hrest => ?_
    exact (pulls_callTail budget context callee rest (by omega)).widen _
termination_by budget

theorem pulls_callTail (budget : Nat) (context : Context) (callee : Expr) (ts : List Token)
    (h : ts.length * 32 + 15 < budget) :
    Pulls ending last context (callTail budget callee) ts
      (Grammar.callTail context callee ts) := by
  cases budget with
  | zero => omega
  | succ budget =>
    rw [callTail, Grammar.callTail.eq_def]
    cases ts with
    | nil => exact .accept?_nil (.accept?_nil (.pure _ _))
    | cons token rest =>
      rw [List.length_cons] at h
      refine .accept?_kind (fun hparen => ?_) fun hparen => ?_
      · simp only [if_neg hparen]
        refine .accept?_kind (fun hdot => ?_) fun hdot => ?_
        · rw [if_neg hdot]
          exact .pure _ _
        · rw [if_pos hdot]
          refine .widen (.bind (.consume _ _) fun name rest hrest => ?_) _
          exact (pulls_callTail budget context _ rest (by omega)).widen _
      · simp only [if_pos hparen]
        refine .widen (.bind (pulls_arguments budget context rest (by omega)) ?_) _
        intro items rest hrest
        exact (pulls_callTail budget context _ rest (by omega)).widen _
termination_by budget

theorem pulls_arguments (budget : Nat) (context : Context) (ts : List Token)
    (h : ts.length * 32 + 17 < budget) :
    Pulls ending last context (arguments budget) ts (Grammar.arguments context ts) := by
  cases budget with
  | zero => omega
  | succ budget =>
    have hitems := pulls_argumentItems budget context 0 ts (by omega)
    rw [arguments, Grammar.arguments.eq_def]
    cases ts with
    | nil =>
      -- on a list the end is noticed first, here by the first argument, with the same panic
      rw [argumentItems_nil] at hitems
      refine .unlessAt (fun hparen => absurd hparen Bool.false_ne_true) fun _ => ?_
      exact hitems.bind fun items rest hrest =>
        (Pulls.consume _ _).bind_pure.widen (le_of_shorter hrest)
    | cons token rest =>
      refine .unlessAt (fun hparen => ?_) fun hparen => ?_
      · have hkind : token.kind = .rightParen := beq_iff_eq.mp hparen
        simp only [if_pos hkind]
        exact (Pulls.consume_of_kind hkind (length_lt_cons token rest)).bind_pure
      · have hkind : token.kind ≠ .rightParen := beq_eq_false_iff_ne.mp hparen
        simp only [if_neg hkind]
        exact .bind hitems fun items rest hrest => (Pulls.consume _ _).bind_pure.widen _
termination_by budget

theorem pulls_argumentItems (budget : Nat) (context : Context) (count : Nat) (ts : List Token)
    (h : ts.length * 32 + 16 < budget) :
    Pulls ending last context (argumentItems budget count) ts
      (Grammar.argumentItems context count ts) := by
  cases budget with
  | zero => omega
  | succ budget =>
    rw [argumentItems, Grammar.argumentItems]
    refine .reportBeyond (.bind (pulls_assignment budget context ts (by omega)) ?_) _ _
    intro item rest hrest
    cases rest with
    | nil => exact .accept?_nil (.pure _ _)
    | cons token rest =>
      have hshorter : rest.length + 1 < ts.length := hrest
      refine .accept?_kind (fun hkind => ?_) fun hkind => ?_
      · simp only [if_neg hkind]
        exact .pure _ _
      · simp only [if_pos hkind]
        exact (pulls_argumentItems budget context (count + 1) rest (by omega)).bind_pure.widen _
termination_by budget

theorem pulls_atom (budget : Nat) (context : Context) (ts : List Token)
    (h : ts.length * 32 < budget) :
    Pulls ending last context (atom budget) ts (Grammar.atom context ts) := by
  cases budget with
  | zero => omega
  | succ budget =>
    rw [atom, Grammar.atom.eq_def]
    cases ts with
    | nil =>
      refine .accept?_nil (.peek_nil fun hkind hfound => ?_)
      simp only [hkind, hfound]
      exact .panic _ _
    | cons token rest =>
      rw [List.length_cons] at h
      refine .accept?_cons (fun hliteral => .peek_cons ?_) fun value hliteral => ?_
      · simp only [hliteral]
        generalize token.kind = kind
        cases kind with
        | identifier => exact .advance (.pure _ _)
        | leftParen =>
          refine .advance (.bind (.widen (pulls_assignment budget context rest (by omega)) _) ?_)
          exact fun inner rest hrest => (Pulls.consume _ _).bind_pure.widen _
        | keyword keyword =>
          cases keyword with
          | kwSuper => exact .advance ((pulls_superAccess token rest).widen _)
          | kwThis =>
            refine .advance (.surroundings fun s _ hclass => ?_)
            rw [hclass]
            exact .report_pure _ _ _
          | _ => exact .panic _ _
        | _ => exact .panic _ _
      · simp only [hliteral]
        exact .pure _ _
termination_by budget

end

end Parser

end Treewalk
