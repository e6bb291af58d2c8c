import Treewalk.Proofs.Grammar.Derivation
import Treewalk.Proofs.Grammar.Remainder

/-!
# Recognised expressions are derivable

What the recognisers of expressions do with their tokens. Whatever is recognised cleanly as an
expression has a derivation, of the tree that recognition gives, on exactly the tokens that it took.

An assignment is recognised by taking any operand as its target first. The target is a variable or
a property only if its tokens are those of a variable or a property, which is what the grammar asks.
-/

namespace Treewalk.Grammar

open Parsed

/-! ### Operators and constants -/

theorem Precedence.joins_of_join? {level : Precedence} {token : Token}
    {join : Expr → Expr → Expr} (h : level.join? token = some join) (left right : Expr) :
    level.Joins token left right (join left right) := by
  unfold Precedence.join? at h
  dsimp only at h
  split at h <;> first
    | (obtain rfl := Option.some.inj h; rename_i hkind)
    | cases h
  · exact .or hkind
  · exact .and hkind
  all_goals exact .binary (by rw [hkind]; decide)

theorem denotes_of_literal? {token : Token} {value : Literal} (h : literal? token = some value) :
    Denotes token.kind value := by
  unfold literal? at h
  split at h <;> first
    | (obtain rfl := Option.some.inj h; rename_i hkind; rw [hkind]; constructor)
    | cases h

theorem prefixOf_of_unaryOp? {token : Token} {op : UnaryOp} (h : unaryOp? token = some op) :
    PrefixOf token.kind op := by
  unfold unaryOp? at h
  split at h <;> first
    | (obtain rfl := Option.some.inj h; rename_i hkind; rw [hkind]; constructor)
    | cases h

/-! ### Targets of assignments -/

section Targets

variable {enclosing : ClassKind} {symbol : ExprSymbol} {ts : List Token}

/-- Outside assignments, only the token of a name derives a variable. -/
theorem DerivesExpr.tokens_of_variable {reference : Reference}
    (h : DerivesExpr enclosing symbol ts (.one (.variable reference)))
    (hsymbol : symbol ≠ .assignment) :
    ∃ name : Token, ts = [name] ∧ name.kind = .identifier ∧ reference = name.reference := by
  -- every rule but that of a name either passes the tree on or builds another one
  generalize hphrase : ExprPhrase.one (.variable reference) = phrase at h
  induction h with
  | noAssignment _ ih => exact absurd rfl hsymbol
  | operand h ih =>
    rename_i level _ _
    exact ih (by cases level <;> simp [Precedence.operandSymbol]) hphrase
  | join _ hjoin _ _ _ => cases hjoin <;> cases hphrase
  | noPrefix _ ih => exact ih (by simp) hphrase
  | noCall _ ih => exact ih (by simp) hphrase
  | «variable» hname =>
    cases hphrase
    exact ⟨_, rfl, hname, rfl⟩
  | _ => cases hphrase

/-- Outside assignments, only an object, a dot and a name derive a property. -/
theorem DerivesExpr.tokens_of_property {object : Expr} {property : String} {anchor : Anchor}
    (h : DerivesExpr enclosing symbol ts (.one (.get object property anchor)))
    (hsymbol : symbol ≠ .assignment) :
    ∃ (os : List Token) (dot name : Token), ts = os ++ [dot, name] ∧
      DerivesExpr enclosing .call os (.one object) ∧ dot.kind = .dot ∧
      name.kind = .identifier ∧ property = name.lexeme ∧ anchor = name.anchor := by
  generalize hphrase : ExprPhrase.one (.get object property anchor) = phrase at h
  induction h with
  | noAssignment _ ih => exact absurd rfl hsymbol
  | operand h ih =>
    rename_i level _ _
    exact ih (by cases level <;> simp [Precedence.operandSymbol]) hphrase
  | join _ hjoin _ _ _ => cases hjoin <;> cases hphrase
  | noPrefix _ ih => exact ih (by simp) hphrase
  | noCall _ ih => exact ih (by simp) hphrase
  | property hobject hdot hname _ =>
    cases hphrase
    exact ⟨_, _, _, rfl, hobject, hdot, hname, rfl, rfl⟩
  | _ => cases hphrase

/-- What recognition accepts as an assignment, the grammar derives as one. -/
theorem DerivesExpr.assign_of_assignTo? {equals : Token} {vs : List Token}
    {target value assigned : Expr}
    (htarget : DerivesExpr enclosing (.level .disjunction) ts (.one target))
    (hequals : equals.kind = .equal) (hvalue : DerivesExpr enclosing .assignment vs (.one value))
    (hassign : assignTo? target value = some assigned) :
    DerivesExpr enclosing .assignment (ts ++ equals :: vs) (.one assigned) := by
  unfold assignTo? at hassign
  split at hassign
  · obtain rfl := Option.some.inj hassign
    obtain ⟨name, rfl, hname, rfl⟩ := htarget.tokens_of_variable (by simp)
    exact .assignVariable hname hequals hvalue
  · obtain rfl := Option.some.inj hassign
    obtain ⟨os, dot, name, rfl, hobject, hdot, hname, rfl, rfl⟩ :=
      htarget.tokens_of_property (by simp)
    rw [List.append_assoc]
    exact .assignProperty hobject hdot hname hequals hvalue
  · cases hassign

end Targets

/-! ### Recognition -/

theorem unescaped_superMisuse (kind : ClassKind) : ∀ text ∈ superMisuse? kind, Unescaped text := by
  cases kind <;> decide

theorem unescaped_thisMisuse (kind : ClassKind) : ∀ text ∈ thisMisuse? kind, Unescaped text := by
  cases kind <;> decide

theorem operand_eq_binary {context : Context} {level next : Precedence} {ts : List Token}
    (h : level.tighter? = some next) :
    operand context level ts = binary context next ts := by
  rw [operand]
  split
  · rename_i h'
    obtain rfl := Option.some.inj (h.symm.trans h')
    rfl
  · rename_i h'
    exact absurd (h.symm.trans h') (Option.some_ne_none _)

theorem operand_eq_unary {context : Context} {level : Precedence} {ts : List Token}
    (h : level.tighter? = none) :
    operand context level ts = unary context ts := by
  rw [operand]
  split
  · rename_i h'
    exact absurd (h'.symm.trans h) (Option.some_ne_none _)
  · rfl

theorem Precedence.operandSymbol_of_tighter? {level next : Precedence}
    (h : level.tighter? = some next) : level.operandSymbol = .level next := by
  cases level <;> cases h <;> rfl

theorem Precedence.operandSymbol_of_tightest {level : Precedence} (h : level.tighter? = none) :
    level.operandSymbol = .unary := by
  cases level <;> first | rfl | cases h

/-- The tokens that were read derive an expression. -/
def Spells (context : Context) (symbol : ExprSymbol) (read : List Token) (e : Expr)
    (_ : List Token) : Prop :=
  DerivesExpr context.enclosing symbol read (.one e)

/-- The tokens that were read go on with an expression that was read before. -/
def Prolongs (context : Context) (symbol : ExprSymbol) (left : Expr) (read : List Token) (e : Expr)
    (_ : List Token) : Prop :=
  ∀ ls, DerivesExpr context.enclosing symbol ls (.one left) →
    DerivesExpr context.enclosing symbol (ls ++ read) (.one e)

theorem Prolongs.refl {context : Context} {symbol : ExprSymbol} {e : Expr} {rest : List Token} :
    Prolongs context symbol e [] e rest :=
  fun ls h => by rwa [List.append_nil]

/-- The arguments of a call and its closing parenthesis. -/
def Applies (context : Context) (read : List Token) (call : List Expr × Token)
    (_ : List Token) : Prop :=
  ∀ (callee : Expr) (cs : List Token) (opening : Token), opening.kind = .leftParen →
    DerivesExpr context.enclosing .call cs (.one callee) →
    DerivesExpr context.enclosing .call (cs ++ opening :: read)
      (.one (.call callee call.1 call.2.anchor))

variable (context : Context)

theorem reads_superAccess {keyword : Token} (hkeyword : keyword.kind = .keyword .kwSuper)
    (ts : List Token) :
    (superAccess context keyword ts).Reads context (keyword :: ts) (Spells context .primary) := by
  unfold superAccess
  refine .after ?_ (noticed_misplaced List.mem_cons_self (unescaped_superMisuse _))
  refine .skip ((reads_expect context _ (by decide) ts).closed (by decide) ?_)
  rintro _ dot method rest ⟨rfl, hdot⟩ hmethod hplace
  have hsubclass : context.enclosing = .subclass := by
    have hnone := eq_none_of_misplaced hplace
    cases h : context.enclosing <;> rw [h] at hnone <;> first | rfl | cases hnone
  exact .super hkeyword hdot hmethod hsubclass

mutual

theorem reads_assignment (ts : List Token) :
    (assignment context ts).Reads context ts (Spells context .assignment) := by
  rw [assignment]
  apply (reads_binary .disjunction ts).andThen
  intro target rest h
  have hplain : (Parsed.ok target rest [] h).Reads context rest fun more e left => ∀ read,
      Spells context (.level .disjunction) read target rest →
        Spells context .assignment (read ++ more) e left := by
    refine .clean [] rfl fun read htarget => ?_
    rw [List.append_nil]
    exact .noAssignment htarget
  cases rest with
  | nil => exact hplain
  | cons equals rest =>
    refine .ite (fun hequals => ?_) fun _ => hplain
    have hvalue : ((assignment context rest).widen (tail_le_of_shorter h)).Reads context
        (equals :: rest) fun read value left =>
          ∃ vs, read = equals :: vs ∧ Spells context .assignment vs value left :=
      .widen (.skip ((reads_assignment rest).imp fun vs _ _ _ hvalue => ⟨vs, rfl, hvalue⟩))
    apply hvalue.chain
    intro read value left _ htokens
    cases hassign : assignTo? target value with
    | some assigned =>
      refine .clean read htokens ?_
      rintro ⟨vs, rfl, hvalue⟩ ts htarget
      exact htarget.assign_of_assignTo? hequals hvalue hassign
    | none =>
      -- the equals sign is what a wrong target is reported at
      refine .ok htokens (fun error herror => ?_) fun hnone => by cases hnone
      obtain rfl := List.mem_singleton.mp herror
      exact ⟨.inr ⟨equals, List.mem_cons_self, rfl⟩, show Unescaped "" by decide,
        fun hstops => by cases hstops⟩
termination_by ts.length * 32 + 15
decreasing_by
  · have := Precedence.rank_le .disjunction
    omega
  · simp only [List.length_cons] at h
    omega

theorem reads_binary (level : Precedence) (ts : List Token) :
    (binary context level ts).Reads context ts (Spells context (.level level)) := by
  rw [binary]
  apply (reads_operand level ts).andThen
  intro left rest h
  refine .widen ((reads_binaryTail level left rest).imp ?_)
  exact fun _ _ _ _ hmore read hleft => hmore read (.operand hleft)
termination_by ts.length * 32 + 2 * level.rank + 2
decreasing_by all_goals omega

theorem reads_binaryTail (level : Precedence) (left : Expr) (ts : List Token) :
    (binaryTail context level left ts).Reads context ts
      (Prolongs context (.level level) left) := by
  cases ts with
  | nil =>
    rw [binaryTail]
    exact .clean [] rfl .refl
  | cons token rest =>
    rw [binaryTail]
    cases hjoin : level.join? token with
    | none => exact .clean [] rfl .refl
    | some join =>
      refine .widen (.skip ?_)
      apply (reads_operand level rest).andThen
      intro right rest' h
      refine .widen ((reads_binaryTail level (join left right) rest').imp ?_)
      -- the left operand grows with every round, together with the tokens that derive it
      intro _ _ _ _ hmore rs hright ls hleft
      have hjoined := DerivesExpr.join hleft (Precedence.joins_of_join? hjoin left right) hright
      simpa using hmore _ hjoined
termination_by ts.length * 32 + 15
decreasing_by
  all_goals
    have := level.rank_le
    simp only [List.length_cons]
    omega

theorem reads_operand (level : Precedence) (ts : List Token) :
    (operand context level ts).Reads context ts (Spells context level.operandSymbol) := by
  cases h : level.tighter? with
  | some next =>
    have := Precedence.rank_lt_of_tighter? h
    rw [operand_eq_binary h, Precedence.operandSymbol_of_tighter? h]
    exact reads_binary next ts
  | none =>
    rw [operand_eq_unary h, Precedence.operandSymbol_of_tightest h]
    exact reads_unary ts
termination_by ts.length * 32 + 2 * level.rank + 1
decreasing_by
  all_goals
    have := level.rank_pos
    omega

theorem reads_unary (ts : List Token) :
    (unary context ts).Reads context ts (Spells context .unary) := by
  cases ts with
  | nil =>
    rw [unary]
    exact (reads_call []).imp fun _ _ _ _ h => .noPrefix h
  | cons token rest =>
    rw [unary]
    cases hop : unaryOp? token with
    | some op =>
      refine .widen (.map (.skip ?_))
      exact (reads_unary rest).imp fun _ _ _ _ h => .prefixed (prefixOf_of_unaryOp? hop) h
    | none => exact (reads_call (token :: rest)).imp fun _ _ _ _ h => .noPrefix h
termination_by ts.length * 32 + 2
decreasing_by all_goals simp

theorem reads_call (ts : List Token) :
    (call context ts).Reads context ts (Spells context .call) := by
  rw [call]
  apply (reads_atom ts).andThen
  intro callee rest h
  refine .widen ((reads_callTail callee rest).imp ?_)
  exact fun _ _ _ _ hmore read hcallee => hmore read (.noCall hcallee)
termination_by ts.length * 32 + 1
decreasing_by all_goals omega

theorem reads_callTail (callee : Expr) (ts : List Token) :
    (callTail context callee ts).Reads context ts (Prolongs context .call callee) := by
  cases ts with
  | nil =>
    rw [callTail]
    exact .clean [] rfl .refl
  | cons token rest =>
    rw [callTail]
    refine .ite (fun hopening => .widen (.skip ?_)) fun _ =>
      .ite (fun hdot => .widen (.skip ?_)) fun _ => .clean [] rfl .refl
    · apply (reads_arguments rest).andThen
      intro items rest' h
      refine .widen ((reads_callTail _ rest').imp ?_)
      intro _ _ _ _ hmore read hcall cs hcallee
      simpa using hmore _ (hcall callee cs token hopening hcallee)
    · apply (reads_expect context _ (by decide) rest).andThen
      intro name rest' h
      refine .widen ((reads_callTail _ rest').imp ?_)
      rintro _ _ _ _ hmore _ ⟨rfl, hname⟩ cs hcallee
      simpa using hmore _ (.property hcallee hdot hname)
termination_by ts.length * 32 + 15
decreasing_by
  all_goals
    simp only [List.length_cons]
    omega

theorem reads_arguments (ts : List Token) :
    (arguments context ts).Reads context ts (Applies context) := by
  cases ts with
  | nil =>
    rw [arguments]
    exact .stop rfl rfl (show Unescaped "" by decide)
  | cons token rest =>
    rw [arguments]
    refine .ite (fun hclosing => .clean [token] rfl ?_) fun _ => ?_
    · exact fun callee cs opening hopening hcallee => .callEmpty hcallee hopening hclosing
    · refine (reads_argumentItems 0 (token :: rest)).closed (by decide) ?_
      rintro read items closing _ ⟨hitems, hlimit⟩ hclosing callee cs opening hopening hcallee
      rw [Nat.zero_add] at hlimit
      exact .callItems hcallee hopening hitems hlimit hclosing
termination_by ts.length * 32 + 17
decreasing_by all_goals simp

theorem reads_argumentItems (count : Nat) (ts : List Token) :
    (argumentItems context count ts).Reads context ts fun read items _ =>
      DerivesExpr context.enclosing .items read (.many items) ∧ count + items.length ≤ 255 := by
  rw [argumentItems]
  refine .after ?_ (noticed_beyondLimit (fun _ => rfl) (fun _ => rfl) (fun _ => rfl) count)
  apply (reads_assignment ts).andThen
  intro item rest h
  have hlast : (Parsed.ok [item] rest [] h).Reads context rest fun more items _ => ∀ read,
      Spells context .assignment read item rest →
        beyondLimit .tooManyArguments context count ts = [] →
          DerivesExpr context.enclosing .items (read ++ more) (.many items) ∧
            count + items.length ≤ 255 := by
    refine .clean [] rfl fun read hitem hlimit => ?_
    rw [List.append_nil]
    exact ⟨.lastItem hitem, lt_of_beyondLimit hlimit⟩
  cases rest with
  | nil => exact hlast
  | cons comma rest =>
    refine .ite (fun hcomma => .widen (.map (.skip ?_))) fun _ => hlast
    refine (reads_argumentItems (count + 1) rest).imp ?_
    rintro more items _ _ ⟨hitems, hlimit⟩ read hitem _
    refine ⟨.consItem hitem hcomma hitems, ?_⟩
    rw [List.length_cons]
    omega
termination_by ts.length * 32 + 16
decreasing_by
  · omega
  · simp only [List.length_cons] at h
    omega

theorem reads_atom (ts : List Token) :
    (atom context ts).Reads context ts (Spells context .primary) := by
  cases ts with
  | nil =>
    rw [atom]
    exact .stop rfl rfl (show Unescaped "" by decide)
  | cons token rest =>
    rw [atom]
    cases hvalue : literal? token with
    | some value => exact .clean [token] rfl (.literal (denotes_of_literal? hvalue))
    | none =>
      dsimp only
      split
      · rename_i hkind
        exact (reads_superAccess context hkind rest).widen
      · rename_i hkind
        refine .ok (List.singleton_append).symm
          (noticed_misplaced List.mem_cons_self (unescaped_thisMisuse _)) fun hplace => ?_
        refine .this hkind fun hnone => ?_
        have hmisuse := eq_none_of_misplaced hplace
        rw [hnone] at hmisuse
        cases hmisuse
      · rename_i hkind
        exact .clean [token] rfl (.variable hkind)
      · rename_i hkind
        refine .skip ((reads_assignment rest).widen.closed (by decide) ?_)
        exact fun _ _ _ _ hinner hclosing => .grouping hkind hinner hclosing
      · exact .stop rfl rfl (show Unescaped "" by decide)
termination_by ts.length * 32
decreasing_by
  simp only [List.length_cons]
  omega

end

/-- An expression is read from the front, and a cleanly recognised one has a derivation on the
tokens that it took. -/
theorem reads_expression (ts : List Token) :
    (expression context ts).Reads context ts (Spells context .assignment) :=
  reads_assignment context ts

end Treewalk.Grammar
