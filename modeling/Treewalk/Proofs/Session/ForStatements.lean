import Treewalk.Proofs.Machine.ForLoops
import Treewalk.Proofs.Session.Reachable

/-!
# For statements

A `for` statement that is recognised means what the direct rule for loops says of its clauses and
its body. The statement may stand in any scopes in which statements stand, and may start from any
store in which every scope that is mentioned was opened, as is true of every session.
-/

namespace Treewalk

open Grammar

/-- Around code of the language, the scope that holds `super` is never the innermost one: that of
the receiver is inside it. -/
theorem Layout.Fits.notHere_super {enclosing : Grammar.ClassKind} {layout : Layout}
    (h : Layout.Fits enclosing layout) : layout.names.NotHere "super" := by
  cases h with
  | session => simp [StaticScopes.NotHere, StaticScopes.binding, Layout.names]
  | @inner _ scope layout hscope _ =>
    -- `super` is a reserved word, so no block and no call declares it
    have hsuper : "super" ∉ scope.names := fun hmem => (hscope.names _ hmem).2 rfl
    rw [StaticScopes.NotHere, Layout.names_cons, StaticScopes.binding_of_not_mem hsuper]
    exact Binding.further_ne_here _
  | «class» superclass _ =>
    -- with or without a superclass, the scope of the receiver is the innermost one
    have hsuper : "super" ∉ ["this"] := by decide
    cases superclass <;>
      rw [StaticScopes.NotHere, Layout.openClass, Layout.names_cons,
        StaticScopes.binding_of_not_mem hsuper] <;>
      exact Binding.further_ne_here _

/-- Every scope that the store of a session mentions was opened. -/
theorem Session.Reachable.closed {session : Session} (h : session.Reachable) :
    session.store.Closed :=
  (h.settled.sound session.Resolves fun _ hr => hr).closed h.settled.matches

variable {context : Context} {ts rest : List Token}

/-- A construct and another one behind it that are recognised together are recognised in turn. -/
theorem Grammar.Parsed.Yields.of_followed {α β γ : Type} {m n : Nat} {p : Parsed α m}
    {q : α → (middle : List Token) → Parsed β middle.length} {f : α → β → γ} {value : γ}
    {hle : m ≤ n}
    (h : ((p.andThen fun a middle h =>
      ((q a middle).map (f a)).widen (Nat.le_of_lt h)).widen hle).Yields value rest) :
    ∃ a middle b, p.Yields a middle ∧ (q a middle).Yields b rest ∧ f a b = value := by
  obtain ⟨_, h⟩ := h
  cases p with
  | panic => cases h
  | ok a middle reports bound =>
    cases hq : q a middle with
    | panic =>
      simp only [Parsed.andThen, hq] at h
      cases h
    | ok b left reports' bound' =>
      simp only [Parsed.andThen, hq, Parsed.map, Parsed.widen, Parsed.after, Parsed.ok.injEq,
        List.append_eq_nil_iff] at h
      obtain ⟨hvalue, rfl, rfl, rfl⟩ := h
      exact ⟨a, middle, b, ⟨bound, rfl⟩, ⟨bound', hq⟩, hvalue⟩

theorem statement_legal {s : Stmt} (h : (statement context ts).Yields s rest)
    (hnames : NamesOnly ts) : s.Legal context.place ∧ s.Plain := by
  obtain ⟨read, rfl, dangling, hderives, _⟩ := (reads_statement context ts).of_yields h
  exact hderives.legal (namesOnly_append_iff.mp hnames).1

theorem loopClauses_legal {clauses : LoopClauses} (h : (loopClauses context ts).Yields clauses rest)
    (hnames : NamesOnly ts) :
    (∀ s ∈ clauses.initializer, s.Legal context.place) ∧ NamesOnly rest := by
  obtain ⟨read, rfl, hhead⟩ := (reads_loopClauses context ts).of_yields h
  obtain ⟨hread, hrest⟩ := namesOnly_append_iff.mp hnames
  cases hhead with
  | mk _ hinitializer _ _ _ _ =>
    rw [namesOnly_cons_iff, namesOnly_append_iff] at hread
    exact ⟨hinitializer.legal hread.2.1, hrest⟩

/-- A recognised `for` loop means what the direct rule says of its clauses and its body, whatever
scopes it stands in and whatever store it starts from. Nothing that it declares is visible to the
code after it. -/
theorem sameEffect_statement_for {keyword : Token} {s : Stmt} {scopes : StaticScopes}
    (hkeyword : keyword.kind = .keyword .kwFor)
    (hs : (statement context (keyword :: ts)).Yields s rest) (hnames : NamesOnly (keyword :: ts))
    (hsuper : scopes.NotHere "super") :
    (s.bindNames scopes).2 = scopes ∧
      ∃ clauses middle body, (loopClauses context ts).Yields clauses middle ∧
        (statement context middle).Yields body rest ∧
        ∀ (rounds depth : Nat) (store : Store), store.Closed →
          (Ended ((s.bindNames scopes).1.exec rounds depth store) →
              SameEffect store ((s.bindNames scopes).1.exec rounds depth store)
                (clauses.run body scopes rounds (depth + 4) store)) ∧
            (Ended (clauses.run body scopes rounds depth store) →
              SameEffect store ((s.bindNames scopes).1.exec rounds (depth + 4) store)
                (clauses.run body scopes rounds depth store)) := by
  have hlegal := statement_legal hs hnames
  refine ⟨s.scopes_bindNames_of_plain scopes hlegal.2 hlegal.1, ?_⟩
  -- after the keyword come the clauses and the body, and the tree is their expansion
  rw [statement] at hs
  simp only [hkeyword] at hs
  obtain ⟨clauses, middle, body, hclauses, hbody, rfl⟩ := hs.of_followed
  obtain ⟨hinitializer, hmiddle⟩ := loopClauses_legal hclauses (namesOnly_cons_iff.mp hnames).2
  have hround := statement_legal hbody hmiddle
  exact ⟨clauses, middle, body, hclauses, hbody, fun rounds depth store hclosed =>
    sameEffect_expand clauses hinitializer hround.2 hround.1 hsuper hclosed rounds depth⟩

/-! ### A loop of one round -/

section OneRound

/-- A token on the first line, a number of characters behind its start. -/
def tokenAt (start length : Nat) (kind : TokenKind) (lexeme : String) : Token :=
  ⟨kind, lexeme, 1, start + 1, .ofLength 1 start length⟩

def oneRoundKeyword : Token := tokenAt 0 3 (.keyword .kwFor) "for"

/-- What follows the keyword in `for (var i = true; i; i = false) print i;`. -/
def oneRoundRest : List Token :=
  [tokenAt 4 1 .leftParen "(", tokenAt 5 3 (.keyword .kwVar) "var", tokenAt 9 1 .identifier "i",
    tokenAt 11 1 .equal "=", tokenAt 13 4 (.keyword .kwTrue) "true", tokenAt 17 1 .semicolon ";",
    tokenAt 19 1 .identifier "i", tokenAt 20 1 .semicolon ";", tokenAt 22 1 .identifier "i",
    tokenAt 24 1 .equal "=", tokenAt 26 5 (.keyword .kwFalse) "false",
    tokenAt 31 1 .rightParen ")", tokenAt 33 5 (.keyword .kwPrint) "print",
    tokenAt 39 1 .identifier "i", tokenAt 40 1 .semicolon ";"]

def oneRoundEnd : Token := tokenAt 41 0 .endOfInput ""

/-- A use of the loop variable. -/
def useOfI (start : Nat) : Reference := ⟨"i", (tokenAt start 1 .identifier "i").anchor, .global⟩

def oneRoundTree : Stmt :=
  .block [.declare "i" (some (.literal (.bool true))),
    .loop (.variable (useOfI 19))
      (.block [.print (.variable (useOfI 39)),
        .expression (.assign (useOfI 22) (.literal (.bool false)))])]

theorem statement_oneRound :
    (statement { ending := oneRoundEnd.found } (oneRoundKeyword :: oneRoundRest)).Yields
      oneRoundTree [] := by
  refine ⟨Nat.succ_pos _, ?_⟩
  cbv

theorem namesOnly_oneRound : NamesOnly (oneRoundKeyword :: oneRoundRest) := by
  simp [NamesOnly, oneRoundKeyword, oneRoundRest, tokenAt, IsName]

theorem exec_oneRound : ∃ after, (oneRoundTree.bindNames []).1.exec 2 8 (Store.initial 0) =
    .ok () after ∧ after.printed = #["true"] :=
  ⟨_, rfl, rfl⟩

/-- The loop of one round, in a new session: it prints one line by either account. -/
theorem sameEffect_statement_for_oneRound :
    (statement { ending := oneRoundEnd.found } (oneRoundKeyword :: oneRoundRest)).Yields
      oneRoundTree [] ∧
    ∃ clauses middle body after,
      (loopClauses { ending := oneRoundEnd.found } oneRoundRest).Yields clauses middle ∧
      (statement { ending := oneRoundEnd.found } middle).Yields body [] ∧
      after.printed = #["true"] ∧
      SameEffect (Store.initial 0) (.ok () after)
        (clauses.run body [] 2 12 (Store.initial 0)) := by
  have hsuper : StaticScopes.NotHere [] "super" := Layout.Fits.session.notHere_super
  have hclosed : (Store.initial 0).Closed := (Session.Reachable.new "/" 0).closed
  obtain ⟨_, clauses, middle, body, hclauses, hbody, heffect⟩ :=
    sameEffect_statement_for rfl statement_oneRound namesOnly_oneRound hsuper
  obtain ⟨after, hafter, hprinted⟩ := exec_oneRound
  have hsame := (heffect 2 8 (Store.initial 0) hclosed).1 (by rw [hafter]; trivial)
  rw [hafter] at hsame
  exact ⟨statement_oneRound, clauses, middle, body, after, hclauses, hbody, hprinted, hsame⟩

end OneRound

end Treewalk
