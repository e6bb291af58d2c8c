import Treewalk.Proofs.Grammar.Boundaries

/-!
# Where recognition goes on after a panic

A place between two tokens is a boundary if nothing follows it, if a keyword that begins a
statement follows it, or if the last token that was passed over is a semicolon. After a panic
recognition goes on at the first boundary behind the offending token. So it never passes over a
keyword that begins a statement, with one exception: the offending token itself is passed over
whatever it is, and a statement that begins with it is lost.
-/

namespace Treewalk.Grammar

/-- The keywords that begin a declaration or a statement. -/
def statementKeywords : List Keyword :=
  [.kwClass, .kwFun, .kwVar, .kwFor, .kwIf, .kwWhile, .kwPrint, .kwReturn]

/-- A token that begins a declaration or a statement with a keyword. -/
def StartsStatement (token : Token) : Prop :=
  ∃ word ∈ statementKeywords, token.kind = .keyword word

theorem beginsStatement_iff {token : Token} :
    beginsStatement token = true ↔ StartsStatement token := by
  unfold beginsStatement StartsStatement
  cases token.kind with
  | keyword word => cases word <;> simp [statementKeywords]
  | _ => simp

/-- Recognition can go on before `rest`, when the tokens of `passed` were passed over. -/
def Boundary (passed rest : List Token) : Prop :=
  rest = [] ∨ (∃ token ∈ rest.head?, StartsStatement token) ∨
    ∃ token ∈ passed.getLast?, token.kind = .semicolon

/-- The first boundary of a list of tokens, at least some tokens onward. -/
def FirstBoundary (least : Nat) (ts rest : List Token) : Prop :=
  ∃ passed, ts = passed ++ rest ∧ least ≤ passed.length ∧ Boundary passed rest ∧
    ∀ earlier later, ts = earlier ++ later → least ≤ earlier.length →
      earlier.length < passed.length → ¬ Boundary earlier later

theorem not_boundary_nil {ts : List Token} {offending : Token}
    (h : ¬ StartsStatement offending) : ¬ Boundary [] (offending :: ts) := by
  rintro (hnil | ⟨token, htoken, hstarts⟩ | ⟨token, htoken, _⟩)
  · cases hnil
  · obtain rfl := Option.some.inj htoken
    exact h hstarts
  · cases htoken

/-- A token that was passed over before others does not matter. -/
theorem boundary_cons_iff {first : Token} {passed rest : List Token} (h : passed ≠ []) :
    Boundary (first :: passed) rest ↔ Boundary passed rest := by
  unfold Boundary
  rw [List.getLast?_cons_of_ne_nil h]

/-- Right behind the offending token there is a boundary just in the cases in which recovery stops
there. -/
theorem boundary_singleton_iff {dropped token : Token} {rest : List Token} :
    Boundary [dropped] (token :: rest) ↔
      dropped.kind = .semicolon ∨ beginsStatement token = true := by
  rw [beginsStatement_iff]
  constructor
  · rintro (hnil | ⟨first, hfirst, hstarts⟩ | ⟨last, hlast, hkind⟩)
    · cases hnil
    · obtain rfl := Option.some.inj hfirst
      exact .inr hstarts
    · obtain rfl := Option.some.inj hlast
      exact .inl hkind
  · rintro (hkind | hstarts)
    · exact .inr (.inr ⟨dropped, rfl, hkind⟩)
    · exact .inr (.inl ⟨token, rfl, hstarts⟩)

theorem firstBoundary_singleton {dropped : Token} {rest : List Token}
    (h : Boundary [dropped] rest) : FirstBoundary 1 (dropped :: rest) rest := by
  refine ⟨[dropped], rfl, Nat.le_refl _, h, fun earlier later _ hleast hearlier => ?_⟩
  rw [List.length_singleton] at hearlier
  omega

/-- The first boundary is one token farther if there is none right behind the first token. -/
theorem FirstBoundary.cons {dropped : Token} {ts rest : List Token} (h : FirstBoundary 1 ts rest)
    (hdropped : ¬ Boundary [dropped] ts) : FirstBoundary 1 (dropped :: ts) rest := by
  obtain ⟨passed, rfl, hleast, hboundary, hfirst⟩ := h
  have hpassed : passed ≠ [] := List.ne_nil_of_length_pos hleast
  refine ⟨dropped :: passed, rfl, Nat.succ_le_succ (Nat.zero_le _), ?_, ?_⟩
  · exact (boundary_cons_iff hpassed).mpr hboundary
  · intro earlier later heq hleast' hearlier
    cases earlier with
    | nil => cases hleast'
    | cons first earlier =>
      obtain ⟨rfl, htail⟩ := List.cons.inj heq
      cases earlier with
      | nil =>
        have hlater : passed ++ rest = later := htail
        rwa [← hlater]
      | cons second earlier =>
        rw [boundary_cons_iff (List.cons_ne_nil _ _)]
        refine hfirst _ later htail ?_ ?_
        · exact Nat.succ_le_succ (Nat.zero_le _)
        · exact Nat.lt_of_succ_lt_succ hearlier

theorem firstBoundary_resume (dropped : Token) (ts : List Token) :
    FirstBoundary 1 (dropped :: ts) (resume dropped ts) := by
  induction ts generalizing dropped with
  | nil => exact firstBoundary_singleton (.inl rfl)
  | cons token rest ih =>
    rw [resume]
    split
    · rename_i hstop
      exact firstBoundary_singleton (boundary_singleton_iff.mpr hstop)
    · rename_i hstop
      exact (ih token).cons fun hboundary => hstop (boundary_singleton_iff.mp hboundary)

/-- Recovery leads to the first boundary behind the offending token. -/
theorem firstBoundary_recover (offending : Token) (ts : List Token) :
    FirstBoundary 1 (offending :: ts) (recover (offending :: ts)) :=
  firstBoundary_resume offending ts

/-- Behind the offending token no keyword that begins a statement is passed over. -/
theorem FirstBoundary.not_startsStatement {offending : Token} {ts rest : List Token}
    (h : FirstBoundary 1 (offending :: ts) rest) :
    ∃ skipped, ts = skipped ++ rest ∧ ∀ token ∈ skipped, ¬ StartsStatement token := by
  obtain ⟨passed, heq, hleast, _, hfirst⟩ := h
  cases passed with
  | nil => cases hleast
  | cons first skipped =>
    obtain ⟨rfl, rfl⟩ := List.cons.inj heq
    refine ⟨skipped, rfl, fun token htoken hstarts => ?_⟩
    -- the place right before such a keyword would have been a boundary
    obtain ⟨before, behind, rfl⟩ := List.append_of_mem htoken
    refine hfirst (offending :: before) (token :: (behind ++ rest)) (by simp) ?_ ?_
      (.inr (.inl ⟨token, rfl, hstarts⟩))
    · exact Nat.succ_le_succ (Nat.zero_le _)
    · simp

/-- Recovery leads to the first boundary from the offending token on, unless this token begins a
statement. -/
theorem firstBoundary_zero_recover_iff (left : List Token) :
    FirstBoundary 0 left (recover left) ↔
      ∀ offending ∈ left.head?, ¬ StartsStatement offending := by
  constructor
  · rintro ⟨passed, heq, _, _, hfirst⟩ offending hoffending hstarts
    cases left with
    | nil => cases hoffending
    | cons token rest =>
      obtain rfl := Option.some.inj hoffending
      -- the place before the token is a boundary, but the token was dropped
      have hpassed : 0 < passed.length := by
        have hlength := congrArg List.length heq
        have hle := length_resume_le token rest
        rw [List.length_append, List.length_cons, recover] at hlength
        omega
      exact hfirst [] (token :: rest) rfl (Nat.zero_le _) hpassed
        (.inr (.inl ⟨token, rfl, hstarts⟩))
  · intro h
    cases left with
    | nil =>
      refine ⟨[], rfl, Nat.le_refl _, .inl rfl, fun earlier later _ _ hearlier => ?_⟩
      cases hearlier
    | cons offending rest =>
      obtain ⟨passed, heq, _, hboundary, hfirst⟩ := firstBoundary_recover offending rest
      refine ⟨passed, heq, Nat.zero_le _, hboundary, fun earlier later hsplit _ hearlier => ?_⟩
      cases earlier with
      | nil =>
        rw [List.nil_append] at hsplit
        rw [← hsplit]
        exact not_boundary_nil (h offending rfl)
      | cons first earlier =>
        exact hfirst _ later hsplit (Nat.succ_le_succ (Nat.zero_le _)) hearlier

/-- Every panic in the recognition of a program happens in some declaration, at a token or at the
end, and the error names it. Recognition goes on at the first boundary behind the token, and passes
over no keyword that begins a statement on the way. This is the first boundary from the token on
just if the token itself is no such keyword. -/
theorem recognise_resumes {tokens : List Token} {ending : Token} {error : GrammarError}
    (herror : error ∈ (recognise tokens ending).errors) (hstops : error.stops = true) :
    ∃ (context : Context) (token : Token) (ts left : List Token),
      context.ending = ending.found ∧ token :: ts <:+ tokens ∧
      (declaration context token ts).GivesUp error ∧
      left <:+ token :: ts ∧ error.found = context.here left ∧
      (∀ offending others, left = offending :: others →
        FirstBoundary 1 left (declaration context token ts).rest ∧
        ∃ skipped, others = skipped ++ (declaration context token ts).rest ∧
          ∀ skip ∈ skipped, ¬ StartsStatement skip) ∧
      (FirstBoundary 0 left (declaration context token ts).rest ↔
        ∀ offending ∈ left.head?, ¬ StartsStatement offending) := by
  obtain ⟨context, token, ts, hending, hts, hgives⟩ :=
    (noticed_program _ tokens error herror).givenUp hstops
  obtain ⟨left, hleft, _, hfound, hrest⟩ := hgives.recovers
  refine ⟨context, token, ts, left, hending, hts, hgives, hleft, hfound, ?_, ?_⟩
  · rintro offending others rfl
    rw [hrest]
    have hfirst := firstBoundary_recover offending others
    exact ⟨hfirst, hfirst.not_startsStatement⟩
  · rw [hrest]
    exact firstBoundary_zero_recover_iff left

/-! ### A statement that is lost -/

section UnfinishedPrint

/-- The keyword that begins the second of two statements. -/
def secondPrint : Token := ⟨.keyword .kwPrint, "print", 2, 1, .ofLength 1 8 5⟩

/-- The statement `print b;` on the second line. -/
def finishedPrint : List Token :=
  [secondPrint, ⟨.identifier, "b", 2, 7, .ofLength 1 14 1⟩,
    ⟨.semicolon, ";", 2, 8, .ofLength 1 15 1⟩]

/-- The first statement, which has no semicolon, from its second token on, and the other one. -/
def unfinishedRest : List Token :=
  ⟨.identifier, "a", 1, 7, .ofLength 1 6 1⟩ :: finishedPrint

/-- The keyword that begins the first statement. -/
def firstPrint : Token := ⟨.keyword .kwPrint, "print", 1, 1, .ofLength 1 0 5⟩

def unfinishedEnd : Token := ⟨.endOfInput, "", 2, 9, .ofLength 1 16 0⟩

/-- The problem at the keyword of the second statement. -/
def missingSemicolon : GrammarError := .expectedToken secondPrint.found "Expect ';' after value"

theorem recognise_unfinishedPrint :
    recognise (firstPrint :: unfinishedRest) unfinishedEnd = ⟨[], [missingSemicolon]⟩ := by
  cbv

/-- A panic at the end of a statement without a semicolon. -/
theorem recognise_resumes_unfinishedPrint :
    missingSemicolon ∈ (recognise (firstPrint :: unfinishedRest) unfinishedEnd).errors ∧
    missingSemicolon.stops = true ∧
    ∃ (context : Context) (token : Token) (ts left : List Token),
      context.ending = unfinishedEnd.found ∧ token :: ts <:+ firstPrint :: unfinishedRest ∧
      (declaration context token ts).GivesUp missingSemicolon ∧
      left <:+ token :: ts ∧ missingSemicolon.found = context.here left ∧
      (∀ offending others, left = offending :: others →
        FirstBoundary 1 left (declaration context token ts).rest ∧
        ∃ skipped, others = skipped ++ (declaration context token ts).rest ∧
          ∀ skip ∈ skipped, ¬ StartsStatement skip) ∧
      (FirstBoundary 0 left (declaration context token ts).rest ↔
        ∀ offending ∈ left.head?, ¬ StartsStatement offending) := by
  have herror : missingSemicolon ∈
      (recognise (firstPrint :: unfinishedRest) unfinishedEnd).errors := by
    rw [recognise_unfinishedPrint]
    exact List.mem_singleton.mpr rfl
  exact ⟨herror, rfl, recognise_resumes herror rfl⟩

theorem declaration_unfinishedPrint :
    (declaration { ending := unfinishedEnd.found } firstPrint unfinishedRest).GivesUp
      missingSemicolon ∧
    (declaration { ending := unfinishedEnd.found } firstPrint unfinishedRest).rest =
      recover finishedPrint := by
  refine ⟨⟨?_, ?_⟩, ?_⟩ <;> cbv

/-- The keyword of a statement right after an unfinished one is where the panic happens. It is
dropped, and its statement is lost, although nothing is wrong with the statement. -/
theorem keyword_after_unfinishedPrint_dropped :
    let first := declaration { ending := unfinishedEnd.found } firstPrint unfinishedRest
    first.GivesUp missingSemicolon ∧ StartsStatement secondPrint ∧
      ¬ FirstBoundary 0 finishedPrint first.rest ∧
      recognise (firstPrint :: unfinishedRest) unfinishedEnd = ⟨[], [missingSemicolon]⟩ ∧
      (recognise finishedPrint unfinishedEnd).program.length = 1 ∧
      (recognise finishedPrint unfinishedEnd).errors = [] := by
  intro first
  have hstarts : StartsStatement secondPrint := ⟨.kwPrint, by decide, rfl⟩
  have hdropped : ¬ FirstBoundary 0 finishedPrint first.rest := by
    rw [declaration_unfinishedPrint.2, firstBoundary_zero_recover_iff]
    exact fun h => h secondPrint rfl hstarts
  exact ⟨declaration_unfinishedPrint.1, hstarts, hdropped, recognise_unfinishedPrint, by cbv,
    by cbv⟩

end UnfinishedPrint

end Treewalk.Grammar
