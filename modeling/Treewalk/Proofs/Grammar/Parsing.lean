import Treewalk.Proofs.Grammar.StatementPulling
import Treewalk.Proofs.Token.Passes
import Treewalk.Proofs.Token.Tiling

/-!
# Parsing a whole source

A parser comes to the end of its source, whatever the tokens are: nothing escapes from it, it does
not ask for a token behind the end, and the nesting it is allowed is enough. It has found there what
recognition finds on the list of all tokens. So a pass over a text that a parser pulls from is
drained, and has noted all lexical errors of the text.
-/

namespace Treewalk

/-! ### How many tokens a source gives -/

namespace Scanner

/-- Taking a lexeme queues at most one token. -/
theorem pending_take? {s later : Scanner} (h : s.take? = some later) :
    later.pending.length ≤ s.pending.length + 1 := by
  unfold take? at h
  cases hstep : s.cursor.step s.file with
  | none =>
    rw [hstep] at h
    cases h
  | some found =>
    rw [hstep] at h
    cases h
    rw [List.length_append]
    exact Nat.add_le_add_left Option.length_toList_le _

theorem size_pull {s later : Scanner} {token : Token} (h : s.pull = (some token, later)) :
    later.pending.length + later.cursor.rest.length <
      s.pending.length + s.cursor.rest.length := by
  fun_induction pull s with
  | case1 s t others hpending =>
    -- a queued token is given without reading on
    cases h
    rw [hpending]
    exact Nat.add_lt_add_right (Nat.lt_succ_self _) _
  | case2 => cases h
  | case3 s hpending next htake hshorter ih =>
    -- a lexeme may queue a token, but it takes at least one character
    have hqueued := pending_take? htake
    have hpulled := ih h
    omega

theorem size_next_running {s later : Scanner} {pass : Pass} {token : Token}
    (h : s.next .running = (some token, pass, later)) :
    (TokenSource.scanning later pass).size < (TokenSource.scanning s .running).size := by
  rw [next] at h
  cases hpull : s.pull with
  | mk token? pulled =>
    rw [hpull] at h
    cases token? with
    | none =>
      cases h
      exact Nat.succ_pos _
    | some token =>
      cases h
      exact Nat.succ_lt_succ (size_pull hpull)

theorem next_running_ne_none {s later : Scanner} {pass : Pass} :
    s.next .running ≠ (none, pass, later) := by
  intro h
  rw [next] at h
  cases hpull : s.pull with
  | mk token? pulled =>
    rw [hpull] at h
    cases token? <;> cases h

/-- Only a pass that is finished has no token left. -/
theorem finished_of_next_eq_none {s later : Scanner} {pass pass' : Pass}
    (h : s.next pass = (none, pass', later)) : pass = .finished ∧ later = s := by
  cases pass with
  | finished =>
    cases h
    exact ⟨rfl, rfl⟩
  | running => exact absurd h next_running_ne_none
  | untouched => exact absurd (show s.restart.next .running = _ from h) next_running_ne_none

end Scanner

namespace TokenSource

theorem size_next {source later : TokenSource} {token : Token}
    (h : source.next = (some token, later)) : later.size < source.size := by
  cases source with
  | listed tokens =>
    cases tokens with
    | nil => cases h
    | cons token tokens =>
      cases h
      exact Nat.lt_succ_self _
  | scanning s pass =>
    cases hnext : s.next pass with
    | mk token? after =>
      obtain ⟨pass', s'⟩ := after
      rw [next, hnext] at h
      cases h
      cases pass with
      | finished => cases hnext
      | running => exact Scanner.size_next_running hnext
      | untouched =>
        -- the first request starts again, and from there on the pass is like one on its way
        have hsize := Scanner.size_next_running (s := s.restart) hnext
        simpa [size, Scanner.restart] using hsize

theorem Gives.length_le_size {source last : TokenSource} {tokens : List Token}
    (h : source.Gives tokens last) : tokens.length ≤ source.size := by
  induction h with
  | done => exact Nat.zero_le _
  | more hnext _ ih =>
    have := size_next hnext
    rw [List.length_cons]
    omega

theorem gives_listed (tokens : List Token) : (listed tokens).Gives tokens (.listed []) := by
  induction tokens with
  | nil => exact .done
  | cons token tokens ih => exact .more rfl ih

/-- What a pass yields, its tokens give. -/
theorem gives_scanning {s last : Scanner} {pass : Pass} {tokens : List Token}
    (h : s.Yields pass tokens last) :
    (scanning s pass).Gives tokens (.scanning last .finished) := by
  induction h with
  | @done s later pass ended h =>
    obtain ⟨rfl, rfl⟩ := Scanner.finished_of_next_eq_none h
    exact .done
  | more h _ ih => exact .more (by rw [next, h]) ih

end TokenSource

/-- No token before the end of a text ends the input. -/
theorem kind_ne_endOfInput {file : Int} {text : String} {token : Token}
    (h : token ∈ (scan file text).tokens) : token.kind ≠ .endOfInput := by
  have htiles : Tiles file 0 text.toList (scan file text).items :=
    Cursor.tiles_scanAll file ⟨text.toList, 0, 1, 0⟩
  have hspells := ((htiles.covers rfl).2.2 token (mem_filterMap_token?_iff.mp h)).2.spells
  intro hkind
  rw [hkind] at hspells
  cases hspells with
  | symbol hsymbol => simp [symbols] at hsymbol

namespace Parser

open Grammar

variable {ending : Token} {source last : TokenSource} {context : Context} {tokens ts : List Token}

/-- Declarations up to the end of the input are parsed as on a list. -/
theorem Stands.declarations {s : Parser} (hs : s.Stands ending last context ts) {budget : Nat}
    (h : ts.length * 32 + 18 < budget) :
    ∃ q, Parser.declarations budget s = .ok (program context ts).program q ∧
      q.Stands ending last context [] ∧ q.errors = s.errors ++ (program context ts).errors := by
  induction budget generalizing s ts with
  | zero => omega
  | succ budget ih =>
    rw [Parser.declarations]
    cases ts with
    | nil =>
      rw [program_nil]
      refine ⟨s, ?_, hs, (List.append_nil _).symm⟩
      simp [atEnd, bind, EStateM.bind, hs.isAtEnd_nil, pure, EStateM.pure]
    | cons token rest =>
      rw [List.length_cons] at h
      have hbound := (Grammar.declaration context token rest).bound
      obtain ⟨later, hfirst, hlater, herrors⟩ :=
        settles_declaration budget context token rest (by omega) s hs
      obtain ⟨q, hothers, hq, hsame⟩ := ih hlater (by omega)
      refine ⟨q, ?_, hq, ?_⟩
      · rw [program]
        simp [atEnd, bind, EStateM.bind, hs.isAtEnd_cons, hfirst, hothers, pure, EStateM.pure]
      · rw [program, hsame, herrors, List.append_assoc]

theorem length_lt_size (hgives : source.Gives (tokens ++ [ending]) last) :
    tokens.length + 1 ≤ source.size := by
  have hsize := hgives.length_le_size
  rwa [List.length_append, List.length_singleton] at hsize

theorem exists_begin? (hgives : source.Gives (tokens ++ [ending]) last)
    (hending : ending.kind = .endOfInput) (htokens : ∀ token ∈ tokens, token.kind ≠ .endOfInput) :
    ∃ p, begin? source = some p ∧ p.Stands ending last { ending := ending.found } tokens ∧
      p.errors = [] := by
  cases tokens <;> cases hgives with
  | more hnext hothers =>
    exact ⟨_, by rw [begin?, hnext], ⟨⟨_, hothers, rfl⟩, hending, htokens, rfl, rfl, rfl⟩, rfl⟩

/-- A parser finds what recognition finds on the list of all tokens, and drains its source. -/
theorem exists_parse_eq (hgives : source.Gives (tokens ++ [ending]) last)
    (hending : ending.kind = .endOfInput) (htokens : ∀ token ∈ tokens, token.kind ≠ .endOfInput) :
    ∃ p, parse source = .ok ((recognise tokens ending).program, p) ∧
      p.errors = (recognise tokens ending).errors ∧ p.current = ending ∧ p.source = last := by
  have hsize := length_lt_size hgives
  obtain ⟨s, hbegin, hs, hnone⟩ := exists_begin? hgives hending htokens
  have hbudget : tokens.length * 32 + 18 < source.budget := by
    rw [TokenSource.budget]
    omega
  obtain ⟨p, hparse, hp, herrors⟩ := hs.declarations hbudget
  refine ⟨p, ?_, ?_, hp.current_nil⟩
  · rw [parse, hbegin]
    simp only [hparse]
    rfl
  · rw [herrors, hnone]
    rfl

/-- A parser that pulls its tokens from a scanner finds what recognition finds on the tokens of the
text. It drains the scanner, which has noted all errors of the text by then. -/
theorem exists_parse_scanning (file : Int) (text : String) :
    let scanned := scan file text
    ∃ p, parse (.scanning (.ofText file text) .untouched) =
        .ok ((recognise scanned.tokens scanned.endToken).program, p) ∧
      p.errors = (recognise scanned.tokens scanned.endToken).errors ∧
      p.current = scanned.endToken ∧
      p.source = .scanning (Scanner.ofText file text).tokenize.2 .finished := by
  have hgives := TokenSource.gives_scanning (Scanner.yields_tokenize (.ofText file text))
  exact exists_parse_eq hgives rfl fun token htoken => kind_ne_endOfInput htoken

end Parser

end Treewalk
