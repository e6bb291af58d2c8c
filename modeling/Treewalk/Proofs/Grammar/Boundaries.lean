import Treewalk.Proofs.Grammar.Parsing
import Treewalk.Proofs.Grammar.StatementCompleteness

/-!
# From one declaration to the next

A program is parsed one declaration after another, whatever the tokens are. Between two of them the
parser stands before the tokens that are left, outside every function and class, with the statements
and the errors found so far: a panic that unwinds out of functions and classes sets their kinds back
on its way. A declaration takes at least one token, also when it gives up, so the end is reached
after at most as many declarations as there are tokens. What is found from there on depends on the
tokens that are left and on nothing else.
-/

namespace Treewalk

namespace Grammar

theorem noticed_program (context : Context) (ts : List Token) :
    ∀ error ∈ (program context ts).errors, Noticed context.ending ts error := by
  cases ts with
  | nil =>
    rw [program_nil]
    exact fun _ herror => absurd herror List.not_mem_nil
  | cons token rest =>
    have hbound := (declaration context token rest).bound
    have hfirst := reads_declaration context token rest
    rw [program]
    refine List.forall_mem_append.mpr ⟨hfirst.reports, fun error herror => ?_⟩
    have hothers := noticed_program context (declaration context token rest).rest error herror
    exact hothers.mono (hfirst.rest.trans (List.suffix_cons _ _))
termination_by ts.length
decreasing_by grind

/-- A declaration without a tree gave up with an error, which is a panic. -/
theorem exists_givesUp {context : Context} {token : Token} {ts : List Token}
    (h : (declaration context token ts).stmt? = none) :
    ∃ error, (declaration context token ts).GivesUp error ∧ error.stops = true := by
  have hgives : ∃ error, (declaration context token ts).GivesUp error := by
    rw [declaration_eq_settle] at h ⊢
    cases hresult : construct context token ts with
    | ok => rw [hresult] at h; cases h
    | panic error => exact ⟨error, rfl, List.getLast?_concat⟩
  obtain ⟨error, herror⟩ := hgives
  obtain ⟨_, _, hstops, _⟩ := herror.recovers
  exact ⟨error, herror, hstops⟩

/-! ### What follows a program -/

/-- A declaration without problems adds its tree to what follows. -/
theorem program_cons_of_finds {context : Context} {token : Token} {ts rest : List Token}
    {s : Stmt} (h : (declaration context token ts).Finds s rest []) :
    program context (token :: ts) =
      ⟨s :: (program context rest).program, (program context rest).errors⟩ := by
  obtain ⟨hstmt, rfl, hreports⟩ := h
  rw [program]
  simp only [hstmt, hreports.eq_nil]
  rfl

/-- What follows the tokens of a program is recognised as if it stood alone, unless an `else` takes
up the last `if` of the program. -/
theorem DerivesProgram.program_append {ts rest : List Token} {p : Program}
    (h : DerivesProgram ts p) (hrest : startsWith (.keyword .kwElse) rest = false)
    {context : Context} (hcontext : context.place = {}) :
    program context (ts ++ rest) =
      ⟨p ++ (program context rest).program, (program context rest).errors⟩ := by
  induction p generalizing ts with
  | nil =>
    cases h
    rfl
  | cons s p ih =>
    cases h with
    | @consDeclaration _ ts rs _ _ hfirst htail =>
      obtain ⟨token, others, rfl, _⟩ := hfirst.loose.declaration_head
      have helse := htail.loose.startsWith_else rest hrest
      have hs := hfirst.loose.completes context hcontext token others (rs ++ rest) rfl helse
      rw [List.append_assoc, List.cons_append, program_cons_of_finds hs, ih htail]
      rfl

end Grammar

namespace Parser

open Grammar

/-! ### Between two declarations -/

/-- A parser between two declarations of its source, after so many of them, and the statements
found by then. -/
inductive Reaches (source : TokenSource) : Nat → List Stmt → Parser → Prop where
  | start {p : Parser} (h : begin? source = some p) : Reaches source 0 [] p
  | next {n : Nat} {stmts : List Stmt} {stmt? : Option Stmt} {p q : Parser}
    (h : Reaches source n stmts p) (hmore : p.isAtEnd = false)
    (hnext : declaration (source.budget - (n + 1)) p = .ok stmt? q) :
    Reaches source (n + 1) (stmts ++ stmt?.toList) q

/-- Where a parser stands after some declarations: before the tokens that are left, outside every
function and class. What it has found, and what is recognised in these tokens alone, is what is
recognised in all of them. -/
structure Between (tokens : List Token) (ending : Token) (last : TokenSource) (n : Nat)
    (stmts : List Stmt) (p : Parser) (rest : List Token) : Prop where
  suffix : rest <:+ tokens
  length : n + rest.length ≤ tokens.length
  stands : p.Stands ending last { ending := ending.found } rest
  found : recognise tokens ending =
    ⟨stmts ++ (recognise rest ending).program, p.errors ++ (recognise rest ending).errors⟩

variable {tokens rest : List Token} {ending : Token} {source last : TokenSource} {n : Nat}
  {stmts : List Stmt} {p q : Parser}

/-- One declaration more: nothing but a statement comes out of it, and it takes a token. -/
theorem Between.next {token : Token} {ts : List Token}
    (h : Between tokens ending last n stmts p (token :: ts))
    (hsize : tokens.length + 1 ≤ source.size) :
    ∃ stmt? q, declaration (source.budget - (n + 1)) p = .ok stmt? q ∧
      Between tokens ending last (n + 1) (stmts ++ stmt?.toList) q
        (Grammar.declaration { ending := ending.found } token ts).rest := by
  have hlength := h.length
  have hbound := (Grammar.declaration { ending := ending.found } token ts).bound
  have hreads := reads_declaration { ending := ending.found } token ts
  rw [List.length_cons] at hlength
  have hbudget : (ts.length + 1) * 32 + 17 < source.budget - (n + 1) := by
    rw [TokenSource.budget]
    omega
  obtain ⟨q, hdeclaration, hq, herrors⟩ :=
    settles_declaration _ { ending := ending.found } token ts hbudget p h.stands
  refine ⟨_, q, hdeclaration, ?_, by omega, hq, ?_⟩
  · exact hreads.rest.trans ((List.suffix_cons _ _).trans h.suffix)
  · rw [h.found, herrors, recognise, program]
    simp only [List.append_assoc]
    rfl

section

variable (hgives : source.Gives (tokens ++ [ending]) last) (hending : ending.kind = .endOfInput)
  (htokens : ∀ token ∈ tokens, token.kind ≠ .endOfInput)

include hgives

/-- From wherever a parser stands between two declarations, it gets to the end of the input. -/
theorem Reaches.exists_end {n : Nat} {stmts : List Stmt} {p : Parser} {rest : List Token}
    (h : Reaches source n stmts p) (hbetween : Between tokens ending last n stmts p rest) :
    ∃ k found q, Reaches source k found q ∧ Between tokens ending last k found q [] := by
  cases rest with
  | nil => exact ⟨n, stmts, p, h, hbetween⟩
  | cons token ts =>
    -- the tokens that are left get fewer with each declaration, also with one that gives up
    have hbound := (Grammar.declaration { ending := ending.found } token ts).bound
    obtain ⟨stmt?, q, hnext, hafter⟩ := hbetween.next (length_lt_size hgives)
    exact (h.next hbetween.stands.isAtEnd_cons hnext).exists_end hafter
termination_by rest.length
decreasing_by grind

include hending htokens

theorem between_start (h : begin? source = some p) : Between tokens ending last 0 [] p tokens := by
  obtain ⟨q, hbegin, hq, hnone⟩ := exists_begin? hgives hending htokens
  obtain rfl : q = p := Option.some.inj (hbegin.symm.trans h)
  refine ⟨List.suffix_refl _, Nat.le_of_eq (Nat.zero_add _), hq, ?_⟩
  rw [hnone, List.nil_append, List.nil_append]

/-- Wherever a parser stands between two declarations, it has left every function and class. -/
theorem Reaches.exists_between (h : Reaches source n stmts p) :
    ∃ rest, Between tokens ending last n stmts p rest := by
  induction h with
  | start hbegin => exact ⟨tokens, between_start hgives hending htokens hbegin⟩
  | @next n stmts stmt? p q h hmore hnext ih =>
    obtain ⟨rest, hbetween⟩ := ih
    cases rest with
    | nil => exact absurd (hmore.symm.trans hbetween.stands.isAtEnd_nil) Bool.false_ne_true
    | cons token ts =>
      obtain ⟨stmt, later, hlater, hafter⟩ := hbetween.next (length_lt_size hgives)
      -- the declaration that was parsed is the one that `Between.next` speaks of
      rw [hnext] at hlater
      cases hlater
      exact ⟨_, hafter⟩

/-- A parser gets to the end of the input, and has found by then what recognition finds. -/
theorem exists_reaches_end : ∃ n stmts p, Reaches source n stmts p ∧ p.isAtEnd = true ∧
    recognise tokens ending = ⟨stmts, p.errors⟩ := by
  obtain ⟨p, hbegin, _⟩ := exists_begin? hgives hending htokens
  obtain ⟨n, stmts, q, hq, hend⟩ := (Reaches.start hbegin).exists_end hgives
    (between_start hgives hending htokens hbegin)
  refine ⟨n, stmts, q, hq, hend.stands.isAtEnd_nil, ?_⟩
  have hnil : recognise [] ending = ⟨[], []⟩ := program_nil _
  rw [hend.found, hnil, List.append_nil, List.append_nil]

end

/-! ### The end of the input -/

/-- Parsing ends, whatever the tokens before the end of the input are. Nothing escapes from it, and
it stops at the token that ends the input, with its source drained. Wherever the parser stands
between two declarations, it can go on unless it is at the end, and each declaration brings it
nearer. It names no token but those that it was given, the end among them. Every declaration, at the
top or inside another one, takes at least one token, and one that fails records why. -/
theorem parse_drains {tokens : List Token} {ending : Token} {source last : TokenSource}
    (hgives : source.Gives (tokens ++ [ending]) last) (hending : ending.kind = .endOfInput)
    (htokens : ∀ token ∈ tokens, token.kind ≠ .endOfInput) :
    (∃ p, parse source = .ok ((recognise tokens ending).program, p) ∧
      p.errors = (recognise tokens ending).errors ∧ p.current = ending ∧ p.source = last) ∧
    (∃ n stmts p, Reaches source n stmts p ∧ p.isAtEnd = true ∧
      recognise tokens ending = ⟨stmts, p.errors⟩) ∧
    (∀ n stmts p, Reaches source n stmts p → ∃ rest, rest <:+ tokens ∧
      n + rest.length ≤ tokens.length ∧ (p.isAtEnd = true ↔ rest = []) ∧
      (rest ≠ [] → ∃ stmt? q, declaration (source.budget - (n + 1)) p = .ok stmt? q)) ∧
    (∀ error ∈ (recognise tokens ending).errors,
      ∃ token ∈ tokens ++ [ending], error.found = token.found) ∧
    ∀ (context : Context) (token : Token) (ts : List Token),
      (∃ read, read ≠ [] ∧ token :: ts = read ++ (Grammar.declaration context token ts).rest) ∧
      ((Grammar.declaration context token ts).stmt? = none →
        ∃ error, (Grammar.declaration context token ts).GivesUp error ∧ error.stops = true) ∧
      ∀ budget, (ts.length + 1) * 32 + 17 < budget →
        Settles ending last context (declaration budget) (token :: ts)
          (Grammar.declaration context token ts) := by
  refine ⟨exists_parse_eq hgives hending htokens, exists_reaches_end hgives hending htokens,
    fun n stmts p h => ?_, fun error herror => ?_, fun context token ts =>
      ⟨?_, exists_givesUp, fun budget hbudget =>
        settles_declaration budget context token ts hbudget⟩⟩
  · obtain ⟨rest, hbetween⟩ := h.exists_between hgives hending htokens
    refine ⟨rest, hbetween.suffix, hbetween.length, ?_, fun hne => ?_⟩
    · cases rest with
      | nil => exact iff_of_true hbetween.stands.isAtEnd_nil rfl
      | cons token ts => simp [hbetween.stands.isAtEnd_cons]
    · obtain ⟨token, ts, rfl⟩ := List.exists_cons_of_ne_nil hne
      obtain ⟨stmt?, q, hnext, _⟩ := hbetween.next (length_lt_size hgives)
      exact ⟨stmt?, q, hnext⟩
  · rcases (noticed_program _ tokens error herror).named with hfound | ⟨token, htoken, hfound⟩
    · exact ⟨ending, by simp, hfound⟩
    · exact ⟨token, by simp [htoken], hfound⟩
  · obtain ⟨read, hread⟩ := (reads_declaration context token ts).rest
    exact ⟨token :: read, List.cons_ne_nil _ _, by rw [List.cons_append, hread]⟩

section UnclosedClass

/-- The class `class A { 1`, whose body holds no method and is not closed. -/
def unclosedClass : List Token :=
  [⟨.keyword .kwClass, "class", 1, 1, .ofLength 1 0 5⟩, ⟨.identifier, "A", 1, 7, .ofLength 1 6 1⟩,
    ⟨.leftBrace, "\x7b", 1, 9, .ofLength 1 8 1⟩, ⟨.number 1, "1", 1, 11, .ofLength 1 10 1⟩]

def unclosedEnd : Token := ⟨.endOfInput, "", 1, 12, .ofLength 1 11 0⟩

theorem kind_unclosedClass : ∀ token ∈ unclosedClass, token.kind ≠ .endOfInput := by
  simp [unclosedClass]

/-- The panic in the class is recorded, and the parser is at the end. -/
theorem parse_drains_unclosedClass :
    ∃ p, parse (.listed (unclosedClass ++ [unclosedEnd])) =
        .ok ((recognise unclosedClass unclosedEnd).program, p) ∧
      p.errors = (recognise unclosedClass unclosedEnd).errors ∧ p.current = unclosedEnd ∧
      p.source = .listed [] :=
  (parse_drains (TokenSource.gives_listed _) rfl kind_unclosedClass).1

end UnclosedClass

/-! ### Nothing is carried over -/

/-- A computation leaves a parser in a state, with a value or by an interruption. -/
def Leaves {α : Type} (x : ParseM α) (p q : Parser) : Prop :=
  (∃ value, x p = .ok value q) ∨ ∃ interruption, x p = .error interruption q

section

variable {context : Context} {α : Type} {m : Nat} {x : ParseM α} {ts : List Token}

theorem Stands.kinds_eq (hp : p.Stands ending last context ts)
    (hq : q.Stands ending last context rest) :
    q.functionKind = p.functionKind ∧ q.classKind = p.classKind :=
  ⟨hq.function.trans hp.function.symm, hq.enclosing.trans hp.enclosing.symm⟩

/-- A construct is left in the function and the class where it was entered, also by a panic. -/
theorem Pulls.kinds_eq {found : Parsed α m} (hx : Pulls ending last context x ts found)
    (hp : p.Stands ending last context ts) (h : Leaves x p q) :
    q.functionKind = p.functionKind ∧ q.classKind = p.classKind := by
  have hfollows := hx p hp
  rcases h with ⟨value, hq⟩ | ⟨interruption, hq⟩
  · rw [hq] at hfollows
    cases hfollows with
    | ok hq _ => exact hp.kinds_eq hq
  · rw [hq] at hfollows
    cases hfollows with
    | panic hq _ => exact hp.kinds_eq hq

theorem Settles.kinds_eq {x : ParseM (Option Stmt)} {d : Declared m}
    (hx : Settles ending last context x ts d) (hp : p.Stands ending last context ts)
    (h : Leaves x p q) : q.functionKind = p.functionKind ∧ q.classKind = p.classKind := by
  obtain ⟨later, hlater, hstands, _⟩ := hx p hp
  rcases h with ⟨value, hq⟩ | ⟨interruption, hq⟩
  · rw [hlater] at hq
    cases hq
    exact hp.kinds_eq hstands
  · rw [hlater] at hq
    cases hq

end

/-- Nothing is carried over from one declaration of a program to the next. Every construct is left,
with a value or by a panic, in the function and the class where it was entered. So before each
declaration of a program the parser is outside every function and class, and what it still finds
there is what a fresh parser finds in the tokens that are left. Hence what follows a program without
errors is parsed as if it stood alone, unless it begins with `else`. -/
theorem parse_afresh {tokens : List Token} {ending : Token} {source last : TokenSource}
    (hgives : source.Gives (tokens ++ [ending]) last) (hending : ending.kind = .endOfInput)
    (htokens : ∀ token ∈ tokens, token.kind ≠ .endOfInput) :
    (∀ (budget : Nat) (context : Context) (ts : List Token) (p q : Parser),
      p.Stands ending last context ts → ts.length * 32 + 18 < budget →
      Leaves (assignment budget) p q ∨ Leaves (statement budget) p q ∨
        Leaves (block budget) p q ∨ Leaves (classDeclaration budget) p q ∨
        (∃ kind, Leaves (functionDeclaration budget kind) p q) ∨
        (ts ≠ [] ∧ Leaves (declaration budget) p q) →
      q.functionKind = p.functionKind ∧ q.classKind = p.classKind) ∧
    (∀ n stmts p, Reaches source n stmts p →
      p.functionKind = .none ∧ p.classKind = .none ∧
      ∃ rest later others fresh final, rest <:+ tokens ∧
        p.source.Gives later last ∧ p.current :: later = rest ++ [ending] ∧
        parse (.listed (rest ++ [ending])) = .ok (others, fresh) ∧
        parse source = .ok (stmts ++ others, final) ∧
        final.errors = p.errors ++ fresh.errors) ∧
    ∀ (first : List Token) (firstEnding : Token) (stmts : List Stmt) (firstParser : Parser),
      (∀ token ∈ first, token.kind ≠ .endOfInput) → firstEnding.kind = .endOfInput →
      parse (.listed (first ++ [firstEnding])) = .ok (stmts, firstParser) →
      firstParser.errors = [] → startsWith (.keyword .kwElse) tokens = false →
      ∃ others fresh joined, parse source = .ok (others, fresh) ∧
        parse (.listed (first ++ tokens ++ [ending])) = .ok (stmts ++ others, joined) ∧
        joined.errors = fresh.errors := by
  obtain ⟨whole, hwhole, herrors, _⟩ := exists_parse_eq hgives hending htokens
  refine ⟨fun budget context ts p q hp hbudget hleaves => ?_, fun n stmts p h => ?_,
    fun first firstEnding stmts firstParser hfirst hfirstEnding hparse hnone helse => ?_⟩
  · rcases hleaves with hleaves | hleaves | hleaves | hleaves | ⟨kind, hleaves⟩ | ⟨hne, hleaves⟩
    · exact (pulls_assignment budget context ts (by omega)).kinds_eq hp hleaves
    · exact (pulls_statement budget context ts (by omega)).kinds_eq hp hleaves
    · exact (pulls_block budget context ts hbudget).kinds_eq hp hleaves
    · exact (pulls_classDeclaration budget context ts (by omega)).kinds_eq hp hleaves
    · exact (pulls_functionDeclaration budget context kind ts (by omega)).kinds_eq hp hleaves
    · obtain ⟨token, others, rfl⟩ := List.exists_cons_of_ne_nil hne
      rw [List.length_cons] at hbudget
      exact (settles_declaration budget context token others (by omega)).kinds_eq hp hleaves
  · obtain ⟨rest, hbetween⟩ := h.exists_between hgives hending htokens
    obtain ⟨later, hlater, hcurrent⟩ := hbetween.stands.tokens
    obtain ⟨fresh, hfresh, hfound, _⟩ :=
      exists_parse_eq (TokenSource.gives_listed (rest ++ [ending])) hending hbetween.stands.inside
    refine ⟨hbetween.stands.function, hbetween.stands.enclosing, rest, later, _, fresh, whole,
      hbetween.suffix, hlater, hcurrent, hfresh, ?_, ?_⟩
    · rw [hwhole, hbetween.found]
    · rw [herrors, hfound, hbetween.found]
  · obtain ⟨found, hfound, hfoundErrors, _⟩ :=
      exists_parse_eq (TokenSource.gives_listed (first ++ [firstEnding])) hfirstEnding hfirst
    rw [hfound] at hparse
    cases hparse
    have hderives : DerivesProgram first (recognise first firstEnding).program :=
      derivesProgram_of_recognise_eq (by rw [← hnone, hfoundErrors])
    have hjoined : ∀ token ∈ first ++ tokens, token.kind ≠ .endOfInput :=
      List.forall_mem_append.mpr ⟨hfirst, htokens⟩
    obtain ⟨joined, hjoin, hjoinErrors, _⟩ := exists_parse_eq
      (TokenSource.gives_listed (first ++ tokens ++ [ending])) hending hjoined
    have happend : recognise (first ++ tokens) ending = _ := hderives.program_append helse rfl
    refine ⟨_, whole, joined, hwhole, ?_, ?_⟩
    · rw [hjoin, happend]
      rfl
    · rw [hjoinErrors, herrors, happend]
      rfl

/-- The panic in the unclosed class is recorded, and the parser is outside of the class again. -/
theorem parse_afresh_unclosedClass :
    ∃ n stmts p, Reaches (.listed (unclosedClass ++ [unclosedEnd])) n stmts p ∧
      p.errors.length = 1 ∧ p.functionKind = .none ∧ p.classKind = .none := by
  have hgives := TokenSource.gives_listed (unclosedClass ++ [unclosedEnd])
  obtain ⟨n, stmts, p, hreaches, _, hfound⟩ := exists_reaches_end hgives rfl kind_unclosedClass
  have hafresh := (parse_afresh hgives rfl kind_unclosedClass).2.1 n stmts p hreaches
  refine ⟨n, stmts, p, hreaches, ?_, hafresh.1, hafresh.2.1⟩
  have hpanic : (recognise unclosedClass unclosedEnd).errors.length = 1 := by cbv
  rwa [hfound] at hpanic

end Parser

end Treewalk
