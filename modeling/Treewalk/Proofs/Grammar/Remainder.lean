import Treewalk.Grammar.Statement
import Treewalk.Proofs.Diagnostic.Escapes

/-!
# What recognition does with its tokens

Recognition reads a list of tokens from its front. Whether it succeeds or panics, what it leaves is
a last part of the list. A problem names a token of the list, or the end if there is none left, and
a panic happens at the first token that was not read. What the grammar says of a problem is fixed,
and has no escape characters. If nothing is reported, then the value is one that the tokens spell.

All this is said of an outcome at once, so that there is one rule for each way of combining outcomes
and one statement for each recogniser.
-/

namespace Treewalk

/-- Whether a problem stops the recognition of a construct; the others are only noted. -/
def GrammarError.stops : GrammarError → Bool
  | .expectedToken _ _ | .expectedExpression _ => true
  | _ => false

/-- The token at which a problem was noticed. -/
def GrammarError.found : GrammarError → Found
  | .expectedToken found _ | .expectedExpression found | .invalidAssignmentTarget found
  | .tooManyArguments found | .tooManyParameters found | .misplacedKeyword found _ => found

/-- What the grammar says of an error, beside the token at which it was noticed. -/
def GrammarError.remark : GrammarError → String
  | .expectedToken _ expectation => expectation
  | .misplacedKeyword _ reason => reason
  | .expectedExpression _ | .invalidAssignmentTarget _ | .tooManyArguments _
  | .tooManyParameters _ => ""

namespace Grammar

variable {α β : Type} {n m : Nat} {context : Context} {ts : List Token}

/-- A declaration without a tree, and the error that it ended with. -/
def Declared.GivesUp (d : Declared n) (error : GrammarError) : Prop :=
  d.stmt? = none ∧ d.reports.getLast? = some error

/-- A problem with a list of tokens before a given end: it names one of them or the end, what is
said of it has no escape characters, and if it stops recognition, then some declaration among the
tokens gave up with it. -/
structure Noticed (ending : Found) (ts : List Token) (error : GrammarError) : Prop where
  named : error.found = ending ∨ ∃ token ∈ ts, error.found = token.found
  worded : Unescaped error.remark
  givenUp : error.stops = true → ∃ (context : Context) (token : Token) (rest : List Token),
    context.ending = ending ∧ token :: rest <:+ ts ∧
      (declaration context token rest).GivesUp error

theorem Noticed.mono {ending : Found} {rest : List Token} {error : GrammarError}
    (h : Noticed ending rest error) (hrest : rest <:+ ts) : Noticed ending ts error where
  named := by
    rcases h.named with hending | ⟨token, htoken, hfound⟩
    · exact .inl hending
    · exact .inr ⟨token, hrest.mem htoken, hfound⟩
  worded := h.worded
  givenUp hstops := by
    obtain ⟨context, token, others, hending, hothers, hgives⟩ := h.givenUp hstops
    exact ⟨context, token, others, hending, hothers.trans hrest, hgives⟩

/-- What a context says of the head of a list names the head, or the end. -/
theorem Context.here_named (context : Context) (ts : List Token) :
    context.here ts = context.ending ∨ ∃ token ∈ ts, context.here ts = token.found := by
  cases ts with
  | nil => exact .inl rfl
  | cons token rest => exact .inr ⟨token, List.mem_cons_self, rfl⟩

theorem noticed_misplaced {ending : Found} {token : Token} {reason : Option String}
    (htoken : token ∈ ts) (hreason : ∀ text ∈ reason, Unescaped text) :
    ∀ error ∈ misplaced token reason, Noticed ending ts error := by
  intro error herror
  cases reason with
  | none => cases herror
  | some reason =>
    obtain rfl := List.mem_singleton.mp herror
    exact ⟨.inr ⟨token, htoken, rfl⟩, hreason reason rfl, fun hstops => by cases hstops⟩

theorem noticed_beyondLimit {report : Found → GrammarError} (hfound : ∀ f, (report f).found = f)
    (hremark : ∀ f, (report f).remark = "") (hstops : ∀ f, (report f).stops = false)
    (count : Nat) :
    ∀ error ∈ beyondLimit report context count ts, Noticed context.ending ts error := by
  intro error herror
  unfold beyondLimit at herror
  split at herror
  · obtain rfl := List.mem_singleton.mp herror
    refine ⟨?_, ?_, fun h => absurd h (by simp [hstops])⟩
    · rw [hfound]
      exact context.here_named ts
    · rw [hremark]
      decide
  · cases herror

theorem eq_none_of_misplaced {token : Token} {reason : Option String}
    (h : misplaced token reason = []) : reason = none := by
  cases reason with
  | none => rfl
  | some => cases h

theorem lt_of_beyondLimit {report : Found → GrammarError} {count : Nat}
    (h : beyondLimit report context count ts = []) : count < maxArguments := by
  unfold beyondLimit at h
  split at h
  · cases h
  · omega

namespace Parsed

/-! ### Outcomes -/

/-- Success with nothing to report. -/
def Yields (p : Parsed α n) (value : α) (rest : List Token) : Prop :=
  ∃ bound, p = .ok value rest [] bound

/-- An outcome that reads a list of tokens from its front: a last part of it is left, what was
noticed belongs to it, and a panic happens at the first token that is left. If nothing is reported,
then what was read, the value and what is left are related. -/
inductive Reads (context : Context) (ts : List Token) (P : List Token → α → List Token → Prop) :
    Parsed α n → Prop where
  | ok {read rest : List Token} {value : α} {reports : List GrammarError}
    {bound : rest.length < n} (htokens : ts = read ++ rest)
    (hreports : ∀ error ∈ reports, Noticed context.ending ts error)
    (hvalue : reports = [] → P read value rest) :
    Reads context ts P (.ok value rest reports bound)
  | panic {error : GrammarError} {rest : List Token} {reports : List GrammarError}
    {bound : rest.length ≤ n} (hrest : rest <:+ ts) (hstops : error.stops = true)
    (hfound : error.found = context.here rest) (hremark : Unescaped error.remark)
    (hreports : ∀ error ∈ reports, Noticed context.ending ts error) :
    Reads context ts P (.panic error rest reports bound)

namespace Reads

variable {P Q : List Token → α → List Token → Prop} {R : List Token → β → List Token → Prop}

theorem of_yields {p : Parsed α n} {value : α} {rest : List Token} (h : p.Reads context ts P)
    (hyields : p.Yields value rest) : ∃ read, ts = read ++ rest ∧ P read value rest := by
  obtain ⟨_, rfl⟩ := hyields
  cases h with
  | ok htokens _ hvalue => exact ⟨_, htokens, hvalue rfl⟩

/-- Success with nothing to report. -/
theorem clean {value : α} {rest : List Token} {bound : rest.length < n} (read : List Token)
    (htokens : ts = read ++ rest) (hvalue : P read value rest) :
    Reads context ts P (.ok value rest [] bound) :=
  .ok htokens (fun _ herror => absurd herror List.not_mem_nil) fun _ => hvalue

/-- A panic at the first token, with nothing reported before. -/
theorem stop {error : GrammarError} {bound : ts.length ≤ n} (hstops : error.stops = true)
    (hfound : error.found = context.here ts) (hremark : Unescaped error.remark) :
    Reads context ts P (.panic error ts [] bound) :=
  .panic (List.suffix_refl _) hstops hfound hremark fun _ herror => absurd herror List.not_mem_nil

theorem imp {p : Parsed α n} (h : p.Reads context ts Q)
    (himp : ∀ read value rest, ts = read ++ rest → Q read value rest → P read value rest) :
    p.Reads context ts P := by
  cases h with
  | ok htokens hreports hvalue =>
    exact .ok htokens hreports fun hnone => himp _ _ _ htokens (hvalue hnone)
  | panic hrest hstops hfound hremark hreports =>
    exact .panic hrest hstops hfound hremark hreports

/-- The outcome behind some tokens that were read before. -/
theorem behind {p : Parsed α n} {rest : List Token} (read : List Token)
    (htokens : ts = read ++ rest)
    (h : p.Reads context rest fun more => P (read ++ more)) : p.Reads context ts P := by
  have hrest : rest <:+ ts := ⟨read, htokens.symm⟩
  cases h with
  | ok hmore hreports hvalue =>
    refine .ok ?_ (fun error herror => (hreports error herror).mono hrest) hvalue
    rw [htokens, hmore, List.append_assoc]
  | panic hleft hstops hfound hremark hreports =>
    exact .panic (hleft.trans hrest) hstops hfound hremark
      fun error herror => (hreports error herror).mono hrest

/-- The outcome behind one token. -/
theorem skip {token : Token} {p : Parsed α n}
    (h : p.Reads context ts fun read => P (token :: read)) : p.Reads context (token :: ts) P :=
  h.behind [token] rfl

/-- Of what surrounds a construct, only the end of the input matters here. -/
theorem within {inner : Context} {p : Parsed α n} (h : p.Reads inner ts P)
    (hending : inner.ending = context.ending) : p.Reads context ts P := by
  have hhere : ∀ rest, inner.here rest = context.here rest := by
    intro rest
    cases rest with
    | nil => exact hending
    | cons => rfl
  cases h with
  | ok htokens hreports hvalue => exact .ok htokens (hending ▸ hreports) hvalue
  | panic hrest hstops hfound hremark hreports =>
    exact .panic hrest hstops (hfound.trans (hhere _)) hremark (hending ▸ hreports)

theorem widen {p : Parsed α m} (h : p.Reads context ts P) {hle : m ≤ n} :
    (p.widen hle).Reads context ts P := by
  cases h with
  | ok htokens hreports hvalue => exact .ok htokens hreports hvalue
  | panic hrest hstops hfound hremark hreports =>
    exact .panic hrest hstops hfound hremark hreports

theorem map {p : Parsed α n} {f : α → β} (h : p.Reads context ts fun read a => R read (f a)) :
    (p.map f).Reads context ts R := by
  cases h with
  | ok htokens hreports hvalue => exact .ok htokens hreports hvalue
  | panic hrest hstops hfound hremark hreports =>
    exact .panic hrest hstops hfound hremark hreports

theorem after {p : Parsed α n} {earlier : List GrammarError}
    (h : p.Reads context ts fun read a rest => earlier = [] → P read a rest)
    (hearlier : ∀ error ∈ earlier, Noticed context.ending ts error) :
    (p.after earlier).Reads context ts P := by
  cases h with
  | ok htokens hreports hvalue =>
    refine .ok htokens (List.forall_mem_append.mpr ⟨hearlier, hreports⟩) fun hnone => ?_
    obtain ⟨hnone, hnone'⟩ := List.append_eq_nil_iff.mp hnone
    exact hvalue hnone' hnone
  | panic hrest hstops hfound hremark hreports =>
    exact .panic hrest hstops hfound hremark (List.forall_mem_append.mpr ⟨hearlier, hreports⟩)

/-- A construct, and one that is read from what it leaves but may look back. -/
theorem chain {p : Parsed α n} {f : α → (rest : List Token) → rest.length < n → Parsed β n}
    (h : p.Reads context ts Q)
    (hf : ∀ read value rest bound, ts = read ++ rest → (f value rest bound).Reads context ts
      fun total b left => Q read value rest → R total b left) :
    (p.andThen f).Reads context ts R := by
  cases h with
  | @ok read rest value reports bound htokens hreports hvalue =>
    refine .after ((hf read value rest bound htokens).imp ?_) hreports
    exact fun _ _ _ _ htotal hnone => htotal (hvalue hnone)
  | panic hrest hstops hfound hremark hreports =>
    exact .panic hrest hstops hfound hremark hreports

/-- A construct, and one that is read from what it leaves. -/
theorem andThen {p : Parsed α n} {f : α → (rest : List Token) → rest.length < n → Parsed β n}
    (h : p.Reads context ts Q)
    (hf : ∀ value rest bound, (f value rest bound).Reads context rest
      fun more b left => ∀ read, Q read value rest → R (read ++ more) b left) :
    (p.andThen f).Reads context ts R := by
  refine h.chain fun read value rest bound htokens => .behind read htokens ?_
  exact (hf value rest bound).imp fun _ _ _ _ hmore => hmore read

theorem ite {c : Prop} [Decidable c] {p q : Parsed α n} (hp : c → p.Reads context ts P)
    (hq : ¬ c → q.Reads context ts P) : (if c then p else q).Reads context ts P := by
  by_cases h : c
  · rw [if_pos h]
    exact hp h
  · rw [if_neg h]
    exact hq h

end Reads

end Parsed

open Parsed

/-! ### Single tokens -/

/-- One token of a given kind. -/
def OneToken (kind : TokenKind) (read : List Token) (token : Token) (_ : List Token) : Prop :=
  read = [token] ∧ token.kind = kind

theorem reads_expect (context : Context) (kind : TokenKind) {expectation : String}
    (h : Unescaped expectation) (ts : List Token) :
    (expect context kind expectation ts).Reads context ts (OneToken kind) := by
  cases ts with
  | nil => exact .stop rfl rfl h
  | cons token rest =>
    unfold expect
    exact .ite (fun hkind => .clean [token] rfl ⟨rfl, hkind⟩) fun _ => .stop rfl rfl h

/-- A construct that starts with a token of a given kind. -/
theorem Parsed.Reads.opened {kind : TokenKind} {expectation : String}
    {P : List Token → β → List Token → Prop}
    {f : Token → (rest : List Token) → rest.length < ts.length → Parsed β ts.length}
    (h : Unescaped expectation)
    (hf : ∀ token rest bound, ts = token :: rest → token.kind = kind →
      (f token rest bound).Reads context ts P) :
    ((expect context kind expectation ts).andThen f).Reads context ts P := by
  cases ts with
  | nil => exact .stop rfl rfl h
  | cons token rest =>
    by_cases hkind : token.kind = kind
    · have hok : expect context kind expectation (token :: rest) =
          .ok token rest [] (length_lt_cons token rest) := if_pos hkind
      rw [hok]
      refine .after ((hf token rest _ rfl hkind).imp fun _ _ _ _ hvalue _ => hvalue) ?_
      exact fun _ herror => absurd herror List.not_mem_nil
    · have hpanic : expect context kind expectation (token :: rest) =
          .panic (.expectedToken token.found expectation) (token :: rest) [] (Nat.le_refl _) :=
        if_neg hkind
      rw [hpanic]
      exact .stop rfl rfl h

/-- A construct followed by one token of a given kind. -/
theorem Parsed.Reads.closed {kind : TokenKind} {expectation : String} {p : Parsed α n}
    {f : α → Token → β} {Q : List Token → α → List Token → Prop}
    {R : List Token → β → List Token → Prop} (h : p.Reads context ts Q)
    (hexpectation : Unescaped expectation)
    (hclosed : ∀ read value token rest, Q read value (token :: rest) → token.kind = kind →
      R (read ++ [token]) (f value token) rest) :
    (p.andThen fun a rest h =>
      ((expect context kind expectation rest).map (f a)).widen (Nat.le_of_lt h)).Reads context
        ts R := by
  refine h.andThen fun value rest _ => .widen (.map ?_)
  refine (reads_expect context kind hexpectation rest).imp ?_
  rintro _ token left rfl ⟨rfl, hkind⟩ read hvalue
  exact hclosed read value token left hvalue hkind

end Grammar

end Treewalk
