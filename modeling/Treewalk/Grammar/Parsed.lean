import Treewalk.Token.Basic
import Treewalk.Tree.Basic

/-!
# Outcomes of recognising a construct

Recognising a construct at the head of a token list either succeeds with a value and the tokens
that are left, or panics at the token that cannot go on. Both also say which problems were noticed
on the way without stopping. The outcome on `n` tokens carries the bound that makes recursive
descent total: success leaves fewer than `n` tokens, and panic at most `n`.

## Main definitions

* `Parsed` — the outcome of recognising a construct
* `Parsed.andThen` — what follows a recognised construct
* `Context` — what surrounds a construct
* `expect` — one token of a given kind
-/

namespace Treewalk.Grammar

/-- The outcome of recognising a construct on `n` tokens. -/
inductive Parsed (α : Type) (n : Nat) where
  | ok (value : α) (rest : List Token) (reports : List GrammarError) (bound : rest.length < n)
  | panic (error : GrammarError) (rest : List Token) (reports : List GrammarError)
      (bound : rest.length ≤ n)

namespace Parsed

variable {α β : Type} {m n : Nat}

/-- The same outcome on more tokens. -/
def widen (h : m ≤ n) : Parsed α m → Parsed α n
  | .ok value rest reports bound => .ok value rest reports (Nat.lt_of_lt_of_le bound h)
  | .panic error rest reports bound => .panic error rest reports (Nat.le_trans bound h)

/-- The outcome with problems that were noticed before it. -/
def after (earlier : List GrammarError) : Parsed α n → Parsed α n
  | .ok value rest reports bound => .ok value rest (earlier ++ reports) bound
  | .panic error rest reports bound => .panic error rest (earlier ++ reports) bound

/-- Recognises what follows a recognised construct. -/
def andThen (p : Parsed α n)
    (f : α → (rest : List Token) → rest.length < n → Parsed β n) : Parsed β n :=
  match p with
  | .ok value rest reports bound => (f value rest bound).after reports
  | .panic error rest reports bound => .panic error rest reports bound

/-- The outcome with another value. -/
def map (f : α → β) : Parsed α n → Parsed β n
  | .ok value rest reports bound => .ok (f value) rest reports bound
  | .panic error rest reports bound => .panic error rest reports bound

end Parsed

/-! ### How many tokens are left -/

theorem le_of_shorter {rest ts : List Token} (h : rest.length < ts.length) :
    rest.length ≤ ts.length :=
  Nat.le_of_lt h

theorem tail_le_of_shorter {token : Token} {rest ts : List Token}
    (h : (token :: rest).length < ts.length) : rest.length ≤ ts.length := by
  rw [List.length_cons] at h
  omega

theorem length_lt_cons (token : Token) (rest : List Token) :
    rest.length < (token :: rest).length :=
  Nat.lt_succ_self _

theorem length_le_cons (token : Token) (rest : List Token) :
    rest.length ≤ (token :: rest).length :=
  Nat.le_succ _

theorem length_le_cons_succ (token : Token) (rest : List Token) :
    rest.length ≤ (token :: rest).length + 1 := by
  rw [List.length_cons]
  omega

theorem length_nil_lt_succ : ([] : List Token).length < ([] : List Token).length + 1 :=
  Nat.lt_succ_self _

theorem length_cons_lt_succ (token : Token) (rest : List Token) :
    (token :: rest).length < (token :: rest).length + 1 :=
  Nat.lt_succ_self _

/-- The kind of function around a construct. -/
inductive FunctionKind where
  | none
  | function
  | method
  | initializer
deriving DecidableEq, Repr

/-- The kind of class around a construct. -/
inductive ClassKind where
  | none
  | plain
  | subclass
deriving DecidableEq, Repr

/-- What surrounds a construct: the end of the input, the innermost function and the innermost
class. -/
structure Context where
  ending : Found
  function : FunctionKind := .none
  enclosing : ClassKind := .none

/-- The token that a problem at the head of a token list names. -/
def Context.here (context : Context) : List Token → Found
  | [] => context.ending
  | token :: _ => token.found

/-- One token of a given kind. -/
def expect (context : Context) (kind : TokenKind) (expectation : String) (ts : List Token) :
    Parsed Token ts.length :=
  match ts with
  | [] => .panic (.expectedToken context.ending expectation) [] [] (Nat.le_refl _)
  | token :: rest =>
    if token.kind = kind then .ok token rest [] (Nat.lt_succ_self _)
    else .panic (.expectedToken token.found expectation) (token :: rest) [] (Nat.le_refl _)

/-- Whether the head of a token list has a given kind. -/
def startsWith (kind : TokenKind) : List Token → Bool
  | [] => false
  | token :: _ => token.kind == kind

end Treewalk.Grammar

/-- The anchor that a token gives to a node. -/
def Treewalk.Token.anchor (token : Treewalk.Token) : Treewalk.Anchor :=
  ⟨token.line, token.column, some token.span⟩
