import Treewalk.Grammar.Parsed

/-!
# Recovery after a panic

After a panic the token at which it happened is dropped. Then tokens are dropped until one that
follows a semicolon or that begins a declaration or a statement with a keyword.

## Main definitions

* `recover` — the tokens at which recognition goes on after a panic
-/

namespace Treewalk.Grammar

/-- Whether a token begins a declaration or a statement with a keyword. -/
def beginsStatement (token : Token) : Bool :=
  match token.kind with
  | .keyword .kwClass | .keyword .kwFun | .keyword .kwVar | .keyword .kwFor | .keyword .kwIf
  | .keyword .kwWhile | .keyword .kwPrint | .keyword .kwReturn => true
  | _ => false

/-- The tokens from the next boundary on, after a token that was dropped. -/
def resume (dropped : Token) : List Token → List Token
  | [] => []
  | token :: rest =>
    if dropped.kind = .semicolon ∨ beginsStatement token then token :: rest
    else resume token rest

/-- The tokens at which recognition goes on after a panic. -/
def recover : List Token → List Token
  | [] => []
  | token :: rest => resume token rest

theorem length_resume_le (dropped : Token) (ts : List Token) :
    (resume dropped ts).length ≤ ts.length := by
  induction ts generalizing dropped with
  | nil => exact Nat.le_refl _
  | cons token rest ih =>
    rw [resume]
    split
    · exact Nat.le_refl _
    · exact Nat.le_trans (ih token) (Nat.le_succ _)

theorem length_recover_le {n : Nat} {ts : List Token} (h : ts.length ≤ n + 1) :
    (recover ts).length ≤ n := by
  cases ts with
  | nil => exact Nat.zero_le _
  | cons token rest =>
    have := length_resume_le token rest
    simp only [List.length_cons] at h
    rw [recover]
    omega

end Treewalk.Grammar
