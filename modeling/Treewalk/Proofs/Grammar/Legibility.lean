import Treewalk.Proofs.Diagnostic.Legibility
import Treewalk.Proofs.Grammar.Boundaries
import Treewalk.Proofs.Grammar.Vocabulary
import Treewalk.Proofs.Token.Tiling

/-!
# Legible readings

A token spells a part of its text. A grammar error says something fixed and names the token at which
it was noticed. So the words and the errors of a text without escape characters have none either.
-/

namespace Treewalk

/-! ### Tokens -/

/-- A token, or a lexical error, without escape characters. -/
def ScanItem.Legible : ScanItem → Prop
  | .token t => Unescaped t.lexeme
  | .error e => e.Legible

theorem Shows.legible {file : Int} {start : Nat} {chars rest : List Char} {item : ScanItem}
    (h : Shows file start chars rest item) (hchars : escape ∉ chars) : item.Legible := by
  cases h with
  | token => exact unescaped_ofList_iff.mpr hchars
  | stray => exact unescaped_singleton_iff.mpr fun hc => hchars (hc ▸ List.mem_singleton_self _)
  | unterminated => trivial

/-- What tiles a text without escape characters has none. -/
theorem Tiles.legible {file : Int} {start : Nat} {text : List Char} {items : List ScanItem}
    (h : Tiles file start text items) (htext : escape ∉ text) : ∀ item ∈ items, item.Legible := by
  induction h with
  | last => exact fun item hitem => absurd hitem List.not_mem_nil
  | item _ hitem _ ih =>
    rw [List.mem_append, List.mem_append, not_or, not_or] at htext
    exact List.forall_mem_cons.mpr ⟨hitem.legible htext.2.1, ih htext.2.2⟩

/-- The tokens and errors of a text without escape characters have none. -/
theorem legible_scan (file : Int) {text : String} (h : Unescaped text) :
    ∀ item ∈ (scan file text).items, item.Legible :=
  (Cursor.tiles_scanAll file ⟨text.toList, 0, 1, 0⟩).legible h

theorem unescaped_of_mem_scan {file : Int} {text : String} (h : Unescaped text) {token : Token}
    (htoken : token ∈ (scan file text).tokens) : Unescaped token.lexeme :=
  legible_scan file h _ (mem_filterMap_token?_iff.mp htoken)

/-- Words without escape characters. -/
def Vocabulary.legible : Vocabulary := ⟨Unescaped, fun _ => True, fun _ => True, trivial⟩

theorem allOver_legible_scan {file : Int} {text : String} (h : Unescaped text) :
    Grammar.AllOver .legible (scan file text).tokens :=
  fun _ htoken => ⟨fun _ => unescaped_of_mem_scan h htoken, fun _ _ => trivial, trivial⟩

/-! ### Grammar errors -/

/-- How a problem is worded, given the token and what the grammar says of it. -/
theorem GrammarError.legible_diagnostic {error : GrammarError}
    (hfound : Unescaped error.found.lexeme) (hremark : Unescaped error.remark) :
    error.diagnostic.Legible := by
  have hdescription : Unescaped error.found.description := by
    unfold Found.description
    split
    · decide
    · simp +decide [hfound]
  have hnone : ∀ text ∈ (none : Option String), Unescaped text := fun _ htext => by cases htext
  unfold GrammarError.diagnostic
  cases error with
  | expectedToken found expectation =>
    refine Diagnostic.legible_atSite (by decide) ?_ (by decide) hnone
    simp +decide [show Unescaped expectation from hremark,
      show Unescaped found.description from hdescription]
  | expectedExpression found =>
    refine Diagnostic.legible_atSite (by decide) ?_ (by decide) (by decide)
    simp +decide [show Unescaped found.description from hdescription]
  | invalidAssignmentTarget found =>
    exact Diagnostic.legible_atSite (by decide) (by decide) (by decide) (by decide)
  | tooManyArguments found | tooManyParameters found =>
    exact Diagnostic.legible_atSite (by decide) (by decide) hnone hnone
  | misplacedKeyword found reason =>
    refine Diagnostic.legible_atSite (by decide) hremark ?_ hnone
    simp +decide [show Unescaped found.lexeme from hfound]

/-- The errors in tokens without escape characters are legible. -/
theorem legible_of_mem_recognise {tokens : List Token} {ending : Token}
    (htokens : ∀ token ∈ tokens, Unescaped token.lexeme) (hending : Unescaped ending.lexeme)
    {error : GrammarError} (h : error ∈ (recognise tokens ending).errors) :
    error.diagnostic.Legible := by
  have hnoticed := Grammar.noticed_program _ tokens error h
  refine GrammarError.legible_diagnostic ?_ hnoticed.worded
  rcases hnoticed.named with hfound | ⟨token, htoken, hfound⟩
  · rw [hfound]
    exact hending
  · rw [hfound]
    exact htokens token htoken

end Treewalk
