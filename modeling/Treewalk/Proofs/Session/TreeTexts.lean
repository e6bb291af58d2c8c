import Treewalk.Proofs.Session.Pieces
import Treewalk.Proofs.Token.Rescanning
import Treewalk.Proofs.Tree.Readability

/-!
# Programs with the same tree text

The trees of the grammar have the names, strings and numbers of their tokens. The names of tokens
are identifiers and their strings have no quotes, so the tree of a source without errors can be read
back from its text if the numbers in the source are finite. Sources whose trees have the same text
thus have the same tree, up to the places of its nodes.
-/

namespace Treewalk

/-- A string in a source has no quotes. -/
theorem Spells.quote_notMem {value : String} {chars : List Char}
    (h : Spells (.token (.string value)) chars) : Text.doubleQuote ∉ value.toList := by
  cases h with
  | symbol h => exact absurd h (by simp [symbols])
  | string h => rwa [String.toList_ofList]

/-- Whether a token is a finite number, or no number at all. -/
def Token.isFinite (t : Token) : Bool :=
  match t.kind with
  | .number value => value.isFinite
  | _ => true

/-- The tokens of a text can be read back from trees if the numbers among them are finite. -/
theorem allOver_scan {file : Int} {text : String}
    (h : ∀ t ∈ (scan file text).tokens, t.isFinite = true) :
    Grammar.AllOver (.printable .nowhere ⟨0, 0, some (.ofLength 0 0 0)⟩)
      (scan file text).tokens := by
  intro t ht
  have hspells := spells_of_mem_scan ht
  refine ⟨fun hkind => ?_, fun value hvalue => ?_, rfl⟩
  · rwa [hkind] at hspells
  · have hfinite := h t ht
    generalize hkind : t.kind = kind at hvalue
    cases hvalue with
    | true | false | nil => trivial
    | number value => rwa [Token.isFinite, hkind] at hfinite
    | string value =>
      rw [hkind] at hspells
      exact hspells.quote_notMem

/-- A text in which the grammar finds no problem is derived from its tokens. -/
theorem Reading.derivesProgram_of_recognition {file : Nat} {text : String}
    (h : (Reading.ofText file text).recognition.errors = []) :
    Grammar.DerivesProgram (Treewalk.scan file text).tokens (Reading.ofText file text).program := by
  apply Grammar.derivesProgram_of_recognise_eq
  rw [← h]
  rfl

/-- The text of a tree determines the tree. If the grammar finds no problem in two sources, all
numbers in them are finite, and the texts of their trees are the same, then the trees are the same
up to the places of their nodes. -/
theorem Reading.program_eq_of_text_eq {file file' : Nat} {source source' : String}
    (herrors : (Reading.ofText file source).recognition.errors = [])
    (herrors' : (Reading.ofText file' source').recognition.errors = [])
    (hfinite : ∀ t ∈ (Reading.ofText file source).scan.tokens, t.isFinite = true)
    (hfinite' : ∀ t ∈ (Reading.ofText file' source').scan.tokens, t.isFinite = true)
    (h : (Reading.ofText file source).program.text = (Reading.ofText file' source').program.text) :
    (Reading.ofText file source).program.move .nowhere =
      (Reading.ofText file' source').program.move .nowhere := by
  have hprintable := (derivesProgram_of_recognition herrors).over (allOver_scan hfinite)
  have hprintable' := (derivesProgram_of_recognition herrors').over (allOver_scan hfinite')
  exact Program.move_eq_of_text_eq hprintable hprintable' h

/-- A class with a superclass, an operator with one operand beside one with two, a string with
punctuation in it, and a number. -/
def mixedSource : String :=
  "class A < B \x7b f(x, y) \x7b return x - -y; \x7d \x7d if (a) print \"(b\n\" == (c.d = 1.50);"

/-- The same without blanks, with a comment, and with other digits of the number. -/
def mixedSourceRespaced : String :=
  "class A<B\x7bf(x,y)\x7breturn x--y;\x7d\x7d // A\nif(a)print \"(b\n\"==(c.d=01.5);"

/-- The text of the tree of both sources. -/
def mixedText : String :=
  "(class A < B (fun f(x y) (return (- x (- y)))))\n" ++
    "(if a (print (== \"(b\n\" (group (.= d c 1.5)))))"

theorem Reading.program_eq_of_text_eq_mixedSource :
    let first := Reading.ofText 1 mixedSource
    let second := Reading.ofText 2 mixedSourceRespaced
    (first.recognition.errors = [] ∧ second.recognition.errors = [] ∧
      (∀ t ∈ first.scan.tokens, t.isFinite = true) ∧
      (∀ t ∈ second.scan.tokens, t.isFinite = true) ∧
      first.program.text = mixedText ∧ second.program.text = mixedText) ∧
    (∃ t ∈ first.scan.tokens, t.kind = .number 1.5) ∧
    first.program.move .nowhere = second.program.move .nowhere := by
  intro first second
  obtain ⟨herrors, hfinite, htext, hnumber⟩ : first.recognition.errors.length = 0 ∧
      (∀ t ∈ first.scan.tokens, t.isFinite = true) ∧ first.program.text = mixedText ∧
      ∃ t ∈ first.scan.tokens, t.kind = .number 1.5 := by decide +kernel
  obtain ⟨herrors', hfinite', htext'⟩ : second.recognition.errors.length = 0 ∧
      (∀ t ∈ second.scan.tokens, t.isFinite = true) ∧ second.program.text = mixedText := by
    decide +kernel
  rw [List.length_eq_zero_iff] at herrors herrors'
  exact ⟨⟨herrors, herrors', hfinite, hfinite', htext, htext'⟩, hnumber,
    Reading.program_eq_of_text_eq herrors herrors' hfinite hfinite' (htext.trans htext'.symm)⟩

end Treewalk
