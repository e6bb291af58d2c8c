import Treewalk.Proofs.Token.Rules
import Treewalk.Tree.Display

/-!
# Forms

The text of a tree consists of words, of strings between quotes, and of lists between parentheses,
which may have a word right before them. Such a form can be read off its characters in one way only:
no word has a blank, a quote or a parenthesis, no string has a quote, and what stands behind a form
never goes on with it. So forms that are written alike are the same.
-/

namespace Treewalk

/-- A word, a string between quotes, or a list between parentheses that a word may lead. -/
inductive Form where
  | word (text : String)
  | quoted (text : String)
  | list (lead : String) (items : List Form)

namespace Form

mutual

/-- The characters of a form. -/
def chars : Form → List Char
  | .word text => text.toList
  | .quoted text => Text.doubleQuote :: (text.toList ++ [Text.doubleQuote])
  | .list lead items => lead.toList ++ '(' :: ((separated ' ' items).drop 1 ++ [')'])

/-- The characters of forms, with a separator before each of them. -/
def separated (separator : Char) : List Form → List Char
  | [] => []
  | f :: rest => separator :: (f.chars ++ separated separator rest)

end

/-- The characters of forms in a row, with a separator between them. -/
def joined (separator : Char) (items : List Form) : List Char := (separated separator items).drop 1

/-- The characters that are no part of words. -/
def punctuation : List Char := [' ', '\n', '(', ')', Text.doubleQuote]

/-- Whether a character may be part of a word. -/
def isInner (c : Char) : Bool := !punctuation.contains c

mutual

/-- The words of a form have no punctuation in them, and its strings no quotes. -/
def Proper : Form → Prop
  | .word text => text.toList ≠ [] ∧ ∀ c ∈ text.toList, isInner c = true
  | .quoted text => Text.doubleQuote ∉ text.toList
  | .list lead items => (∀ c ∈ lead.toList, isInner c = true) ∧ AllProper items

/-- Proper forms. -/
def AllProper : List Form → Prop
  | [] => True
  | f :: rest => f.Proper ∧ AllProper rest

end

/-! ### Where forms end -/

/-- A text that does not go on with the form before it. -/
def Follows (rest : List Char) : Prop := ∀ c ∈ rest.head?, c = ' ' ∨ c = '\n' ∨ c = ')'

theorem isInner_of_follows {rest : List Char} (h : Follows rest) :
    ∀ c ∈ rest.head?, isInner c = false := by
  intro c hc
  rcases h c hc with rfl | rfl | rfl <;> decide

/-- Words are told apart from what stands behind them. -/
theorem append_inj_of_isInner {text text' rest rest' : List Char}
    (h : ∀ c ∈ text, isInner c = true) (h' : ∀ c ∈ text', isInner c = true)
    (hrest : ∀ c ∈ rest.head?, isInner c = false) (hrest' : ∀ c ∈ rest'.head?, isInner c = false)
    (heq : text ++ rest = text' ++ rest') : text = text' ∧ rest = rest' := by
  have htext : text = text' := by
    rw [← (takeWhile_append_of_head? h hrest).1, heq, (takeWhile_append_of_head? h' hrest').1]
  subst htext
  exact ⟨rfl, List.append_cancel_left heq⟩

/-- Strings are told apart from what stands behind them. -/
theorem append_inj_of_quote {text text' rest rest' : List Char}
    (h : Text.doubleQuote ∉ text) (h' : Text.doubleQuote ∉ text')
    (heq : text ++ Text.doubleQuote :: rest = text' ++ Text.doubleQuote :: rest') :
    text = text' ∧ rest = rest' := by
  induction text generalizing text' with
  | nil =>
    cases text' with
    | nil => exact ⟨rfl, (List.cons.inj heq).2⟩
    | cons c text' => exact absurd ((List.cons.inj heq).1 ▸ List.mem_cons_self) h'
  | cons c text ih =>
    cases text' with
    | nil => exact absurd ((List.cons.inj heq).1 ▸ List.mem_cons_self) h
    | cons c' text' =>
      obtain ⟨hc, hrest⟩ := List.cons.inj heq
      obtain ⟨rfl, hsame⟩ := ih (fun hmem => h (.tail _ hmem)) (fun hmem => h' (.tail _ hmem)) hrest
      exact ⟨by rw [hc], hsame⟩

/-- A form starts with a character that cannot stand behind a form. -/
theorem exists_chars_eq_cons {f : Form} (h : f.Proper) :
    ∃ c rest, f.chars = c :: rest ∧ c ≠ ' ' ∧ c ≠ '\n' ∧ c ≠ ')' := by
  have hinner : ∀ c, isInner c = true → c ≠ ' ' ∧ c ≠ '\n' ∧ c ≠ ')' := by
    intro c hc
    refine ⟨?_, ?_, ?_⟩ <;> rintro rfl <;> exact absurd hc (by decide)
  cases f with
  | word text =>
    obtain ⟨c, rest, htext⟩ := List.exists_cons_of_ne_nil h.1
    exact ⟨c, rest, htext, hinner c (h.2 c (htext ▸ List.mem_cons_self))⟩
  | quoted text => exact ⟨_, _, rfl, by decide, by decide, by decide⟩
  | list lead items =>
    rw [chars]
    cases hlead : lead.toList with
    | nil => exact ⟨_, _, rfl, by decide, by decide, by decide⟩
    | cons c rest => exact ⟨c, _, rfl, hinner c (h.1 c (hlead ▸ List.mem_cons_self))⟩

theorem follows_separated {separator : Char} (hseparator : separator = ' ' ∨ separator = '\n')
    (items : List Form) {rest : List Char} (hrest : Follows rest) :
    Follows (separated separator items ++ rest) := by
  cases items with
  | nil => exact hrest
  | cons f items =>
    intro c hc
    obtain rfl : separator = c := by simpa [separated] using hc
    rcases hseparator with rfl | rfl
    · exact .inl rfl
    · exact .inr (.inl rfl)

/-! ### Reading forms -/

/-- The word with which a form starts. -/
def opening : Form → List Char
  | .word text => text.toList
  | .quoted _ => []
  | .list lead _ => lead.toList

/-- What stands behind the word with which a form starts. -/
def body : Form → List Char
  | .word _ => []
  | .quoted text => Text.doubleQuote :: (text.toList ++ [Text.doubleQuote])
  | .list _ items => '(' :: (joined ' ' items ++ [')'])

theorem chars_eq_append (f : Form) : f.chars = f.opening ++ f.body := by
  cases f with
  | word text => exact (List.append_nil _).symm
  | quoted text => rfl
  | list lead items => rfl

theorem isInner_opening {f : Form} (h : f.Proper) : ∀ c ∈ f.opening, isInner c = true := by
  cases f with
  | word text => exact h.2
  | quoted text => exact fun c hc => absurd hc List.not_mem_nil
  | list lead items => exact h.1

theorem isInner_head?_body (f : Form) {rest : List Char} (hrest : Follows rest) :
    ∀ c ∈ (f.body ++ rest).head?, isInner c = false := by
  cases f with
  | word text => exact isInner_of_follows hrest
  | quoted text | list lead items =>
    rintro c ⟨⟩
    decide

/-- Forms in a row are none on both sides, or begin with separators that were left out. -/
theorem separated_append_eq {separator : Char} {fs gs : List Form} {rest rest' : List Char}
    (hfs : AllProper fs) (hgs : AllProper gs) (hrest : Follows rest) (hrest' : Follows rest')
    (h : joined separator fs ++ rest = joined separator gs ++ rest') :
    separated separator fs ++ rest = separated separator gs ++ rest' := by
  -- what follows a form cannot start with one
  have hstart : ∀ {items : List Form} {f : Form} {rest : List Char} (tail : List Char),
      f.Proper → Follows rest → rest ≠ joined separator (f :: items) ++ tail := by
    intro items f rest tail hf hrest heq
    obtain ⟨c, more, hchars, hblank, hline, hclosing⟩ := exists_chars_eq_cons hf
    have hhead : rest.head? = some c := by
      rw [heq, joined, separated, List.drop_succ_cons, List.drop_zero, hchars]
      rfl
    rcases hrest c hhead with hc | hc | hc
    · exact hblank hc
    · exact hline hc
    · exact hclosing hc
  cases fs with
  | nil =>
    cases gs with
    | nil => exact h
    | cons g gs => exact absurd h (hstart rest' hgs.1 hrest)
  | cons f fs =>
    cases gs with
    | nil => exact absurd h.symm (hstart rest hfs.1 hrest')
    | cons g gs => exact congrArg (separator :: ·) h

mutual

/-- A form is determined by a text that starts with it, if what stands behind it does not go on with
it. -/
theorem eq_of_chars_append (f g : Form) {rest rest' : List Char} (hf : f.Proper) (hg : g.Proper)
    (hrest : Follows rest) (hrest' : Follows rest') (h : f.chars ++ rest = g.chars ++ rest') :
    f = g ∧ rest = rest' := by
  rw [chars_eq_append, chars_eq_append, List.append_assoc, List.append_assoc] at h
  obtain ⟨hopening, hbody⟩ := append_inj_of_isInner (isInner_opening hf) (isInner_opening hg)
    (isInner_head?_body f hrest) (isInner_head?_body g hrest') h
  match f, g with
  | .word text, .word text' => exact ⟨congrArg word (String.toList_inj.mp hopening), hbody⟩
  | .quoted text, .quoted text' =>
    simp only [body, List.cons_append, List.append_assoc, List.cons.injEq, true_and] at hbody
    obtain ⟨htext, hsame⟩ := append_inj_of_quote hf hg hbody
    exact ⟨congrArg quoted (String.toList_inj.mp htext), hsame⟩
  | .list lead items, .list lead' items' =>
    simp only [body, List.cons_append, List.append_assoc, List.cons.injEq, true_and] at hbody
    have hclosing : ∀ rest, Follows (')' :: rest) := by
      rintro rest c ⟨⟩
      exact .inr (.inr rfl)
    obtain ⟨rfl, hsame⟩ := eq_of_separated_append (.inl rfl) items items' hf.2 hg.2 (hclosing rest)
      (hclosing rest') (by simp) (by simp)
      (separated_append_eq hf.2 hg.2 (hclosing rest) (hclosing rest') hbody)
    exact ⟨congrArg (list · items) (String.toList_inj.mp hopening), (List.cons.inj hsame).2⟩
  -- the character behind the first word tells words, strings and lists apart
  | .word _, .quoted _ | .word _, .list _ _ =>
    exact absurd (hrest _ (congrArg List.head? hbody)) (by decide)
  | .quoted _, .word _ | .list _ _, .word _ =>
    exact absurd (hrest' _ (congrArg List.head? hbody.symm)) (by decide)
  | .quoted _, .list _ _ | .list _ _, .quoted _ =>
    exact absurd (List.cons.inj hbody).1 (by decide)

/-- Forms with separators are determined by a text that starts with them. -/
theorem eq_of_separated_append {separator : Char}
    (hseparator : separator = ' ' ∨ separator = '\n') (fs gs : List Form)
    {rest rest' : List Char} (hfs : AllProper fs) (hgs : AllProper gs) (hrest : Follows rest)
    (hrest' : Follows rest') (hend : rest.head? ≠ some separator)
    (hend' : rest'.head? ≠ some separator)
    (h : separated separator fs ++ rest = separated separator gs ++ rest') :
    fs = gs ∧ rest = rest' := by
  match fs, gs with
  | [], [] => exact ⟨rfl, h⟩
  | [], g :: gs => exact absurd (congrArg List.head? h) hend
  | f :: fs, [] => exact absurd (congrArg List.head? h.symm) hend'
  | f :: fs, g :: gs =>
    simp only [separated, List.cons_append, List.append_assoc, List.cons.injEq, true_and] at h
    obtain ⟨rfl, hrests⟩ := eq_of_chars_append f g hfs.1 hgs.1
      (follows_separated hseparator fs hrest) (follows_separated hseparator gs hrest') h
    obtain ⟨rfl, hsame⟩ := eq_of_separated_append hseparator fs gs hfs.2 hgs.2 hrest hrest' hend
      hend' hrests
    exact ⟨rfl, hsame⟩

end

/-- Forms in a row, with nothing behind them, are determined by their characters. -/
theorem eq_of_joined_eq {separator : Char} (hseparator : separator = ' ' ∨ separator = '\n')
    {fs gs : List Form} (hfs : AllProper fs) (hgs : AllProper gs)
    (h : joined separator fs = joined separator gs) : fs = gs := by
  have hnothing : Follows [] := fun c hc => absurd hc (by simp)
  have happend : joined separator fs ++ [] = joined separator gs ++ [] := by rw [h]
  exact (eq_of_separated_append hseparator fs gs hfs hgs hnothing hnothing (by simp) (by simp)
    (separated_append_eq hfs hgs hnothing hnothing happend)).1

end Form

end Treewalk
