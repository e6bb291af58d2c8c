import Mathlib.Data.List.Forall2
import Treewalk.Diagnostic.Style

/-!
# Escape sequences

A terminal takes an escape character, a bracket, some parameters and a final character for a command
and shows every other character. Commands that end with `m` are about style: one without parameters,
or with the parameter zero, resets the style, and the others open one.

A text is tinted if parts of it are painted and the rest is as it was. Deleting the commands of a
tinted text gives the text without colours, provided that this had no escape characters, and every
style that is opened is reset before another one is.
-/

namespace Treewalk

/-! ### Texts without escape characters -/

/-- The character that starts a command. -/
def escape : Char := '\x1b'

/-- A text without escape characters. -/
def Unescaped (text : String) : Prop := escape ∉ text.toList

instance : DecidablePred Unescaped := fun text =>
  inferInstanceAs (Decidable (escape ∉ text.toList))

@[simp] theorem unescaped_append_iff {s t : String} :
    Unescaped (s ++ t) ↔ Unescaped s ∧ Unescaped t := by
  rw [Unescaped, String.toList_append, List.mem_append, not_or]
  exact Iff.rfl

@[simp] theorem unescaped_ofList_iff {chars : List Char} :
    Unescaped (String.ofList chars) ↔ escape ∉ chars := by
  rw [Unescaped, String.toList_ofList]

@[simp] theorem unescaped_singleton_iff {c : Char} :
    Unescaped (String.singleton c) ↔ c ≠ escape := by
  rw [Unescaped, String.toList_singleton, List.mem_singleton]
  exact ne_comm

@[simp] theorem unescaped_toString_iff {text : String} :
    Unescaped (toString text) ↔ Unescaped text :=
  Iff.rfl

/-- The digits of a number are no escape characters. -/
@[simp] theorem unescaped_repr_nat (n : Nat) : Unescaped n.repr := by
  intro hmem
  have hdigits : escape ∈ Nat.toDigits 10 n := by simpa [Nat.repr] using hmem
  have hdigit := Nat.isDigit_of_mem_toDigits (b := 10) (by decide) (by decide) hdigits
  cases hdigit

@[simp] theorem unescaped_repr_int (n : Int) : Unescaped n.repr := by
  cases n with
  | ofNat n => exact unescaped_repr_nat n
  | negSucc n =>
    have hsign : Unescaped "-" := by decide
    exact unescaped_append_iff.mpr ⟨hsign, unescaped_repr_nat (n + 1)⟩

namespace Ansi

/-! ### Commands -/

/-- A part of a text as a terminal takes it: a character that is shown, or a command. -/
inductive Piece where
  | shown (c : Char)
  | command (parameters : List Char) (final : Char)
deriving DecidableEq

namespace Piece

/-- The character that is shown. -/
def shown? : Piece → Option Char
  | .shown c => some c
  | .command _ _ => none

/-- Whether a piece is a command that resets the style. -/
def isReset : Piece → Bool
  | .shown _ => false
  | .command parameters final => final = 'm' && (parameters = [] || parameters = ['0'])

/-- Whether a piece is a command that opens a style. -/
def isStyle : Piece → Bool
  | .shown _ => false
  | .command parameters final => final = 'm' && !(parameters = [] || parameters = ['0'])

end Piece

/-- Whether a character can be a parameter of a command. -/
def isParameter (c : Char) : Bool := '0' ≤ c && c ≤ '?'

/-- Whether a character can stand between the parameters of a command and its final character. -/
def isIntermediate (c : Char) : Bool := ' ' ≤ c && c ≤ '/'

/-- Whether a character can end a command. -/
def isFinal (c : Char) : Bool := '@' ≤ c && c ≤ '~'

/-- The command at the head of a text, and the text behind it. -/
def command? : List Char → Option (Piece × List Char)
  | '\x1b' :: '[' :: text =>
    let rest := text.dropWhile isParameter
    match rest.dropWhile isIntermediate with
    | [] => none
    | final :: behind =>
      if isFinal final then
        let parameters := text.takeWhile isParameter ++ rest.takeWhile isIntermediate
        some (.command parameters final, behind)
      else none
  | _ => none

theorem length_of_command? {text rest : List Char} {piece : Piece}
    (h : command? text = some (piece, rest)) : rest.length < text.length := by
  unfold command? at h
  split at h
  · rename_i text
    have hparameters := (List.dropWhile_suffix isParameter (l := text)).length_le
    have hintermediates :=
      (List.dropWhile_suffix isIntermediate (l := text.dropWhile isParameter)).length_le
    simp only at h
    split at h
    · cases h
    · rename_i final behind hbehind
      rw [hbehind, List.length_cons] at hintermediates
      split at h
      · obtain ⟨_, rfl⟩ := Prod.mk.inj (Option.some.inj h)
        simp only [List.length_cons]
        omega
      · cases h
  · cases h

/-- The commands and the other characters of a text, in their order. -/
def pieces (text : List Char) : List Piece :=
  match h : command? text with
  | some (piece, rest) =>
    have := length_of_command? h
    piece :: pieces rest
  | none =>
    match text with
    | [] => []
    | c :: rest => .shown c :: pieces rest
termination_by text.length

/-- A text without its commands. -/
def visible (text : String) : String := String.ofList ((pieces text.toList).filterMap Piece.shown?)

/-- Whether every command of a text opens a style that the next command resets. A style may be open
already. -/
def closesStyles (isOpen : Bool) : List Piece → Bool
  | [] => !isOpen
  | .shown _ :: rest => closesStyles isOpen rest
  | .command parameters final :: rest =>
    let piece := Piece.command parameters final
    (if isOpen then piece.isReset else piece.isStyle) && closesStyles (!isOpen) rest

theorem pieces_nil : pieces [] = [] := by
  rw [pieces]
  rfl

theorem pieces_of_command? {text rest : List Char} {piece : Piece}
    (h : command? text = some (piece, rest)) : pieces text = piece :: pieces rest := by
  rw [pieces]
  split
  · rename_i found behind hfound
    obtain ⟨rfl, rfl⟩ := Prod.mk.inj (Option.some.inj (hfound.symm.trans h))
    rfl
  · rename_i hnone
    cases hnone.symm.trans h

theorem pieces_cons_of_ne {c : Char} (hc : c ≠ escape) (rest : List Char) :
    pieces (c :: rest) = .shown c :: pieces rest := by
  have hnone : command? (c :: rest) = none := by
    unfold command?
    split
    · rename_i heq
      exact absurd (List.cons.inj heq).1 hc
    · rfl
  rw [pieces]
  split
  · rename_i hfound
    cases hnone.symm.trans hfound
  · rfl

/-- Characters that are no escape characters are shown. -/
theorem pieces_append {text : List Char} (h : escape ∉ text) (rest : List Char) :
    pieces (text ++ rest) = text.map .shown ++ pieces rest := by
  induction text with
  | nil => rfl
  | cons c text ih =>
    rw [List.mem_cons, not_or] at h
    obtain ⟨hc, htext⟩ := h
    rw [List.cons_append, pieces_cons_of_ne (Ne.symm hc), ih htext]
    rfl

theorem closesStyles_append_shown (isOpen : Bool) (text : List Char) (rest : List Piece) :
    closesStyles isOpen (text.map .shown ++ rest) = closesStyles isOpen rest := by
  induction text with
  | nil => rfl
  | cons c text ih => exact ih

theorem filterMap_shown?_append (text : List Char) (rest : List Piece) :
    (text.map Piece.shown ++ rest).filterMap Piece.shown? =
      text ++ rest.filterMap Piece.shown? := by
  induction text with
  | nil => rfl
  | cons c text ih => exact congrArg (c :: ·) ih

/-! ### Colours -/

/-- The colour of a role is a command that opens a style; plain text has none. -/
theorem exists_command_start {role : Role} (hrole : role ≠ .plain) :
    ∃ parameters, (Piece.command parameters 'm').isStyle = true ∧
      ∀ rest, pieces (role.start.toList ++ rest) = .command parameters 'm' :: pieces rest := by
  cases role with
  | error => exact ⟨['1', ';', '9', '1'], rfl, fun _ => pieces_of_command? rfl⟩
  | gutter => exact ⟨['9', '4'], rfl, fun _ => pieces_of_command? rfl⟩
  | primary => exact ⟨['9', '1'], rfl, fun _ => pieces_of_command? rfl⟩
  | secondary => exact ⟨['9', '3'], rfl, fun _ => pieces_of_command? rfl⟩
  | hint => exact ⟨['3', '6'], rfl, fun _ => pieces_of_command? rfl⟩
  | plain => exact absurd rfl hrole

theorem pieces_resetSequence (rest : List Char) :
    pieces (resetSequence.toList ++ rest) = .command ['0'] 'm' :: pieces rest :=
  pieces_of_command? rfl

end Ansi

/-! ### Tinted texts -/

/-- A text without colours, and the same text with colours on some parts of it. Neither the painted
parts nor the others contain escape characters of their own. -/
inductive Tinted : String → String → Prop where
  | bare {text : String} (h : Unescaped text) : Tinted text text
  | painted {role : Role} {text : String} (hrole : role ≠ .plain) (h : Unescaped text) :
    Tinted text (role.start ++ text ++ resetSequence)
  | append {plain colored plain' colored' : String} (h : Tinted plain colored)
    (h' : Tinted plain' colored') : Tinted (plain ++ plain') (colored ++ colored')

namespace Tinted

open Ansi

variable {plain colored : String}

/-- What a terminal makes of a tinted text, whatever follows: the text itself is shown, and no style
is left open. -/
theorem exists_pieces (h : Tinted plain colored) : ∃ parts : List Piece,
    (∀ rest, pieces (colored.toList ++ rest) = parts ++ pieces rest) ∧
    parts.filterMap Piece.shown? = plain.toList ∧
    ∀ rest, closesStyles false (parts ++ rest) = closesStyles false rest := by
  induction h with
  | @bare text h =>
    refine ⟨text.toList.map .shown, pieces_append h, ?_, closesStyles_append_shown false _⟩
    simpa using filterMap_shown?_append text.toList []
  | @painted role text hrole h =>
    obtain ⟨parameters, hstyle, hstart⟩ := exists_command_start hrole
    refine ⟨.command parameters 'm' :: (text.toList.map .shown ++ [.command ['0'] 'm']),
      fun rest => ?_, ?_, fun rest => ?_⟩
    · rw [String.toList_append, String.toList_append, List.append_assoc, List.append_assoc, hstart,
        pieces_append h, pieces_resetSequence]
      simp
    · rw [List.filterMap_cons_none rfl, filterMap_shown?_append]
      exact List.append_nil _
    · rw [List.cons_append, closesStyles, List.append_assoc]
      simp only [Bool.false_eq_true, if_false, hstyle, Bool.true_and, Bool.not_false,
        closesStyles_append_shown]
      rfl
  | append _ _ ih ih' =>
    obtain ⟨parts, hparts, hshown, hstyles⟩ := ih
    obtain ⟨parts', hparts', hshown', hstyles'⟩ := ih'
    refine ⟨parts ++ parts', fun rest => ?_, ?_, fun rest => ?_⟩
    · rw [String.toList_append, List.append_assoc, hparts, hparts', List.append_assoc]
    · rw [List.filterMap_append, hshown, hshown', String.toList_append]
    · rw [List.append_assoc, hstyles, hstyles']

/-- Deleting the commands of a tinted text gives the text without colours. -/
theorem visible_eq (h : Tinted plain colored) : visible colored = plain := by
  obtain ⟨parts, hparts, hshown, -⟩ := h.exists_pieces
  have hpieces := hparts []
  rw [List.append_nil, pieces_nil, List.append_nil] at hpieces
  rw [visible, hpieces, hshown, String.ofList_toList]

/-- In a tinted text every style that is opened is reset before another one is. -/
theorem closesStyles_pieces (h : Tinted plain colored) :
    closesStyles false (pieces colored.toList) = true := by
  obtain ⟨parts, hparts, -, hstyles⟩ := h.exists_pieces
  have hpieces := hparts []
  rw [List.append_nil, pieces_nil] at hpieces
  rw [hpieces, hstyles]
  rfl

-- A style inside another one is shown without the commands, but no reset of its own closes it.
example :
    visible "\x1b[91ma\x1b[94mb\x1b[0m" = "ab" ∧
      closesStyles false (pieces "\x1b[91ma\x1b[94mb\x1b[0m".toList) = false := by
  decide +kernel

end Tinted

theorem tinted_paint {role : Role} (hrole : role ≠ .plain) {text : String} (h : Unescaped text) :
    Tinted (paint false role text) (paint true role text) := by
  have hplain : paint false role text = text := by simp [paint]
  rw [hplain]
  by_cases hempty : text = ""
  · have hempty' : paint true role text = text := by simp [paint, hempty]
    rw [hempty']
    exact .bare h
  · have hpainted : paint true role text = role.start ++ text ++ resetSequence := by
      simp [paint, hempty]
    rw [hpainted]
    exact .painted hrole h

theorem tinted_join {plain colored : List String} (h : plain.Forall₂ Tinted colored) :
    Tinted (String.join plain) (String.join colored) := by
  induction h with
  | nil => exact .bare (by decide)
  | cons hfirst _ ih =>
    rw [String.join_cons, String.join_cons]
    exact hfirst.append ih

/-- Rows that are tinted stay so when they are put together. -/
theorem tinted_intercalate {separator : String} (hseparator : Unescaped separator)
    {plain colored : List String} (h : plain.Forall₂ Tinted colored) :
    Tinted (separator.intercalate plain) (separator.intercalate colored) := by
  induction h with
  | nil => exact .bare (show Unescaped "" by decide)
  | cons hfirst hrest ih =>
    cases hrest with
    | nil => exact hfirst
    | cons =>
      rw [String.intercalate_cons_cons, String.intercalate_cons_cons]
      exact (hfirst.append (.bare hseparator)).append ih

end Treewalk
