import Treewalk.Token.Lexeme

/-!
# Scanning

A cursor walks over a text and keeps the offset, the line and the start of the line. Each step takes
the lexeme at the cursor; gaps leave no trace, and everything else is a token or an error. The end
of the text is a token of its own.

A scanner lets passes over one text be pulled token by token. All passes of a scanner move the same
cursor. A pass that was not yet asked for a token changes nothing; its first request starts again
from the beginning and forgets the errors of earlier passes.

## Main definitions

* `Cursor.step` — one lexeme
* `scan` — the tokens and errors of a text
* `Scanner.next` — the next token of a pass
-/

namespace Treewalk

/-- A place in a text, and the text from there on. -/
structure Cursor where
  rest : List Char
  offset : Nat := 0
  line : Nat := 1
  lineStart : Nat := 0
deriving DecidableEq

namespace Cursor

/-- The cursor after one character. -/
def pass (cursor : Cursor) (c : Char) (rest : List Char) : Cursor :=
  let offset := cursor.offset + 1
  if c = '\n' then ⟨rest, offset, cursor.line + 1, offset⟩
  else ⟨rest, offset, cursor.line, cursor.lineStart⟩

/-- The cursor after a number of characters. -/
def advance : Nat → Cursor → Cursor
  | 0, cursor => cursor
  | count + 1, cursor =>
    match cursor.rest with
    | [] => cursor
    | c :: rest => advance count (cursor.pass c rest)

/-- The column of a cursor, counted from one. -/
def column (cursor : Cursor) : Nat := cursor.offset - cursor.lineStart + 1

end Cursor

/-- What a scan finds: a token or an error. -/
inductive ScanItem where
  | token (t : Token)
  | error (e : LexicalError)
deriving DecidableEq

/-- The token of a lexeme found, if it is one. -/
def ScanItem.token? : ScanItem → Option Token
  | .token t => some t
  | .error _ => none

/-- The error found, if it is one. -/
def ScanItem.error? : ScanItem → Option LexicalError
  | .token _ => none
  | .error e => some e

/-- The token at the end of a text. -/
def Cursor.endToken (file : Int) (cursor : Cursor) : Token :=
  ⟨.endOfInput, "", cursor.line, cursor.column, .ofLength file cursor.offset 0⟩

/-- The item of a lexeme that was recognised between two cursors. A token stands where it starts;
an unterminated string is reported on the line where the text ends. -/
def itemAt? (file : Int) (start stop : Cursor) (length : Nat) : Lexeme → Option ScanItem
  | .gap => none
  | .token kind =>
    some (.token
      ⟨kind, String.ofList (start.rest.take length), start.line, start.column,
        .ofLength file start.offset length⟩)
  | .stray c =>
    some (.error (.unexpectedCharacter ⟨stop.line, some (.ofLength file start.offset length)⟩
      (String.singleton c)))
  | .unterminated =>
    some (.error (.unterminatedString ⟨stop.line, some (.ofLength file start.offset length)⟩))

/-- Takes the lexeme at the cursor, unless the text has ended. -/
def Cursor.step (file : Int) (cursor : Cursor) : Option (Option ScanItem × Cursor) :=
  match cursor.rest with
  | [] => none
  | c :: text =>
    let recognised := lexeme c text
    let length := recognised.extra + 1
    let stop := cursor.advance length
    some (itemAt? file cursor stop length recognised.lexeme, stop)

theorem Cursor.length_advance_le (count : Nat) (cursor : Cursor) :
    (cursor.advance count).rest.length ≤ cursor.rest.length := by
  induction count generalizing cursor with
  | zero => exact Nat.le_refl _
  | succ count ih =>
    rw [advance]
    split
    · exact Nat.le_refl _
    · rename_i c rest hrest
      have shorter := ih (cursor.pass c rest)
      have : (cursor.pass c rest).rest = rest := by unfold pass; split <;> rfl
      rw [this] at shorter
      rw [hrest, List.length_cons]
      omega

theorem Cursor.length_step_lt {file : Int} {cursor stop : Cursor} {item : Option ScanItem}
    (h : cursor.step file = some (item, stop)) : stop.rest.length < cursor.rest.length := by
  unfold step at h
  split at h
  · cases h
  · rename_i c text hrest
    simp only [Option.some.injEq, Prod.mk.injEq] at h
    rw [← h.2, advance, hrest]
    have : (cursor.pass c text).rest = text := by unfold pass; split <;> rfl
    have shorter := length_advance_le (lexeme c text).extra (cursor.pass c text)
    rw [this] at shorter
    simp only [List.length_cons]
    omega

/-- Everything from a cursor on, in order, and the cursor at the end of the text. -/
def Cursor.scanAll (file : Int) (cursor : Cursor) : List ScanItem × Cursor :=
  match h : cursor.step file with
  | none => ([], cursor)
  | some (item, stop) =>
    have := length_step_lt h
    let (items, last) := stop.scanAll file
    (item.toList ++ items, last)
termination_by cursor.rest.length

/-- The result of scanning a whole text. -/
structure Scan where
  items : List ScanItem
  endToken : Token

namespace Scan

/-- The tokens before the end of the text. -/
def tokens (s : Scan) : List Token := s.items.filterMap ScanItem.token?

/-- The errors, in order of appearance. -/
def errors (s : Scan) : List LexicalError := s.items.filterMap ScanItem.error?

/-- The tokens with the one that ends the text. -/
def allTokens (s : Scan) : List Token := s.tokens ++ [s.endToken]

end Scan

/-- The tokens and errors of a text. -/
def scan (file : Int) (text : String) : Scan :=
  let (items, last) := Cursor.scanAll file ⟨text.toList, 0, 1, 0⟩
  ⟨items, last.endToken file⟩

/-- One text with the cursor that its passes share, the tokens found and not yet given away, and the
errors met since a pass last began. -/
structure Scanner where
  file : Int
  text : List Char
  cursor : Cursor
  pending : List Token := []
  errors : List LexicalError := []

/-- How far a pass has come. -/
inductive Pass where
  | untouched
  | running
  | finished
deriving DecidableEq, Repr

namespace Scanner

/-- A scanner at the start of a text. -/
def ofText (file : Int) (text : String) : Scanner :=
  ⟨file, text.toList, ⟨text.toList, 0, 1, 0⟩, [], []⟩

/-- The scanner back at the start, with no tokens and no errors. -/
def restart (s : Scanner) : Scanner :=
  { s with cursor := ⟨s.text, 0, 1, 0⟩, pending := [], errors := [] }

/-- Takes the lexeme at the cursor, unless the text has ended. A token is kept until it is given
away, an error is noted. -/
def take? (s : Scanner) : Option Scanner :=
  match s.cursor.step s.file with
  | none => none
  | some (item, stop) =>
    some { s with
      cursor := stop
      pending := s.pending ++ (item.bind ScanItem.token?).toList
      errors := s.errors ++ (item.bind ScanItem.error?).toList }

theorem length_take?_lt {s later : Scanner} (h : s.take? = some later) :
    later.cursor.rest.length < s.cursor.rest.length := by
  unfold take? at h
  cases hstep : s.cursor.step s.file with
  | none =>
    rw [hstep] at h
    cases h
  | some found =>
    rw [hstep] at h
    cases h
    exact Cursor.length_step_lt hstep

/-- Gives away a token that was kept, or steps to the next one. At the end of the text there is none
left. -/
def pull (s : Scanner) : Option Token × Scanner :=
  match s.pending with
  | t :: later => (some t, { s with pending := later })
  | [] =>
    match h : s.take? with
    | none => (none, s)
    | some later =>
      have := length_take?_lt h
      pull later
termination_by s.cursor.rest.length

/-- The next token of a pass, ending with the one that ends the text. -/
def next (s : Scanner) : Pass → Option Token × Pass × Scanner
  | .finished => (none, .finished, s)
  | .untouched =>
    match s.restart.pull with
    | (some t, s') => (some t, .running, s')
    | (none, s') => (some (s'.cursor.endToken s'.file), .finished, s')
  | .running =>
    match s.pull with
    | (some t, s') => (some t, .running, s')
    | (none, s') => (some (s'.cursor.endToken s'.file), .finished, s')

/-- A whole pass from the start. -/
def tokenize (s : Scanner) : List Token × Scanner :=
  let (items, last) := s.restart.cursor.scanAll s.file
  (items.filterMap ScanItem.token? ++ [last.endToken s.file],
    { s with cursor := last, pending := [], errors := items.filterMap ScanItem.error? })

end Scanner

end Treewalk
