import Treewalk.Json

/-!
# Colours

Parts of a report are coloured by their role. An empty text stays empty, and without colours every
text stays as it is.

## Main definitions

* `ColorMode.enabled` — whether reports are coloured on a stream
* `paint` — a text in the colour of its role
-/

namespace Treewalk

/-- When reports are coloured. -/
inductive ColorMode where
  | never
  | always
  | auto
deriving DecidableEq, Repr

/-- What decides about colours when the mode leaves it open: whether the stream is a terminal, and
whether the user asked for plain text. -/
structure Terminal where
  interactive : Bool := false
  plainRequested : Bool := false
deriving DecidableEq, Repr

/-- Whether reports are coloured on a stream. -/
def ColorMode.enabled (mode : ColorMode) (terminal : Terminal) : Bool :=
  match mode with
  | .never => false
  | .always => true
  | .auto => !terminal.plainRequested && terminal.interactive

/-- The role of a text in a report. -/
inductive Role where
  | error
  | gutter
  | primary
  | secondary
  | hint
  | plain
deriving DecidableEq, Repr

/-- The parameters of the escape sequence that starts a role's colour; plain text has none. -/
def Role.start : Role → String
  | .error => "\x1b[1;91m"
  | .gutter => "\x1b[94m"
  | .primary => "\x1b[91m"
  | .secondary => "\x1b[93m"
  | .hint => "\x1b[36m"
  | .plain => ""

/-- The escape sequence that ends a colour. -/
def resetSequence : String := "\x1b[0m"

/-- A text in the colour of its role. -/
def paint (colored : Bool) (role : Role) (text : String) : String :=
  if text = "" || !colored then text else role.start ++ text ++ resetSequence

end Treewalk
