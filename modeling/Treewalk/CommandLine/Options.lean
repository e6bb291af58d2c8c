import Treewalk.Diagnostic.Report
import Treewalk.Number.Integer
import Treewalk.Text.Quoted

/-!
# Options of the command

The words of a command line are switches, operands, and the separator after which every word is an
operand. A switch may be abbreviated as long as only one switch starts that way, its value may be
attached with an equals sign, and one-letter switches may be clustered after one dash. The last of
several values counts. The words are classified before any of them takes effect; then they take
effect in turn, and words that nothing takes are reported together at the end.

## Main definitions

* `Switch` — the switches
* `Word` — a classified word of the command line
* `Options` — what the command is asked to do
* `Options.parse` — the options that words ask for
-/

namespace Treewalk

/-- A switch of the command. -/
inductive Switch where
  | help
  | color
  | maxErrors
  | errorFormat
  | tokens
  | tree
  | verbose
deriving DecidableEq, Repr

namespace Switch

/-- Every spelling of every switch. -/
def spellings : List (String × Switch) :=
  [("-h", .help), ("--help", .help), ("--color", .color), ("--max-errors", .maxErrors),
    ("--error-format", .errorFormat), ("--tokens", .tokens), ("--ast", .tree),
    ("-v", .verbose), ("--verbose", .verbose)]

/-- The switch that is spelled so. -/
def ofSpelling? (text : String) : Option Switch := spellings.lookup text

/-- The switch with a letter, for clusters. -/
def ofLetter? : Char → Option Switch
  | 'h' => some .help
  | 'v' => some .verbose
  | _ => none

/-- Whether a switch takes a value. -/
def takesValue : Switch → Bool
  | .color | .maxErrors | .errorFormat => true
  | .help | .tokens | .tree | .verbose => false

/-- The name of a switch in messages: all its spellings. -/
def title (switch : Switch) : String :=
  "/".intercalate ((spellings.filter (·.2 = switch)).map (·.1))

end Switch

/-- Why a command line is refused. -/
inductive Misuse where
  | ambiguous (word : String) (candidates : List String)
  | valueExpected (switch : Switch)
  | valueIgnored (switch : Switch) (value : String)
  | notAnInteger (switch : Switch) (value : String)
  | notAChoice (switch : Switch) (value : String) (choices : List String)
  | unrecognised (words : List String)
deriving DecidableEq, Repr

/-- The message of a misuse. -/
def Misuse.message : Misuse → String
  | .ambiguous word candidates =>
    let list := ", ".intercalate candidates
    s!"ambiguous option: {word} could match {list}"
  | .valueExpected switch => s!"argument {switch.title}: expected one argument"
  | .valueIgnored switch value =>
    s!"argument {switch.title}: ignored explicit argument {Text.quoted value}"
  | .notAnInteger switch value =>
    s!"argument {switch.title}: invalid int value: {Text.quoted value}"
  | .notAChoice switch value choices =>
    let list := ", ".intercalate (choices.map Text.quoted)
    s!"argument {switch.title}: invalid choice: {Text.quoted value} (choose from {list})"
  | .unrecognised words =>
    let list := " ".intercalate words
    s!"unrecognized arguments: {list}"

/-- A value in the same word as its switch, after an equals sign or directly. -/
structure Attached where
  afterEquals : Bool
  text : String
deriving DecidableEq, Repr

/-- A classified word of the command line. -/
inductive Word where
  | operand (text : String)
  | separator
  | unknown (text : String)
  | long (switch : Switch) (attached : Option Attached)
  | short (switch : Switch) (attached : Option Attached)
deriving DecidableEq, Repr

/-- A text before its first equals sign and, if there is one, the text after it. -/
def splitEquals (text : List Char) : List Char × Option (List Char) :=
  match text.dropWhile (· ≠ '=') with
  | [] => (text, none)
  | _ :: value => (text.takeWhile (· ≠ '='), some value)

/-- The word of a switch that is spelled so. -/
def Word.ofSwitch (spelling : String) (switch : Switch) (attached : Option Attached) : Word :=
  match spelling.toList with
  | '-' :: '-' :: _ => .long switch attached
  | _ => .short switch attached

/-- Whether a text is a minus sign and digits, with at most one point before the last digit. A line
feed may follow. -/
def looksNegative (text : List Char) : Bool :=
  let isDigit := fun c => (Text.digitValue? c).isSome
  match text with
  | '-' :: rest =>
    let body := if rest.getLast? = some '\n' then rest.dropLast else rest
    match body.dropWhile isDigit with
    | [] => !body.isEmpty
    | '.' :: fraction => !fraction.isEmpty && fraction.all isDigit
    | _ => false
  | _ => false

/-- A word that starts with a dash and spells no switch exactly. -/
def Word.unspelled (word : String) : Word :=
  let text := word.toList
  if looksNegative text || text.contains ' ' then .operand word else .unknown word

/-- A word that starts with two dashes: an abbreviated switch, if only one starts that way. -/
def Word.abbreviated (word : String) : Except Misuse Word :=
  let (name, value) := splitEquals word.toList
  match Switch.spellings.filter fun (spelling, _) => name.isPrefixOf spelling.toList with
  | [] => .ok (.unspelled word)
  | [(_, switch)] => .ok (.long switch (value.map fun v => ⟨true, String.ofList v⟩))
  | several => .error (.ambiguous word (several.map (·.1)))

/-- Classifies a word before the separator. -/
def Word.classify (word : String) : Except Misuse Word :=
  match Switch.ofSpelling? word with
  | some switch => .ok (.ofSwitch word switch none)
  | none =>
    match splitEquals word.toList with
    | (name, some value) =>
      match Switch.ofSpelling? (String.ofList name) with
      | some switch =>
        .ok (.ofSwitch (String.ofList name) switch (some ⟨true, String.ofList value⟩))
      | none => dashed word.toList
    | _ => dashed word.toList
where
  /-- Classifies a word that does not start with the full spelling of a switch. -/
  dashed : List Char → Except Misuse Word
    | '-' :: '-' :: _ => Word.abbreviated word
    | '-' :: letter :: rest =>
      match Switch.ofLetter? letter with
      | some switch => .ok (.short switch (some ⟨false, String.ofList rest⟩))
      | none => .ok (.unspelled word)
    | _ => .ok (.operand word)

/-- Classifies the words of a command line. -/
def Word.classifyAll : List String → Except Misuse (List Word)
  | [] => .ok []
  | word :: rest =>
    if word = "--" then .ok (.separator :: rest.map .operand)
    else do return (← classify word) :: (← classifyAll rest)

/-- What the command is asked to do. -/
structure Options where
  script : Option String := none
  color : ColorMode := .auto
  maxErrors : Int := 20
  errorFormat : ReportFormat := .human
  tokens : Bool := false
  tree : Bool := false
  verbose : Bool := false
deriving DecidableEq, Repr

/-- Why the words of a command line stop taking effect: help was asked for, or they are refused. -/
inductive Stop where
  | help
  | misuse (misuse : Misuse)
deriving DecidableEq, Repr

/-- The colour modes by name. -/
def ColorMode.choices : List (String × ColorMode) :=
  [("never", .never), ("always", .always), ("auto", .auto)]

/-- The report formats by name. -/
def ReportFormat.choices : List (String × ReportFormat) :=
  [("human", .human), ("json", .json)]

/-- The choice with a name. -/
def choose {α : Type} (switch : Switch) (choices : List (String × α)) (value : String) :
    Except Stop α :=
  match choices.lookup value with
  | some choice => .ok choice
  | none => .error (.misuse (.notAChoice switch value (choices.map (·.1))))

namespace Options

/-- The effect of a switch without a value. -/
def applyFlag (options : Options) : Switch → Except Stop Options
  | .help => .error .help
  | .tokens => .ok { options with tokens := true }
  | .tree => .ok { options with tree := true }
  | .verbose => .ok { options with verbose := true }
  | _ => .ok options

/-- The effect of a switch with a value. -/
def applyValue (options : Options) (switch : Switch) (value : String) : Except Stop Options :=
  match switch with
  | .color => do return { options with color := ← choose switch ColorMode.choices value }
  | .errorFormat => do
    return { options with errorFormat := ← choose switch ReportFormat.choices value }
  | .maxErrors =>
    match Number.readInt? value with
    | some n => .ok { options with maxErrors := n }
    | none => .error (.misuse (.notAnInteger switch value))
  | _ => .ok options

end Options

/-- The switches clustered after one dash, when text follows the first of them, and what is left
from the first letter that is no switch. -/
def cluster (switch : Switch) (afterEquals : Bool) :
    List Char → Except Misuse (List Switch × Option String)
  | [] => .error (.valueIgnored switch "")
  | letter :: rest =>
    if afterEquals || letter = '-' then
      .error (.valueIgnored switch (String.ofList (letter :: rest)))
    else
      match Switch.ofLetter? letter, rest with
      | none, _ => .ok ([switch], some (String.ofList ('-' :: letter :: rest)))
      | some next, [] => .ok ([switch, next], none)
      | some next, '=' :: value => do
        let (others, left) ← cluster next true value
        return (switch :: others, left)
      | some next, rest => do
        let (others, left) ← cluster next false rest
        return (switch :: others, left)

/-- The words that took effect so far. -/
structure Progress where
  options : Options := {}
  /-- Whether the last word gave the script. -/
  justGaveScript : Bool := false
  /-- The words that nothing took. -/
  left : List String := []
deriving DecidableEq, Repr

namespace Progress

/-- Leaves a word that nothing takes. -/
def leave (progress : Progress) (text : String) : Progress :=
  { progress with left := progress.left ++ [text], justGaveScript := false }

/-- An operand is the script, or else it is left. -/
def operand (progress : Progress) (text : String) : Progress :=
  match progress.options.script with
  | none =>
    { progress with
      options := { progress.options with script := some text }
      justGaveScript := true }
  | some _ => progress.leave text

/-- The separator is dropped where a script may still follow or was just given; else it is left. -/
def separator (progress : Progress) : Progress :=
  if progress.options.script.isNone || progress.justGaveScript then
    { progress with justGaveScript := false }
  else progress.leave "--"

/-- A cluster of one-letter switches takes effect. -/
def flags (progress : Progress) : List Switch → Except Stop Progress
  | [] => .ok { progress with justGaveScript := false }
  | switch :: rest => do
    let options ← progress.options.applyFlag switch
    flags { progress with options } rest

/-- A switch takes the value that it was given. -/
def valued (progress : Progress) (switch : Switch) (value : String) : Except Stop Progress := do
  let options ← progress.options.applyValue switch value
  return { progress with options, justGaveScript := false }

/-- The words take effect in turn. -/
def consume (progress : Progress) : List Word → Except Stop Progress
  | [] => .ok progress
  | .operand text :: rest => (progress.operand text).consume rest
  | .separator :: rest => progress.separator.consume rest
  | .unknown text :: rest => (progress.leave text).consume rest
  | .short switch none :: rest => do (← progress.flags [switch]).consume rest
  | .short switch (some attached) :: rest => do
    match cluster switch attached.afterEquals attached.text.toList with
    | .error misuse => .error (.misuse misuse)
    | .ok (switches, left) =>
      let progress := { progress with left := progress.left ++ left.toList }
      (← progress.flags switches).consume rest
  | .long switch (some attached) :: rest => do
    if switch.takesValue then (← progress.valued switch attached.text).consume rest
    else .error (.misuse (.valueIgnored switch attached.text))
  | [.long switch none] => do
    if switch.takesValue then .error (.misuse (.valueExpected switch))
    else (← progress.flags [switch]).consume []
  | .long switch none :: next :: rest => do
    if switch.takesValue then
      match next with
      | .operand value => (← progress.valued switch value).consume rest
      | _ => .error (.misuse (.valueExpected switch))
    else (← progress.flags [switch]).consume (next :: rest)

end Progress

/-- The options that words ask for. -/
def Options.parse (words : List String) : Except Stop Options :=
  match Word.classifyAll words with
  | .error misuse => .error (.misuse misuse)
  | .ok words => do
    let progress ← Progress.consume {} words
    if progress.left.isEmpty then return progress.options
    else .error (.misuse (.unrecognised progress.left))

end Treewalk
