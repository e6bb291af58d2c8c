import Treewalk.Text.Quoted

/-!
# JSON values and their text

A JSON value without fractions, and its text on one line: members in order, a blank after every
comma and colon, and only ASCII characters. A character above the basic plane is written as its two
surrogates.

## Main definitions

* `Json` — a JSON value whose numbers are integers
* `Json.encode` — the text of a value
-/

namespace Treewalk

/-- A JSON value whose numbers are integers. -/
inductive Json where
  | null
  | bool (value : Bool)
  | int (value : Int)
  | str (value : String)
  | arr (items : List Json)
  | obj (members : List (String × Json))

namespace Json

/-- The escape of one 16-bit unit. -/
def unitEscape (unit : Nat) : List Char :=
  '\\' :: 'u' :: Text.hexDigits 4 unit

/-- A character inside a JSON string. -/
def escapeChar (c : Char) : List Char :=
  let n := c.toNat
  if c = Text.doubleQuote then ['\\', Text.doubleQuote]
  else if c = '\\' then ['\\', '\\']
  else if c = '\n' then ['\\', 'n']
  else if c = '\r' then ['\\', 'r']
  else if c = '\t' then ['\\', 't']
  else if n = 0x08 then ['\\', 'b']
  else if n = 0x0C then ['\\', 'f']
  else if 0x20 ≤ n ∧ n < 0x7F then [c]
  else if n < 0x10000 then unitEscape n
  else
    unitEscape (0xD800 + (n - 0x10000) / 0x400) ++ unitEscape (0xDC00 + (n - 0x10000) % 0x400)

/-- A JSON string. -/
def encodeString (text : String) : List Char :=
  Text.doubleQuote :: text.toList.flatMap escapeChar ++ [Text.doubleQuote]

mutual

/-- The characters of a value's text. -/
def encodeChars : Json → List Char
  | .null => "null".toList
  | .bool true => "true".toList
  | .bool false => "false".toList
  | .int value => (toString value).toList
  | .str value => encodeString value
  | .arr items => '[' :: encodeItems items ++ [']']
  | .obj members => '\x7b' :: encodeMembers members ++ ['\x7d']

/-- The items of an array, divided by a comma and a blank. -/
def encodeItems : List Json → List Char
  | [] => []
  | [item] => encodeChars item
  | item :: next :: rest => encodeChars item ++ [',', ' '] ++ encodeItems (next :: rest)

/-- The members of an object, divided by a comma and a blank. -/
def encodeMembers : List (String × Json) → List Char
  | [] => []
  | [(name, value)] => encodeString name ++ [':', ' '] ++ encodeChars value
  | (name, value) :: next :: rest =>
    encodeString name ++ [':', ' '] ++ encodeChars value ++ [',', ' '] ++
      encodeMembers (next :: rest)

end

/-- The text of a value. -/
def encode (value : Json) : String :=
  String.ofList value.encodeChars

/-- A text, or null. -/
def ofText? : Option String → Json
  | some text => .str text
  | none => .null

end Json

end Treewalk
