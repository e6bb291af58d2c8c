import Treewalk.Text.Printable

/-!
# Quoted text

The quoted form of a text stands between single quotes, or between double quotes when the text
holds a single quote and no double quote. The quote in use and the backslash are escaped, and so is
every character that is not printable, so the quoted form is one line of visible characters.

## Main definitions

* `hexDigits` — a number in hexadecimal at a fixed width
* `quoted` — the quoted form of a text
-/

namespace Treewalk.Text

/-- The lowest `width` hexadecimal digits of a number, highest first. -/
def hexDigits : (width : Nat) → (n : Nat) → List Char
  | 0, _ => []
  | width + 1, n => hexDigits width (n / 16) ++ [Nat.digitChar (n % 16)]

/-- The single quote. -/
def singleQuote : Char := '\x27'

/-- The double quote. -/
def doubleQuote : Char := '\x22'

/-- The quote that encloses a text. -/
def quoteFor (text : List Char) : Char :=
  if text.contains singleQuote && !text.contains doubleQuote then doubleQuote else singleQuote

/-- A character as it stands between quotes. -/
def escapeChar (quote c : Char) : List Char :=
  let n := c.toNat
  if c = quote ∨ c = '\\' then ['\\', c]
  else if c = '\n' then ['\\', 'n']
  else if c = '\r' then ['\\', 'r']
  else if c = '\t' then ['\\', 't']
  else if isPrintable c then [c]
  else if n < 0x100 then '\\' :: 'x' :: hexDigits 2 n
  else if n < 0x10000 then '\\' :: 'u' :: hexDigits 4 n
  else '\\' :: 'U' :: hexDigits 8 n

/-- The quoted form of a text. -/
def quoted (text : String) : String :=
  let chars := text.toList
  let quote := quoteFor chars
  String.ofList (quote :: chars.flatMap (escapeChar quote) ++ [quote])

end Treewalk.Text
