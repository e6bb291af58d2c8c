/-!
# Blank characters

The characters that count as empty space at the ends of a line: the ASCII controls that move the
carriage, the information separators, and the space separators of every script. Joiners of zero
width and the byte order mark are not blank.

## Main definitions

* `isBlank` — whether a character is empty space
* `trim` — a text without the blanks at its two ends
-/

namespace Treewalk.Text

/-- Whether a character is empty space. -/
def isBlank (c : Char) : Bool :=
  let n := c.toNat
  (0x09 ≤ n && n ≤ 0x0D) || (0x1C ≤ n && n ≤ 0x20) || n == 0x85 || n == 0xA0 || n == 0x1680 ||
    (0x2000 ≤ n && n ≤ 0x200A) || n == 0x2028 || n == 0x2029 || n == 0x202F || n == 0x205F ||
    n == 0x3000

/-- A text without the trailing characters of a class. -/
def dropRightWhile (p : Char → Bool) (text : List Char) : List Char :=
  (text.reverse.dropWhile p).reverse

/-- A text without the blanks at its two ends. -/
def trim (text : List Char) : List Char :=
  dropRightWhile isBlank (text.dropWhile isBlank)

end Treewalk.Text
