import Treewalk.Text.Blank
import Treewalk.Text.DecimalDigit

/-!
# Whole numbers in text

A whole number is written with an optional sign and decimal digits of any script, with single
underscores between digits and blanks around. Very long numbers are refused.

## Main definitions

* `readInt?` — the number that a text denotes
-/

namespace Treewalk.Number

/-- The digits of a number, first digit first; an underscore stands only between two digits. -/
def readDigitRun : List Char → Option (List Nat)
  | [] => none
  | [c] => (Text.digitValue? c).map ([·])
  | c :: '_' :: rest => do return (← Text.digitValue? c) :: (← readDigitRun rest)
  | c :: rest => do return (← Text.digitValue? c) :: (← readDigitRun rest)

/-- The number with given decimal digits. -/
def ofDigits (digits : List Nat) : Nat := digits.foldl (fun n d => 10 * n + d) 0

/-- The greatest number of digits that is read. -/
def digitLimit : Nat := 4300

/-- The number with digits as written, unless there are too many. -/
def readNat? (text : List Char) : Option Nat := do
  let digits ← readDigitRun text
  if digits.length ≤ digitLimit then return ofDigits digits else none

/-- Blanks around a number: the four separators of information units are none. -/
def isMargin (c : Char) : Bool :=
  Text.isBlank c && !(0x1C ≤ c.toNat && c.toNat ≤ 0x1F)

/-- The number that a text denotes. -/
def readInt? (text : String) : Option Int :=
  match Text.dropRightWhile isMargin (text.toList.dropWhile isMargin) with
  | '-' :: rest => (readNat? rest).map fun n => -(n : Int)
  | '+' :: rest => (readNat? rest).map fun n => (n : Int)
  | rest => (readNat? rest).map fun n => (n : Int)

end Treewalk.Number
