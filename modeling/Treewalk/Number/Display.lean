import Treewalk.Number.Shortest

/-!
# The text of a number

A number is shown by its shortest decimal: positionally between one ten-thousandth and ten to the
sixteenth, and with an exponent of at least two digits outside. A whole number is shown without a
fraction, or with the fraction `.0` where a numeral has to look like one.

## Main definitions

* `display` — the text that printing a number gives
* `numeral` — the text that marks a whole number by `.0`
-/

namespace Treewalk.Number

/-- How the text of a number is laid out. -/
structure Layout where
  /-- The least position of the point, counted from the first digit, written positionally. -/
  leastPoint : Int
  /-- The greatest such position. -/
  greatestPoint : Int
  /-- What follows a whole number that is written positionally. -/
  wholeMark : List Char
  /-- The least number of digits of an exponent. -/
  exponentWidth : Nat

/-- Whole numbers carry no fraction when they are printed. -/
def printed : Layout := ⟨-3, 16, [], 2⟩

/-- A numeral marks a whole number by a zero fraction. -/
def marked : Layout := { printed with wholeMark := ['.', '0'] }

/-- The digits of a natural number. -/
def digitChars (n : Nat) : List Char := Nat.toDigits 10 n

/-- The digits of an exponent, filled up with zeros. -/
def exponentDigits (width n : Nat) : List Char :=
  let digits := digitChars n
  List.replicate (width - digits.length) '0' ++ digits

/-- A nonzero decimal with given significant digits and its point `point` places after their
start. -/
def Layout.place (layout : Layout) (digits : List Char) (point : Int) : List Char :=
  if layout.leastPoint ≤ point ∧ point ≤ layout.greatestPoint then
    if point ≤ 0 then '0' :: '.' :: List.replicate (-point).toNat '0' ++ digits
    else if digits.length ≤ point.toNat then
      digits ++ List.replicate (point.toNat - digits.length) '0' ++ layout.wholeMark
    else digits.take point.toNat ++ '.' :: digits.drop point.toNat
  else
    let fraction := if digits.length ≤ 1 then [] else '.' :: digits.drop 1
    let exponent := point - 1
    digits.take 1 ++ fraction ++ 'e' :: (if exponent < 0 then '-' else '+') ::
      exponentDigits layout.exponentWidth exponent.natAbs

/-- The significant digits of a decimal, without trailing zeros. -/
def Decimal.significant (d : Decimal) : List Char :=
  ((digitChars d.digits).reverse.dropWhile (· == '0')).reverse

/-- The text of a magnitude. -/
def Layout.magnitude (layout : Layout) (m : Magnitude) : List Char :=
  if m.mantissa = 0 then '0' :: layout.wholeMark
  else
    let d := m.shortest
    layout.place d.significant ((digitChars d.digits).length + d.exponent)

/-- The text of a number. -/
def Layout.text (layout : Layout) (x : Float) : List Char :=
  match Parts.ofBits x.toBits.toNat with
  | .notANumber => "nan".toList
  | .infinite negative => (if negative then ['-'] else []) ++ "inf".toList
  | .finite negative m => (if negative then ['-'] else []) ++ layout.magnitude m

/-- The text that printing a number gives. -/
def display (x : Float) : String := String.ofList (printed.text x)

/-- The text that marks a whole number by `.0`. -/
def numeral (x : Float) : String := String.ofList (marked.text x)

end Treewalk.Number
