import Treewalk.Number.Shortest

/-!
# The double nearest to a decimal

A decimal is rounded to the nearest double, a tie going to the even mantissa. A decimal beyond the
largest double rounds to infinity.

## Main definitions

* `roundDiv` — a quotient rounded to the nearest natural number
* `Decimal.toFloat` — the double nearest to a decimal
* `readDigits` — the double that a numeral stands for
-/

namespace Treewalk.Number

/-- The quotient rounded to the nearest natural number, a tie going to the even one. -/
def roundDiv (num den : Nat) : Nat :=
  let quotient := num / den
  let twice := 2 * (num % den)
  if twice < den ∨ (twice = den ∧ quotient % 2 = 0) then quotient else quotient + 1

/-- The exponent of the last place of the doubles around `num / den`. -/
def placeExponent (num den : Nat) : Int :=
  let guess : Int := (Nat.log2 num : Int) - Nat.log2 den - fractionBits
  let exponent :=
    if den * Nat.pow 2 (guess + fractionBits).toNat ≤
        num * Nat.pow 2 (-(guess + fractionBits)).toNat then guess
    else guess - 1
  max exponent leastExponent

/-- The bits of the double nearest to `num / den`. The exponent field and the mantissa overlap in
one bit, so rounding up to the next power of two carries into the exponent. -/
def bitsOfRatio (num den : Nat) : Nat :=
  let exponent := placeExponent num den
  let mantissa := roundDiv (num * Nat.pow 2 (-exponent).toNat) (den * Nat.pow 2 exponent.toNat)
  min ((exponent - leastExponent).toNat * Nat.pow 2 fractionBits + mantissa) infinityBits

/-- The bits of the double nearest to a decimal. -/
def Decimal.toBits (d : Decimal) : Nat :=
  if d.digits = 0 then 0
  else bitsOfRatio (d.digits * Nat.pow 10 d.exponent.toNat) (Nat.pow 10 (-d.exponent).toNat)

/-- The double nearest to a decimal. -/
def Decimal.toFloat (d : Decimal) : Float :=
  Float.ofBits d.toBits.toUInt64

/-- The natural number that ASCII digits stand for. -/
def natOfDigits (digits : List Char) : Nat :=
  digits.foldl (fun value c => 10 * value + (c.toNat - 0x30)) 0

/-- The double that a numeral stands for, given its digits before and after the point. -/
def readDigits (whole fraction : List Char) : Float :=
  Decimal.toFloat ⟨natOfDigits (whole ++ fraction), -(fraction.length : Int)⟩

end Treewalk.Number
