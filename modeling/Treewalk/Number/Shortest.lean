import Treewalk.Number.Binary

/-!
# The shortest decimal of a double

Of all decimals that round to a given double, the shortest has the fewest digits, and among those
it is the nearest to the double, a tie going to the even last digit. On the grid of decimals with a
given number of digits only the two neighbours of the value have to be tried.

## Main definitions

* `Decimal` — a decimal number `digits * 10 ^ exponent`
* `Magnitude.shortest` — the shortest decimal that rounds to a magnitude
-/

namespace Treewalk.Number

/-- The decimal number `digits * 10 ^ exponent`. -/
structure Decimal where
  digits : Nat
  exponent : Int
deriving DecidableEq, Repr

/-- The number of decimal digits of a natural number. -/
def digitCount (n : Nat) : Nat := (Nat.toDigits 10 n).length

/-- The `e` with `10 ^ (e - 1) ≤ num / den < 10 ^ e`. -/
def decimalOrder (num den : Nat) : Int :=
  let guess : Int := digitCount num - digitCount den
  if den * Nat.pow 10 guess.toNat ≤ num * Nat.pow 10 (-guess).toNat then guess + 1 else guess

/-- Whether a point, over the same denominator, lies inside an interval. -/
def Interval.admits (i : Interval) (point : Nat) : Bool :=
  if i.closed then i.low ≤ point && point ≤ i.high else i.low < point && point < i.high

/-- An interval stretched by a power of ten. -/
def Interval.stretch (i : Interval) (power : Nat) : Interval :=
  let factor := Nat.pow 10 power
  { i with low := i.low * factor, middle := i.middle * factor, high := i.high * factor }

/-- The better of the value's two neighbours on the grid of multiples of `10 ^ exponent`, if one of
them lies inside the interval. -/
def Interval.onGrid? (i : Interval) (exponent : Int) : Option Decimal :=
  let stretched := i.stretch (-exponent).toNat
  let cell := i.unit * Nat.pow 10 exponent.toNat
  let below := stretched.middle / cell
  let above := below + 1
  let toBelow := stretched.middle - below * cell
  let toAbove := above * cell - stretched.middle
  match stretched.admits (below * cell), stretched.admits (above * cell) with
  | true, true =>
    if toBelow < toAbove ∨ (toBelow = toAbove ∧ below % 2 = 0) then some ⟨below, exponent⟩
    else some ⟨above, exponent⟩
  | true, false => some ⟨below, exponent⟩
  | false, true => some ⟨above, exponent⟩
  | false, false => none

/-- The decimal equal to a magnitude. -/
def Magnitude.exact (m : Magnitude) : Decimal :=
  if m.exponent < 0 then ⟨m.mantissa * Nat.pow 5 (-m.exponent).toNat, m.exponent⟩
  else ⟨m.mantissa * Nat.pow 2 m.exponent.toNat, 0⟩

/-- The shortest decimal that rounds to a magnitude: seventeen digits always suffice. -/
def Magnitude.shortest (m : Magnitude) : Decimal :=
  let interval := m.interval
  let order := decimalOrder interval.middle interval.unit
  ((List.range' 1 17).findSome? fun (count : Nat) => interval.onGrid? (order - count)).getD m.exact

end Treewalk.Number
