/-!
# Doubles as exact binary fractions

A finite double is a sign and `mantissa * 2 ^ exponent`. The reals that round to it form an
interval around that value. Its ends lie half a gap away on each side, and the gap below a power of
two is half as wide as the gap above. An end belongs to the interval when the mantissa is even,
because ties go to the even neighbour.

## Main definitions

* `Magnitude` — the absolute value of a finite double
* `Parts` — what the bits of a double say
* `Interval` — the reals that round to a magnitude, over a common denominator
-/

namespace Treewalk.Number

/-- The absolute value `mantissa * 2 ^ exponent` of a finite double. -/
structure Magnitude where
  mantissa : Nat
  exponent : Int
  /-- Whether the next smaller double is only half as far away as the next larger one. -/
  narrowBelow : Bool
deriving DecidableEq, Repr

/-- What the bits of a double say. -/
inductive Parts where
  | notANumber
  | infinite (negative : Bool)
  | finite (negative : Bool) (magnitude : Magnitude)
deriving DecidableEq, Repr

/-- The number of fraction bits of a double. -/
def fractionBits : Nat := 52

/-- The exponent of the last place of the smallest doubles. -/
def leastExponent : Int := -1074

/-- The bits of the positive infinity. -/
def infinityBits : Nat := 0x7FF * Nat.pow 2 fractionBits

/-- The parts that 64 bits stand for. -/
def Parts.ofBits (bits : Nat) : Parts :=
  let negative := bits / Nat.pow 2 63 == 1
  let biased : Nat := bits / Nat.pow 2 fractionBits % Nat.pow 2 11
  let fraction := bits % Nat.pow 2 fractionBits
  if biased = 0x7FF then
    if fraction = 0 then .infinite negative else .notANumber
  else if biased = 0 then .finite negative ⟨fraction, leastExponent, false⟩
  else
    .finite negative
      ⟨Nat.pow 2 fractionBits + fraction, leastExponent + ((biased - 1 : Nat) : Int),
        fraction == 0 && 1 < biased⟩

/-- The reals that round to a magnitude: `low / unit` to `high / unit` around `middle / unit`. -/
structure Interval where
  low : Nat
  middle : Nat
  high : Nat
  unit : Nat
  /-- Whether the two ends belong to the interval. -/
  closed : Bool
deriving DecidableEq, Repr

/-- The interval of a magnitude, in quarters of its last place. -/
def Magnitude.interval (m : Magnitude) : Interval :=
  let quarter := m.exponent - 2
  let scale := Nat.pow 2 quarter.toNat
  { low := (4 * m.mantissa - (if m.narrowBelow then 1 else 2)) * scale
    middle := 4 * m.mantissa * scale
    high := (4 * m.mantissa + 2) * scale
    unit := Nat.pow 2 (-quarter).toNat
    closed := m.mantissa % 2 == 0 }

end Treewalk.Number
