import Mathlib.Algebra.Order.Field.Basic
import Mathlib.Algebra.Order.Field.Power
import Mathlib.Algebra.Order.Field.Rat
import Mathlib.Tactic.FieldSimp
import Mathlib.Tactic.Linarith
import Mathlib.Tactic.Positivity
import Mathlib.Tactic.Ring
import Treewalk.Number.Nearest

/-!
# Correct rounding

The bits of the doubles without a sign count the doubles from zero on, so the doubles form a ladder
of rationals. A rational is rounded to the nearest step of the ladder, and half way between two
steps to the one with even bits. The step of infinity stands where the next power of two would be.
The double that is computed from a quotient, and so the one that is computed from a decimal, is the
one that correct rounding asks for.
-/

namespace Treewalk.Number

/-! ### The ladder of doubles -/

/-- The unit of the last place of the doubles that are `k` steps of the exponent above the smallest
ones. -/
def place (k : Nat) : ℚ := 2 ^ (leastExponent + k)

/-- The number that the bits of a double without a sign stand for. Those of infinity stand for the
power of two behind the greatest double. -/
def valueOf (bits : Nat) : ℚ :=
  if bits < Nat.pow 2 fractionBits then bits * place 0
  else (Nat.pow 2 fractionBits + bits % Nat.pow 2 fractionBits : Nat) *
    place (bits / Nat.pow 2 fractionBits - 1)

theorem pow_fractionBits : Nat.pow 2 fractionBits = 4503599627370496 := rfl

theorem place_pos (k : Nat) : 0 < place k := zpow_pos two_pos _

theorem place_succ (k : Nat) : place (k + 1) = 2 * place k := by
  rw [place, place, Nat.cast_add_one, ← add_assoc, zpow_add_one₀ two_ne_zero, mul_comm]

/-- A mantissa of an exponent, or the first mantissa of the next one: the exponent and the mantissa
overlap in one bit. -/
theorem valueOf_add {k m : Nat} (hm : m ≤ 2 * Nat.pow 2 fractionBits)
    (hk : k = 0 ∨ Nat.pow 2 fractionBits ≤ m) :
    valueOf (k * Nat.pow 2 fractionBits + m) = m * place k := by
  rw [pow_fractionBits] at hm hk
  by_cases hlow : m < 4503599627370496
  · obtain rfl : k = 0 := by omega
    rw [valueOf, if_pos (by rw [pow_fractionBits]; omega), Nat.zero_mul, Nat.zero_add]
  · rw [valueOf, if_neg (by rw [pow_fractionBits]; omega), pow_fractionBits]
    by_cases hhigh : m < 2 * 4503599627370496
    · rw [show (k * 4503599627370496 + m) / 4503599627370496 - 1 = k by omega,
        show 4503599627370496 + (k * 4503599627370496 + m) % 4503599627370496 = m by omega]
    · -- the mantissa has overflowed into the exponent
      obtain rfl : m = 2 * 4503599627370496 := by omega
      have hexponent : (k * 4503599627370496 + 2 * 4503599627370496) / 4503599627370496 - 1 =
          k + 1 := by omega
      have hmantissa : (k * 4503599627370496 + 2 * 4503599627370496) % 4503599627370496 = 0 := by
        omega
      rw [hexponent, hmantissa, place_succ]
      push_cast
      ring

/-- All bits are an exponent and a mantissa. -/
theorem exists_eq_add (bits : Nat) :
    ∃ k m, bits = k * Nat.pow 2 fractionBits + m ∧ m < 2 * Nat.pow 2 fractionBits ∧
      (k = 0 ∨ Nat.pow 2 fractionBits ≤ m) := by
  refine ⟨bits / Nat.pow 2 fractionBits - 1,
    bits - (bits / Nat.pow 2 fractionBits - 1) * Nat.pow 2 fractionBits, ?_⟩
  rw [pow_fractionBits]
  omega

theorem valueOf_lt_succ (bits : Nat) : valueOf bits < valueOf (bits + 1) := by
  obtain ⟨k, m, rfl, hm, hk⟩ := exists_eq_add bits
  rw [valueOf_add (by omega) hk, Nat.add_assoc, valueOf_add (by omega) (by omega)]
  have := place_pos k
  push_cast
  linarith

/-- The ladder goes up. -/
theorem valueOf_strictMono : StrictMono valueOf := strictMono_nat_of_lt_succ valueOf_lt_succ

theorem valueOf_zero : valueOf 0 = 0 := by
  rw [valueOf, if_pos (by decide), Nat.cast_zero, zero_mul]

/-! ### Rounding -/

/-- The bits to which a rational is rounded: those of the nearest number, and even ones if two
numbers are equally near. -/
def RoundsTo (q : ℚ) (bits : Nat) : Prop :=
  bits ≤ infinityBits ∧ ∀ other ≤ infinityBits, other ≠ bits →
    |q - valueOf bits| ≤ |q - valueOf other| ∧
      (|q - valueOf bits| = |q - valueOf other| → Even bits)

/-- What is equally far from two numbers is nearer to all numbers between them. -/
theorem abs_sub_lt_of_between {q a b c : ℚ} (hab : a < b) (hbc : b < c)
    (h : |q - a| = |q - c|) : |q - b| < |q - a| := by
  have hmid : 2 * q = a + c := by
    rcases abs_eq_abs.mp h with h | h
    · linarith
    · linarith
  rw [abs_of_pos (show 0 < q - a by linarith), abs_lt]
  constructor
  · linarith
  · linarith

/-- There is only one step of the ladder to which a rational is rounded. -/
theorem RoundsTo.unique {q : ℚ} {bits other : Nat} (h : RoundsTo q bits)
    (hother : RoundsTo q other) : bits = other := by
  wlog hlt : bits < other generalizing bits other
  · rcases Nat.lt_or_eq_of_le (Nat.le_of_not_lt hlt) with hgt | heq
    · exact (this hother h hgt).symm
    · exact heq.symm
  exfalso
  obtain ⟨hle, heven⟩ := h.2 other hother.1 (by omega)
  obtain ⟨hge, heven'⟩ := hother.2 bits h.1 (by omega)
  -- both are equally near, so both are even, and the step between them is nearer
  have hequal := le_antisymm hle hge
  obtain ⟨a, ha⟩ := heven hequal
  obtain ⟨b, hb⟩ := heven' hequal.symm
  have hnearer := abs_sub_lt_of_between (q := q) (valueOf_strictMono (Nat.lt_succ_self bits))
    (valueOf_strictMono (show bits + 1 < other by omega)) hequal
  have hbound := hother.1
  exact absurd (h.2 (bits + 1) (by omega) (by omega)).1 (not_le.mpr hnearer)

/-- A rational is at least half way up to a step, and half way only if the bits are even. -/
def AtLeast (q : ℚ) (bits : Nat) : Prop :=
  ∀ below, below + 1 = bits → valueOf below + valueOf bits ≤ 2 * q ∧
    (valueOf below + valueOf bits = 2 * q → Even bits)

/-- A rational is at most half way up from a step, and half way only if the bits are even. -/
def AtMost (q : ℚ) (bits : Nat) : Prop :=
  2 * q ≤ valueOf bits + valueOf (bits + 1) ∧
    (2 * q = valueOf bits + valueOf (bits + 1) → Even bits)

theorem abs_sub_le_of_two_mul_le {q a c : ℚ} (hac : a < c) (h : 2 * q ≤ a + c) :
    |q - a| ≤ |q - c| ∧ (|q - a| = |q - c| → 2 * q = a + c) := by
  rw [abs_of_neg (show q - c < 0 by linarith)]
  refine ⟨abs_le.mpr ⟨by linarith, by linarith⟩, fun heq => ?_⟩
  rcases abs_cases (q - a) with ⟨habs, _⟩ | ⟨habs, _⟩
  · linarith
  · linarith

/-- A rational between the midpoints around a step is rounded to it. -/
theorem roundsTo_of_between {q : ℚ} {bits : Nat} (hbits : bits ≤ infinityBits)
    (hlower : AtLeast q bits) (hupper : bits < infinityBits → AtMost q bits) :
    RoundsTo q bits := by
  refine ⟨hbits, fun other hother hne => ?_⟩
  rcases Nat.lt_or_gt_of_ne hne with hlt | hgt
  · -- below: reflect the ladder
    obtain ⟨hmid, heven⟩ := hlower (bits - 1) (by omega)
    have hle := valueOf_strictMono.monotone (show other ≤ bits - 1 by omega)
    obtain ⟨hdist, htie⟩ := abs_sub_le_of_two_mul_le (q := -q) (a := -valueOf bits)
      (c := -valueOf other) (neg_lt_neg (valueOf_strictMono hlt)) (by linarith)
    rw [show -q - -valueOf bits = -(q - valueOf bits) by ring,
      show -q - -valueOf other = -(q - valueOf other) by ring, abs_neg, abs_neg] at hdist htie
    refine ⟨hdist, fun heq => heven ?_⟩
    have := htie heq
    linarith
  · obtain ⟨hmid, heven⟩ := hupper (by omega)
    have hle := valueOf_strictMono.monotone (show bits + 1 ≤ other from hgt)
    obtain ⟨hdist, htie⟩ := abs_sub_le_of_two_mul_le (q := q) (valueOf_strictMono hgt)
      (by linarith)
    refine ⟨hdist, fun heq => heven ?_⟩
    have := htie heq
    linarith

/-- What is at least half way up to a step is at least half way up to those below. -/
theorem AtLeast.of_le {q : ℚ} {bits lower : Nat} (h : AtLeast q bits) (hle : lower ≤ bits) :
    AtLeast q lower := by
  rcases Nat.lt_or_eq_of_le hle with hlt | rfl
  · rintro below rfl
    obtain ⟨hmid, _⟩ := h (bits - 1) (by omega)
    have hbelow := valueOf_strictMono (show below < bits - 1 by omega)
    have hbits := valueOf_strictMono hlt
    exact ⟨by linarith, fun heq => by linarith⟩
  · exact h

/-! ### Quotients -/

theorem zpow_eq_div (b : ℚ) (e : Int) :
    b ^ e = b ^ e.toNat / b ^ (-e).toNat := by
  rcases Int.le_total 0 e with he | he
  · rw [Int.toNat_of_nonpos (show -e ≤ 0 by omega), pow_zero, div_one, ← zpow_natCast,
      Int.toNat_of_nonneg he]
  · rw [Int.toNat_of_nonpos he, pow_zero, one_div, ← zpow_natCast, Int.toNat_of_nonneg (by omega),
      zpow_neg, inv_inv]

/-- The rounded quotient is at most one half away, and one half only if it is even. -/
theorem roundDiv_spec (num : Nat) {den : Nat} (hden : 0 < den) :
    ((2 * roundDiv num den - 1 : ℚ) ≤ 2 * (num / den) ∧
      ((2 * roundDiv num den - 1 : ℚ) = 2 * (num / den) → Even (roundDiv num den))) ∧
    (2 * (num / den : ℚ) ≤ 2 * roundDiv num den + 1 ∧
      (2 * (num / den : ℚ) = 2 * roundDiv num den + 1 → Even (roundDiv num den))) := by
  have hposden : (0 : ℚ) < den := Nat.cast_pos.mpr hden
  obtain ⟨q, r, hq, hr⟩ : ∃ q r, num / den = q ∧ num % den = r := ⟨_, _, rfl, rfl⟩
  have hsplit : (num / den : ℚ) = q + r / den := by
    have hnum : (num : ℚ) = den * q + r := by
      rw [← hq, ← hr]
      exact_mod_cast (Nat.div_add_mod num den).symm
    rw [hnum]
    field_simp
  have hpart : (0 : ℚ) ≤ r / den := by positivity
  have hone : (r / den : ℚ) < 1 := by
    rw [div_lt_one hposden]
    exact_mod_cast hr ▸ Nat.mod_lt num hden
  have htwice : (2 * (r / den) : ℚ) = (2 * r : Nat) / den := by
    push_cast
    ring
  rw [hsplit]
  unfold roundDiv
  simp only [hq, hr]
  by_cases hdown : 2 * r < den ∨ (2 * r = den ∧ q % 2 = 0)
  · rw [if_pos hdown]
    rcases hdown with hlt | ⟨heq, heven⟩
    · have hhalf : (2 * (r / den) : ℚ) < 1 := by
        rw [htwice, div_lt_one hposden]
        exact_mod_cast hlt
      exact ⟨⟨by linarith, fun h => by linarith⟩, by linarith, fun h => by linarith⟩
    · have hhalf : (2 * (r / den) : ℚ) = 1 := by
        rw [htwice, heq, div_self hposden.ne']
      have heven : Even q := Nat.even_iff.mpr heven
      exact ⟨⟨by linarith, fun _ => heven⟩, by linarith, fun _ => heven⟩
  · rw [if_neg hdown]
    push_cast
    rcases Nat.lt_or_eq_of_le (show den ≤ 2 * r by omega) with hgt | heq
    · have hhalf : (1 : ℚ) < 2 * (r / den) := by
        rw [htwice, one_lt_div hposden]
        exact_mod_cast hgt
      exact ⟨⟨by linarith, fun h => by linarith⟩, by linarith, fun h => by linarith⟩
    · have hhalf : (2 * (r / den) : ℚ) = 1 := by
        rw [htwice, ← heq, div_self hposden.ne']
      have heven : Even (q + 1) := Nat.even_iff.mpr (by omega)
      exact ⟨⟨by linarith, fun _ => heven⟩, by linarith, fun _ => heven⟩

theorem two_zpow_le_div_iff {num den : Nat} (hden : 0 < den) (e : Int) :
    den * Nat.pow 2 e.toNat ≤ num * Nat.pow 2 (-e).toNat ↔ (2 : ℚ) ^ e ≤ num / den := by
  have hposden : (0 : ℚ) < den := Nat.cast_pos.mpr hden
  rw [zpow_eq_div, div_le_div_iff₀ (by positivity) hposden, mul_comm, Nat.pow_eq, Nat.pow_eq]
  constructor
  · intro h
    exact_mod_cast h
  · intro h
    exact_mod_cast h

theorem log2_bounds {n : Nat} (h : 0 < n) :
    (2 : ℚ) ^ (Nat.log2 n : Int) ≤ n ∧ (n : ℚ) < 2 ^ (Nat.log2 n + 1 : Int) := by
  constructor
  · exact_mod_cast Nat.log2_self_le h.ne'
  · exact_mod_cast Nat.lt_log2_self

/-- The exponent is the one under which the quotient has fifty-three binary digits, but for the
smallest doubles. -/
theorem placeExponent_eq_max {num den : Nat} (hnum : 0 < num) (hden : 0 < den) :
    ∃ e : Int, placeExponent num den = max e leastExponent ∧
      (2 : ℚ) ^ (e + fractionBits) ≤ num / den ∧
      (num / den : ℚ) < 2 ^ (e + fractionBits + 1) := by
  have hposden : (0 : ℚ) < den := Nat.cast_pos.mpr hden
  obtain ⟨hlow, hhigh⟩ := log2_bounds hnum
  obtain ⟨hlow', hhigh'⟩ := log2_bounds hden
  obtain ⟨guess, hguess⟩ : ∃ guess : Int,
    guess = (Nat.log2 num : Int) - Nat.log2 den - fractionBits := ⟨_, rfl⟩
  have hbelow : (2 : ℚ) ^ (guess - 1 + fractionBits) ≤ num / den := by
    rw [le_div_iff₀ hposden]
    calc (2 : ℚ) ^ (guess - 1 + fractionBits) * den
        ≤ 2 ^ (guess - 1 + fractionBits) * 2 ^ (Nat.log2 den + 1 : Int) := by gcongr
      _ = 2 ^ (Nat.log2 num : Int) := by
          rw [← zpow_add₀ two_ne_zero]
          congr 1
          omega
      _ ≤ num := hlow
  have habove : (num / den : ℚ) < 2 ^ (guess + fractionBits + 1) := by
    rw [div_lt_iff₀ hposden]
    calc (num : ℚ) < 2 ^ (Nat.log2 num + 1 : Int) := hhigh
      _ = 2 ^ (guess + fractionBits + 1) * 2 ^ (Nat.log2 den : Int) := by
          rw [← zpow_add₀ two_ne_zero]
          congr 1
          omega
      _ ≤ 2 ^ (guess + fractionBits + 1) * den := by gcongr
  unfold placeExponent
  simp only [← hguess, two_zpow_le_div_iff hden]
  by_cases hfits : (2 : ℚ) ^ (guess + fractionBits) ≤ num / den
  · exact ⟨guess, by rw [if_pos hfits], hfits, habove⟩
  · refine ⟨guess - 1, by rw [if_neg hfits], hbelow, ?_⟩
    rw [show guess - 1 + (fractionBits : Int) + 1 = guess + fractionBits by omega]
    exact not_le.mp hfits

theorem pow_mul_place (k : Nat) :
    (Nat.pow 2 fractionBits : Nat) * place k = 2 ^ (leastExponent + k + fractionBits) := by
  rw [place, Nat.pow_eq, Nat.cast_pow, Nat.cast_ofNat, mul_comm, ← zpow_natCast,
    ← zpow_add₀ two_ne_zero]

/-- The unit of the last place, in which the quotient is less than two to the fifty-third and, but
for the smallest doubles, at least two to the fifty-second. -/
theorem placeExponent_spec {num den : Nat} (hnum : 0 < num) (hden : 0 < den) :
    ∃ k : Nat, placeExponent num den = leastExponent + k ∧
      (num / den : ℚ) < (2 * Nat.pow 2 fractionBits : Nat) * place k ∧
      (k = 0 ∨ (Nat.pow 2 fractionBits : Nat) * place k ≤ num / den) := by
  obtain ⟨e, he, hlow, hhigh⟩ := placeExponent_eq_max hnum hden
  have htwice : ∀ k, ((2 * Nat.pow 2 fractionBits : Nat) : ℚ) * place k =
      2 ^ (leastExponent + k + fractionBits + 1) := by
    intro k
    rw [Nat.cast_mul, mul_assoc, pow_mul_place, Nat.cast_ofNat, zpow_add_one₀ two_ne_zero, mul_comm]
  rw [he]
  rcases Int.le_total leastExponent e with hle | hle
  · obtain ⟨k, hk⟩ := Int.eq_ofNat_of_zero_le (Int.sub_nonneg_of_le hle)
    obtain rfl : e = leastExponent + k := by omega
    refine ⟨k, max_eq_left hle, ?_, .inr ?_⟩
    · rw [htwice]
      exact hhigh
    · rw [pow_mul_place]
      exact hlow
  · refine ⟨0, by rw [max_eq_right hle, Nat.cast_zero, add_zero], ?_, .inl rfl⟩
    rw [htwice]
    refine lt_of_lt_of_le hhigh (zpow_le_zpow_right₀ one_le_two ?_)
    rw [Nat.cast_zero]
    omega

theorem even_add_mantissa {k m : Nat} (h : Even m) :
    Even (k * Nat.pow 2 fractionBits + m) :=
  (Nat.even_mul.mpr (.inr (Nat.even_iff.mpr (by decide)))).add h

section Mantissa

variable {q : ℚ} {k m : Nat}

/-- A rational is at least half way up to the number with its rounded mantissa. -/
theorem atLeast_of_mantissa (hm : m ≤ 2 * Nat.pow 2 fractionBits)
    (hk : k = 0 ∨ Nat.pow 2 fractionBits ≤ m)
    (hlow : k = 0 ∨ (Nat.pow 2 fractionBits : Nat) * place k ≤ q)
    (hround : (2 * m - 1) * place k ≤ 2 * q) (htie : (2 * m - 1) * place k = 2 * q → Even m) :
    AtLeast q (k * Nat.pow 2 fractionBits + m) := by
  intro below hbelow
  rw [valueOf_add hm hk]
  by_cases hinner : 0 < m ∧ (k = 0 ∨ Nat.pow 2 fractionBits < m)
  · -- the step below has the same exponent
    obtain ⟨n, rfl⟩ : ∃ n, m = n + 1 := ⟨m - 1, by omega⟩
    obtain rfl : below = k * Nat.pow 2 fractionBits + n := by omega
    rw [valueOf_add (by omega) (by omega)]
    push_cast at hround htie ⊢
    exact ⟨by linarith, fun heq => even_add_mantissa (htie (by linarith))⟩
  · -- the step is a power of two, and the rational is not below it
    have hfirst : m = Nat.pow 2 fractionBits ∧ k ≠ 0 := by
      rw [pow_fractionBits] at *
      omega
    obtain ⟨rfl, hne⟩ := hfirst
    have hvalue := hlow.resolve_left hne
    have hlt := valueOf_strictMono (show below < k * Nat.pow 2 fractionBits +
      Nat.pow 2 fractionBits by omega)
    rw [valueOf_add hm hk] at hlt
    exact ⟨by linarith, fun heq => by linarith⟩

/-- A rational is at most half way up from the number with its rounded mantissa. -/
theorem atMost_of_mantissa (hm : m ≤ 2 * Nat.pow 2 fractionBits)
    (hk : k = 0 ∨ Nat.pow 2 fractionBits ≤ m)
    (hhigh : q < (2 * Nat.pow 2 fractionBits : Nat) * place k)
    (hround : 2 * q ≤ (2 * m + 1) * place k) (htie : 2 * q = (2 * m + 1) * place k → Even m) :
    AtMost q (k * Nat.pow 2 fractionBits + m) := by
  rcases Nat.lt_or_eq_of_le hm with hlt | rfl
  · -- the step above has the same exponent
    rw [AtMost, valueOf_add hm hk, Nat.add_assoc, valueOf_add (by omega) (by omega)]
    push_cast
    exact ⟨by linarith, fun heq => even_add_mantissa (htie (by linarith))⟩
  · -- the step is the next power of two, and the rational is below it
    have hlt := valueOf_lt_succ (k * Nat.pow 2 fractionBits + 2 * Nat.pow 2 fractionBits)
    rw [AtMost]
    rw [valueOf_add hm hk] at hlt ⊢
    exact ⟨by linarith, fun heq => by linarith⟩

/-- A rational is rounded to the number with its rounded mantissa, and to infinity if there is no
such number. -/
theorem roundsTo_of_mantissa (hlow : k = 0 ∨ (Nat.pow 2 fractionBits : Nat) * place k ≤ q)
    (hhigh : q < (2 * Nat.pow 2 fractionBits : Nat) * place k)
    (hlower : (2 * m - 1 : ℚ) ≤ 2 * (q / place k) ∧
      ((2 * m - 1 : ℚ) = 2 * (q / place k) → Even m))
    (hupper : 2 * (q / place k) ≤ (2 * m + 1 : ℚ) ∧
      (2 * (q / place k) = (2 * m + 1 : ℚ) → Even m)) :
    RoundsTo q (min (k * Nat.pow 2 fractionBits + m) infinityBits) := by
  have hplace := place_pos k
  obtain ⟨y, hy⟩ : ∃ y, q / place k = y := ⟨_, rfl⟩
  obtain rfl : q = y * place k := by rw [← hy, div_mul_cancel₀ _ hplace.ne']
  rw [hy] at hlower hupper
  have hbelow : y < (2 * Nat.pow 2 fractionBits : Nat) := lt_of_mul_lt_mul_right hhigh hplace.le
  have habove : k = 0 ∨ ((Nat.pow 2 fractionBits : Nat) : ℚ) ≤ y :=
    hlow.imp_right fun h => le_of_mul_le_mul_right h hplace
  have hm : m ≤ 2 * Nat.pow 2 fractionBits := by
    have hlt : ((2 * m : Nat) : ℚ) < (2 * (2 * Nat.pow 2 fractionBits) + 1 : Nat) := by
      push_cast at hbelow ⊢
      linarith
    have := Nat.cast_lt.mp hlt
    omega
  have hk : k = 0 ∨ Nat.pow 2 fractionBits ≤ m := by
    refine habove.imp_right fun h => ?_
    have hle : ((2 * Nat.pow 2 fractionBits : Nat) : ℚ) ≤ (2 * m + 1 : Nat) := by
      push_cast at h ⊢
      linarith
    have := Nat.cast_le.mp hle
    omega
  have hatLeast : AtLeast (y * place k) (k * Nat.pow 2 fractionBits + m) := by
    refine atLeast_of_mantissa hm hk hlow ?_ fun heq => hlower.2 ?_
    · have := mul_le_mul_of_nonneg_right hlower.1 hplace.le
      linarith
    · exact mul_right_cancel₀ hplace.ne' (by linarith)
  have hatMost : AtMost (y * place k) (k * Nat.pow 2 fractionBits + m) := by
    refine atMost_of_mantissa hm hk hhigh ?_ fun heq => hupper.2 ?_
    · have := mul_le_mul_of_nonneg_right hupper.1 hplace.le
      linarith
    · exact mul_right_cancel₀ hplace.ne' (by linarith)
  rcases Nat.le_total (k * Nat.pow 2 fractionBits + m) infinityBits with hle | hle
  · rw [Nat.min_eq_left hle]
    exact roundsTo_of_between hle hatLeast fun _ => hatMost
  · rw [Nat.min_eq_right hle]
    exact roundsTo_of_between (Nat.le_refl _) (hatLeast.of_le hle) fun hlt =>
      absurd hlt (Nat.lt_irrefl _)

end Mantissa

/-- Quotients are rounded correctly. -/
theorem roundsTo_bitsOfRatio {num den : Nat} (hnum : 0 < num) (hden : 0 < den) :
    RoundsTo (num / den) (bitsOfRatio num den) := by
  obtain ⟨k, hexponent, hhigh, hlow⟩ := placeExponent_spec hnum hden
  unfold bitsOfRatio
  simp only [hexponent, add_sub_cancel_left, Int.toNat_natCast]
  have hscaled : 0 < den * Nat.pow 2 (leastExponent + k).toNat :=
    Nat.mul_pos hden (Nat.pow_pos Nat.two_pos)
  have hquotient : ((num * Nat.pow 2 (-(leastExponent + k)).toNat : Nat) : ℚ) /
      (den * Nat.pow 2 (leastExponent + k).toNat : Nat) = num / den / place k := by
    rw [place, zpow_eq_div, Nat.pow_eq, Nat.pow_eq]
    push_cast
    field_simp
  obtain ⟨hlower, hupper⟩ :=
    roundDiv_spec (num * Nat.pow 2 (-(leastExponent + k)).toNat) hscaled
  rw [hquotient] at hlower hupper
  exact roundsTo_of_mantissa hlow hhigh hlower hupper

/-! ### Decimals -/

/-- The number that a decimal stands for. -/
def Decimal.value (d : Decimal) : ℚ := d.digits * 10 ^ d.exponent

/-- Decimals are rounded correctly. -/
theorem Decimal.roundsTo_toBits (d : Decimal) : RoundsTo d.value d.toBits := by
  unfold toBits value
  by_cases hzero : d.digits = 0
  · rw [if_pos hzero, hzero, Nat.cast_zero, zero_mul]
    refine roundsTo_of_between (Nat.zero_le _) (fun below h => absurd h (Nat.succ_ne_zero below))
      fun _ => ⟨?_, fun _ => Even.zero⟩
    have := valueOf_lt_succ 0
    rw [valueOf_zero] at this ⊢
    linarith
  · rw [if_neg hzero]
    have hten : ∀ n, 0 < Nat.pow 10 n := fun n => Nat.pow_pos (by decide)
    have hratio := roundsTo_bitsOfRatio
      (Nat.mul_pos (Nat.pos_of_ne_zero hzero) (hten d.exponent.toNat)) (hten (-d.exponent).toNat)
    rwa [Nat.pow_eq, Nat.pow_eq, Nat.cast_mul, Nat.cast_pow, Nat.cast_pow, Nat.cast_ofNat,
      mul_div_assoc, ← zpow_eq_div] at hratio

end Treewalk.Number
