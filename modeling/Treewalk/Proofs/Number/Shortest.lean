import Treewalk.Proofs.Number.Rounding

/-!
# Shortest decimals round back

The interval of a magnitude reaches from the midpoint below it to the midpoint above it, and has its
ends if the mantissa is even. So everything in it is rounded to the magnitude. The shortest decimal
of a magnitude is taken from its interval, or else is equal to it. Hence rounding the shortest
decimal gives the magnitude back.
-/

namespace Treewalk.Number

/-! ### Magnitudes -/

/-- A magnitude is the one that bits without a sign stand for. -/
structure Magnitude.Encodes (mag : Magnitude) (k bits : Nat) : Prop where
  bits_eq : bits = k * Nat.pow 2 fractionBits + mag.mantissa
  exponent_eq : mag.exponent = leastExponent + k
  mantissa_lt : mag.mantissa < 2 * Nat.pow 2 fractionBits
  normal : k = 0 ∨ Nat.pow 2 fractionBits ≤ mag.mantissa
  narrow : mag.narrowBelow = true ↔ k ≠ 0 ∧ mag.mantissa = Nat.pow 2 fractionBits
  finite : bits < infinityBits

/-- The bits of a number without its sign. -/
def unsigned (bits : Nat) : Nat := bits % Nat.pow 2 63

theorem pow_sixtyThree : Nat.pow 2 63 = 9223372036854775808 := rfl

theorem infinityBits_eq : infinityBits = 2047 * 4503599627370496 := rfl

/-- The parts of bits have the magnitude that the bits stand for. -/
theorem encodes_of_ofBits {bits : Nat} {negative : Bool} {mag : Magnitude}
    (hbits : bits < 2 * Nat.pow 2 63) (h : Parts.ofBits bits = .finite negative mag) :
    (∃ k, mag.Encodes k (unsigned bits)) ∧
      bits = (if negative then Nat.pow 2 63 else 0) + unsigned bits := by
  rw [pow_sixtyThree] at hbits
  have hbiased : bits / Nat.pow 2 fractionBits % Nat.pow 2 11 =
      unsigned bits / 4503599627370496 := by
    rw [unsigned, pow_sixtyThree, pow_fractionBits, show Nat.pow 2 11 = 2048 from rfl]
    omega
  have hfraction : bits % Nat.pow 2 fractionBits = unsigned bits % 4503599627370496 := by
    rw [unsigned, pow_sixtyThree, pow_fractionBits]
    omega
  have hsign : bits = (if bits / Nat.pow 2 63 == 1 then Nat.pow 2 63 else 0) + unsigned bits := by
    rw [unsigned, pow_sixtyThree]
    by_cases hone : bits / 9223372036854775808 = 1
    · simp only [hone, beq_self_eq_true, if_true]
      omega
    · simp only [beq_eq_false_iff_ne.mpr hone, Bool.false_eq_true, if_false]
      omega
  unfold Parts.ofBits at h
  simp only [hbiased, hfraction] at h
  by_cases hspecial : unsigned bits / 4503599627370496 = 0x7FF
  · rw [if_pos hspecial] at h
    split at h <;> cases h
  · have hbelow : unsigned bits < infinityBits := by
      rw [infinityBits_eq]
      have : unsigned bits < 9223372036854775808 := by
        rw [unsigned, pow_sixtyThree]
        omega
      omega
    rw [if_neg hspecial] at h
    by_cases hsmall : unsigned bits / 4503599627370496 = 0
    · rw [if_pos hsmall] at h
      cases h
      refine ⟨⟨0, ?_, ?_, ?_, .inl rfl, ?_, hbelow⟩, hsign⟩
      · simp only [Nat.zero_mul, Nat.zero_add]
        omega
      · rw [Nat.cast_zero, add_zero]
      · simp only [pow_fractionBits]
        omega
      · simp
    · rw [if_neg hsmall] at h
      cases h
      refine ⟨⟨unsigned bits / 4503599627370496 - 1, ?_, rfl, ?_, .inr (Nat.le_add_right _ _), ?_,
        hbelow⟩, hsign⟩
      · simp only [pow_fractionBits]
        omega
      · simp only [pow_fractionBits]
        omega
      · simp only [Bool.and_eq_true, beq_iff_eq, decide_eq_true_eq]
        omega

namespace Magnitude.Encodes

variable {mag : Magnitude} {k bits : Nat}

theorem valueOf_bits (h : mag.Encodes k bits) : valueOf bits = mag.mantissa * place k := by
  rw [h.bits_eq]
  exact valueOf_add h.mantissa_lt.le h.normal

theorem valueOf_succ (h : mag.Encodes k bits) :
    valueOf (bits + 1) = (mag.mantissa + 1) * place k := by
  have hm := h.mantissa_lt
  have hnormal := h.normal
  rw [h.bits_eq, Nat.add_assoc, valueOf_add (by omega) (by omega)]
  push_cast
  ring

/-- The step below a power of two is only half as far away. -/
theorem valueOf_below (h : mag.Encodes k bits) {below : Nat} (hbelow : below + 1 = bits) :
    valueOf below = (mag.mantissa - if mag.narrowBelow then 1 / 2 else 1) * place k := by
  have hbits := h.bits_eq
  have hm := h.mantissa_lt
  have hnormal := h.normal
  by_cases hnarrow : mag.narrowBelow = true
  · obtain ⟨hk, hmantissa⟩ := h.narrow.mp hnarrow
    obtain ⟨j, rfl⟩ : ∃ j, k = j + 1 := ⟨k - 1, by omega⟩
    have hsplit : below = j * Nat.pow 2 fractionBits + (2 * Nat.pow 2 fractionBits - 1) := by
      rw [pow_fractionBits] at *
      omega
    rw [hsplit, valueOf_add (by omega) (.inr (by rw [pow_fractionBits]; omega)), if_pos hnarrow,
      hmantissa, place_succ, Nat.cast_sub (by rw [pow_fractionBits]; omega)]
    push_cast
    ring
  · have hwide : ¬ (k ≠ 0 ∧ mag.mantissa = Nat.pow 2 fractionBits) := fun hboth =>
      hnarrow (h.narrow.mpr hboth)
    obtain ⟨n, hn⟩ : ∃ n, mag.mantissa = n + 1 :=
      ⟨mag.mantissa - 1, by rw [pow_fractionBits] at *; omega⟩
    obtain rfl : below = k * Nat.pow 2 fractionBits + n := by omega
    rw [valueOf_add (by omega) (by rw [pow_fractionBits] at *; omega), if_neg hnarrow, hn]
    push_cast
    ring

theorem even_bits (h : mag.Encodes k bits) (heven : Even mag.mantissa) : Even bits := by
  rw [h.bits_eq]
  exact even_add_mantissa heven

end Magnitude.Encodes

/-! ### Intervals -/

/-- A rational lies inside an interval. -/
def Interval.Holds (i : Interval) (q : ℚ) : Prop :=
  (i.low ≤ q * i.unit ∧ (i.closed = false → i.low ≠ q * i.unit)) ∧
    (q * i.unit ≤ i.high ∧ (i.closed = false → q * i.unit ≠ i.high))

/-- A point that an interval stretched by a factor admits is a rational inside the interval. -/
theorem Interval.holds_of_admits {i : Interval} {power point : Nat} {q : ℚ}
    (hpoint : (point : ℚ) = q * i.unit * 10 ^ power)
    (h : (i.stretch power).admits point = true) : i.Holds q := by
  have hten : (0 : ℚ) < 10 ^ power := by positivity
  have hle : ∀ n : Nat, n * Nat.pow 10 power ≤ point ↔ (n : ℚ) ≤ q * i.unit := by
    intro n
    rw [← mul_le_mul_iff_left₀ hten, ← hpoint, Nat.pow_eq]
    exact_mod_cast Iff.rfl
  have hge : ∀ n : Nat, point ≤ n * Nat.pow 10 power ↔ q * i.unit ≤ (n : ℚ) := by
    intro n
    rw [← mul_le_mul_iff_left₀ hten, ← hpoint, Nat.pow_eq]
    exact_mod_cast Iff.rfl
  unfold admits stretch at h
  simp only at h
  split at h
  · rename_i hclosed
    simp only [Bool.and_eq_true, decide_eq_true_eq, hle, hge] at h
    exact ⟨⟨h.1, fun hopen => by simp [hclosed] at hopen⟩, h.2,
      fun hopen => by simp [hclosed] at hopen⟩
  · simp only [Bool.and_eq_true, decide_eq_true_eq, ← not_le, hle, hge] at h
    exact ⟨⟨(not_le.mp h.1).le, fun _ => (not_le.mp h.1).ne⟩, (not_le.mp h.2).le,
      fun _ => (not_le.mp h.2).ne⟩

/-- A decimal that is found on a grid lies inside the interval. -/
theorem Interval.holds_of_onGrid? {i : Interval} {exponent : Int} {d : Decimal}
    (h : i.onGrid? exponent = some d) : i.Holds d.value := by
  have hadmits : ∀ digits : Nat,
      (i.stretch (-exponent).toNat).admits (digits * (i.unit * Nat.pow 10 exponent.toNat)) = true →
      i.Holds (Decimal.value ⟨digits, exponent⟩) := by
    intro digits hadmits
    refine holds_of_admits ?_ hadmits
    rw [Decimal.value, zpow_eq_div, Nat.pow_eq]
    push_cast
    field_simp
  unfold onGrid? at h
  simp only at h
  split at h
  · rename_i hbelow habove
    split at h
    · cases h
      exact hadmits _ hbelow
    · cases h
      exact hadmits _ habove
  · rename_i hbelow _
    cases h
    exact hadmits _ hbelow
  · rename_i _ habove
    cases h
    exact hadmits _ habove
  · cases h

namespace Magnitude.Encodes

variable {mag : Magnitude} {k bits : Nat}

/-- The ends of the interval of a magnitude are the midpoints to its neighbours. -/
theorem interval_ends (h : mag.Encodes k bits) (hpos : 0 < mag.mantissa) (q : ℚ) :
    ((mag.interval.low ≤ q * mag.interval.unit ↔
        (2 * mag.mantissa - if mag.narrowBelow then 1 / 2 else 1) * place k ≤ 2 * q) ∧
      (mag.interval.low = q * mag.interval.unit ↔
        (2 * mag.mantissa - if mag.narrowBelow then 1 / 2 else 1) * place k = 2 * q)) ∧
    ((q * mag.interval.unit ≤ mag.interval.high ↔ 2 * q ≤ (2 * mag.mantissa + 1) * place k) ∧
      (q * mag.interval.unit = mag.interval.high ↔ 2 * q = (2 * mag.mantissa + 1) * place k)) := by
  have hunit : (0 : ℚ) < mag.interval.unit := by
    exact_mod_cast (Nat.pow_pos Nat.two_pos : 0 < Nat.pow 2 (-(mag.exponent - 2)).toNat)
  have hscale : ((Nat.pow 2 (mag.exponent - 2).toNat : Nat) : ℚ) =
      place k / 4 * mag.interval.unit := by
    have hquarter : place k / 4 = 2 ^ (mag.exponent - 2) := by
      rw [place, h.exponent_eq, zpow_sub₀ two_ne_zero]
      norm_num
    rw [hquarter, zpow_eq_div, interval, Nat.pow_eq, Nat.pow_eq]
    push_cast
    field_simp
  have hlow : (mag.interval.low : ℚ) =
      (2 * mag.mantissa - if mag.narrowBelow then 1 / 2 else 1) * place k / 2 *
        mag.interval.unit := by
    have hsub : (if mag.narrowBelow then 1 else 2) ≤ 4 * mag.mantissa := by
      split <;> omega
    simp only [interval, Nat.cast_mul, Nat.cast_sub hsub] at hscale ⊢
    rw [hscale]
    split
    · push_cast
      ring
    · push_cast
      ring
  have hhigh : (mag.interval.high : ℚ) =
      (2 * mag.mantissa + 1) * place k / 2 * mag.interval.unit := by
    simp only [interval, Nat.cast_mul] at hscale ⊢
    rw [hscale]
    push_cast
    ring
  rw [hlow, hhigh, mul_le_mul_iff_left₀ hunit, mul_le_mul_iff_left₀ hunit,
    mul_left_inj' hunit.ne', mul_left_inj' hunit.ne']
  refine ⟨⟨?_, ?_⟩, ?_, ?_⟩ <;> constructor <;> intro heq <;> linarith

/-- What lies in the interval of a magnitude is rounded to it. -/
theorem roundsTo_of_holds (h : mag.Encodes k bits) (hpos : 0 < mag.mantissa) {q : ℚ}
    (hholds : mag.interval.Holds q) : RoundsTo q bits := by
  obtain ⟨⟨hlow, hlowTie⟩, hhigh, hhighTie⟩ := h.interval_ends hpos q
  obtain ⟨⟨hle, hopen⟩, hge, hopen'⟩ := hholds
  have hclosed : mag.interval.closed ≠ false → Even bits := by
    intro hclosed
    exact h.even_bits (Nat.even_iff.mpr (beq_iff_eq.mp (Bool.of_not_eq_false hclosed)))
  refine roundsTo_of_between h.finite.le ?_ fun _ => ?_
  · intro below hbelow
    have hsum : valueOf below + valueOf bits =
        (2 * mag.mantissa - if mag.narrowBelow then 1 / 2 else 1) * place k := by
      rw [h.valueOf_below hbelow, h.valueOf_bits]
      ring
    rw [hsum]
    exact ⟨hlow.mp hle, fun heq => hclosed fun hfalse => hopen hfalse (hlowTie.mpr heq)⟩
  · have hsum : valueOf bits + valueOf (bits + 1) = (2 * mag.mantissa + 1) * place k := by
      rw [h.valueOf_succ, h.valueOf_bits]
      ring
    rw [AtMost, hsum]
    exact ⟨hhigh.mp hge, fun heq => hclosed fun hfalse => hopen' hfalse (hhighTie.mpr heq)⟩

theorem value_exact (h : mag.Encodes k bits) : mag.exact.value = valueOf bits := by
  rw [h.valueOf_bits, place, ← h.exponent_eq, exact]
  split
  · rename_i hneg
    obtain ⟨n, hn⟩ : ∃ n : Nat, mag.exponent = -(n : Int) := ⟨(-mag.exponent).toNat, by omega⟩
    rw [Decimal.value, hn, neg_neg, Int.toNat_natCast, Nat.pow_eq, zpow_neg, zpow_neg, zpow_natCast,
      zpow_natCast, Nat.cast_mul, Nat.cast_pow, Nat.cast_ofNat, show (10 : ℚ) = 2 * 5 by norm_num,
      mul_pow]
    field_simp
  · rename_i hnonneg
    rw [Decimal.value, zpow_zero, mul_one, zpow_eq_div,
      Int.toNat_of_nonpos (show -mag.exponent ≤ 0 by omega), pow_zero, div_one, Nat.pow_eq]
    push_cast
    rfl

/-- The shortest decimal of a magnitude is rounded to it. -/
theorem roundsTo_shortest (h : mag.Encodes k bits) (hpos : 0 < mag.mantissa) :
    RoundsTo mag.shortest.value bits := by
  unfold shortest
  simp only
  cases hfound : (List.range' 1 17).findSome? fun (count : Nat) =>
      mag.interval.onGrid? (decimalOrder mag.interval.middle mag.interval.unit - count) with
  | some d =>
    obtain ⟨_, _, hgrid⟩ := List.exists_of_findSome?_eq_some hfound
    exact h.roundsTo_of_holds hpos (Interval.holds_of_onGrid? hgrid)
  | none =>
    rw [Option.getD_none, h.value_exact]
    refine roundsTo_of_between h.finite.le ?_ fun _ => ?_
    · rintro below rfl
      have := valueOf_lt_succ below
      exact ⟨by linarith, fun heq => by linarith⟩
    · have := valueOf_lt_succ bits
      exact ⟨by linarith, fun heq => by linarith⟩

/-- The shortest decimal of a magnitude rounds back to it. -/
theorem toBits_shortest (h : mag.Encodes k bits) (hpos : 0 < mag.mantissa) :
    mag.shortest.toBits = bits :=
  mag.shortest.roundsTo_toBits.unique (h.roundsTo_shortest hpos)

theorem digits_shortest_ne_zero (h : mag.Encodes k bits) (hpos : 0 < mag.mantissa) :
    mag.shortest.digits ≠ 0 := by
  intro hzero
  have hbits := h.toBits_shortest hpos
  have hsum := h.bits_eq
  rw [Decimal.toBits, if_pos hzero] at hbits
  omega

end Magnitude.Encodes

end Treewalk.Number
