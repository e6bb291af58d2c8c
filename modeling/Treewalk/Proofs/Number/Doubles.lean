import Mathlib
import Treewalk.Proofs.Number.Shortest

/-!
# Parts of doubles

The bits of a double are a sign, an exponent and a mantissa. The parts that are read off the bits
tell whether the double is finite: the exponent of a finite one is not all ones, and an infinity has
such an exponent and no mantissa.
-/

namespace Treewalk.Number

open Float.Model (Format UnpackedFloat)
open Float.Model.UnpackedFloat (unpackExponent unpackMantissa)

theorem unpackExponent_eq_iff (b : BitVec Format.binary64.numBits) :
    unpackExponent b = -1#_ ↔ b.toNat / Nat.pow 2 fractionBits % Nat.pow 2 11 = 0x7FF := by
  rw [← BitVec.toNat_inj, unpackExponent, BitVec.toNat_cast, BitVec.extractLsb_toNat,
    Nat.shiftRight_eq_div_pow]
  exact Iff.rfl

theorem unpackMantissa_eq_iff (b : BitVec Format.binary64.numBits) :
    unpackMantissa b = 0#_ ↔ b.toNat % Nat.pow 2 fractionBits = 0 := by
  rw [← BitVec.toNat_inj, unpackMantissa, BitVec.toNat_cast, BitVec.extractLsb_toNat,
    Nat.shiftRight_zero]
  exact Iff.rfl

theorem isFinite_unpack {spec : Format} (b : BitVec spec.numBits) :
    (UnpackedFloat.unpack spec b).isFinite = true ↔ unpackExponent b ≠ -1#_ := by
  unfold UnpackedFloat.unpack
  simp only
  by_cases hones : unpackExponent b = -1#_
  · rw [if_pos hones]
    split <;> simp [UnpackedFloat.isFinite, hones]
  · rw [if_neg hones]
    split
    · split <;> simp [UnpackedFloat.isFinite, hones]
    · simp [UnpackedFloat.isFinite, hones]

theorem isNaN_unpack {spec : Format} (b : BitVec spec.numBits) :
    (UnpackedFloat.unpack spec b).isNaN = true ↔
      unpackExponent b = -1#_ ∧ unpackMantissa b ≠ 0#_ := by
  unfold UnpackedFloat.unpack
  simp only
  by_cases hones : unpackExponent b = -1#_
  · rw [if_pos hones]
    by_cases hzero : unpackMantissa b = 0#_
    · rw [if_pos hzero]
      simp [UnpackedFloat.isNaN, hzero]
    · rw [if_neg hzero]
      simp [UnpackedFloat.isNaN, hones, hzero]
  · rw [if_neg hones]
    split
    · split <;> simp [UnpackedFloat.isNaN, hones]
    · simp [UnpackedFloat.isNaN, hones]

/-- The parts of a finite double are those of a finite number. -/
theorem parts_of_isFinite {x : Float} (h : x.isFinite = true) :
    ∃ negative mag, Parts.ofBits x.toBits.toNat = .finite negative mag := by
  have hexponent : ¬ x.toBits.toNat / Nat.pow 2 fractionBits % Nat.pow 2 11 = 0x7FF :=
    mt (unpackExponent_eq_iff x.toBits.toBitVec).mpr ((isFinite_unpack _).mp h)
  unfold Parts.ofBits
  simp only
  rw [if_neg hexponent]
  split
  · exact ⟨_, _, rfl⟩
  · exact ⟨_, _, rfl⟩

/-- The parts of a double that is neither finite nor undefined are those of an infinity. -/
theorem parts_of_infinite {x : Float} (hnan : x.isNaN = false) (h : x.isFinite = false) :
    Parts.ofBits x.toBits.toNat = .infinite (x.toBits.toNat / Nat.pow 2 63 == 1) ∧
      unsigned x.toBits.toNat = infinityBits := by
  have hexponent : x.toBits.toNat / Nat.pow 2 fractionBits % Nat.pow 2 11 = 0x7FF := by
    apply Classical.byContradiction
    intro hother
    have hfinite : x.isFinite = true :=
      (isFinite_unpack _).mpr (mt (unpackExponent_eq_iff x.toBits.toBitVec).mp hother)
    rw [h] at hfinite
    cases hfinite
  have hfraction : x.toBits.toNat % Nat.pow 2 fractionBits = 0 := by
    apply Classical.byContradiction
    intro hother
    have hundefined : x.isNaN = true :=
      (isNaN_unpack _).mpr ⟨(unpackExponent_eq_iff x.toBits.toBitVec).mpr hexponent,
        mt (unpackMantissa_eq_iff x.toBits.toBitVec).mp hother⟩
    rw [hnan] at hundefined
    cases hundefined
  constructor
  · unfold Parts.ofBits
    simp only
    rw [if_pos hexponent, if_pos hfraction]
  · rw [pow_fractionBits, show Nat.pow 2 11 = 2048 from rfl] at hexponent
    rw [pow_fractionBits] at hfraction
    rw [unsigned, infinityBits_eq, pow_sixtyThree]
    omega

end Treewalk.Number
