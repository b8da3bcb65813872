import Mathlib
import GenLang.Decimal.Binary64

/-!
# Doubles and their bits

A double is told by its bits, and bits up to those of infinity are the bits of a double. That
reading the bits of a double gives it back is in no part of the library that is smaller than the
whole.
-/

namespace GenLang

namespace Binary64

theorem hidden_eq : hidden = 4503599627370496 :=
  rfl

/-- Bits that are no more than those of infinity are kept. -/
theorem toNat_toBits_ofBits {b : Nat} (hb : b ≤ 2047 * hidden) :
    (Float.ofBits (UInt64.ofNat b)).toBits.toNat = b := by
  rw [hidden_eq] at hb
  have hsize : (UInt64.ofNat b).toNat = b :=
    UInt64.toNat_ofNat_of_lt' (Nat.lt_of_le_of_lt hb (by decide))
  -- A pattern with the exponent of what is not a number has no fraction.
  have hvalid : Float.Model.Format.binary64.Valid (UInt64.ofNat b).toBitVec := by
    refine ⟨fun hexponent hfraction => ?_⟩
    have hexponent := congrArg BitVec.toNat hexponent
    have hfraction := fun h => hfraction (BitVec.eq_of_toNat_eq h)
    simp [Float.Model.UnpackedFloat.unpackExponent, Float.Model.UnpackedFloat.unpackMantissa,
      Nat.shiftRight_eq_div_pow] at hexponent hfraction
    omega
  obtain ⟨x, hx⟩ : ∃ x : Float, x.toBits = UInt64.ofNat b := ⟨.ofModel ⟨_, hvalid⟩, rfl⟩
  rw [← hx, Float.ofBits_toBits, hx, hsize]

/-- The number that the bits of a double write tells the double. -/
theorem ofBits_toNat (x : Float) : Float.ofBits (UInt64.ofNat x.toBits.toNat) = x := by
  rw [UInt64.ofNat_toNat, Float.ofBits_toBits]

end Binary64

end GenLang
