import TwinTape.Proofs.Styles
import Mathlib

/-! # Words of 64 bits and numbers

A word has a sign, an exponent and a fraction, and a number is put together from them
(`Binary.toFloat_ofFields`).  Words that stand for numbers are told apart by the numbers
(`Binary.toBits_ofBits`); all others stand for one value, which is not a number
(`Binary.ofFloat_ofBits`, `Binary.isNaN_iff`). -/

namespace TwinTape
namespace Binary

open Float.Model (UnpackedFloat)

/-! ### Fields of a word -/

/-- The parts of the number whose word has the given fields. -/
def ofFields (negative : Bool) (exponent fraction : ℕ) : Binary :=
  if exponent = 2047 then (if fraction = 0 then infinite negative else nan)
  else if exponent = 0 then finite negative fraction 0
  else finite negative (2 ^ 52 + fraction) (exponent - 1)

theorem ofBits_eq (bits : ℕ) :
    ofBits bits = ofFields (2 ^ 63 ≤ bits) (bits / 2 ^ 52 % 2 ^ 11) (bits % 2 ^ 52) := rfl

section fields
variable {negative : Bool} {exponent fraction : ℕ}

theorem ofFields_eq_nan_iff :
    ofFields negative exponent fraction = nan ↔ exponent = 2047 ∧ fraction ≠ 0 := by
  unfold ofFields
  by_cases hexponent : exponent = 2047
  · by_cases hfraction : fraction = 0 <;> simp [hexponent, hfraction]
  · by_cases hzero : exponent = 0 <;> simp [hexponent, hzero]

/-- What is not a nan has the parts of a number. -/
theorem isNumber_ofFields (hexponent : exponent < 2 ^ 11) (hfraction : fraction < 2 ^ 52)
    (h : ofFields negative exponent fraction ≠ nan) :
    (ofFields negative exponent fraction).IsNumber := by
  rw [ne_eq, ofFields_eq_nan_iff, not_and_not_right] at h
  unfold ofFields
  by_cases htop : exponent = 2047
  · rw [if_pos htop, if_pos (h htop)]
    trivial
  · rw [if_neg htop]
    by_cases hzero : exponent = 0
    · rw [if_pos hzero]
      obtain rfl | hpos := Nat.eq_zero_or_pos fraction
      · exact .inl ⟨rfl, rfl⟩
      · exact .inr ⟨hpos, by omega, .inl rfl, by omega⟩
    · rw [if_neg hzero]
      exact .inr ⟨by omega, by omega, .inr (by omega), by omega⟩

theorem toFloat_ofFields (h : ofFields negative exponent fraction ≠ nan) :
    (ofFields negative exponent fraction).toFloat =
      Float.ofBits (signedBits negative (exponent * 2 ^ 52 + fraction)) := by
  rw [ne_eq, ofFields_eq_nan_iff, not_and_not_right] at h
  unfold ofFields
  by_cases htop : exponent = 2047
  · rw [if_pos htop, if_pos (h htop), htop, h htop]
    rfl
  · rw [if_neg htop]
    by_cases hzero : exponent = 0
    · rw [if_pos hzero, hzero, toFloat, twoTo_eq]
    · have hmagnitude : (exponent - 1) * 2 ^ 52 + (2 ^ 52 + fraction) =
          exponent * 2 ^ 52 + fraction := by omega
      rw [if_neg hzero, toFloat, twoTo_eq, hmagnitude]

end fields

variable {bits : UInt64}

theorem signedBits_fields (bits : UInt64) :
    signedBits (2 ^ 63 ≤ bits.toNat)
      (bits.toNat / 2 ^ 52 % 2 ^ 11 * 2 ^ 52 + bits.toNat % 2 ^ 52) = bits := by
  have hlt := bits.toNat_lt
  rw [← UInt64.toNat_inj, signedBits, UInt64.toNat_ofNat']
  simp only [twoTo_eq, decide_eq_true_eq]
  split <;> omega

theorem isNumber_ofBits (h : ofBits bits.toNat ≠ nan) : (ofBits bits.toNat).IsNumber :=
  isNumber_ofFields (Nat.mod_lt _ (by decide)) (Nat.mod_lt _ (by decide)) h

theorem toFloat_ofBits (h : ofBits bits.toNat ≠ nan) :
    (ofBits bits.toNat).toFloat = Float.ofBits bits := by
  rw [ofBits_eq] at h ⊢
  rw [toFloat_ofFields h, signedBits_fields]

/-! ### Words and numbers -/

theorem isNaNBits_iff (bits : UInt64) :
    @UnpackedFloat.isNaNBits .binary64 bits.toBitVec = true ↔ ofBits bits.toNat = nan := by
  have hexponent : (@UnpackedFloat.unpackExponent .binary64 bits.toBitVec).toNat =
      bits.toNat / 2 ^ 52 % 2 ^ 11 := by
    rw [UnpackedFloat.unpackExponent_def, BitVec.extractLsb'_toNat, Nat.shiftRight_eq_div_pow]
    rfl
  have hfraction : (@UnpackedFloat.unpackMantissa .binary64 bits.toBitVec).toNat =
      bits.toNat % 2 ^ 52 := by
    rw [UnpackedFloat.unpackMantissa_def, BitVec.extractLsb'_toNat, Nat.shiftRight_zero]
    rfl
  rw [ofBits_eq, ofFields_eq_nan_iff, ← hexponent, ← hfraction, UnpackedFloat.isNaNBits,
    decide_eq_true_iff, ← BitVec.toNat_inj, ne_eq, ← BitVec.toNat_inj]
  rfl

theorem toBits_ofBits (h : ofBits bits.toNat ≠ nan) : (Float.ofBits bits).toBits = bits := by
  have hpack := @UnpackedFloat.pack_unpack .binary64 bits.toBitVec (by decide)
  rw [if_neg (fun hnan => h ((isNaNBits_iff bits).1 hnan))] at hpack
  exact UInt64.toBitVec_inj.1 hpack

/-- All bits that do not stand for a number are one. -/
theorem toBits_ofBits_nan (h : ofBits bits.toNat = nan) :
    (Float.ofBits bits).toBits.toBitVec = UnpackedFloat.packedNaN .binary64 := by
  have hpack := @UnpackedFloat.pack_unpack .binary64 bits.toBitVec (by decide)
  rw [if_pos ((isNaNBits_iff bits).2 h)] at hpack
  exact hpack

theorem ofFloat_ofBits (bits : UInt64) : ofFloat (Float.ofBits bits) = ofBits bits.toNat := by
  by_cases h : ofBits bits.toNat = nan
  · rw [h, ofFloat, ← isNaNBits_iff, toBits_ofBits_nan h]
    exact UnpackedFloat.isNaNBits_packedNaN
  · rw [ofFloat, toBits_ofBits h]

theorem isNaN_iff (x : Float) : x.isNaN = true ↔ ofFloat x = nan := by
  have hvalid := x.toModel.valid
  rw [ofFloat, ← isNaNBits_iff]
  refine (UnpackedFloat.isNaN_unpack_iff_of_valid hvalid).trans ⟨?_, ?_⟩
  · intro h
    change @UnpackedFloat.isNaNBits .binary64 x.toModel.toBits.toBitVec = true
    rw [h]
    exact UnpackedFloat.isNaNBits_packedNaN
  · intro h
    obtain ⟨hexponent, hfraction⟩ := of_decide_eq_true h
    exact hvalid.eq_packedNaN hexponent hfraction

theorem isNaN_toFloat_nan : nan.toFloat.isNaN = true := by
  rw [isNaN_iff, toFloat, ofFloat_ofBits, ofBits_eq, ofFields_eq_nan_iff]
  decide +kernel

theorem toFloat_ofFloat {x : Float} (h : ofFloat x ≠ nan) : (ofFloat x).toFloat = x := by
  rw [ofFloat, toFloat_ofBits h, Float.ofBits_toBits]

end Binary
end TwinTape
