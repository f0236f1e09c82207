/-
# Doubles and their bits

A double is its pattern of bits, with one pattern for the undefined number.  `decode`
reads this pattern by division; the arithmetic of doubles works on an unpacked form.  Both
say the same, and neither loses anything, so that facts about bit patterns and mantissas are
facts about doubles.
-/

import Mathlib
import SymbolFont.Number.Text

namespace SymbolFont.Number

open Float.Model
open Float.Model.UnpackedFloat

/-- The patterns of doubles. -/
abbrev Pattern := BitVec Format.binary64.numBits

theorem toNat_unpackSign (bits : Pattern) :
    (unpackSign bits).toNat = bits.toNat / 2 ^ 63 := by
  have bound := bits.isLt
  simp only [Format.numBits] at bound
  simp only [unpackSign, BitVec.toNat_cast, BitVec.extractLsb_toNat,
    Nat.shiftRight_eq_div_pow]
  omega

theorem toNat_unpackExponent (bits : Pattern) :
    (unpackExponent bits).toNat = bits.toNat / 2 ^ 52 % 2 ^ 11 := by
  simp [unpackExponent, BitVec.extractLsb_toNat, Nat.shiftRight_eq_div_pow]

theorem toNat_unpackMantissa (bits : Pattern) :
    (unpackMantissa bits).toNat = bits.toNat % 2 ^ 52 := by
  simp [unpackMantissa, BitVec.extractLsb_toNat, Nat.shiftRight_eq_div_pow]

/-- The sign that a flag stands for. -/
def signOf (negative : Bool) : Sign := if negative then .negative else .positive

/-- What a double stands for, in the form that arithmetic works on. -/
def Decoded.unpacked : Decoded → UnpackedFloat
  | .nan => .notANumber
  | .infinite negative => .infinity (signOf negative)
  | .finite negative mantissa exponent =>
      if positive : 0 < mantissa then .finite (signOf negative) mantissa exponent positive
      else .zero (signOf negative)

/-- The sign of a pattern is its first bit. -/
theorem ofBitVec_unpackSign (bits : Pattern) :
    Sign.ofBitVec (unpackSign bits) = signOf (decide (2 ^ 63 ≤ bits.toNat)) := by
  have bound := bits.isLt
  simp only [Format.numBits] at bound
  by_cases negative : 2 ^ 63 ≤ bits.toNat
  · have one : unpackSign bits = 1#1 := by
      apply BitVec.eq_of_toNat_eq
      rw [toNat_unpackSign, BitVec.toNat_ofNat]
      omega
    rw [one, decide_eq_true negative]
    rfl
  · have zero : unpackSign bits = 0#1 := by
      apply BitVec.eq_of_toNat_eq
      rw [toNat_unpackSign, BitVec.toNat_ofNat]
      omega
    rw [zero, decide_eq_false negative]
    rfl

theorem unpackExponent_eq_iff (bits : Pattern) (e : Nat) (small : e < 2 ^ 11) :
    unpackExponent bits = BitVec.ofNat 11 e ↔ bits.toNat / 2 ^ 52 % 2 ^ 11 = e := by
  rw [← toNat_unpackExponent, ← BitVec.toNat_inj, BitVec.toNat_ofNat, Nat.mod_eq_of_lt small]

theorem unpackMantissa_eq_zero_iff (bits : Pattern) :
    unpackMantissa bits = 0#52 ↔ bits.toNat % 2 ^ 52 = 0 := by
  rw [← toNat_unpackMantissa, ← BitVec.toNat_inj, BitVec.toNat_ofNat]
  rfl

theorem toNat_implicit_append (mantissa : BitVec 52) :
    (1#1 ++ mantissa).toNat = 2 ^ 52 + mantissa.toNat := by
  rw [BitVec.toNat_append, ← Nat.shiftLeft_add_eq_or_of_lt mantissa.isLt]
  rfl

/-- The pattern of a double. -/
def patternOf (x : Float) : Pattern := x.toModel.toBits.toBitVec

theorem toNat_patternOf (x : Float) : (patternOf x).toNat = x.toBits.toNat := rfl

/-- Decoding tells the undefined number and the infinities by the size of the pattern. -/
theorem decode_of_ones {x : Float} (ones : x.toBits.toNat / 2 ^ 52 % 2 ^ 11 = 2 ^ 11 - 1) :
    decode x = if x.toBits.toNat % 2 ^ 52 = 0 then .infinite (decide (2 ^ 63 ≤ x.toBits.toNat))
      else .nan := by
  have infinity : infinityBits = 0x7FF * 2 ^ 52 := rfl
  unfold decode
  by_cases zero : x.toBits.toNat % 2 ^ 52 = 0
  · rw [if_neg (by omega), if_pos (by omega), if_pos zero]
  · rw [if_pos (by omega), if_neg zero]

theorem decode_of_not_ones {x : Float} (field : x.toBits.toNat / 2 ^ 52 % 2 ^ 11 ≠ 2 ^ 11 - 1) :
    decode x = .finite (decide (2 ^ 63 ≤ x.toBits.toNat)) (magnitude (x.toBits.toNat % 2 ^ 63)).1
      (magnitude (x.toBits.toNat % 2 ^ 63)).2 := by
  have infinity : infinityBits = 0x7FF * 2 ^ 52 := rfl
  unfold decode
  rw [if_neg (by omega), if_neg (by omega)]

/-- Unpacking a double gives what decoding it gives. -/
theorem unpack_eq_decode (x : Float) : x.toModel.unpack = (decode x).unpacked := by
  have exponent := toNat_unpackExponent (patternOf x)
  have mantissa := toNat_unpackMantissa (patternOf x)
  have full := unpackExponent_eq_iff (patternOf x) (2 ^ 11 - 1) (by decide)
  have empty := unpackExponent_eq_iff (patternOf x) 0 (by decide)
  have blank := unpackMantissa_eq_zero_iff (patternOf x)
  have sign := ofBitVec_unpackSign (patternOf x)
  rw [toNat_patternOf] at exponent mantissa full empty blank sign
  have bias : ((Format.binary64.exponentBias : Nat) : Int) = 1023 := rfl
  have ones_eq : (-1#11) = BitVec.ofNat 11 (2 ^ 11 - 1) := by decide
  show UnpackedFloat.unpack Format.binary64 (patternOf x) = _
  rw [UnpackedFloat.unpack, sign]
  by_cases ones : unpackExponent (patternOf x) = -1#11
  · rw [if_pos ones, decode_of_ones (full.mp (ones.trans ones_eq))]
    by_cases zero : unpackMantissa (patternOf x) = 0#52
    · rw [if_pos zero, if_pos (blank.mp zero)]
      rfl
    · rw [if_neg zero, if_neg (mt blank.mpr zero)]
      rfl
  · have field := mt full.mpr (fun eq => ones (eq.trans ones_eq.symm))
    have fraction_eq : x.toBits.toNat % 2 ^ 63 % 2 ^ 52 = x.toBits.toNat % 2 ^ 52 := by omega
    rw [if_neg ones, decode_of_not_ones field]
    by_cases zeros : unpackExponent (patternOf x) = 0#11
    · have subnormal : x.toBits.toNat % 2 ^ 63 / 2 ^ 52 = 0 := by
        have := empty.mp zeros
        omega
      rw [if_pos zeros]
      simp only [magnitude, if_pos subnormal, fraction_eq, Decoded.unpacked]
      by_cases zero : unpackMantissa (patternOf x) = 0#52
      · have fraction := blank.mp zero
        rw [dif_pos zero, dif_neg (by omega)]
      · have fraction := mt blank.mpr zero
        rw [dif_neg zero, dif_pos (by omega)]
        simp only [mantissa, exponent, empty.mp zeros, bias]
        rfl
    · have normal : x.toBits.toNat % 2 ^ 63 / 2 ^ 52 ≠ 0 := by
        have := mt empty.mpr zeros
        omega
      have field_eq : x.toBits.toNat % 2 ^ 63 / 2 ^ 52 = x.toBits.toNat / 2 ^ 52 % 2 ^ 11 := by
        omega
      rw [if_neg zeros]
      simp only [magnitude, if_neg normal, fraction_eq, Decoded.unpacked]
      rw [dif_pos (by omega)]
      have implicit : (1#1 ++ unpackMantissa (patternOf x)).toNat =
          x.toBits.toNat % 2 ^ 52 + 2 ^ 52 := by
        have appended := toNat_implicit_append (unpackMantissa (patternOf x))
        omega
      simp only [implicit]
      congr 1
      rw [exponent, field_eq, bias]
      omega

/-- A double is determined by its unpacked form. -/
theorem eq_of_unpack_eq {x y : Float} (same : x.toModel.unpack = y.toModel.unpack) : x = y := by
  have patterns := (unpack_inj_of_valid x.toModel.valid y.toModel.valid).mp same
  exact Float.toBits_inj.mp (UInt64.toBitVec_inj.mp patterns)

/-- A double is determined by what it stands for. -/
theorem eq_of_decode_eq {x y : Float} (same : decode x = decode y) : x = y := by
  apply eq_of_unpack_eq
  rw [unpack_eq_decode, unpack_eq_decode, same]

end SymbolFont.Number
