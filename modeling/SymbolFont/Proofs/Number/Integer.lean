/-
# Naturals as doubles

The flags of a point are a natural of 32 bits that is read as a double.  Such naturals are
doubles, so that they are read exactly, and taking the integral part gives them back.
-/

import SymbolFont.Proofs.Number.Text

namespace SymbolFont.Number

open Float.Model
open Float.Model.UnpackedFloat

/-- A pattern that is no undefined number is the pattern of a double. -/
theorem toBits_ofBits {bits : UInt64} (defined : bits.toNat / 2 ^ 52 % 2 ^ 11 ≠ 2 ^ 11 - 1) :
    (Float.ofBits bits).toBits = bits := by
  have exponent := toNat_unpackExponent bits.toBitVec
  have valid : Format.binary64.Valid bits.toBitVec := by
    refine ⟨fun ones _ => absurd ?_ defined⟩
    rw [ones] at exponent
    exact exponent.symm.trans (by decide)
  exact congrArg UInt64.ofBitVec (pack_unpack_of_valid valid)

/-- The bits of a mantissa and an exponent have this mantissa and exponent. -/
theorem magnitude_bitsOf {m : Nat} {q : Int} (canonical : Canonical m q) :
    magnitude (bitsOf m q) = (m, q) := by
  have least := canonical.least
  have bound := canonical.bound
  obtain ⟨shift, rfl⟩ : ∃ shift : Nat, q = (shift : Int) - 1074 := ⟨(q + 1074).toNat, by omega⟩
  have bits : bitsOf m ((shift : Int) - 1074) = shift * 2 ^ 52 + m := by
    rw [bitsOf, show ((shift : Int) - 1074 + 1074).toNat = shift by omega]
  rw [bits, magnitude]
  by_cases full : 2 ^ 52 ≤ m
  · have field : (shift * 2 ^ 52 + m) / 2 ^ 52 = shift + 1 := by omega
    have fraction : (shift * 2 ^ 52 + m) % 2 ^ 52 + 2 ^ 52 = m := by omega
    simp only [field, fraction, if_neg (Nat.succ_ne_zero shift), Prod.mk.injEq, true_and]
    omega
  · have minimal := canonical.full.resolve_left full
    have field : (shift * 2 ^ 52 + m) / 2 ^ 52 = 0 := by omega
    have fraction : (shift * 2 ^ 52 + m) % 2 ^ 52 = m := by omega
    simp only [field, fraction, ↓reduceIte, minimal]

/-- A double that is made of a finite magnitude has it. -/
theorem decode_ofMagnitude {m : Nat} {q : Int} (canonical : Canonical m q) (finite : q ≤ 971) :
    decode (ofMagnitude false (bitsOf m q)) = .finite false m q := by
  have infinity : infinityBits = 0x7FF * 2 ^ 52 := rfl
  have below := bitsOf_lt_infinityBits canonical finite
  have bits : (UInt64.ofNat (bitsOf m q)).toNat = bitsOf m q := by
    rw [UInt64.toNat_ofNat']
    omega
  have toBits : (ofMagnitude false (bitsOf m q)).toBits.toNat = bitsOf m q := by
    have defined : (UInt64.ofNat (bitsOf m q)).toNat / 2 ^ 52 % 2 ^ 11 ≠ 2 ^ 11 - 1 := by
      rw [bits]
      omega
    exact (congrArg UInt64.toNat (toBits_ofBits defined)).trans bits
  rw [decode_of_not_ones (by rw [toBits]; omega), toBits, Nat.mod_eq_of_lt (by omega),
    magnitude_bitsOf canonical, decide_eq_false (by omega)]

/-! ## The integral part -/

theorem mantissa_repeat_shiftRightOne (n : Nat) (e : ExtendedMantissa) :
    (n.repeat ExtendedMantissa.shiftRightOne e).mantissa = e.mantissa / 2 ^ n := by
  induction n with
  | zero => rw [Nat.pow_zero, Nat.div_one]; rfl
  | succ n ih =>
      rw [Nat.repeat, ExtendedMantissa.shiftRightOne, ih, Nat.div_div_eq_div_mul, Nat.pow_succ]

/-- The integral part of a number whose last bit is none before the point. -/
theorem roundToInt_eq (m shift : Nat) :
    roundToInt .positive m (-(shift : Int)) = (m / 2 ^ shift : Nat) := by
  have left : (-(shift : Int) - 0).toNat = 0 := by omega
  have right : (0 - (-(shift : Int) - (0 : Nat))).toNat = shift := by omega
  simp only [roundToInt, decreaseExponent, shiftToExponent, left, right, Nat.shiftLeft_zero]
  exact congrArg Int.ofNat (mantissa_repeat_shiftRightOne shift _)

/-- A natural of 32 bits is read exactly. -/
theorem readChars_toDigits {n : Nat} (small : n < UInt32.size) :
    ∃ y, readChars (Nat.toDigits 10 n) = some y ∧ y.toUInt32 = UInt32.ofNat n := by
  obtain ⟨c, cs, digits⟩ := List.exists_cons_of_ne_nil (Nat.toDigits_ne_nil (b := 10) (n := n))
  have digit : c.isDigit = true := isDigit_toDigits (d := n) (digits ▸ List.mem_cons_self)
  have plus : c ≠ '+' := by
    rintro rfl
    exact absurd digit (by decide)
  have minus : c ≠ '-' := by
    rintro rfl
    exact absurd digit (by decide)
  have read : readDecimal (c :: cs) = some (decimalBits n 0) := by
    rw [← digits, readDecimal_digits (fun _ => isDigit_toDigits) Nat.toDigits_ne_nil,
      digitsValue_toDigits]
  refine ⟨ofMagnitude false (decimalBits n 0), ?_, ?_⟩
  · rw [digits]
    refine (readChars_signed false plus minus).trans ?_
    rw [read]
    rfl
  · by_cases zero : n = 0
    · rw [zero]
      decide
    · -- Shifted to 53 bits the natural is the mantissa of a double.
      have log : n.log2 < 32 := (Nat.log2_lt zero).mpr small
      obtain ⟨shift, width⟩ : ∃ shift, shift + n.log2 = 52 := ⟨52 - n.log2, by omega⟩
      have low : 2 ^ 52 ≤ n * 2 ^ shift := by
        rw [← width, Nat.add_comm, Nat.pow_add]
        exact Nat.mul_le_mul_right _ (Nat.log2_self_le zero)
      have high : n * 2 ^ shift < 2 ^ 53 := by
        rw [show 53 = n.log2 + 1 + shift by omega, Nat.pow_add]
        exact Nat.mul_lt_mul_of_pos_right Nat.lt_log2_self (by positivity)
      have canonical : Canonical (n * 2 ^ shift) (-(shift : Int)) := ⟨by omega, high, .inl low⟩
      have units : (n : ℚ) * 10 ^ (0 : Int) / 2 ^ (-(shift : Int)) = (n * 2 ^ shift : Nat) := by
        rw [zpow_zero, mul_one, zpow_neg, div_inv_eq_mul, zpow_natCast]
        push_cast
        rfl
      have exact : RoundsTo (n * 2 ^ shift) (-(shift : Int))
          (n * 10 ^ (0 : Int) / 2 ^ (-(shift : Int))) := by
        rw [units]
        apply RoundsTo.of_below le_rfl
        unfold belowUnits
        split_ifs <;> linarith
      have bits := decimalBits_eq canonical (by omega) (by omega) exact
      have unpacked := unpack_eq_decode (ofMagnitude false (decimalBits n 0))
      rw [bits, decode_ofMagnitude canonical (by omega), Decoded.unpacked, dif_pos (by omega)]
        at unpacked
      rw [bits]
      show UInt32.ofNatClamp (UnpackedFloat.toInt 0 (UInt32.size - 1)
        (ofMagnitude false (bitsOf (n * 2 ^ shift) (-(shift : Int)))).toModel.unpack).toNat = _
      rw [unpacked]
      show UInt32.ofNatClamp (roundToInt .positive _ _).toNat = _
      rw [roundToInt_eq, Nat.mul_div_cancel _ (by positivity), Int.toNat_natCast]
      rw [UInt32.ofNatClamp, dif_pos small, UInt32.ofNatLT_eq_ofNat]

/-- The number of a set of flags is read as this set. -/
theorem readChars_flags (flags : UInt32) :
    ∃ y, readChars (Text.trim (toString flags.toNat).toList) = some y ∧ y.toUInt32 = flags := by
  rw [trim_eq_self (fun c mem => isBlank_of_isDigit (Text.isDigit_of_mem_toString mem)),
    Text.toList_toString_nat]
  obtain ⟨y, read, value⟩ := readChars_toDigits flags.toNat_lt
  exact ⟨y, read, value.trans (UInt32.ofNat_toNat)⟩

end SymbolFont.Number
