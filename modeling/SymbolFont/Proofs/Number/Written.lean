/-
# Numbers as documents hold them

A document has one zero.  Of any double, writing and reading it loses the sign of a zero and
nothing else; and since arithmetic on doubles keeps apart the two zeros only in the sign of
its results that are zero, computing with what was read gives what would have been written
anyway.
-/

import Mathlib.Tactic.Common
import SymbolFont.Glyph.Outline
import SymbolFont.Proofs.Number.Text

namespace SymbolFont.Number

open Float.Model
open Float.Model.UnpackedFloat

/-- The double that a document holds of `x`: the same number, with one zero for both. -/
def asWritten (x : Float) : Float := if x == 0.0 then 0.0 else x

/-- An unpacked number without the sign of a zero. -/
def oneZero : UnpackedFloat → UnpackedFloat
  | .zero _ => .zero .positive
  | u => u

theorem unpack_zero : (0.0 : Float).toModel.unpack = .zero .positive := by
  rw [unpack_eq_decode, show decode 0.0 = .finite false 0 (-1074) by decide]
  rfl

/-- Doubles compare equal to zero when they are zeros. -/
theorem beq_zero_iff (x : Float) : (x == 0.0) = true ↔ ∃ s, x.toModel.unpack = .zero s := by
  have compared : (x == 0.0) = x.toModel.unpack.beq (.zero .positive) := by
    rw [← unpack_zero]
    rfl
  rw [compared]
  cases x.toModel.unpack with
  | zero s => exact ⟨fun _ => ⟨s, rfl⟩, fun _ => rfl⟩
  | notANumber => simp [UnpackedFloat.beq, UnpackedFloat.compare]
  | infinity s => cases s <;> simp [UnpackedFloat.beq, UnpackedFloat.compare]
  | finite s m e positive => cases s <;> simp [UnpackedFloat.beq, UnpackedFloat.compare]

theorem unpack_asWritten (x : Float) :
    (asWritten x).toModel.unpack = oneZero x.toModel.unpack := by
  unfold asWritten
  by_cases zero : (x == 0.0) = true
  · obtain ⟨s, unpacked⟩ := (beq_zero_iff x).mp zero
    rw [if_pos zero, unpack_zero, unpacked]
    rfl
  · have signed := mt (beq_zero_iff x).mpr zero
    rw [if_neg zero]
    cases unpacked : x.toModel.unpack with
    | zero s => exact absurd ⟨s, unpacked⟩ signed
    | notANumber => rfl
    | infinity s => rfl
    | finite s m e positive => rfl

theorem oneZero_oneZero (u : UnpackedFloat) : oneZero (oneZero u) = oneZero u := by
  cases u <;> rfl

@[simp] theorem asWritten_asWritten (x : Float) : asWritten (asWritten x) = asWritten x := by
  apply eq_of_unpack_eq
  rw [unpack_asWritten, unpack_asWritten, oneZero_oneZero]

/-- A double and what a document holds of it are the same number, or both undefined. -/
theorem asWritten_beq (x : Float) : (asWritten x == x) = true ∨ asWritten x = x := by
  unfold asWritten
  by_cases zero : (x == 0.0) = true
  · obtain ⟨s, unpacked⟩ := (beq_zero_iff x).mp zero
    have compared : ((0.0 : Float) == x) = (UnpackedFloat.zero .positive).beq (.zero s) := by
      rw [← unpack_zero, ← unpacked]
      rfl
    rw [if_pos zero, compared]
    exact .inl rfl
  · exact .inr (if_neg zero)

/-! ## Writing and reading -/

@[simp] theorem asWritten_beq_zero (x : Float) : (asWritten x == 0.0) = (x == 0.0) := by
  unfold asWritten
  by_cases zero : (x == 0.0) = true
  · rw [if_pos zero, zero]
    decide
  · rw [if_neg zero]

/-- Both zeros are written the same. -/
@[simp] theorem written_asWritten (x : Float) : written (asWritten x) = written x := by
  unfold written
  rw [asWritten_beq_zero]
  by_cases zero : (x == 0.0) = true
  · rw [if_pos zero, if_pos zero]
  · rw [if_neg zero, if_neg zero, asWritten, if_neg zero]

/-- What is written of a double is read as what a document holds of it. -/
theorem readChars_written (x : Float) :
    readChars (Text.trim (written x).toList) = some (asWritten x) := by
  unfold written asWritten
  by_cases zero : (x == 0.0) = true
  · rw [if_pos zero, if_pos zero]
    decide
  · rw [if_neg zero, if_neg zero, display, String.toList_ofList,
      trim_eq_self fun c mem => not_isBlank_of_isNumeric (isNumeric_of_mem_displayChars mem),
      readChars_displayChars]

/-! ## Arithmetic -/

theorem oneZero_add (f : Format) (u v : UnpackedFloat) :
    oneZero (UnpackedFloat.add f (oneZero u) (oneZero v)) = oneZero (UnpackedFloat.add f u v) := by
  cases u with
  | zero s => cases v with
    | zero t => cases s <;> cases t <;> rfl
    | notANumber => rfl
    | infinity t => rfl
    | finite t m e positive => rfl
  | notANumber => cases v <;> rfl
  | infinity s => cases v <;> rfl
  | finite s m e positive => cases v <;> rfl

theorem oneZero_sub (f : Format) (u v : UnpackedFloat) :
    oneZero (UnpackedFloat.sub f (oneZero u) (oneZero v)) = oneZero (UnpackedFloat.sub f u v) := by
  cases u with
  | zero s => cases v with
    | zero t => cases s <;> cases t <;> rfl
    | notANumber => rfl
    | infinity t => rfl
    | finite t m e positive => rfl
  | notANumber => cases v <;> rfl
  | infinity s => cases v <;> rfl
  | finite s m e positive => cases v <;> rfl

theorem oneZero_mul (f : Format) (u v : UnpackedFloat) :
    oneZero (UnpackedFloat.mul f (oneZero u) (oneZero v)) = oneZero (UnpackedFloat.mul f u v) := by
  cases u <;> cases v <;> rfl

/-- The sign of a zero matters in a divisor, but not in a dividend. -/
theorem oneZero_div (f : Format) (u v : UnpackedFloat) :
    oneZero (UnpackedFloat.div f (oneZero u) v) = oneZero (UnpackedFloat.div f u v) := by
  cases u <;> cases v <;> rfl

/-- Results that differ in the sign of a zero at most are the same in a document. -/
theorem asWritten_pack_congr {u v : UnpackedFloat} (same : oneZero u = oneZero v) :
    asWritten (.ofModel (Float.Model.pack u)) = asWritten (.ofModel (Float.Model.pack v)) := by
  have zeros : ∀ s, asWritten (.ofModel (Float.Model.pack (.zero s))) = 0.0 := by
    intro s
    cases s <;> decide
  cases u with
  | zero s => cases v with
    | zero t => rw [zeros, zeros]
    | notANumber => cases same
    | infinity t => cases same
    | finite t m e positive => cases same
  | notANumber =>
      cases v <;> cases same
      rfl
  | infinity s =>
      cases v <;> cases same
      rfl
  | finite s m e positive =>
      cases v <;> cases same
      rfl

theorem asWritten_add (x y : Float) :
    asWritten (asWritten x + asWritten y) = asWritten (x + y) := by
  apply asWritten_pack_congr
  rw [unpack_asWritten, unpack_asWritten, oneZero_add]

theorem asWritten_sub (x y : Float) :
    asWritten (asWritten x - asWritten y) = asWritten (x - y) := by
  apply asWritten_pack_congr
  rw [unpack_asWritten, unpack_asWritten, oneZero_sub]

theorem asWritten_mul (x y : Float) :
    asWritten (asWritten x * asWritten y) = asWritten (x * y) := by
  apply asWritten_pack_congr
  rw [unpack_asWritten, unpack_asWritten, oneZero_mul]

theorem asWritten_div (x y : Float) : asWritten (asWritten x / y) = asWritten (x / y) := by
  apply asWritten_pack_congr
  rw [unpack_asWritten, oneZero_div]

end SymbolFont.Number
