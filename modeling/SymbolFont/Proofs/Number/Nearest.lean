/-
# Rounding to the nearest double

Every magnitude has an interval of numbers that round to it: half a unit to each side, but
only a quarter below a power of two, where the next magnitude is nearer.  The ends belong to
the interval of an even mantissa.  `nearestBits` sends every number of the interval to the
magnitude, also where the number itself has a smaller exponent.
-/

import Mathlib.Algebra.Order.Field.Power
import Mathlib.Data.Rat.Cast.Order
import Mathlib.Tactic.FieldSimp
import Mathlib.Tactic.Linarith
import Mathlib.Tactic.Positivity
import Mathlib.Tactic.Ring
import SymbolFont.Number.Binary

namespace SymbolFont.Number

/-- The mantissas and exponents of finite magnitudes: as many bits as there is room for,
unless the exponent is the least one. -/
structure Canonical (m : Nat) (q : Int) : Prop where
  least : -1074 ≤ q
  bound : m < 2 ^ 53
  full : 2 ^ 52 ≤ m ∨ q = -1074

/-- How far the interval of a magnitude reaches down, in units of its last bit. -/
def belowUnits (m : Nat) (q : Int) : ℚ := if m = 2 ^ 52 ∧ -1074 < q then 1 / 4 else 1 / 2

/-- Does the number, in units of the last bit, round to the magnitude? -/
structure RoundsTo (m : Nat) (q : Int) (units : ℚ) : Prop where
  lower : m - belowUnits m q ≤ units
  upper : units ≤ m + 1 / 2
  even : units = m - belowUnits m q ∨ units = m + 1 / 2 → m % 2 = 0

/-- Rounding a quotient gives the natural that it is nearest to. -/
theorem roundDiv_eq {num den n : Nat} (positive : 0 < den)
    (lower : 2 * (n * den) ≤ 2 * num + den) (upper : 2 * num ≤ 2 * (n * den) + den)
    (even : 2 * (n * den) = 2 * num + den ∨ 2 * num = 2 * (n * den) + den → n % 2 = 0) :
    roundDiv num den = n := by
  have division := Nat.div_add_mod' num den
  have rest := Nat.mod_lt num positive
  unfold roundDiv
  generalize num / den = quotient at division ⊢
  generalize num % den = remainder at division rest ⊢
  -- The quotient is `n` or the natural below it.
  have near : n = quotient ∨ n = quotient + 1 := by
    rcases Nat.lt_or_ge n quotient with small | large
    · have := Nat.mul_le_mul_right den small
      rw [Nat.succ_mul] at this
      omega
    · rcases Nat.lt_or_ge (quotient + 1) n with large | small
      · have := Nat.mul_le_mul_right den large
        rw [Nat.succ_mul, Nat.add_mul] at this
        omega
      · omega
  simp only [Bool.or_eq_true, decide_eq_true_eq, Bool.and_eq_true, beq_iff_eq]
  rcases near with rfl | rfl
  · rw [if_pos (by omega)]
  · rw [Nat.add_mul, Nat.one_mul] at lower upper even
    rw [if_neg (by omega)]

/-- The same with the quotient as a number. -/
theorem roundDiv_eq_of_near {num den n : Nat} (positive : 0 < den)
    (lower : (n : ℚ) - 1 / 2 ≤ num / den) (upper : (num : ℚ) / den ≤ n + 1 / 2)
    (even : (num : ℚ) / den = n - 1 / 2 ∨ (num : ℚ) / den = n + 1 / 2 → n % 2 = 0) :
    roundDiv num den = n := by
  have den_pos : (0 : ℚ) < den := by exact_mod_cast positive
  rw [le_div_iff₀ den_pos] at lower
  rw [div_le_iff₀ den_pos] at upper
  rw [div_eq_iff den_pos.ne', div_eq_iff den_pos.ne'] at even
  refine roundDiv_eq positive ?_ ?_ fun tie => even ?_
  · have doubled : (2 : ℚ) * (n * den) ≤ 2 * num + den := by linarith
    exact_mod_cast doubled
  · have doubled : (2 : ℚ) * num ≤ 2 * (n * den) + den := by linarith
    exact_mod_cast doubled
  · rcases tie with tie | tie
    · have doubled : (2 : ℚ) * (n * den) = 2 * num + den := by exact_mod_cast tie
      exact .inl (by linarith)
    · have doubled : (2 : ℚ) * num = 2 * (n * den) + den := by exact_mod_cast tie
      exact .inr (by linarith)

/-- Scaling by a power of two is exact. -/
theorem scaled_ratio (n : Nat) (e : Int) :
    ((scaled n e).1 : ℚ) / (scaled n e).2 = n * 2 ^ e ∧ 0 < (scaled n e).2 := by
  constructor
  · simp only [scaled]
    push_cast
    rw [mul_div_assoc, ← zpow_natCast, ← zpow_natCast, ← zpow_sub₀ (by norm_num)]
    congr 2
    omega
  · exact Nat.pow_pos (by decide)

/-- The binary logarithms of its parts locate a quotient. -/
theorem log2_quotient {num den : Nat} (numPos : 0 < num) (denPos : 0 < den) :
    (2 : ℚ) ^ ((Nat.log2 num : Int) - Nat.log2 den - 1) ≤ num / den ∧
      (num : ℚ) / den < 2 ^ ((Nat.log2 num : Int) - Nat.log2 den + 1) := by
  have numLow : ((2 : ℚ) ^ (Nat.log2 num)) ≤ num := by
    exact_mod_cast Nat.log2_self_le numPos.ne'
  have numHigh : (num : ℚ) < 2 ^ (Nat.log2 num + 1) := by exact_mod_cast Nat.lt_log2_self
  have denLow : ((2 : ℚ) ^ (Nat.log2 den)) ≤ den := by
    exact_mod_cast Nat.log2_self_le denPos.ne'
  have denHigh : (den : ℚ) < 2 ^ (Nat.log2 den + 1) := by exact_mod_cast Nat.lt_log2_self
  have den_pos : (0 : ℚ) < den := by exact_mod_cast denPos
  constructor
  · rw [le_div_iff₀ den_pos]
    calc (2 : ℚ) ^ ((Nat.log2 num : Int) - Nat.log2 den - 1) * den
        ≤ 2 ^ ((Nat.log2 num : Int) - Nat.log2 den - 1) * 2 ^ (Nat.log2 den + 1) := by
          gcongr
      _ = 2 ^ (Nat.log2 num) := by
          rw [← zpow_natCast, ← zpow_natCast, ← zpow_add₀ (by norm_num)]
          congr 1
          push_cast
          ring
      _ ≤ num := numLow
  · rw [div_lt_iff₀ den_pos]
    calc (num : ℚ) < 2 ^ (Nat.log2 num + 1) := numHigh
      _ = 2 ^ ((Nat.log2 num : Int) - Nat.log2 den + 1) * 2 ^ (Nat.log2 den) := by
          rw [← zpow_natCast, ← zpow_natCast, ← zpow_add₀ (by norm_num)]
          congr 1
          push_cast
          ring
      _ ≤ 2 ^ ((Nat.log2 num : Int) - Nat.log2 den + 1) * den := by gcongr

/-- The test for the exponent compares the quotient itself. -/
theorem le_scaled_div_iff (num : Nat) {den : Nat} (denPos : 0 < den) (guess : Int) :
    2 ^ 53 ≤ (scaled num (-guess)).1 / (den * (scaled num (-guess)).2) ↔
      (2 : ℚ) ^ 53 * 2 ^ guess ≤ num / den := by
  obtain ⟨ratio, scaled_pos⟩ := scaled_ratio num (-guess)
  have den_pos : (0 : ℚ) < den := by exact_mod_cast denPos
  have scaled_pos' : (0 : ℚ) < (scaled num (-guess)).2 := by exact_mod_cast scaled_pos
  have guess_pos : (0 : ℚ) < 2 ^ guess := by positivity
  rw [Nat.le_div_iff_mul_le (Nat.mul_pos denPos scaled_pos), le_div_iff₀ den_pos]
  rw [div_eq_iff scaled_pos'.ne', zpow_neg] at ratio
  have cast : 2 ^ 53 * (den * (scaled num (-guess)).2) ≤ (scaled num (-guess)).1 ↔
      (2 : ℚ) ^ 53 * (den * (scaled num (-guess)).2) ≤ (scaled num (-guess)).1 := by
    exact_mod_cast Iff.rfl
  rw [cast, ratio]
  generalize ((scaled num (-guess)).2 : ℚ) = c at scaled_pos'
  have scale : (0 : ℚ) < c / 2 ^ guess := by positivity
  have left : (2 : ℚ) ^ 53 * 2 ^ guess * den * (c / 2 ^ guess) = 2 ^ 53 * (den * c) := by
    field_simp
  have right : (num : ℚ) * (c / 2 ^ guess) = num * (2 ^ guess)⁻¹ * c := by ring
  rw [← left, ← right, mul_le_mul_iff_left₀ scale]

/-- A guess that is at most one too small is corrected by one comparison. -/
theorem corrected_guess {r : ℚ} {guess : Int} (low : 2 ^ 52 * 2 ^ guess ≤ r)
    (high : r < 2 ^ 53 * 2 ^ (guess + 1)) :
    r < 2 ^ 53 * 2 ^ (if 2 ^ 53 * 2 ^ guess ≤ r then guess + 1 else guess) ∧
      2 ^ 52 * 2 ^ (if 2 ^ 53 * 2 ^ guess ≤ r then guess + 1 else guess) ≤ r := by
  by_cases large : 2 ^ 53 * 2 ^ guess ≤ r
  · rw [if_pos large]
    refine ⟨high, ?_⟩
    calc (2 : ℚ) ^ 52 * 2 ^ (guess + 1) = 2 ^ 53 * 2 ^ guess := by
          rw [zpow_add_one₀ (by norm_num)]
          ring
      _ ≤ r := large
  · rw [if_neg large]
    exact ⟨lt_of_not_ge large, low⟩

/-- At the exponent for a quotient its mantissa has 53 bits, or fewer if the exponent is the
least one. -/
theorem exponentFor_spec {num den : Nat} (numPos : 0 < num) (denPos : 0 < den) :
    -1074 ≤ exponentFor num den ∧
      (num : ℚ) / den < 2 ^ 53 * 2 ^ exponentFor num den ∧
      (exponentFor num den = -1074 ∨ (2 : ℚ) ^ 52 * 2 ^ exponentFor num den ≤ num / den) := by
  obtain ⟨low, high⟩ := log2_quotient numPos denPos
  generalize guess_eq : (Nat.log2 num : Int) - Nat.log2 den - 53 = guess
  have value : exponentFor num den = max (-1074)
      (if (2 : ℚ) ^ 53 * 2 ^ guess ≤ num / den then guess + 1 else guess) := by
    simp only [exponentFor, guess_eq, le_scaled_div_iff num denPos]
  rw [show (Nat.log2 num : Int) - Nat.log2 den - 1 = 52 + guess by omega,
    zpow_add₀ (by norm_num)] at low
  rw [show (Nat.log2 num : Int) - Nat.log2 den + 1 = 53 + (guess + 1) by omega,
    zpow_add₀ (by norm_num)] at high
  obtain ⟨upper, lower⟩ := corrected_guess (by exact_mod_cast low) (by exact_mod_cast high)
  generalize (if (2 : ℚ) ^ 53 * 2 ^ guess ≤ num / den then guess + 1 else guess) =
    exact at value upper lower
  rw [value]
  refine ⟨le_max_left _ _, ?_, ?_⟩
  · calc (num : ℚ) / den < 2 ^ 53 * 2 ^ exact := upper
      _ ≤ 2 ^ 53 * 2 ^ max (-1074) exact := by
          gcongr
          · norm_num
          · exact le_max_right _ _
  · rcases le_total exact (-1074) with small | large
    · exact .inl (max_eq_left small)
    · rw [max_eq_right large]
      exact .inr lower

/-- What rounds to a magnitude has its exponent or the one below, and then the mantissa is a
power of two. -/
theorem RoundsTo.exponent {m : Nat} {q p : Int} {r : ℚ} (canonical : Canonical m q)
    (rounds : RoundsTo m q (r / 2 ^ q)) (least : -1074 ≤ p) (high : r < 2 ^ 53 * 2 ^ p)
    (low : p = -1074 ∨ 2 ^ 52 * 2 ^ p ≤ r) : p = q ∨ p = q - 1 ∧ m = 2 ^ 52 := by
  have unit : (0 : ℚ) < 2 ^ q := by positivity
  have reaches : (m - belowUnits m q) * 2 ^ q ≤ r := (le_div_iff₀ unit).mp rounds.lower
  have bounded : r ≤ (m + 1 / 2) * 2 ^ q := (div_le_iff₀ unit).mp rounds.upper
  have below_half : belowUnits m q ≤ 1 / 2 := by
    unfold belowUnits
    split_ifs <;> norm_num
  have bound : (m : ℚ) + 1 ≤ 2 ^ 53 := by exact_mod_cast canonical.bound
  have below_q : p ≤ q := by
    -- Otherwise the number would have more bits than the magnitude.
    by_contra larger
    rcases low with minimal | low
    · have := canonical.least
      omega
    · have doubled : (2 : ℚ) ^ 52 * 2 ^ (q + 1) ≤ 2 ^ 52 * 2 ^ p := by
        gcongr
        · norm_num
        · omega
      rw [zpow_add_one₀ (by norm_num)] at doubled
      nlinarith
  by_cases same : p = q
  · exact .inl same
  · refine .inr ?_
    have full : 2 ^ 52 ≤ m := by
      rcases canonical.full with full | minimal
      · exact full
      · omega
    have full' : (2 : ℚ) ^ 52 ≤ m := by exact_mod_cast full
    have halved : (2 : ℚ) ^ 53 * 2 ^ p ≤ 2 ^ 52 * 2 ^ q := by
      calc (2 : ℚ) ^ 53 * 2 ^ p ≤ 2 ^ 53 * 2 ^ (q - 1) := by
            gcongr
            · norm_num
            · omega
        _ = 2 ^ 52 * 2 ^ q := by
            rw [zpow_sub_one₀ (by norm_num)]
            ring
    have least_full : m = 2 ^ 52 := by
      by_contra larger
      have above : (2 : ℚ) ^ 52 + 1 ≤ m := by exact_mod_cast lt_of_le_of_ne full (Ne.symm larger)
      nlinarith
    refine ⟨?_, least_full⟩
    by_contra smaller
    -- Two exponents below, the number would lie under the quarter of a unit.
    have quartered : (2 : ℚ) ^ 53 * 2 ^ p ≤ 2 ^ 51 * 2 ^ q := by
      calc (2 : ℚ) ^ 53 * 2 ^ p ≤ 2 ^ 53 * 2 ^ (q - 2) := by
            gcongr
            · norm_num
            · omega
        _ = 2 ^ 51 * 2 ^ q := by
            rw [zpow_sub₀ (by norm_num)]
            norm_num
            ring
    nlinarith

/-- The bits of a magnitude, from its mantissa and exponent. -/
def bitsOf (m : Nat) (q : Int) : Nat := (q + 1074).toNat * 2 ^ 52 + m

/-- The bits of a finite magnitude lie below those of infinity. -/
theorem bitsOf_lt_infinityBits {m : Nat} {q : Int} (canonical : Canonical m q)
    (finite : q ≤ 971) : bitsOf m q < infinityBits := by
  have infinity : infinityBits = 0x7FF * 2 ^ 52 := rfl
  have bound := canonical.bound
  have exponent : (q + 1074).toNat ≤ 2045 := by omega
  rw [bitsOf, infinity]
  omega

/-- Everything in the interval of a magnitude rounds to it. -/
theorem nearestBits_eq {m : Nat} {q : Int} {num den : Nat} (canonical : Canonical m q)
    (finite : q ≤ 971) (numPos : 0 < num) (denPos : 0 < den)
    (rounds : RoundsTo m q (num / den / 2 ^ q)) : nearestBits num den = bitsOf m q := by
  obtain ⟨least, high, low⟩ := exponentFor_spec numPos denPos
  have exponent := rounds.exponent canonical least high low
  generalize exponent_eq : exponentFor num den = p at least high low exponent
  obtain ⟨ratio, scaled_pos⟩ := scaled_ratio num (-p)
  have units : ((scaled num (-p)).1 : ℚ) / (den * (scaled num (-p)).2 : Nat) =
      num / den / 2 ^ p := by
    push_cast
    rw [mul_comm, ← div_div, ratio, zpow_neg]
    ring
  have positive : 0 < den * (scaled num (-p)).2 := Nat.mul_pos denPos scaled_pos
  have unfolded : nearestBits num den = min ((p + 1074).toNat * 2 ^ 52 +
      roundDiv (scaled num (-p)).1 (den * (scaled num (-p)).2)) infinityBits := by
    simp only [nearestBits, if_neg numPos.ne', exponent_eq]
  have below_half : belowUnits m q ≤ 1 / 2 := by
    unfold belowUnits
    split_ifs <;> norm_num
  rcases exponent with rfl | ⟨rfl, power⟩
  · have rounded : roundDiv (scaled num (-p)).1 (den * (scaled num (-p)).2) = m := by
      apply roundDiv_eq_of_near positive <;> rw [units]
      · linarith [rounds.lower]
      · exact rounds.upper
      · rintro (lower | upper)
        · by_cases narrow : m = 2 ^ 52 ∧ -1074 < p
          · rw [narrow.1]
            norm_num
          · exact rounds.even (.inl (by rw [lower, belowUnits, if_neg narrow]))
        · exact rounds.even (.inr upper)
    rw [unfolded, rounded]
    exact Nat.min_eq_left (bitsOf_lt_infinityBits canonical finite).le
  · -- The number lies below a power of two and is rounded up to it with one bit more.
    have narrow : belowUnits m q = 1 / 4 := if_pos ⟨power, by omega⟩
    have doubled : (num : ℚ) / den / 2 ^ (q - 1) = 2 * (num / den / 2 ^ q) := by
      rw [zpow_sub_one₀ (by norm_num)]
      field_simp
    have rounded : roundDiv (scaled num (-(q - 1))).1 (den * (scaled num (-(q - 1))).2) =
        2 ^ 53 := by
      have lower := rounds.lower
      have upper : (num : ℚ) / den / 2 ^ (q - 1) < 2 ^ 53 :=
        (div_lt_iff₀ (by positivity)).mpr high
      rw [narrow, power] at lower
      push_cast at lower
      apply roundDiv_eq_of_near positive <;> rw [units]
      · rw [doubled]
        push_cast
        linarith
      · push_cast
        linarith
      · exact fun _ => by norm_num
    have carried : (q - 1 + 1074).toNat * 2 ^ 52 + 2 ^ 53 = bitsOf m q := by
      have shifted : (q + 1074).toNat = (q - 1 + 1074).toNat + 1 := by omega
      have two : (2 : Nat) ^ 53 = 1 * 2 ^ 52 + 2 ^ 52 := by norm_num
      rw [bitsOf, power, shifted, Nat.add_mul, two, Nat.add_assoc]
    rw [unfolded, rounded, carried]
    exact Nat.min_eq_left (bitsOf_lt_infinityBits canonical finite).le

end SymbolFont.Number
