/-
# Shortest decimals round back

The search for the shortest decimal of a magnitude ends with a decimal that rounds to it.
On a grid that is finer than the interval of the magnitude one of its two neighbours must
lie in the interval, and the grid of seventeen digits is always fine enough.
-/

import SymbolFont.Number.Shortest
import SymbolFont.Proofs.Number.Nearest

namespace SymbolFont.Number

/-- A power of ten as a quotient of naturals. -/
theorem ten_zpow (k : Int) : (10 : ℚ) ^ k = 10 ^ k.toNat / 10 ^ (-k).toNat := by
  rw [← zpow_natCast, ← zpow_natCast, ← zpow_sub₀ (by norm_num)]
  congr 1
  omega

/-- The parts of an interval over its denominator. -/
theorem Interval.of_spec (m : Nat) (q : Int) :
    ∃ unit : Nat, 0 < unit ∧ 0 < (Interval.of m q).denominator ∧
      (4 * unit / (Interval.of m q).denominator : ℚ) = 2 ^ q ∧
      (Interval.of m q).value = 4 * m * unit ∧
      ((Interval.of m q).below : ℚ) = 4 * belowUnits m q * unit ∧
      (Interval.of m q).above = 2 * unit ∧
      (Interval.of m q).closed = (m % 2 == 0) := by
  obtain ⟨ratio, positive⟩ := scaled_ratio 1 (q - 2)
  refine ⟨(scaled 1 (q - 2)).1, ?_, positive, ?_, rfl, ?_, rfl, rfl⟩
  · simp [scaled]
  · show (4 * ((scaled 1 (q - 2)).1 : ℚ) / ((scaled 1 (q - 2)).2 : ℚ)) = 2 ^ q
    rw [mul_div_assoc, ratio, zpow_sub₀ (by norm_num)]
    norm_num
    ring
  · simp only [Interval.of, belowUnits]
    by_cases narrow : m = 2 ^ 52 ∧ -1074 < q
    · simp [narrow]
    · have wide : (m == 2 ^ 52 && decide (-1074 < q)) = false := by
        simpa using narrow
      rw [wide, if_neg narrow]
      push_cast
      ring

/-- Comparing a gap with half an interval, in natural numbers over a common denominator. -/
theorem gap_test_iff {gap half : Nat} {closed : Bool} {scale g h : ℚ} (positive : 0 < scale)
    (gap_eq : (gap : ℚ) = g * scale) (half_eq : (half : ℚ) = h * scale) :
    (gap < half || (closed && gap == half)) = true ↔ g ≤ h ∧ (g = h → closed = true) := by
  have less : gap < half ↔ g < h := by
    rw [← Nat.cast_lt (α := ℚ), gap_eq, half_eq, mul_lt_mul_iff_left₀ positive]
  have equal : gap = half ↔ g = h := by
    rw [← Nat.cast_inj (R := ℚ), gap_eq, half_eq, mul_left_inj' positive.ne']
  simp only [Bool.or_eq_true, Bool.and_eq_true, decide_eq_true_eq, beq_iff_eq, less, equal]
  constructor
  · rintro (below | ⟨closed, end_⟩)
    · exact ⟨below.le, fun end_ => absurd end_ below.ne⟩
    · exact ⟨end_.le, fun _ => closed⟩
  · rintro ⟨within, at_end⟩
    rcases within.lt_or_eq with below | end_
    · exact .inl below
    · exact .inr ⟨at_end end_, end_⟩

/-- The test on a grid is whether the decimal rounds to the magnitude. -/
theorem Interval.contains_iff (m : Nat) (q k : Int) (d : Nat) :
    (Interval.of m q).contains k d = true ↔ RoundsTo m q (d * 10 ^ k / 2 ^ q) := by
  obtain ⟨unit, unit_pos, den_pos, unit_eq, value, below, above, closed⟩ := Interval.of_spec m q
  have scale_pos : (0 : ℚ) < 4 * unit * 10 ^ (-k).toNat := by positivity
  have den_pos' : (0 : ℚ) < (Interval.of m q).denominator := by exact_mod_cast den_pos
  generalize units_eq : (d : ℚ) * 10 ^ k / 2 ^ q = units
  have num : ((d * 10 ^ k.toNat * (Interval.of m q).denominator : Nat) : ℚ) =
      units * (4 * unit * 10 ^ (-k).toNat) := by
    rw [← units_eq, ← unit_eq, ten_zpow]
    push_cast
    field_simp
  have mid : (((Interval.of m q).value * 10 ^ (-k).toNat : Nat) : ℚ) =
      m * (4 * unit * 10 ^ (-k).toNat) := by
    rw [value]
    push_cast
    ring
  have lower_half : (((Interval.of m q).below * 10 ^ (-k).toNat : Nat) : ℚ) =
      belowUnits m q * (4 * unit * 10 ^ (-k).toNat) := by
    push_cast
    rw [below]
    ring
  have upper_half : (((Interval.of m q).above * 10 ^ (-k).toNat : Nat) : ℚ) =
      1 / 2 * (4 * unit * 10 ^ (-k).toNat) := by
    rw [above]
    push_cast
    ring
  have below_pos : 0 < belowUnits m q := by
    unfold belowUnits
    split_ifs <;> norm_num
  have side : d * 10 ^ k.toNat * (Interval.of m q).denominator ≤
      (Interval.of m q).value * 10 ^ (-k).toNat ↔ units ≤ m := by
    rw [← Nat.cast_le (α := ℚ), num, mid, mul_le_mul_iff_left₀ scale_pos]
  simp only [Interval.contains, Interval.onGrid, side]
  by_cases left : units ≤ m
  · have gap : (((Interval.of m q).value * 10 ^ (-k).toNat -
        d * 10 ^ k.toNat * (Interval.of m q).denominator : Nat) : ℚ) =
        (m - units) * (4 * unit * 10 ^ (-k).toNat) := by
      rw [Nat.cast_sub (side.mpr left), num, mid]
      ring
    rw [if_pos left, closed]
    refine (gap_test_iff scale_pos gap lower_half).trans ?_
    rw [beq_iff_eq]
    constructor
    · rintro ⟨within, even⟩
      exact ⟨by linarith, by linarith, fun ends => even (by rcases ends <;> linarith)⟩
    · rintro ⟨lower, upper, even⟩
      exact ⟨by linarith, fun end_ => even (.inl (by linarith))⟩
  · have gap : ((d * 10 ^ k.toNat * (Interval.of m q).denominator -
        (Interval.of m q).value * 10 ^ (-k).toNat : Nat) : ℚ) =
        (units - m) * (4 * unit * 10 ^ (-k).toNat) := by
      rw [Nat.cast_sub (Nat.le_of_not_le (mt side.mp left)), num, mid]
      ring
    rw [if_neg left, closed]
    refine (gap_test_iff scale_pos gap upper_half).trans ?_
    rw [beq_iff_eq]
    constructor
    · rintro ⟨within, even⟩
      exact ⟨by linarith, by linarith, fun ends => even (by rcases ends <;> linarith)⟩
    · rintro ⟨lower, upper, even⟩
      exact ⟨by linarith, fun end_ => even (.inr (by linarith))⟩

/-- A magnitude lies between its two neighbours on a grid. -/
theorem Interval.floor_spec (m : Nat) (q k : Int) :
    ((Interval.of m q).floor k : ℚ) * 10 ^ k ≤ m * 2 ^ q ∧
      (m : ℚ) * 2 ^ q < ((Interval.of m q).floor k + 1 : Nat) * 10 ^ k := by
  obtain ⟨unit, unit_pos, den_pos, unit_eq, value, -, -, -⟩ := Interval.of_spec m q
  have den_pos' : (0 : ℚ) < (Interval.of m q).denominator := by exact_mod_cast den_pos
  have product_pos : 0 < (Interval.of m q).denominator * 10 ^ k.toNat := by positivity
  have magnitude_eq : (m : ℚ) * 2 ^ q =
      ((Interval.of m q).value * 10 ^ (-k).toNat : Nat) /
        ((Interval.of m q).denominator * 10 ^ k.toNat : Nat) * 10 ^ k := by
    rw [← unit_eq, ten_zpow, value]
    push_cast
    field_simp
  have ten_pos : (0 : ℚ) < 10 ^ k := by positivity
  have product_pos' : (0 : ℚ) < ((Interval.of m q).denominator * 10 ^ k.toNat : Nat) := by
    exact_mod_cast product_pos
  rw [magnitude_eq]
  constructor
  · gcongr
    rw [le_div_iff₀ product_pos']
    exact_mod_cast Nat.div_mul_le_self _ _
  · gcongr
    rw [div_lt_iff₀ product_pos']
    exact_mod_cast Nat.lt_mul_of_div_lt (Nat.lt_succ_self _) product_pos

/-- A hit rounds to the magnitude. -/
theorem Interval.contains_of_hit {i : Interval} {k : Int} {d : Nat}
    (hit : i.hit? k = some d) : i.contains k d = true := by
  unfold Interval.hit? at hit
  cases lower : i.contains k (i.floor k) <;> cases upper : i.contains k (i.floor k + 1) <;>
    simp only [lower, upper, Option.some.injEq, reduceCtorEq] at hit
  · rw [← hit, upper]
  · rw [← hit, lower]
  · rw [← hit]
    split_ifs <;> assumption

/-- A number below the magnitude rounds to it unless it is too far away. -/
theorem RoundsTo.of_below {m : Nat} {q : Int} {units : ℚ} (side : units ≤ m)
    (near : m - belowUnits m q < units) : RoundsTo m q units :=
  ⟨near.le, by linarith, by rintro (h | h) <;> linarith⟩

theorem RoundsTo.of_above {m : Nat} {q : Int} {units : ℚ} (side : m < units)
    (near : units < m + 1 / 2) : RoundsTo m q units := by
  have below_pos : 0 < belowUnits m q := by
    unfold belowUnits
    split_ifs <;> norm_num
  exact ⟨by linarith, near.le, by rintro (h | h) <;> linarith⟩

/-- On a grid finer than the interval there is a hit. -/
theorem Interval.exists_hit {m : Nat} {q k : Int}
    (fine : (10 : ℚ) ^ k < (belowUnits m q + 1 / 2) * 2 ^ q) :
    ∃ d, (Interval.of m q).hit? k = some d := by
  have unit : (0 : ℚ) < 2 ^ q := by positivity
  obtain ⟨lower, upper⟩ := Interval.floor_spec m q k
  have lower := (div_le_iff₀ unit).mpr lower
  have upper := (lt_div_iff₀ unit).mpr upper
  have fine := (div_lt_iff₀ unit).mpr fine
  generalize low_eq : (Interval.of m q).floor k = low at lower upper
  have step : ((low + 1 : Nat) : ℚ) * 10 ^ k / 2 ^ q = low * 10 ^ k / 2 ^ q + 10 ^ k / 2 ^ q := by
    push_cast
    ring
  have within : (Interval.of m q).contains k low = true ∨
      (Interval.of m q).contains k (low + 1) = true := by
    rw [Interval.contains_iff, Interval.contains_iff]
    by_contra outside
    rw [not_or] at outside
    have far_below := mt (RoundsTo.of_below lower) outside.1
    have far_above := mt (RoundsTo.of_above upper) outside.2
    linarith
  simp only [Interval.hit?, low_eq]
  rcases within with inside | inside <;> rw [inside]
  · cases (Interval.of m q).contains k (low + 1) <;> simp
  · cases (Interval.of m q).contains k low <;> simp

/-- The search returns what rounds to the magnitude if any of its grids has a hit. -/
theorem Interval.search_spec {i : Interval} {tries : Nat} {k : Int} {j : Nat} (tried : j < tries)
    (hit : ∃ d, i.hit? (k - j) = some d) :
    i.contains (i.search tries k).2 (i.search tries k).1 = true := by
  induction tries generalizing k j with
  | zero => exact absurd tried (Nat.not_lt_zero j)
  | succ tries ih =>
      rw [Interval.search]
      cases now : i.hit? k with
      | some d => exact Interval.contains_of_hit now
      | none =>
          cases j with
          | zero =>
              obtain ⟨d, found⟩ := hit
              rw [Nat.cast_zero, sub_zero, now] at found
              cases found
          | succ j =>
              refine ih (Nat.lt_of_succ_lt_succ tried) ?_
              rw [show k - 1 - (j : Int) = k - (j + 1 : Nat) by push_cast; ring]
              exact hit

/-- The number of digits locates a natural between powers of ten. -/
theorem digitCount_spec {n : Nat} (positive : 0 < n) :
    10 ^ (digitCount n - 1) ≤ n ∧ n < 10 ^ digitCount n ∧ 0 < digitCount n := by
  have length_pos : 0 < (Nat.toDigits 10 n).length := Nat.length_toDigits_pos
  rw [digitCount, if_neg positive.ne']
  refine ⟨?_, (Nat.length_toDigits_le_iff (by decide) length_pos).mp le_rfl, length_pos⟩
  rcases Nat.eq_or_lt_of_le (Nat.succ_le_of_lt length_pos) with one | more
  · rw [← one]
    exact positive
  · by_contra small
    have shorter := (Nat.length_toDigits_le_iff (by decide) (Nat.sub_pos_of_lt more)).mpr
      (Nat.lt_of_not_le small)
    omega

/-- The magnitude has at least the decimal exponent that the search starts with. -/
theorem decimalExponent_le {num den : Nat} (numPos : 0 < num) (denPos : 0 < den) :
    (10 : ℚ) ^ (decimalExponent num den - 1) ≤ num / den := by
  have den_pos : (0 : ℚ) < den := by exact_mod_cast denPos
  rw [le_div_iff₀ den_pos]
  unfold decimalExponent
  split_ifs with large
  · obtain ⟨low, -, positive⟩ := digitCount_spec (Nat.div_pos large denPos)
    rw [show (digitCount (num / den) : Int) - 1 = (digitCount (num / den) - 1 : Nat) by omega,
      zpow_natCast]
    exact_mod_cast (Nat.le_div_iff_mul_le denPos).mp low
  · have quotient_pos : 0 < (den - 1) / num := Nat.div_pos (by omega) numPos
    obtain ⟨-, high, -⟩ := digitCount_spec quotient_pos
    rw [show (1 - (digitCount ((den - 1) / num) : Int)) - 1 =
        -(digitCount ((den - 1) / num) : Int) by ring, zpow_neg, zpow_natCast, inv_mul_le_iff₀
        (by positivity)]
    have product := (Nat.div_lt_iff_lt_mul numPos).mp high
    have product' : den ≤ 10 ^ digitCount ((den - 1) / num) * num := by omega
    exact_mod_cast product'

/-- The shortest decimal of a magnitude rounds to it. -/
theorem shortest_roundsTo {m : Nat} {q : Int} (canonical : Canonical m q) (positive : 0 < m) :
    RoundsTo m q ((shortest m q).1 * 10 ^ (shortest m q).2 / 2 ^ q) := by
  obtain ⟨unit, unit_pos, den_pos, unit_eq, value, -, -, -⟩ := Interval.of_spec m q
  have value_pos : 0 < (Interval.of m q).value := by
    rw [value]
    positivity
  have magnitude_eq : ((Interval.of m q).value : ℚ) / (Interval.of m q).denominator =
      m * 2 ^ q := by
    rw [value, ← unit_eq]
    push_cast
    ring
  have start := decimalExponent_le value_pos den_pos
  rw [magnitude_eq] at start
  rw [shortest, if_neg positive.ne', ← Interval.contains_iff]
  refine Interval.search_spec (j := 17) (by decide) (Interval.exists_hit ?_)
  generalize decimalExponent _ _ = k at start
  -- Seventeen digits are finer than the interval, as the mantissa has fewer than sixteen.
  have grid : (10 : ℚ) ^ (k - (17 : Nat)) * 10 ^ 16 = 10 ^ (k - 1) := by
    rw [← zpow_natCast, ← zpow_add₀ (by norm_num)]
    congr 1
    push_cast
    ring
  have unit : (0 : ℚ) < 2 ^ q := by positivity
  have fewer : (m : ℚ) < (belowUnits m q + 1 / 2) * 10 ^ 16 := by
    unfold belowUnits
    split_ifs with narrow
    · rw [narrow.1]
      norm_num
    · have bound : (m : ℚ) < 2 ^ 53 := by exact_mod_cast canonical.bound
      norm_num at bound ⊢
      linarith
  rw [← mul_lt_mul_iff_left₀ (show (0 : ℚ) < 10 ^ 16 by norm_num), grid]
  calc (10 : ℚ) ^ (k - 1) ≤ m * 2 ^ q := start
    _ < (belowUnits m q + 1 / 2) * 10 ^ 16 * 2 ^ q := by gcongr
    _ = (belowUnits m q + 1 / 2) * 2 ^ q * 10 ^ 16 := by ring

end SymbolFont.Number
