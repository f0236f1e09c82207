/-
# Numbers are read back as they were

What `display` writes is read as the same double, for every double: for finite ones since
the shortest decimal lies in the interval of the magnitude, and digit by digit since a
positional text stands for that decimal wherever its point is.
-/

import Mathlib.Data.List.TakeWhile
import SymbolFont.Number.Text
import SymbolFont.Proofs.Number.Bits
import SymbolFont.Proofs.Number.Shortest
import SymbolFont.Proofs.Text.Integer
import SymbolFont.Text.Blank

namespace SymbolFont.Number

/-! ## Digits -/

theorem digitsValue_eq (ds : List Char) : digitsValue ds = Nat.ofDigitChars 10 ds 0 := rfl

theorem digitsValue_toDigits (d : Nat) : digitsValue (Nat.toDigits 10 d) = d := by
  rw [digitsValue_eq, Nat.ofDigitChars_ten_toDigits]

/-- Zeros behind a natural multiply it by powers of ten. -/
theorem digitsValue_append_zeros (ds : List Char) (n : Nat) :
    digitsValue (ds ++ List.replicate n '0') = digitsValue ds * 10 ^ n := by
  rw [digitsValue_eq, Nat.ofDigitChars_append, Nat.ofDigitChars_replicate_zero, Nat.mul_comm]
  rfl

/-- Zeros in front of a natural mean nothing. -/
theorem digitsValue_zeros_append (ds : List Char) (n : Nat) :
    digitsValue (List.replicate n '0' ++ ds) = digitsValue ds := by
  rw [digitsValue_eq, Nat.ofDigitChars_append, Nat.ofDigitChars_replicate_zero, Nat.mul_zero]
  rfl

/-- Digits up to the end of the text are read whole. -/
theorem readDecimal_digits {ds : List Char} (digits : ∀ c ∈ ds, c.isDigit = true)
    (nonempty : ds ≠ []) : readDecimal ds = some (decimalBits (digitsValue ds) 0) := by
  have taken : ds.takeWhile Char.isDigit = ds := List.takeWhile_eq_self_iff.mpr digits
  have left : ds.dropWhile Char.isDigit = [] := List.dropWhile_eq_nil_iff.mpr digits
  simp [readDecimal, taken, left, nonempty, readExponent]

/-- Digits around a point are read as one natural, shifted by those behind the point. -/
theorem readDecimal_point {whole fraction : List Char}
    (wholeDigits : ∀ c ∈ whole, c.isDigit = true)
    (fractionDigits : ∀ c ∈ fraction, c.isDigit = true) (nonempty : whole ≠ []) :
    readDecimal (whole ++ '.' :: fraction) =
      some (decimalBits (digitsValue (whole ++ fraction)) (-(fraction.length : Int))) := by
  have point : ('.' : Char).isDigit = false := by decide
  have taken : (whole ++ '.' :: fraction).takeWhile Char.isDigit = whole := by
    rw [List.takeWhile_append_of_pos wholeDigits, List.takeWhile_cons_of_neg (by simp [point]),
      List.append_nil]
  have left : (whole ++ '.' :: fraction).dropWhile Char.isDigit = '.' :: fraction := by
    rw [List.dropWhile_append_of_pos wholeDigits, List.dropWhile_cons_of_neg (by simp [point])]
  have fractionTaken : fraction.takeWhile Char.isDigit = fraction :=
    List.takeWhile_eq_self_iff.mpr fractionDigits
  have fractionLeft : fraction.dropWhile Char.isDigit = [] :=
    List.dropWhile_eq_nil_iff.mpr fractionDigits
  simp [readDecimal, taken, left, fractionTaken, fractionLeft, nonempty, readExponent]

theorem isDigit_toDigits {d : Nat} {c : Char} (mem : c ∈ Nat.toDigits 10 d) :
    c.isDigit = true := Nat.isDigit_of_mem_toDigits (by decide) (by decide) mem

/-- A positional text stands for the decimal that it was made of. -/
theorem readDecimal_positional (d : Nat) (k : Int) :
    ∃ (n : Nat) (e : Int), readDecimal (positional d k) = some (decimalBits n e) ∧
      (n : ℚ) * 10 ^ e = d * 10 ^ k := by
  have zeros : ∀ n, ∀ c ∈ List.replicate n '0', c.isDigit = true := by
    intro n c mem
    rw [List.eq_of_mem_replicate mem]
    decide
  unfold positional
  by_cases whole : 0 ≤ k
  · rw [if_pos whole]
    refine ⟨_, _, readDecimal_digits ?_ ?_, ?_⟩
    · intro c mem
      rcases List.mem_append.mp mem with mem | mem
      · exact isDigit_toDigits mem
      · exact zeros _ c mem
    · simp
    · rw [digitsValue_append_zeros, digitsValue_toDigits, zpow_zero, mul_one]
      push_cast
      rw [← zpow_natCast, Int.toNat_of_nonneg whole]
  · rw [if_neg whole]
    by_cases inside : (-k).toNat < (Nat.toDigits 10 d).length
    · simp only [if_pos inside]
      refine ⟨_, _, readDecimal_point ?_ ?_ ?_, ?_⟩
      · exact fun c mem => isDigit_toDigits (List.mem_of_mem_take mem)
      · exact fun c mem => isDigit_toDigits (List.mem_of_mem_drop mem)
      · rw [ne_eq, List.take_eq_nil_iff]
        simp
        omega
      · rw [List.take_append_drop, digitsValue_toDigits, List.length_drop]
        congr 2
        omega
    · simp only [if_neg inside]
      generalize front_eq : List.replicate ((-k).toNat - (Nat.toDigits 10 d).length) '0' = front
      have fraction : ∀ c ∈ front ++ Nat.toDigits 10 d, c.isDigit = true := by
        intro c mem
        rcases List.mem_append.mp mem with mem | mem
        · exact zeros _ c (front_eq ▸ mem)
        · exact isDigit_toDigits mem
      have point : ∀ c ∈ ['0'], c.isDigit = true := List.forall_mem_singleton.mpr rfl
      have value : digitsValue (['0'] ++ (front ++ Nat.toDigits 10 d)) = d := by
        rw [← front_eq, show ['0'] = List.replicate 1 '0' from rfl, digitsValue_zeros_append,
          digitsValue_zeros_append, digitsValue_toDigits]
      have read := readDecimal_point point fraction (by simp)
      rw [value] at read
      refine ⟨_, _, read, ?_⟩
      rw [List.length_append, ← front_eq, List.length_replicate]
      congr 2
      omega

/-- Whatever its decimal, a positional text begins with a digit. -/
theorem positional_eq_cons (d : Nat) (k : Int) :
    ∃ c cs, positional d k = c :: cs ∧ c.isDigit = true := by
  obtain ⟨c, cs, digits⟩ := List.exists_cons_of_ne_nil (Nat.toDigits_ne_nil (b := 10) (n := d))
  have digit : c.isDigit = true := isDigit_toDigits (d := d) (digits ▸ List.mem_cons_self)
  unfold positional
  by_cases whole : 0 ≤ k
  · exact ⟨c, cs ++ List.replicate k.toNat '0', by rw [if_pos whole, digits]; rfl, digit⟩
  · rw [if_neg whole]
    by_cases inside : (-k).toNat < (Nat.toDigits 10 d).length
    · obtain ⟨n, places⟩ : ∃ n, (Nat.toDigits 10 d).length - (-k).toNat = n + 1 :=
        Nat.exists_eq_add_one.mpr (by omega)
      simp only [if_pos inside, places]
      rw [digits, List.take_succ_cons]
      exact ⟨c, _, List.cons_append, digit⟩
    · simp only [if_neg inside]
      exact ⟨'0', _, rfl, by decide⟩

/-- A positional text holds digits and perhaps a point. -/
theorem mem_positional {d : Nat} {k : Int} {c : Char} (mem : c ∈ positional d k) :
    c.isDigit = true ∨ c = '.' := by
  have zero : ∀ {n}, c ∈ List.replicate n '0' → c.isDigit = true := by
    intro n mem
    rw [List.eq_of_mem_replicate mem]
    decide
  unfold positional at mem
  by_cases whole : 0 ≤ k
  · rw [if_pos whole] at mem
    rcases List.mem_append.mp mem with mem | mem
    · exact .inl (isDigit_toDigits mem)
    · exact .inl (zero mem)
  · rw [if_neg whole] at mem
    by_cases inside : (-k).toNat < (Nat.toDigits 10 d).length
    · simp only [if_pos inside] at mem
      rcases List.mem_append.mp mem with mem | mem
      · exact .inl (isDigit_toDigits (List.mem_of_mem_take mem))
      · rcases List.mem_cons.mp mem with point | mem
        · exact .inr point
        · exact .inl (isDigit_toDigits (List.mem_of_mem_drop mem))
    · simp only [if_neg inside] at mem
      rcases List.mem_append.mp mem with mem | mem
      · rcases List.mem_cons.mp mem with first | mem
        · rw [first]
          exact .inl (by decide)
        · rcases List.mem_cons.mp mem with point | mem
          · exact .inr point
          · exact .inl (zero mem)
      · exact .inl (isDigit_toDigits mem)

/-! ## Magnitudes -/

/-- The magnitude of a finite pattern has this pattern. -/
theorem magnitude_spec {bits : Nat} (finite : bits < infinityBits) :
    Canonical (magnitude bits).1 (magnitude bits).2 ∧ (magnitude bits).2 ≤ 971 ∧
      bitsOf (magnitude bits).1 (magnitude bits).2 = bits := by
  have infinity : infinityBits = 0x7FF * 2 ^ 52 := rfl
  have short := Nat.mod_lt bits (show 2 ^ 52 > 0 by decide)
  have division := Nat.div_add_mod' bits (2 ^ 52)
  have small : bits / 2 ^ 52 < 0x7FF := by omega
  unfold magnitude
  generalize bits / 2 ^ 52 = field at division small
  generalize bits % 2 ^ 52 = fraction at division short
  by_cases subnormal : field = 0
  · subst subnormal
    simp only [↓reduceIte, bitsOf]
    refine ⟨⟨le_rfl, by omega, .inr rfl⟩, by decide, ?_⟩
    rw [show ((-1074 : Int) + 1074).toNat = 0 by decide]
    omega
  · simp only [if_neg subnormal, bitsOf]
    refine ⟨⟨by omega, by omega, .inl (by omega)⟩, by omega, ?_⟩
    rw [show ((field : Int) - 1075 + 1074).toNat = field - 1 by omega]
    obtain ⟨lower, rfl⟩ := Nat.exists_eq_add_one_of_ne_zero subnormal
    rw [Nat.add_sub_cancel, ← division, Nat.add_mul, Nat.one_mul, Nat.add_assoc,
      Nat.add_comm fraction]

/-- Every finite double has less than 310 digits before the point. -/
theorem two_zpow_lt_ten_zpow : (2 : ℚ) ^ (1024 : Int) < 10 ^ (310 : Int) := by
  have less : 2 ^ 1024 < 10 ^ 310 := by decide +kernel
  exact_mod_cast less

/-- No positive double begins more than 324 digits behind the point. -/
theorem ten_zpow_lt_two_zpow : (10 : ℚ) ^ (-325 : Int) < 2 ^ (-1075 : Int) := by
  have less : 2 ^ 1075 < 10 ^ 325 := by decide +kernel
  have less' : (2 : ℚ) ^ (1075 : Int) < 10 ^ (325 : Int) := by exact_mod_cast less
  rw [zpow_neg, zpow_neg]
  exact (inv_lt_inv₀ (by positivity) (by positivity)).mpr less'

/-- What rounds to a positive magnitude is at least half the least one. -/
theorem RoundsTo.le_value {m : Nat} {q : Int} {v : ℚ} (rounds : RoundsTo m q (v / 2 ^ q))
    (canonical : Canonical m q) (positive : 0 < m) : (2 : ℚ) ^ (-1075 : Int) ≤ v := by
  have above_half : (1 : ℚ) / 2 ≤ m - belowUnits m q := by
    have one : (1 : ℚ) ≤ m := by exact_mod_cast positive
    unfold belowUnits
    split_ifs <;> linarith
  calc (2 : ℚ) ^ (-1075 : Int) = 1 / 2 * 2 ^ (-1074 : Int) := by
        rw [show (-1075 : Int) = -1074 - 1 by norm_num, zpow_sub_one₀ (by norm_num)]
        ring
    _ ≤ 1 / 2 * 2 ^ q := by
        gcongr
        · norm_num
        · exact canonical.least
    _ ≤ (m - belowUnits m q) * 2 ^ q := by gcongr
    _ ≤ v := (le_div_iff₀ (by positivity)).mp rounds.lower

/-- What rounds to a finite magnitude does not pass the bound of all magnitudes. -/
theorem RoundsTo.value_le {m : Nat} {q : Int} {v : ℚ} (rounds : RoundsTo m q (v / 2 ^ q))
    (canonical : Canonical m q) (finite : q ≤ 971) : v ≤ 2 ^ (1024 : Int) := by
  have bound : (m : ℚ) + 1 ≤ 2 ^ 53 := by exact_mod_cast canonical.bound
  calc v ≤ (m + 1 / 2) * 2 ^ q := (div_le_iff₀ (by positivity)).mp rounds.upper
    _ ≤ 2 ^ 53 * 2 ^ (971 : Int) := by
        gcongr
        · linarith
        · norm_num
    _ = 2 ^ (1024 : Int) := by
        rw [← zpow_natCast, ← zpow_add₀ (by norm_num)]
        congr 1

/-- A decimal is at least the power of ten of its first digit. -/
theorem ten_zpow_le_decimal {d : Nat} (positive : 0 < d) (e : Int) :
    (10 : ℚ) ^ (((digitCount d - 1 : Nat) : Int) + e) ≤ d * 10 ^ e := by
  obtain ⟨low, -, -⟩ := digitCount_spec positive
  rw [zpow_add₀ (by norm_num), zpow_natCast]
  gcongr
  exact_mod_cast low

/-- It is less than the next power. -/
theorem decimal_le_ten_zpow {d : Nat} (positive : 0 < d) (e : Int) :
    (d : ℚ) * 10 ^ e ≤ 10 ^ ((digitCount d : Int) + e) := by
  obtain ⟨-, high, -⟩ := digitCount_spec positive
  rw [zpow_add₀ (by norm_num), zpow_natCast]
  gcongr
  exact_mod_cast high.le

/-- A decimal in the interval of a magnitude is read as this magnitude. -/
theorem decimalBits_eq {m : Nat} {q : Int} {d : Nat} {e : Int} (canonical : Canonical m q)
    (finite : q ≤ 971) (positive : 0 < m) (rounds : RoundsTo m q (d * 10 ^ e / 2 ^ q)) :
    decimalBits d e = bitsOf m q := by
  have value_low := rounds.le_value canonical positive
  have value_high := rounds.value_le canonical finite
  have d_pos : 0 < d := by
    by_contra none
    have zero : d = 0 := by omega
    rw [zero, Nat.cast_zero, zero_mul] at value_low
    exact absurd value_low (zpow_pos (by norm_num) _).not_ge
  have digits := (digitCount_spec d_pos).2.2
  have not_large : ¬ (310 : Int) < (digitCount d : Int) + e := by
    intro large
    have reaches : (10 : ℚ) ^ (310 : Int) ≤ d * 10 ^ e :=
      (zpow_le_zpow_right₀ (by norm_num) (by omega)).trans (ten_zpow_le_decimal d_pos e)
    exact absurd (reaches.trans value_high) two_zpow_lt_ten_zpow.not_ge
  have not_small : ¬ (digitCount d : Int) + e < -324 := by
    intro small
    have bounded : (d : ℚ) * 10 ^ e ≤ 10 ^ (-325 : Int) :=
      (decimal_le_ten_zpow d_pos e).trans (zpow_le_zpow_right₀ (by norm_num) (by omega))
    exact absurd (value_low.trans bounded) ten_zpow_lt_two_zpow.not_ge
  simp only [decimalBits, if_neg d_pos.ne', if_neg not_large, if_neg not_small]
  apply nearestBits_eq canonical finite (by positivity) (by positivity)
  have quotient : ((d * 10 ^ e.toNat : Nat) : ℚ) / (10 ^ (-e).toNat : Nat) = d * 10 ^ e := by
    rw [ten_zpow e]
    push_cast
    ring
  rw [quotient]
  exact rounds

/-! ## Doubles -/

/-- A double is made of its sign and its magnitude. -/
theorem ofMagnitude_toBits (x : Float) :
    ofMagnitude (decide (2 ^ 63 ≤ x.toBits.toNat)) (x.toBits.toNat % 2 ^ 63) = x := by
  have bound := x.toBits.toNat_lt
  have joined : (if decide (2 ^ 63 ≤ x.toBits.toNat) = true then 2 ^ 63 + x.toBits.toNat % 2 ^ 63
      else x.toBits.toNat % 2 ^ 63) = x.toBits.toNat := by
    by_cases negative : 2 ^ 63 ≤ x.toBits.toNat
    · rw [if_pos (decide_eq_true negative)]
      omega
    · rw [if_neg (by rwa [decide_eq_true_eq])]
      omega
  rw [ofMagnitude, joined, UInt64.ofNat_toNat, Float.ofBits_toBits]

/-- Behind a sign, or without one, a text that begins with no sign is read as a magnitude. -/
theorem readChars_signed (negative : Bool) {c : Char} {cs : List Char} (plus : c ≠ '+')
    (minus : c ≠ '-') :
    readChars ((if negative then ['-'] else []) ++ c :: cs) =
      ((readDecimal (c :: cs)).or (readName (c :: cs))).map (ofMagnitude negative) := by
  cases negative with
  | true => rfl
  | false =>
      simp only [Bool.false_eq_true, ↓reduceIte, List.nil_append, readChars]
      split
      · rename_i rest eq
        exact absurd (List.cons.inj eq).1 minus
      · rename_i rest eq
        exact absurd (List.cons.inj eq).1 plus
      · rfl

/-- What is written of a double is read as the same double. -/
theorem readChars_displayChars (x : Float) : readChars (displayChars x) = some x := by
  have infinity : infinityBits = 0x7FF * 2 ^ 52 := rfl
  rw [displayChars]
  by_cases undefined : infinityBits < x.toBits.toNat % 2 ^ 63
  · have nan : decode x = .nan := by rw [decode, if_pos undefined]
    have read : readChars ['N', 'a', 'N'] = some (ofMagnitude false nanBits) := rfl
    rw [nan]
    refine read.trans (congrArg some (eq_of_decode_eq ?_))
    rw [nan]
    decide
  · by_cases infinite : x.toBits.toNat % 2 ^ 63 = infinityBits
    · have decoded : decode x = .infinite (decide (2 ^ 63 ≤ x.toBits.toNat)) := by
        rw [decode, if_neg undefined, if_pos infinite]
      have name : (readDecimal ['i', 'n', 'f']).or (readName ['i', 'n', 'f']) =
          some infinityBits := rfl
      rw [decoded]
      refine (readChars_signed _ (by decide) (by decide)).trans ?_
      rw [name, ← infinite, Option.map_some, ofMagnitude_toBits]
    · have finite : x.toBits.toNat % 2 ^ 63 < infinityBits := by omega
      have decoded : decode x = .finite (decide (2 ^ 63 ≤ x.toBits.toNat))
          (magnitude (x.toBits.toNat % 2 ^ 63)).1 (magnitude (x.toBits.toNat % 2 ^ 63)).2 := by
        rw [decode, if_neg undefined, if_neg infinite]
      obtain ⟨canonical, bounded, bits⟩ := magnitude_spec finite
      rw [decoded]
      generalize (magnitude (x.toBits.toNat % 2 ^ 63)).1 = m at canonical bits
      generalize (magnitude (x.toBits.toNat % 2 ^ 63)).2 = q at canonical bounded bits
      simp only
      generalize decimal_eq : (if m = 0 then (0, 0) else shortest m q) = decimal
      obtain ⟨n, e, read, value⟩ := readDecimal_positional decimal.1 decimal.2
      obtain ⟨c, cs, text, digit⟩ := positional_eq_cons decimal.1 decimal.2
      have plus : c ≠ '+' := by
        rintro rfl
        exact absurd digit (by decide)
      have minus : c ≠ '-' := by
        rintro rfl
        exact absurd digit (by decide)
      have magnitude_eq : decimalBits n e = x.toBits.toNat % 2 ^ 63 := by
        by_cases zero : m = 0
        · rw [if_pos zero] at decimal_eq
          rw [← decimal_eq, Nat.cast_zero, zero_mul, mul_eq_zero] at value
          have none : n = 0 := by
            rcases value with none | power
            · exact_mod_cast none
            · exact absurd power (by positivity)
          have least : q = -1074 := canonical.full.resolve_left (by omega)
          rw [decimalBits, if_pos none, ← bits, zero, least]
          decide
        · rw [if_neg zero] at decimal_eq
          rw [decimalBits_eq canonical bounded (Nat.pos_of_ne_zero zero), bits]
          rw [value, ← decimal_eq]
          exact shortest_roundsTo canonical (Nat.pos_of_ne_zero zero)
      rw [text] at read
      rw [text, readChars_signed _ plus minus, read, Option.some_or, Option.map_some,
        magnitude_eq, ofMagnitude_toBits]

/-! ## Characters of numbers -/

theorem isBlank_of_isDigit {c : Char} (digit : c.isDigit = true) : Text.isBlank c = false := by
  simp only [Char.isDigit, Bool.and_eq_true, decide_eq_true_eq, ge_iff_le, UInt32.le_iff_toNat_le]
    at digit
  have low : 48 ≤ c.toNat := digit.1
  have high : c.toNat ≤ 57 := digit.2
  exact Text.isBlank_eq_false_of_ascii (by omega) (by omega)

/-- The characters of a text that stands for a number: digits, and those of a sign, of a point
and of the names of infinity and of the undefined number. -/
def isNumeric (c : Char) : Bool := c.isDigit || "-.Nainf".toList.contains c

/-- A double is written with these characters only. -/
theorem isNumeric_of_mem_displayChars {x : Float} {c : Char} (mem : c ∈ displayChars x) :
    isNumeric c = true := by
  have signed : ∀ {negative : Bool} {cs : List Char}, (∀ c ∈ cs, isNumeric c = true) →
      c ∈ (if negative then ['-'] else []) ++ cs → isNumeric c = true := by
    intro negative cs rest mem
    rcases List.mem_append.mp mem with mem | mem
    · cases negative with
      | true =>
          rw [List.mem_singleton.mp mem]
          decide
      | false => exact absurd mem List.not_mem_nil
    · exact rest c mem
  rw [displayChars] at mem
  cases decoded : decode x with
  | nan =>
      rw [decoded] at mem
      simp only [List.mem_cons, List.not_mem_nil, or_false] at mem
      rcases mem with rfl | rfl | rfl <;> decide
  | infinite negative =>
      rw [decoded] at mem
      refine signed ?_ mem
      intro c mem
      simp only [List.mem_cons, List.not_mem_nil, or_false] at mem
      rcases mem with rfl | rfl | rfl <;> decide
  | finite negative m q =>
      rw [decoded] at mem
      refine signed ?_ mem
      intro c mem
      rcases mem_positional mem with digit | rfl
      · rw [isNumeric, digit, Bool.true_or]
      · decide

/-- The same in a document. -/
theorem isNumeric_of_mem_written {x : Float} {c : Char} (mem : c ∈ (written x).toList) :
    isNumeric c = true := by
  rw [written] at mem
  split at mem
  · rw [List.mem_singleton.mp mem]
    decide
  · rw [display, String.toList_ofList] at mem
    exact isNumeric_of_mem_displayChars mem

/-- So is a number of flags. -/
theorem isNumeric_of_mem_toString {n : Nat} {c : Char} (mem : c ∈ (toString n).toList) :
    isNumeric c = true := by
  rw [isNumeric, Text.isDigit_of_mem_toString mem, Bool.true_or]

/-- None of these characters is blank. -/
theorem not_isBlank_of_isNumeric {c : Char} (numeric : isNumeric c = true) :
    Text.isBlank c = false := by
  rcases Bool.or_eq_true_iff.mp numeric with digit | mark
  · exact isBlank_of_isDigit digit
  · have none : "-.Nainf".toList.all (fun c => !Text.isBlank c) = true := by decide
    simpa using List.all_eq_true.mp none c (List.contains_iff_mem.mp mark)

/-- Without blanks there is nothing to trim. -/
theorem trim_eq_self {cs : List Char} (solid : ∀ c ∈ cs, Text.isBlank c = false) :
    Text.trim cs = cs := by
  have none : ∀ c ∈ ([] ++ [] : List Char), Text.isBlank c = true := by simp
  have padded := Text.trim_padded none solid
  rwa [List.nil_append, List.append_nil] at padded

end SymbolFont.Number
