/-
# Hexadecimal numbers as text

A hexadecimal number is one or more digits, each letter in either case, and any number of zeros in
front.  As for integers this is told without a reader, which takes these texts and no others, for
what they stand for.  So a natural is read from its digits, whatever the case of their letters and
however many zeros stand in front of them.
-/

import Mathlib.Data.Nat.Digits.Lemmas
import SymbolFont.Text.Digits

namespace SymbolFont.Text

/-- The digits in their order. -/
def hexDigits : List Char := "0123456789abcdef".toList

/-- Is the character a digit, in either case? -/
def isHexDigit (c : Char) : Bool := hexDigits.contains c.toLower

/-- What a digit stands for. -/
def hexDigitValue (c : Char) : Nat := hexDigits.idxOf c.toLower

/-- Is the text one or more digits, and what they stand for this natural? -/
structure IsHexNumeral (cs : List Char) (n : Nat) : Prop where
  nonempty : cs ≠ []
  digits : ∀ c ∈ cs, isHexDigit c = true
  value : n = Nat.ofDigits 16 (cs.map hexDigitValue).reverse

/-! ## What is read -/

/-- The three ranges of digits are the digits in either case, with the same values. -/
theorem hexDigit?_eq (c : Char) :
    hexDigit? c = if isHexDigit c = true then some (hexDigitValue c) else none := by
  by_cases ascii : c.toNat < 128
  · have all : ∀ n : Fin 128, hexDigit? (Char.ofNat n) =
        if isHexDigit (Char.ofNat n) = true then some (hexDigitValue (Char.ofNat n)) else none := by
      decide +kernel
    have own := all ⟨c.toNat, ascii⟩
    rwa [Char.ofNat_toNat] at own
  · have above (d : Char) (bound : d.toNat < 128) : ¬ c ≤ d := by
      rw [Char.le_def, UInt32.le_iff_toNat_le]
      exact fun le => ascii (Nat.lt_of_le_of_lt le bound)
    have caseless : c.toLower = c := dif_neg fun upper => above 'Z' (by decide) upper.2
    have others : hexDigits.all (fun d => d.toNat < 128) = true := by decide
    have no_digit : isHexDigit c = false := by
      rw [isHexDigit, caseless, List.contains_eq_mem, decide_eq_false_iff_not]
      exact fun mem => ascii (of_decide_eq_true (List.all_eq_true.mp others c mem))
    have no_digit' : hexDigit? c = none := by
      simp [hexDigit?, above '9' (by decide), above 'f' (by decide), above 'F' (by decide)]
    rw [no_digit, no_digit']
    rfl

theorem digitsFrom?_hex_eq_some_iff {cs : List Char} {value n : Nat} :
    digitsFrom? hexDigit? 16 value cs = some n ↔ (∀ c ∈ cs, isHexDigit c = true) ∧
      n = Nat.ofDigits 16 (cs.map hexDigitValue).reverse + 16 ^ cs.length * value := by
  induction cs generalizing value with
  | nil =>
      rw [digitsFrom?, Option.some.injEq, eq_comm]
      simp
  | cons c cs ih =>
      rw [digitsFrom?, hexDigit?_eq]
      by_cases digit : isHexDigit c = true
      · have shifted : Nat.ofDigits 16 ((c :: cs).map hexDigitValue).reverse +
            16 ^ (c :: cs).length * value =
            Nat.ofDigits 16 (cs.map hexDigitValue).reverse +
              16 ^ cs.length * (16 * value + hexDigitValue c) := by
          simp only [List.map_cons, List.reverse_cons, Nat.ofDigits_append, Nat.ofDigits_singleton,
            List.length_reverse, List.length_map, List.length_cons, pow_succ]
          ring
        rw [if_pos digit, shifted]
        simpa [digit] using ih
      · rw [if_neg digit]
        simp [digit]

/-- Hexadecimal numerals are read, and nothing else is. -/
theorem hexValue?_eq_some_iff {cs : List Char} {n : Nat} :
    hexValue? cs = some n ↔ IsHexNumeral cs n := by
  cases cs with
  | nil => exact ⟨fun read => (nomatch read), fun numeral => absurd rfl numeral.nonempty⟩
  | cons c cs =>
      rw [hexValue?, digitsFrom?_hex_eq_some_iff, Nat.mul_zero, Nat.add_zero]
      · exact ⟨fun read => ⟨List.cons_ne_nil c cs, read.1, read.2⟩,
          fun numeral => ⟨numeral.digits, numeral.value⟩⟩
      · exact List.cons_ne_nil c cs

/-! ## What is written -/

/-- The digits of a natural, in lower case, stand for it. -/
theorem ofDigits_toDigits (n : Nat) :
    Nat.ofDigits 16 ((Nat.toDigits 16 n).map hexDigits.idxOf).reverse = n := by
  induction n using Nat.strong_induction_on with
  | h n ih =>
      have digit : ∀ d < 16, hexDigits.idxOf (Nat.digitChar d) = d := by decide
      rw [Nat.toDigits_eq_if (by decide)]
      split_ifs with small
      · simp [digit n small]
      · have last := digit (n % 16) (Nat.mod_lt n (by decide))
        have front := ih (n / 16) (by omega)
        simp only [List.map_append, List.map_cons, List.map_nil, List.reverse_append,
          List.reverse_singleton, List.singleton_append, Nat.ofDigits_cons, last, front]
        omega

theorem mem_hexDigits_of_mem_toDigits {n : Nat} {c : Char} (mem : c ∈ Nat.toDigits 16 n) :
    c ∈ hexDigits := by
  induction n using Nat.strong_induction_on with
  | h n ih =>
      have digit : ∀ d < 16, Nat.digitChar d ∈ hexDigits := by decide
      rw [Nat.toDigits_eq_if (by decide)] at mem
      split_ifs at mem with small
      · rw [List.mem_singleton.mp mem]
        exact digit n small
      · rcases List.mem_append.mp mem with front | last
        · exact ih (n / 16) (by omega) front
        · rw [List.mem_singleton.mp last]
          exact digit (n % 16) (Nat.mod_lt n (by decide))

/-- The digits of a natural stand for it with letters in either case and with zeros in front. -/
theorem isHexNumeral_of_map_toLower {cs : List Char} {zeros n : Nat}
    (written : cs.map Char.toLower = List.replicate zeros '0' ++ Nat.toDigits 16 n) :
    IsHexNumeral cs n where
  nonempty := by
    rintro rfl
    exact List.append_ne_nil_of_right_ne_nil _ Nat.toDigits_ne_nil written.symm
  digits c mem := by
    have lower : c.toLower ∈ List.replicate zeros '0' ++ Nat.toDigits 16 n := by
      rw [← written]
      exact List.mem_map_of_mem mem
    rw [isHexDigit, List.contains_iff_mem]
    rcases List.mem_append.mp lower with zero | digit
    · rw [List.eq_of_mem_replicate zero]
      decide
    · exact mem_hexDigits_of_mem_toDigits digit
  value := by
    have values : cs.map hexDigitValue =
        (List.replicate zeros '0' ++ Nat.toDigits 16 n).map hexDigits.idxOf := by
      rw [← written, List.map_map]
      rfl
    have zero : hexDigits.idxOf '0' = 0 := by decide
    rw [values, List.map_append, List.reverse_append, Nat.ofDigits_append, ofDigits_toDigits,
      List.map_replicate, zero, List.reverse_replicate, Nat.ofDigits_replicate_zero]
    rfl

end SymbolFont.Text
