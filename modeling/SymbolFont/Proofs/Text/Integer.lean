/-
# Integers as text

A decimal integer is an optional sign and one or more digits, any number of which may be zeros in
front.  This is told without a reader, and the reader takes these texts and no others, for what
they stand for.  So what is written is read back: the text of a natural is its digits, and that of
an integer has a sign in front where it is below zero.
-/

import SymbolFont.Text.Integer

namespace SymbolFont.Text

/-- Is the text one or more digits, and what they stand for this natural? -/
structure IsNumeral (cs : List Char) (n : Nat) : Prop where
  nonempty : cs ≠ []
  digits : ∀ c ∈ cs, c.isDigit = true
  value : n = Nat.ofDigitChars 10 cs 0

/-- Is the text a decimal integer with this value? -/
inductive IsDecimal : List Char → Int → Prop where
  | unsigned {digits : List Char} {n : Nat} : IsNumeral digits n → IsDecimal digits n
  | plus {digits : List Char} {n : Nat} : IsNumeral digits n → IsDecimal ('+' :: digits) n
  | minus {digits : List Char} {n : Nat} : IsNumeral digits n → IsDecimal ('-' :: digits) (-n)

/-- The text of an integer with so many zeros in front of its digits, and with a plus sign if that
is wanted of what is not below zero. -/
def decimalText (plus : Bool) (zeros : Nat) (n : Int) : String :=
  (if n < 0 then "-" else if plus then "+" else "") ++ String.ofList (List.replicate zeros '0') ++
    toString n.natAbs

/-! ## What is read -/

theorem decimalDigit?_eq_some_iff {c : Char} {d : Nat} :
    decimalDigit? c = some d ↔ c.isDigit = true ∧ d = c.toNat - '0'.toNat := by
  have bounds : c.isDigit = true ↔ '0' ≤ c ∧ c ≤ '9' := by simp [Char.isDigit, Char.le_def]
  rw [decimalDigit?, bounds]
  by_cases digit : '0' ≤ c ∧ c ≤ '9'
  · rw [if_pos digit, Option.some.injEq]
    exact ⟨fun same => ⟨digit, same.symm⟩, fun read => read.2.symm⟩
  · rw [if_neg digit]
    exact ⟨fun read => (nomatch read), fun read => absurd read.1 digit⟩

/-- Digits are read as what they stand for. -/
theorem digitsFrom?_eq_ofDigitChars {ds : List Char} (digits : ∀ c ∈ ds, c.isDigit = true)
    (value : Nat) :
    digitsFrom? decimalDigit? 10 value ds = some (Nat.ofDigitChars 10 ds value) := by
  induction ds generalizing value with
  | nil => rfl
  | cons d ds ih =>
      rw [digitsFrom?, decimalDigit?_eq_some_iff.mpr ⟨digits d List.mem_cons_self, rfl⟩]
      exact ih (fun c mem => digits c (List.mem_cons_of_mem _ mem)) _

theorem digitsFrom?_eq_some_iff {ds : List Char} {value n : Nat} :
    digitsFrom? decimalDigit? 10 value ds = some n ↔
      (∀ c ∈ ds, c.isDigit = true) ∧ n = Nat.ofDigitChars 10 ds value := by
  constructor
  · intro read
    have digits : ∀ c ∈ ds, c.isDigit = true := by
      induction ds generalizing value with
      | nil => exact fun _ mem => absurd mem List.not_mem_nil
      | cons d ds ih =>
          rw [digitsFrom?] at read
          split at read
          · rename_i _ digit
            exact List.forall_mem_cons.mpr ⟨(decimalDigit?_eq_some_iff.mp digit).1, ih read⟩
          · cases read
    rw [digitsFrom?_eq_ofDigitChars digits] at read
    exact ⟨digits, (Option.some.inj read).symm⟩
  · rintro ⟨digits, rfl⟩
    exact digitsFrom?_eq_ofDigitChars digits value

/-- Numerals are read, and nothing else is. -/
theorem decimalValue?_eq_some_iff {cs : List Char} {n : Nat} :
    decimalValue? cs = some n ↔ IsNumeral cs n := by
  cases cs with
  | nil => exact ⟨fun read => (nomatch read), fun numeral => absurd rfl numeral.nonempty⟩
  | cons d ds =>
      rw [decimalValue?, digitsFrom?_eq_some_iff]
      · exact ⟨fun read => ⟨List.cons_ne_nil d ds, read.1, read.2⟩,
          fun numeral => ⟨numeral.digits, numeral.value⟩⟩
      · exact List.cons_ne_nil d ds

theorem integer?_minus (digits : List Char) :
    integer? ('-' :: digits) = (decimalValue? digits).map fun m : Nat => -(m : Int) := by
  rw [integer?]
  cases decimalValue? digits <;> rfl

/-- Decimal integers are read, and nothing else is. -/
theorem integer?_eq_some_iff {cs : List Char} {n : Int} :
    integer? cs = some n ↔ IsDecimal cs n := by
  constructor
  · intro read
    fun_cases integer? cs with
    | case1 digits =>
        rw [integer?_minus] at read
        obtain ⟨m, value, rfl⟩ := Option.map_eq_some_iff.mp read
        exact .minus (decimalValue?_eq_some_iff.mp value)
    | case2 digits =>
        obtain ⟨m, value, rfl⟩ := Option.map_eq_some_iff.mp read
        exact .plus (decimalValue?_eq_some_iff.mp value)
    | case3 _ no_minus no_plus =>
        rw [integer?] at read
        · obtain ⟨m, value, rfl⟩ := Option.map_eq_some_iff.mp read
          exact .unsigned (decimalValue?_eq_some_iff.mp value)
        · exact no_minus
        · exact no_plus
  · intro decimal
    cases decimal with
    | minus numeral => rw [integer?_minus, decimalValue?_eq_some_iff.mpr numeral, Option.map_some]
    | plus numeral =>
        exact Option.map_eq_some_iff.mpr ⟨_, decimalValue?_eq_some_iff.mpr numeral, rfl⟩
    | unsigned numeral =>
        obtain ⟨d, ds, rfl⟩ := List.exists_cons_of_ne_nil numeral.nonempty
        have digit : d.isDigit = true := numeral.digits d List.mem_cons_self
        have not_minus : d ≠ '-' := by rintro rfl; exact absurd digit (by decide)
        have not_plus : d ≠ '+' := by rintro rfl; exact absurd digit (by decide)
        have value := decimalValue?_eq_some_iff.mpr numeral
        simp [integer?, not_minus, not_plus, value]

theorem fitsInt32_iff {n : Int} : fitsInt32 n = true ↔ -2147483648 ≤ n ∧ n ≤ 2147483647 := by
  have low : -(2 : Int) ^ (31 : Nat) = -2147483648 := by decide
  have high : (2 : Int) ^ (31 : Nat) = 2147483648 := by decide
  rw [fitsInt32, low, high, Bool.and_eq_true, decide_eq_true_eq, decide_eq_true_eq]
  omega

/-- Decimal integers of 32 bits are read, and nothing else is. -/
theorem int32?_eq_some_iff {cs : List Char} {n : Int} :
    int32? cs = some n ↔ IsDecimal cs n ∧ -2147483648 ≤ n ∧ n ≤ 2147483647 := by
  rw [int32?, Option.filter_eq_some_iff, integer?_eq_some_iff, fitsInt32_iff]

/-! ## What is written -/

theorem toList_toString_nat (n : Nat) : (toString n).toList = Nat.toDigits 10 n := by
  rw [Nat.toString_eq_ofList_toDigits, String.toList_ofList]

theorem isDigit_of_mem_toString {n : Nat} {c : Char} (mem : c ∈ (toString n).toList) :
    c.isDigit = true := by
  rw [toList_toString_nat] at mem
  exact Nat.isDigit_of_mem_toDigits (by decide) (by decide) mem

theorem isNumeral_zeros_append (zeros n : Nat) :
    IsNumeral (List.replicate zeros '0' ++ (toString n).toList) n where
  nonempty := by
    rw [toList_toString_nat]
    exact List.append_ne_nil_of_right_ne_nil _ Nat.toDigits_ne_nil
  digits c mem := by
    rcases List.mem_append.mp mem with zero | digit
    · rw [List.eq_of_mem_replicate zero]
      decide
    · exact isDigit_of_mem_toString digit
  value := by
    rw [Nat.ofDigitChars_append, Nat.ofDigitChars_replicate_zero, Nat.mul_zero, toList_toString_nat,
      Nat.ofDigitChars_ten_toDigits]

/-- A natural is read back. -/
theorem decimalValue?_toString (n : Nat) : decimalValue? (toString n).toList = some n :=
  decimalValue?_eq_some_iff.mpr (isNumeral_zeros_append 0 n)

/-- The text of an integer is a decimal integer with its value. -/
theorem isDecimal_decimalText (plus : Bool) (zeros : Nat) (n : Int) :
    IsDecimal (decimalText plus zeros n).toList n := by
  unfold decimalText
  rw [String.toList_append, String.toList_append, String.toList_ofList, List.append_assoc]
  by_cases below : n < 0
  · have decimal := IsDecimal.minus (isNumeral_zeros_append zeros n.natAbs)
    rw [show -(n.natAbs : Int) = n by omega] at decimal
    rw [if_pos below]
    exact decimal
  · obtain ⟨m, rfl⟩ := Int.eq_ofNat_of_zero_le (Int.not_lt.mp below)
    rw [if_neg below, Int.natAbs_natCast]
    cases plus with
    | true => exact .plus (isNumeral_zeros_append zeros m)
    | false => exact .unsigned (isNumeral_zeros_append zeros m)

/-- Without zeros in front and without a plus sign, it is the plain text. -/
theorem decimalText_plain (n : Int) : decimalText false 0 n = toString n := by
  unfold decimalText
  cases n with
  | ofNat n =>
      rw [if_neg (show ¬ Int.ofNat n < 0 from Int.not_lt.mpr (Int.natCast_nonneg n))]
      exact String.empty_append
  | negSucc n =>
      rw [if_pos (Int.negSucc_lt_zero n), List.replicate_zero, String.ofList_nil,
        String.append_empty]
      rfl

/-- The text of an integer is that of a natural with an optional sign. -/
theorem toList_toString_int (n : Int) :
    (∃ m : Nat, n = m ∧ (toString n).toList = (toString m).toList) ∨
      ∃ m : Nat, n = -m ∧ (toString n).toList = '-' :: (toString m).toList := by
  cases n with
  | ofNat m => exact .inl ⟨m, rfl, rfl⟩
  | negSucc m =>
      refine .inr ⟨m + 1, rfl, ?_⟩
      show ("-" ++ toString (m + 1)).toList = _
      rw [String.toList_append]
      rfl

/-- An integer is read back. -/
theorem integer?_toString (n : Int) : integer? (toString n).toList = some n := by
  rw [← decimalText_plain, integer?_eq_some_iff]
  exact isDecimal_decimalText false 0 n

end SymbolFont.Text
