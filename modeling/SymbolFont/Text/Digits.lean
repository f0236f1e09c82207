/-
# Runs of digits

The naturals that decimal and hexadecimal digits stand for.  Both readers take the
whole text and want at least one digit; leading zeros are free.
-/

namespace SymbolFont.Text

/-- The value of a hexadecimal digit of either case. -/
def hexDigit? (c : Char) : Option Nat :=
  if '0' ≤ c ∧ c ≤ '9' then some (c.toNat - '0'.toNat)
  else if 'a' ≤ c ∧ c ≤ 'f' then some (c.toNat - 'a'.toNat + 10)
  else if 'A' ≤ c ∧ c ≤ 'F' then some (c.toNat - 'A'.toNat + 10)
  else none

/-- The value of a decimal digit. -/
def decimalDigit? (c : Char) : Option Nat :=
  if '0' ≤ c ∧ c ≤ '9' then some (c.toNat - '0'.toNat) else none

/-- Read digits on top of the value of those before them. -/
def digitsFrom? (digit? : Char → Option Nat) (base : Nat) : Nat → List Char → Option Nat
  | value, [] => some value
  | value, c :: cs =>
      match digit? c with
      | some d => digitsFrom? digit? base (base * value + d) cs
      | none => none

/-- The value of one or more hexadecimal digits. -/
def hexValue? : List Char → Option Nat
  | [] => none
  | cs => digitsFrom? hexDigit? 16 0 cs

/-- The value of one or more decimal digits. -/
def decimalValue? : List Char → Option Nat
  | [] => none
  | cs => digitsFrom? decimalDigit? 10 0 cs

/-- The text without a plus sign in front. -/
def withoutPlus : List Char → List Char
  | '+' :: rest => rest
  | cs => cs

end SymbolFont.Text
