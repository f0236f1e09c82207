/-
# Integers as text

A decimal integer is an optional sign and one or more digits.
-/

import SymbolFont.Text.Digits

namespace SymbolFont.Text

-- Powers are the primitive ones, also where algebra is in scope.
attribute [local instance (2000)] instPowNat

/-- The integer that takes up the whole text. -/
def integer? : List Char → Option Int
  | '-' :: digits => (decimalValue? digits).map fun n => -(n : Int)
  | '+' :: digits => (decimalValue? digits).map Int.ofNat
  | digits => (decimalValue? digits).map Int.ofNat

/-- Does the integer fit into 32 bits with a sign? -/
def fitsInt32 (n : Int) : Bool := -(2 : Int) ^ (31 : Nat) ≤ n && n < (2 : Int) ^ (31 : Nat)

/-- The integer that takes up the whole text, if it fits into 32 bits with a sign. -/
def int32? (cs : List Char) : Option Int := (integer? cs).filter fitsInt32

/-- The text behind the first two bytes, if they end a character. -/
def behindTwoBytes? : List Char → Option (List Char)
  | a :: rest =>
      if a.utf8Size = 2 then some rest
      else if a.utf8Size = 1 then
        match rest with
        | b :: rest => if b.utf8Size = 1 then some rest else none
        | [] => none
      else none
  | [] => none

end SymbolFont.Text
