/-
# Numbers, truth values and dates

Which words are scalars.  A word is everything up to the next character that cannot stand
in a scalar, so each test looks at a whole word.

Integers fit into 64 bits with a sign.  A float may not overflow upwards.  Dates are days of
the calendar.
-/

import SymbolFont.Number.Text
import SymbolFont.Text.Digits

namespace SymbolFont.Toml

-- Powers are the primitive ones, also where algebra is in scope.
attribute [local instance (2000)] instPowNat

/-- Can the character stand in a scalar? -/
def isWordChar (c : Char) : Bool :=
  c.isAlphanum || c == '_' || c == '+' || c == '-' || c == '.' || c == ':'

/-- Is the word a run of digits in which single underscores may stand between two? -/
def isGrouped (isDigit : Char → Bool) : List Char → Bool
  | [] => false
  | [d] => isDigit d
  | d :: '_' :: rest => isDigit d && isGrouped isDigit rest
  | d :: rest => isDigit d && isGrouped isDigit rest

/-- The word without underscores. -/
def ungrouped (word : List Char) : List Char := word.filter (· ≠ '_')

/-- The word without a sign, and whether the sign was a minus. -/
def splitSign : List Char → Bool × List Char
  | '-' :: rest => (true, rest)
  | '+' :: rest => (false, rest)
  | rest => (false, rest)

/-- Is the word a decimal natural without leading zeros? -/
def isWhole (word : List Char) : Bool :=
  isGrouped Char.isDigit word && (word.head? != some '0' || word == ['0'])

/-- Does the value of a run of digits stay below a bound? -/
def isBelow (digit? : Char → Option Nat) (base : Nat) (bound : Nat) (word : List Char) : Bool :=
  match Text.digitsFrom? digit? base 0 (ungrouped word) with
  | some n => n < bound
  | none => false

/-- Is the word an integer in another base than ten? -/
def isBased (isDigit : Char → Bool) (base : Nat) (word : List Char) : Bool :=
  isGrouped isDigit word && isBelow Text.hexDigit? base (2 ^ (63 : Nat)) word

/-- Is the word an integer? -/
def isInteger : List Char → Bool
  | '0' :: 'x' :: digits => isBased (fun c => (Text.hexDigit? c).isSome) 16 digits
  | '0' :: 'o' :: digits => isBased (fun c => '0' ≤ c && c ≤ '7') 8 digits
  | '0' :: 'b' :: digits => isBased (fun c => c == '0' || c == '1') 2 digits
  | word =>
      let (negative, digits) := splitSign word
      isWhole digits &&
        isBelow Text.decimalDigit? 10
          (if negative then 2 ^ (63 : Nat) + 1 else 2 ^ (63 : Nat)) digits

/-- Is the character the sign of an exponent? -/
def isExponentMark (c : Char) : Bool := c == 'e' || c == 'E'

/-- Are these the digits of a float, with a fraction or an exponent? -/
def hasFloatShape (word : List Char) : Bool :=
  let mantissa := word.takeWhile (!isExponentMark ·)
  let whole := mantissa.takeWhile (· ≠ '.')
  let isExponent :=
    match word.dropWhile (!isExponentMark ·) with
    | [] => none
    | _ :: rest => some (isGrouped Char.isDigit (splitSign rest).2)
  let isFraction :=
    match mantissa.dropWhile (· ≠ '.') with
    | [] => none
    | _ :: rest => some (isGrouped Char.isDigit rest)
  isWhole whole && (isExponent.isSome || isFraction.isSome) &&
    isExponent.getD true && isFraction.getD true

/-- Is the word a float? -/
def isFloat (word : List Char) : Bool :=
  let (negative, magnitude) := splitSign word
  magnitude == ['i', 'n', 'f'] || magnitude == ['n', 'a', 'n'] ||
    (hasFloatShape magnitude &&
      match Number.readChars (ungrouped magnitude) with
      | some x => negative || !x.isInf
      | none => false)

/-- The value of digits of a fixed number, if it lies between two bounds. -/
def fieldValue? (low high : Nat) (digits : List Char) : Option Nat :=
  (Text.decimalValue? digits).filter fun n => low ≤ n ∧ n ≤ high

/-- Does February have a day more in this year? -/
def isLeapYear (year : Nat) : Bool := year % 4 == 0 && (year % 100 != 0 || year % 400 == 0)

/-- The number of days of a month. -/
def daysIn (year month : Nat) : Nat :=
  if month = 2 then (if isLeapYear year then 29 else 28)
  else if month = 4 ∨ month = 6 ∨ month = 9 ∨ month = 11 then 30
  else 31

/-- Is the word a date? -/
def isDate : List Char → Bool
  | [y₁, y₂, y₃, y₄, '-', m₁, m₂, '-', d₁, d₂] =>
      match fieldValue? 0 9999 [y₁, y₂, y₃, y₄], fieldValue? 1 12 [m₁, m₂] with
      | some year, some month => (fieldValue? 1 (daysIn year month) [d₁, d₂]).isSome
      | _, _ => false
  | _ => false

/-- Are these the hours and minutes of a time? -/
def isClock : List Char → Bool
  | [h₁, h₂, ':', m₁, m₂] =>
      (fieldValue? 0 23 [h₁, h₂]).isSome && (fieldValue? 0 59 [m₁, m₂]).isSome
  | _ => false

/-- Is the word a time of day? -/
def isTime (word : List Char) : Bool :=
  isClock (word.take 5) &&
    match word.drop 5 with
    | [':', s₁, s₂] => (fieldValue? 0 60 [s₁, s₂]).isSome
    | ':' :: s₁ :: s₂ :: '.' :: fraction =>
        (fieldValue? 0 60 [s₁, s₂]).isSome && !fraction.isEmpty && fraction.all Char.isDigit
    | _ => false

/-- Is the word a time of day with an optional distance from universal time? -/
def isZonedTime (word : List Char) : Bool :=
  let time := word.takeWhile fun c => c.isDigit || c == ':' || c == '.'
  isTime time &&
    match word.drop time.length with
    | [] => true
    | ['Z'] | ['z'] => true
    | '+' :: offset | '-' :: offset => isClock offset
    | _ => false

/-- Is the word a date, a time or both?  Both are joined by a letter or a blank. -/
def isMoment (word : List Char) : Bool :=
  isTime word || isDate word ||
    (isDate (word.take 10) &&
      match word.drop 10 with
      | c :: time => (c == 'T' || c == 't' || c == ' ') && isZonedTime time
      | [] => false)

/-- Is the word a number, a truth value or a date? -/
def isScalar (word : List Char) : Bool :=
  word == ['t', 'r', 'u', 'e'] || word == ['f', 'a', 'l', 's', 'e'] ||
    isInteger word || isFloat word || isMoment word

end SymbolFont.Toml
