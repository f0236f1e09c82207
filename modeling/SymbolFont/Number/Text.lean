/-
# Numbers as text

`display` writes a double with the fewest digits that read back as the same double,
always positionally.  `written` is the form used in documents, where both zeros are
`0`.  `read` takes an optional sign followed by digits with an optional point and
exponent, or by a name of infinity or of the undefined number, and rounds to the
nearest double.
-/

import SymbolFont.Number.Shortest

namespace SymbolFont.Number

-- Powers are the primitive ones, also where algebra is in scope.
attribute [local instance (2000)] instPowNat

/-- The decimal `d * 10 ^ k` without an exponent. -/
def positional (d : Nat) (k : Int) : List Char :=
  let digits := Nat.toDigits 10 d
  if 0 ≤ k then digits ++ List.replicate k.toNat '0'
  else
    let places := (-k).toNat
    if places < digits.length then
      digits.take (digits.length - places) ++ '.' :: digits.drop (digits.length - places)
    else '0' :: '.' :: List.replicate (places - digits.length) '0' ++ digits

/-- A double in its shortest positional form. -/
def displayChars (x : Float) : List Char :=
  match decode x with
  | .nan => ['N', 'a', 'N']
  | .infinite negative => (if negative then ['-'] else []) ++ ['i', 'n', 'f']
  | .finite negative m q =>
      let (d, k) := if m = 0 then (0, 0) else shortest m q
      (if negative then ['-'] else []) ++ positional d k

/-- A double in its shortest positional form; the zeros are `0` and `-0`. -/
def display (x : Float) : String := String.ofList (displayChars x)

/-- A coordinate or width as documents hold it: like `display`, but never `-0`. -/
def written (x : Float) : String := if x == 0.0 then "0" else display x

/-- The number that a run of digits stands for. -/
def digitsValue (ds : List Char) : Nat :=
  ds.foldl (fun n c => 10 * n + (c.toNat - '0'.toNat)) 0

/-- The bits of the magnitude nearest to `d * 10 ^ e`.  Beyond the range of doubles the
answer is known from the number of digits alone, which keeps the powers small. -/
def decimalBits (d : Nat) (e : Int) : Nat :=
  if d = 0 then 0
  else
    let p := (digitCount d : Int) + e
    if 310 < p then infinityBits
    else if p < -324 then 0
    else nearestBits (d * 10 ^ e.toNat) (10 ^ (-e).toNat)

/-- An exponent: a letter, an optional sign and digits.  No letter means zero. -/
def readExponent : List Char → Option Int
  | [] => some 0
  | c :: rest =>
      if c = 'e' ∨ c = 'E' then
        let (negative, ds) := match rest with
          | '-' :: ds => (true, ds)
          | '+' :: ds => (false, ds)
          | ds => (false, ds)
        if ds.isEmpty || !ds.all Char.isDigit then none
        else some (if negative then -(digitsValue ds : Int) else digitsValue ds)
      else none

/-- Digits with an optional point and exponent, as the bits of a magnitude. -/
def readDecimal (cs : List Char) : Option Nat :=
  let whole := cs.takeWhile Char.isDigit
  let rest := cs.dropWhile Char.isDigit
  let (fraction, rest) := match rest with
    | '.' :: rest => (rest.takeWhile Char.isDigit, rest.dropWhile Char.isDigit)
    | rest => ([], rest)
  if whole.isEmpty && fraction.isEmpty then none
  else
    (readExponent rest).map fun e =>
      decimalBits (digitsValue (whole ++ fraction)) (e - fraction.length)

/-- The bit pattern of the undefined number. -/
def nanBits : Nat := infinityBits + 2 ^ (51 : Nat)

/-- The values that are written as names, in letters of either case. -/
def readName (cs : List Char) : Option Nat :=
  let name := String.ofList (cs.map Char.toLower)
  if name = "inf" ∨ name = "infinity" then some infinityBits
  else if name = "nan" then some nanBits
  else none

/-- Read a number that takes up the whole text. -/
def readChars (cs : List Char) : Option Float :=
  let (negative, rest) := match cs with
    | '-' :: rest => (true, rest)
    | '+' :: rest => (false, rest)
    | rest => (false, rest)
  ((readDecimal rest).or (readName rest)).map (ofMagnitude negative)

/-- Read a number that takes up the whole text. -/
def read (text : String) : Option Float := readChars text.toList

end SymbolFont.Number
