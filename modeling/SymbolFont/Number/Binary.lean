/-
# Binary64 magnitudes

A finite double is a sign and a magnitude `m * 2 ^ q`.  `decode` takes a double
apart, and `nearest` finds the double closest to a given quotient of naturals,
a tie going to the even mantissa.  Both work on the bit pattern in exact integer
arithmetic, so that printing and reading can be reasoned about.
-/

namespace SymbolFont.Number

-- Powers are the primitive ones, also where algebra is in scope.
attribute [local instance (2000)] instPowNat

/-- What a double stands for. -/
inductive Decoded where
  | nan
  | infinite (negative : Bool)
  /-- The number `mantissa * 2 ^ exponent` with the given sign. -/
  | finite (negative : Bool) (mantissa : Nat) (exponent : Int)
  deriving DecidableEq, Repr

/-- The bits of a positive infinity; smaller patterns are the finite magnitudes in
increasing order. -/
def infinityBits : Nat := 0x7FF * 2 ^ (52 : Nat)

/-- The magnitude with bit pattern `bits`, sign bit excluded. -/
def magnitude (bits : Nat) : Nat × Int :=
  let field : Nat := bits / 2 ^ (52 : Nat)
  let fraction : Nat := bits % 2 ^ (52 : Nat)
  if field = 0 then (fraction, -1074) else (fraction + 2 ^ (52 : Nat), (field : Int) - 1075)

/-- Take a double apart. -/
def decode (x : Float) : Decoded :=
  let bits := x.toBits.toNat
  let negative := decide (2 ^ (63 : Nat) ≤ bits)
  let rest := bits % 2 ^ (63 : Nat)
  if infinityBits < rest then .nan
  else if rest = infinityBits then .infinite negative
  else .finite negative (magnitude rest).1 (magnitude rest).2

/-- `num / den` rounded to the nearest natural, a tie going to the even one. -/
def roundDiv (num den : Nat) : Nat :=
  let quotient := num / den
  let rest := num % den
  if 2 * rest < den || (2 * rest == den && quotient % 2 == 0) then quotient else quotient + 1

/-- `n * 2 ^ e` as a quotient of naturals. -/
def scaled (n : Nat) (e : Int) : Nat × Nat := (n * 2 ^ e.toNat, 2 ^ (-e).toNat)

/-- The exponent at which the mantissa of `num / den` has 53 bits, but at least the
one of the least magnitudes. -/
def exponentFor (num den : Nat) : Int :=
  let guess : Int := (Nat.log2 num : Int) - Nat.log2 den - 53
  let (scaledNum, scaledDen) := scaled num (-guess)
  let exact := if 2 ^ (53 : Nat) ≤ scaledNum / (den * scaledDen) then guess + 1 else guess
  max (-1074) exact

/-- The bits of the magnitude nearest to `num / den`; too large a quotient gives an
infinity.  Adding the mantissa to the exponent field lets a carry out of the mantissa
reach the exponent. -/
def nearestBits (num den : Nat) : Nat :=
  if num = 0 then 0
  else
    let q := exponentFor num den
    let (scaledNum, scaledDen) := scaled num (-q)
    let bits := (q + 1074).toNat * 2 ^ (52 : Nat) + roundDiv scaledNum (den * scaledDen)
    min bits infinityBits

/-- The double with the given sign and magnitude bits. -/
def ofMagnitude (negative : Bool) (bits : Nat) : Float :=
  Float.ofBits (UInt64.ofNat (if negative then 2 ^ (63 : Nat) + bits else bits))

end SymbolFont.Number
