/-
# Shortest decimals

A double stands for all reals that round to it.  Its shortest decimal is taken from
the coarsest grid of multiples of a power of ten that meets this interval: one of the
two multiples next to the double, and the nearer one where both lie in the interval.

The search runs in exact natural arithmetic on the mantissa and exponent.  Seventeen
digits always suffice, which bounds the number of grids.
-/

import SymbolFont.Number.Binary

namespace SymbolFont.Number

-- Powers are the primitive ones, also where algebra is in scope.
attribute [local instance (2000)] instPowNat

/-- The number of decimal digits of `n`; zero has none. -/
def digitCount (n : Nat) : Nat := if n = 0 then 0 else (Nat.toDigits 10 n).length

/-- The least `p` with `num / den < 10 ^ p`, for a positive quotient. -/
def decimalExponent (num den : Nat) : Int :=
  if den ≤ num then digitCount (num / den) else 1 - (digitCount ((den - 1) / num) : Int)

/-- A positive magnitude with the interval of reals that round to it, all over one
denominator: it reaches from `value - below` to `value + above`, ends included
iff `closed`. -/
structure Interval where
  value : Nat
  below : Nat
  above : Nat
  denominator : Nat
  closed : Bool
  deriving Repr

/-- The rounding interval of `m * 2 ^ q`.  Below a power of two the next magnitude is
only half as far away. -/
def Interval.of (m : Nat) (q : Int) : Interval :=
  let (unit, den) := scaled 1 (q - 2)
  let narrow := m == 2 ^ (52 : Nat) && decide (-1074 < q)
  ⟨4 * m * unit, (if narrow then 1 else 2) * unit, 2 * unit, den, m % 2 == 0⟩

/-- The multiple `d * 10 ^ k`, as a numerator over the denominator of the interval
times the second component. -/
def Interval.onGrid (i : Interval) (k : Int) (d : Nat) : Nat × Nat :=
  (d * 10 ^ k.toNat * i.denominator, 10 ^ (-k).toNat)

/-- Does `d * 10 ^ k` round to the magnitude? -/
def Interval.contains (i : Interval) (k : Int) (d : Nat) : Bool :=
  let (num, s) := i.onGrid k d
  if num ≤ i.value * s then
    let gap := i.value * s - num
    gap < i.below * s || (i.closed && gap == i.below * s)
  else
    let gap := num - i.value * s
    gap < i.above * s || (i.closed && gap == i.above * s)

/-- The multiple of `10 ^ k` just below the magnitude, divided by `10 ^ k`. -/
def Interval.floor (i : Interval) (k : Int) : Nat :=
  (i.value * 10 ^ (-k).toNat) / (i.denominator * 10 ^ k.toNat)

/-- Is the upper neighbour on the grid at least as near as the lower one? -/
def Interval.upperNearer (i : Interval) (k : Int) : Bool :=
  let lower := i.onGrid k (i.floor k)
  let upper := i.onGrid k (i.floor k + 1)
  upper.1 - i.value * upper.2 ≤ i.value * lower.2 - lower.1

/-- The neighbour of the magnitude on the grid of `10 ^ k` that rounds to it. -/
def Interval.hit? (i : Interval) (k : Int) : Option Nat :=
  let lower := i.floor k
  match i.contains k lower, i.contains k (lower + 1) with
  | true, true => some (if i.upperNearer k then lower + 1 else lower)
  | true, false => some lower
  | false, true => some (lower + 1)
  | false, false => none

/-- The first hit on the grids of `10 ^ k`, `10 ^ (k - 1)` and so on. -/
def Interval.search (i : Interval) : Nat → Int → Nat × Int
  | 0, k => (i.floor k, k)
  | tries + 1, k =>
      match i.hit? k with
      | some d => (d, k)
      | none => i.search tries (k - 1)

/-- The shortest decimal `d * 10 ^ k` of the magnitude `m * 2 ^ q`, as `(d, k)`. -/
def shortest (m : Nat) (q : Int) : Nat × Int :=
  if m = 0 then (0, 0)
  else
    let i := Interval.of m q
    i.search 18 (decimalExponent i.value i.denominator)

end SymbolFont.Number
