import TwinTape.Number.Binary

/-! # The fewest digits that read back

A number stands for the interval of reals that round to it; its ends belong to the interval if
the mantissa is even.  Written out, the number is the decimal in this interval with the fewest
digits, and of several the one nearest to the number, the greater one if two are equally near.

A decimal with few digits is a point of a coarse grid of powers of ten.  `Decimal.shortest` goes
from coarse to fine and on each grid looks at the two neighbours of the number: if a point of
the grid lies in the interval, then so does one of the neighbours.  A binary64 number is a
multiple of `10 ^ -1074`, so on the finest grid the number itself is a point and the search
ends. -/

namespace TwinTape

/-- The decimal number `digits * 10 ^ exponent`. -/
structure Decimal where
  digits : Nat
  exponent : Int
deriving DecidableEq, Repr

namespace Decimal

/-- The reals that round to a number, in units of a quarter of `10 ^ -1074`. -/
structure Interval where
  low : Nat
  value : Nat
  high : Nat
  /-- Whether the ends belong to the interval. -/
  closed : Bool

namespace Interval

/-- The interval of a positive number with the given parts.  Below the least mantissa of 53 bits
the numbers lie twice as close. -/
def ofParts (mantissa shift : Nat) : Interval :=
  let quarter := twoTo shift * Nat.pow 5 1074
  let value := 4 * mantissa * quarter
  let below := if mantissa = Binary.leastNormal ∧ 0 < shift then quarter else 2 * quarter
  ⟨value - below, value, value + 2 * quarter, mantissa % 2 == 0⟩

/-- Whether a point lies in the interval. -/
def holds (i : Interval) (point : Nat) : Bool :=
  if i.closed then i.low ≤ point && point ≤ i.high else i.low < point && point < i.high

/-- The multiple of `spacing` in the interval that is nearest to the value, as a factor; none if
the interval holds no neighbour of the value. -/
def neighbour? (i : Interval) (spacing : Nat) : Option Nat :=
  let lower := i.value / spacing
  let upper := lower + 1
  match i.holds (lower * spacing), i.holds (upper * spacing) with
  | true, true =>
    if i.value - lower * spacing < upper * spacing - i.value then some lower else some upper
  | true, false => some lower
  | false, true => some upper
  | false, false => none

/-- Digits and grid of the first hit, on grids from `10 ^ grid` down to one. -/
def search (i : Interval) : Nat → Nat × Nat
  | 0 => (i.value / 4, 0)
  | grid + 1 =>
    match i.neighbour? (4 * tenTo (grid + 1)) with
    | some digits => (digits, grid + 1)
    | none => i.search grid

/-- A power of ten above the value; `30103 / 100000` is a little more than the logarithm of two
to base ten. -/
def topGrid (i : Interval) : Nat := (i.value.log2 + 1) * 30103 / 100000 + 1

/-- The decimal that the search finds. -/
def found (i : Interval) : Decimal :=
  let hit := i.search i.topGrid
  ⟨hit.1, (hit.2 : Int) - 1074⟩

end Interval

/-- The decimal with the fewest digits that reads back as the positive number with the given
parts. -/
def shortest (mantissa shift : Nat) : Decimal := (Interval.ofParts mantissa shift).found

end Decimal
end TwinTape
