/-! # What the bits of a number stand for

A finite binary64 number is a multiple of `2 ^ -1074`, so it is given by a sign, a mantissa and
a shift: its absolute value is `mantissa * 2 ^ shift` of these units.  The mantissa has at most
53 bits, and exactly 53 unless the shift is zero; zero itself has a sign.  Everything that has
to be exact about numbers is said on these naturals.

`Binary.ofFloat` and `Binary.toFloat` go between a number and its parts, `Binary.floor?` is the
greatest integer not above a number, and `Binary.ofRatio` the nearest number to a fraction. -/

namespace TwinTape

/-- The power of two with exponent `n`. -/
def twoTo (n : Nat) : Nat := Nat.pow 2 n

/-- The power of ten with exponent `n`. -/
def tenTo (n : Nat) : Nat := Nat.pow 10 n

/-- A binary64 number by its parts. -/
inductive Binary where
  | nan
  | infinite (negative : Bool)
  /-- The number `mantissa * 2 ^ shift` in units of `2 ^ -1074`, or its opposite. -/
  | finite (negative : Bool) (mantissa shift : Nat)
deriving DecidableEq, Repr

namespace Binary

/-- The units in the number one. -/
def unitsPerOne : Nat := twoTo 1074

/-- The mantissas that have 53 bits start here. -/
def leastNormal : Nat := twoTo 52

/-- The magnitude bits of an infinity. -/
def infinityBits : Nat := 2047 * twoTo 52

/-! ### Bits -/

/-- The parts of the number with the given bits. -/
def ofBits (bits : Nat) : Binary :=
  let negative := twoTo 63 ≤ bits
  let exponent := bits / twoTo 52 % twoTo 11
  let fraction := bits % twoTo 52
  if exponent = 2047 then (if fraction = 0 then infinite negative else nan)
  else if exponent = 0 then finite negative fraction 0
  else finite negative (leastNormal + fraction) (exponent - 1)

/-- The bits of a number with the given sign and magnitude bits. -/
def signedBits (negative : Bool) (magnitude : Nat) : UInt64 :=
  UInt64.ofNat ((if negative then twoTo 63 else 0) + magnitude)

/-- The parts of a number. -/
def ofFloat (x : Float) : Binary := ofBits x.toBits.toNat

/-- The number with the given parts. -/
def toFloat : Binary → Float
  | nan => Float.ofBits (signedBits false (infinityBits + twoTo 51))
  | infinite negative => Float.ofBits (signedBits negative infinityBits)
  | finite negative mantissa shift =>
    Float.ofBits (signedBits negative (shift * twoTo 52 + mantissa))

/-! ### Integers -/

/-- The greatest integer not above the number; none for an infinity and for what is not a
number. -/
def floor? : Binary → Option Int
  | finite negative mantissa shift =>
    let units : Int := mantissa * twoTo shift
    some ((if negative then -units else units) / unitsPerOne)
  | _ => none

/-! ### Rounding -/

/-- The quotient `num / den` rounded to the nearest integer, a half to the even one. -/
def roundHalfEven (num den : Nat) : Nat :=
  let quotient := num / den
  let twice := 2 * (num % den)
  if twice < den then quotient
  else if den < twice then quotient + 1
  else quotient + quotient % 2

/-- The number nearest to `num / den`, with an even mantissa if there are two; an infinity if the
fraction is too large. -/
def ofRatio (negative : Bool) (num den : Nat) : Binary :=
  let units := num * unitsPerOne
  let shift := ((units / den).log2 + 1) - 53
  let mantissa := roundHalfEven units (den * twoTo shift)
  let bits := shift * twoTo 52 + mantissa
  if infinityBits ≤ bits then infinite negative
  else if mantissa = 2 * leastNormal then finite negative leastNormal (shift + 1)
  else finite negative mantissa shift

end Binary
end TwinTape
