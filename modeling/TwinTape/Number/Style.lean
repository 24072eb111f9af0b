import TwinTape.Number.Shortest

/-! # Numbers as text

A number is written with the fewest digits that read back.  From `10 ^ -4` up to below
`10 ^ 16` it is written positionally with at least one decimal, and else with an exponent after
one digit before the point.  Two styles differ in the exponent and in one word:

* `Style.printed`, for what a program prints: `1e+20`, `2.5e-07`, `nan`;
* `Style.listed`, for listings of memory: `1e20`, `2.5e-7`, `NaN`. -/

namespace TwinTape

/-- The decisions left open by the digits of a number. -/
structure Style where
  /-- The word for what is not a number. -/
  nanWord : List Char
  /-- Whether an exponent that is not negative has a plus sign. -/
  plusSign : Bool
  /-- The least number of digits of an exponent. -/
  exponentWidth : Nat
deriving DecidableEq, Repr

namespace Style

/-- The style of what a program prints. -/
def printed : Style := ⟨['n', 'a', 'n'], true, 2⟩

/-- The style of listings of memory. -/
def listed : Style := ⟨['N', 'a', 'N'], false, 1⟩

/-- The decimal exponents of the numbers that are written positionally. -/
def isPositional (exponent : Int) : Bool := -4 ≤ exponent && exponent < 16

/-! ### Finite numbers -/

/-- An exponent with its sign. -/
def exponentChars (style : Style) (exponent : Int) : List Char :=
  let digits := Nat.toDigits 10 exponent.natAbs
  let sign := if exponent < 0 then ['-'] else if style.plusSign then ['+'] else []
  sign ++ List.replicate (style.exponentWidth - digits.length) '0' ++ digits

/-- A positive decimal without an exponent, with at least one digit on either side of the
point. -/
def positional (d : Decimal) : List Char :=
  let digits := Nat.toDigits 10 d.digits
  let point := digits.length + d.exponent
  if 0 ≤ d.exponent then digits ++ List.replicate d.exponent.toNat '0' ++ ['.', '0']
  else if 0 < point then digits.take point.toNat ++ '.' :: digits.drop point.toNat
  else '0' :: '.' :: List.replicate (-point).toNat '0' ++ digits

/-- A positive decimal with an exponent, and one digit before the point. -/
def scientific (style : Style) (d : Decimal) : List Char :=
  let digits := Nat.toDigits 10 d.digits
  let point := digits.length + d.exponent
  let mantissa := if digits.length ≤ 1 then digits else digits.take 1 ++ '.' :: digits.drop 1
  mantissa ++ 'e' :: style.exponentChars (point - 1)

/-- A positive decimal. -/
def decimal (style : Style) (d : Decimal) : List Char :=
  if isPositional ((Nat.toDigits 10 d.digits).length + d.exponent - 1) then positional d
  else style.scientific d

/-! ### All numbers -/

/-- A number by its parts. -/
def binary (style : Style) : Binary → List Char
  | .nan => style.nanWord
  | .infinite negative => (if negative then ['-'] else []) ++ ['i', 'n', 'f']
  | .finite negative mantissa shift =>
    (if negative then ['-'] else [])
      ++ (if mantissa = 0 then ['0', '.', '0'] else style.decimal (.shortest mantissa shift))

/-- The characters of a number. -/
def chars (style : Style) (x : Float) : List Char := style.binary (.ofFloat x)

/-- A number as a text. -/
def text (style : Style) (x : Float) : String := String.ofList (style.chars x)

end Style
end TwinTape
