import TwinTape.Number.Binary

/-! # Reading a number

A number is an optional sign and then one of the words `inf`, `infinity` and `nan` in any case,
or a decimal: digits with an optional point, at least one digit on one side of it, and an
optional exponent.  A decimal denotes the nearest binary64 number; one that is too large denotes
an infinity, and the sign counts for zero too. -/

namespace TwinTape.Reader

/-- The leading decimal digits of a text, and what follows. -/
def spanDigits (cs : List Char) : List Char × List Char :=
  (cs.takeWhile Char.isDigit, cs.dropWhile Char.isDigit)

/-- Drops an optional sign, and tells if it was a minus. -/
def spanSign : List Char → Bool × List Char
  | '-' :: cs => (true, cs)
  | '+' :: cs => (false, cs)
  | cs => (false, cs)

/-- Digits after an optional point, and what follows. -/
def spanFraction : List Char → List Char × List Char
  | '.' :: cs => spanDigits cs
  | cs => ([], cs)

/-- The exponent that makes up the whole rest of a text; zero if there is no rest. -/
def exponent? : List Char → Option Int
  | [] => some 0
  | c :: cs =>
    if c = 'e' ∨ c = 'E' then
      let (negative, cs) := spanSign cs
      let (digits, rest) := spanDigits cs
      if digits = [] ∨ rest ≠ [] then none
      else
        let magnitude : Int := Nat.ofDigitChars 10 digits 0
        some (if negative then -magnitude else magnitude)
    else none

/-- The number nearest to `digits * 10 ^ exponent`.  Powers of ten that are out of reach are not
computed: all numbers lie far below `10 ^ 400`, and `10 ^ -400` is far nearer to zero than to any
other. -/
def ofDecimal (negative : Bool) (digits : Nat) (exponent : Int) : Binary :=
  let magnitude := (Nat.toDigits 10 digits).length + exponent
  if digits = 0 ∨ magnitude < -400 then .finite negative 0 0
  else if 400 < magnitude then .infinite negative
  else if 0 ≤ exponent then .ofRatio negative (digits * tenTo exponent.toNat) 1
  else .ofRatio negative digits (tenTo (-exponent).toNat)

/-- The decimal without sign that makes up a text. -/
def decimal? (negative : Bool) (cs : List Char) : Option Binary :=
  let (whole, cs) := spanDigits cs
  let (fraction, cs) := spanFraction cs
  if whole = [] ∧ fraction = [] then none
  else (exponent? cs).map fun exponent =>
    ofDecimal negative (Nat.ofDigitChars 10 (whole ++ fraction) 0) (exponent - fraction.length)

/-- The words that denote infinities. -/
def infinityWords : List (List Char) :=
  [['i', 'n', 'f'], ['i', 'n', 'f', 'i', 'n', 'i', 't', 'y']]

/-- The word that denotes what is not a number. -/
def nanWord : List Char := ['n', 'a', 'n']

/-- The number that makes up a text, by its parts. -/
def binary? (cs : List Char) : Option Binary :=
  let (negative, cs) := spanSign cs
  let word := cs.map Char.toLower
  if word ∈ infinityWords then some (.infinite negative)
  else if word = nanWord then some .nan
  else decimal? negative cs

/-- The number that makes up a text. -/
def number? (cs : List Char) : Option Float := (binary? cs).map Binary.toFloat

end TwinTape.Reader
