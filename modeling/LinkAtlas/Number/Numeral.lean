import LinkAtlas.Number.Double

/-!
# Numerals

Decimal numerals as JSON writes them, and the double that a numeral stands for.

A numeral is read with two roundings. Its leading digits, as many as fit into 64 bits, are rounded
to a double, and this is multiplied or divided by a power of ten. So numerals of up to fifteen
digits with a moderate exponent are read exactly, and longer ones may miss the nearest double by
one place.
-/

namespace LinkAtlas

/-- The parts of a numeral. -/
structure Numeral where
  negative : Bool
  whole : List Char
  /-- the digits behind the point, none if there is no point -/
  fraction : List Char
  exponent : Int
deriving DecidableEq

namespace Numeral

/-- Digits in front and what follows them. -/
def splitDigits (text : List Char) : List Char × List Char :=
  (text.takeWhile Char.isDigit, text.dropWhile Char.isDigit)

/-- The whole part may begin with zero only if it is zero. -/
def isWhole : List Char → Bool
  | [] => false
  | first :: rest => first != '0' || rest.isEmpty

def digitValue (digit : Char) : Nat := digit.toNat - '0'.toNat

/-- The number that a list of digits stands for. -/
def value (digits : List Char) : Nat :=
  digits.foldl (fun total digit => 10 * total + digitValue digit) 0

/-- A point with digits behind it, if there is one, and what follows. -/
def splitFraction : List Char → Option (List Char × List Char)
  | '.' :: text =>
      let (digits, rest) := splitDigits text
      if digits.isEmpty then none else some (digits, rest)
  | text => some ([], text)

/-- The digits of an exponent after its sign, which are the end of the numeral. -/
def exponentDigits (text : List Char) : Option Nat :=
  let (digits, rest) := splitDigits text
  if digits.isEmpty || !rest.isEmpty then none else some (value digits)

/-- The exponent at the end of a numeral. -/
def readExponent : List Char → Option Int
  | [] => some 0
  | mark :: text =>
      if mark == 'e' || mark == 'E' then
        match text with
        | '+' :: rest => (exponentDigits rest).map Int.ofNat
        | '-' :: rest => (exponentDigits rest).map fun power => -(power : Int)
        | rest => (exponentDigits rest).map Int.ofNat
      else none

/-- A numeral without its sign. -/
def readUnsigned (negative : Bool) (text : List Char) : Option Numeral := do
  let (whole, afterWhole) := splitDigits text
  if !isWhole whole then none
  let (fraction, afterFraction) ← splitFraction afterWhole
  let exponent ← readExponent afterFraction
  some { negative := negative, whole := whole, fraction := fraction, exponent := exponent }

/-- The parts of a text, if it is a numeral. -/
def read? : List Char → Option Numeral
  | '-' :: text => readUnsigned true text
  | text => readUnsigned false text

/-- Takes in digits behind a number as long as the result fits into 64 bits; gives the result and
the number of digits left over. -/
def absorb (number : Nat) : List Char → Nat × Nat
  | [] => (number, 0)
  | digit :: rest =>
      let longer := 10 * number + digitValue digit
      if longer < Nat.pow 2 64 then absorb longer rest else (number, rest.length + 1)

/-- Divides by `10 ^ 308` again and again; zero stays zero. -/
def shrink : Nat → Float → Float
  | 0, x => x
  | steps + 1, x => if x == 0 then x else shrink steps (x / Float.ofScientific 1 false 308)

/-- The product with a power of ten, if it is no greater than all doubles. Powers above `10 ^ 308`
have no double of their own: downwards they are taken in steps. -/
def scale (x : Float) (exponent : Int) : Option Float :=
  if exponent ≥ 0 then
    if x == 0 then some x
    else if exponent > 308 then none
    else
      let product := x * Float.ofScientific 1 false exponent.toNat
      if product.isInf then none else some product
  else
    let power := exponent.natAbs
    let steps := (power - 1) / 308
    some (shrink steps x / Float.ofScientific 1 false (power - 308 * steps))

/-- The double that the numeral is read as; none if it is beyond all doubles. -/
def toDouble? (numeral : Numeral) : Option Double :=
  let (leading, skipped) := absorb 0 numeral.whole
  let (number, ignored) := absorb leading numeral.fraction
  let exponent := numeral.exponent + skipped - (numeral.fraction.length - ignored : Nat)
  (scale number.toUInt64.toFloat exponent).map fun magnitude =>
    let unsigned := Double.ofFloat magnitude
    if numeral.negative then unsigned.negate else unsigned

/-- The numbers from here on have no finite double as their nearest. -/
def firstBeyond : Nat := Nat.pow 2 1024 - Nat.pow 2 970

/-- Whether the nearest double of the numeral, its sign left aside, is infinite. All digits count. A
numeral with a digit far above or below the limit is decided by the place of that digit alone. -/
def isBeyond (numeral : Numeral) : Bool :=
  let digits := (numeral.whole ++ numeral.fraction).dropWhile (· == '0')
  let exponent := numeral.exponent - numeral.fraction.length
  let point := digits.length + exponent
  if digits.isEmpty || point < 309 then false
  else if 309 < point then true
  else
    firstBeyond * Nat.pow 10 (-exponent).toNat ≤ value digits * Nat.pow 10 exponent.toNat

end Numeral

end LinkAtlas
