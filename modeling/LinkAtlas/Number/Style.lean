import LinkAtlas.Number.Shortest

/-!
# Number styles

How a double is laid out as text once its shortest digits are known. A style is a record of the
decisions that an output format makes; `NumberStyle.write` follows them.
-/

namespace LinkAtlas

/-- The decisions of an output format about numbers. -/
structure NumberStyle where
  /-- which of two equally near shortest decimals is written -/
  tie : TieRule
  /-- the places of the decimal point for which all digits are written out -/
  writtenOut : Int → Bool
  /-- what follows a whole number that is written out -/
  wholeEnding : String
  notANumber : String
  infinite : String
  negativeInfinite : String

namespace NumberStyle

/-- All digits written out, with zeros up to the decimal point where there are too few. -/
def positional (style : NumberStyle) (digits : List Char) (point : Int) : List Char :=
  if point ≤ 0 then
    '0' :: '.' :: (List.replicate (-point).toNat '0' ++ digits)
  else
    let whole := digits.take point.toNat
    let fraction := digits.drop point.toNat
    let zeros := List.replicate (point.toNat - digits.length) '0'
    if fraction.isEmpty then whole ++ zeros ++ style.wholeEnding.toList
    else whole ++ '.' :: fraction

/-- One digit before the decimal point and a signed power of ten behind. -/
def scientific (digits : List Char) (point : Int) : List Char :=
  let power := point - 1
  let sign := if power < 0 then '-' else '+'
  let fraction := digits.drop 1
  digits.take 1 ++ (if fraction.isEmpty then [] else '.' :: fraction) ++
    'e' :: sign :: Nat.toDigits 10 power.natAbs

/-- The text of a finite double without its sign. -/
def magnitude (style : NumberStyle) (x : Double) : List Char :=
  if x.isZero then '0' :: style.wholeEnding.toList
  else
    let decimal := Decimal.shortest style.tie x
    if style.writtenOut decimal.point then style.positional decimal.digits decimal.point
    else scientific decimal.digits decimal.point

def write (style : NumberStyle) (x : Double) : List Char :=
  if x.isNaN then style.notANumber.toList
  else if x.isInfinite then
    if x.negative then style.negativeInfinite.toList else style.infinite.toList
  else if x.negative then '-' :: style.magnitude x
  else style.magnitude x

end NumberStyle

end LinkAtlas
