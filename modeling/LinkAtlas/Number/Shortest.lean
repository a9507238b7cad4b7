import LinkAtlas.Number.Double

/-!
# Shortest decimals

The decimal with the fewest digits that reads back as a given double. The numbers that read back as
a double form an interval around it, reaching halfway to the two neighbouring doubles. The search
goes from coarse powers of ten to fine ones and stops at the first that has a multiple inside the
interval; of two multiples inside it takes the nearer one. All comparisons are between naturals.
-/

namespace LinkAtlas

/-- The number `coefficient * 10 ^ exponent`. -/
structure Decimal where
  coefficient : Nat
  exponent : Int
deriving DecidableEq

/-- What is chosen between two candidates that are equally near. -/
inductive TieRule where
  | even
  | up
deriving DecidableEq

namespace Decimal

/-- The numbers that read back as one double, in units of `2 ^ unit`: from `low` to `high` around
`middle`, with the two ends if `closed`. -/
structure Interval where
  low : Nat
  middle : Nat
  high : Nat
  closed : Bool
  unit : Int

/-- The interval of a finite double, its sign left aside. Below a power of two the neighbour is
only half as far away as above it. -/
def Interval.ofDouble (x : Double) : Interval :=
  let normal := x.exponentField != 0
  let significand := if normal then Nat.pow 2 52 + x.fraction else x.fraction
  let power : Int := if normal then x.exponentField - 1075 else -1074
  let narrow := x.exponentField > 1 && x.fraction == 0
  { low := 4 * significand - if narrow then 1 else 2
    middle := 4 * significand
    high := 4 * significand + 2
    closed := significand % 2 == 0
    unit := power - 2 }

/-- With both sides of a comparison multiplied out, `candidate * 10 ^ grid` stands against the
interval as `candidate * decimalFactor` against `end * binaryFactor`. -/
def Interval.binaryFactor (interval : Interval) (grid : Int) : Nat :=
  Nat.pow 2 interval.unit.toNat * Nat.pow 10 (-grid).toNat

def Interval.decimalFactor (interval : Interval) (grid : Int) : Nat :=
  Nat.pow 2 (-interval.unit).toNat * Nat.pow 10 grid.toNat

def Interval.holds (interval : Interval) (grid : Int) (candidate : Nat) : Bool :=
  let place := candidate * interval.decimalFactor grid
  let low := interval.low * interval.binaryFactor grid
  let high := interval.high * interval.binaryFactor grid
  if interval.closed then low ≤ place && place ≤ high else low < place && place < high

/-- The nearest multiple of `10 ^ grid` in the interval, if it holds one. -/
def Interval.nearest? (interval : Interval) (tie : TieRule) (grid : Int) : Option Nat :=
  let middle := interval.middle * interval.binaryFactor grid
  let below := middle / interval.decimalFactor grid
  let above := below + 1
  match interval.holds grid below, interval.holds grid above with
  | false, false => none
  | true, false => some below
  | false, true => some above
  | true, true =>
      match compare (2 * middle) ((below + above) * interval.decimalFactor grid), tie with
      | .lt, _ => some below
      | .gt, _ => some above
      | .eq, .even => some (if below % 2 == 0 then below else above)
      | .eq, .up => some above

/-- Tries `steps` powers of ten downwards from `10 ^ grid`. -/
def search (interval : Interval) (tie : TieRule) : Nat → Int → Option Decimal
  | 0, _ => none
  | steps + 1, grid =>
      match interval.nearest? tie grid with
      | some coefficient => some ⟨coefficient, grid⟩
      | none => search interval tie steps (grid - 1)

/-- A power of ten above the interval. -/
def topGrid (interval : Interval) : Int :=
  (interval.unit + Nat.log2 interval.middle + 1) * 30103 / 100000 + 2

/-- The shortest decimal that reads back as a finite double other than zero, its sign left aside.
Seventeen digits are always enough for that; were they not, the answer would be the exact value. -/
def shortest (tie : TieRule) (x : Double) : Decimal :=
  let interval := Interval.ofDouble x
  match search interval tie 24 (topGrid interval) with
  | some found => found
  | none => ⟨interval.middle * Nat.pow 2 interval.unit.toNat * Nat.pow 5 (-interval.unit).toNat,
      min interval.unit 0⟩

/-- The digits of the coefficient, the highest first. -/
def digits (decimal : Decimal) : List Char := Nat.toDigits 10 decimal.coefficient

/-- The place of the decimal point, counted from the first digit. -/
def point (decimal : Decimal) : Int := decimal.digits.length + decimal.exponent

end Decimal

end LinkAtlas
