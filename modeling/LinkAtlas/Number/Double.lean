/-!
# Doubles

A double is kept as its 64 bits, so that every pattern is a value of its own: two patterns that are
not a number differ if their bits do, and the two zeros differ. Numeric equality is `agrees`.
-/

namespace LinkAtlas

/-- A number in the binary format of 64 bits: sign, 11 bits of exponent, 52 bits of fraction. -/
structure Double where
  bits : UInt64
deriving DecidableEq, Inhabited

namespace Double

def ofFloat (x : Float) : Double := ⟨x.toBits⟩

/-- The nearest double of an integer. -/
def ofInt (value : Int) : Double := ofFloat (Float.ofInt value)

def negative (x : Double) : Bool := x.bits.toNat / Nat.pow 2 63 == 1

def exponentField (x : Double) : Nat := x.bits.toNat / Nat.pow 2 52 % Nat.pow 2 11

def fraction (x : Double) : Nat := x.bits.toNat % Nat.pow 2 52

def isZero (x : Double) : Bool := x.exponentField == 0 && x.fraction == 0

def isNaN (x : Double) : Bool := x.exponentField == 2047 && x.fraction != 0

def isInfinite (x : Double) : Bool := x.exponentField == 2047 && x.fraction == 0

def isFinite (x : Double) : Bool := x.exponentField != 2047

/-- The same number with the other sign. -/
def negate (x : Double) : Double := ⟨x.bits ^^^ 0x8000000000000000⟩

/-- Numeric equality: the two zeros agree, and what is not a number agrees with nothing. -/
def agrees (x y : Double) : Bool :=
  !x.isNaN && (x == y || (x.isZero && y.isZero))

theorem agrees_self_iff {x : Double} : x.agrees x = true ↔ x.isNaN = false := by
  simp [agrees]

end Double

end LinkAtlas
