import LinkAtlas.Scalar

/-!
# JSON values

The values that a JSON text stands for. Numbers are kept as they are spelled. The members of an
object keep their order, and a name may occur twice: what that means is up to the reader of the
object.
-/

namespace LinkAtlas

inductive Json where
  | null
  | boolean (value : Bool)
  | number (spelling : List Char)
  | text (value : String)
  | array (items : List Json)
  | object (members : List (String × Json))
  /-- A value that the grammar allows and that stands for nothing: a string with half of a surrogate
  pair, or an object one of whose names is such a string. -/
  | unreadable
deriving Inhabited

namespace Json

/-- Numbers have a decimal point or an exponent. All digits are written out from five places behind
the point to sixteen before it. There is no way to write what is not a finite number. -/
def numberStyle : NumberStyle where
  tie := .even
  writtenOut := fun point => -5 < point && point ≤ 16
  wholeEnding := ".0"
  notANumber := "null"
  infinite := "null"
  negativeInfinite := "null"

def ofDouble (value : Double) : Json :=
  if value.isFinite then .number (numberStyle.write value) else .null

/-- The spelling of a double as a number. Only a finite one has one. -/
def spelling? (value : Double) : Option (List Char) :=
  if value.isFinite then some (numberStyle.write value) else none

def ofNat (value : Nat) : Json := .number (Nat.toDigits 10 value)

def ofScalar : Scalar → Json
  | .boolean value => .boolean value
  | .number value => ofDouble value
  | .text value => .text value

def ofTexts (texts : List String) : Json := .array (texts.map .text)

end Json

end LinkAtlas
