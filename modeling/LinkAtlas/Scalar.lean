import LinkAtlas.Number.Style

/-!
# Labels, ids and scalar values
-/

namespace LinkAtlas

/-- Names the type of an instance or the kind of a link. -/
abbrev Label := String

/-- The name under which the outside world knows an instance. -/
abbrev InstanceId := String

/-- The value that an instance may carry. -/
inductive Scalar where
  | boolean (value : Bool)
  | number (value : Double)
  | text (value : String)
deriving DecidableEq, Inhabited

namespace Scalar

/-- Equality of values, where numbers are compared as numbers. -/
def agrees : Scalar → Scalar → Bool
  | boolean first, boolean second => first == second
  | number first, number second => first.agrees second
  | text first, text second => first == second
  | _, _ => false

def text? : Scalar → Option String
  | text value => some value
  | _ => none

def number? : Scalar → Option Double
  | number value => some value
  | _ => none

def boolean? : Scalar → Option Bool
  | boolean value => some value
  | _ => none

/-- Numbers for readers: every digit is written out and a whole number has no decimal point. -/
def plainNumber : NumberStyle where
  tie := .up
  writtenOut := fun _ => true
  wholeEnding := ""
  notANumber := "NaN"
  infinite := "inf"
  negativeInfinite := "-inf"

/-- The value as a reader sees it. -/
def display : Scalar → String
  | boolean value => if value then "true" else "false"
  | number value => String.ofList (plainNumber.write value)
  | text value => value

end Scalar

end LinkAtlas
