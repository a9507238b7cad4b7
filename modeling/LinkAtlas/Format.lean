import LinkAtlas.Projection.Json
import LinkAtlas.Projection.Rendering
import LinkAtlas.Text.LowerCase

/-!
# Output formats
-/

namespace LinkAtlas

/-- The ways in which a forest is shown. -/
inductive Format where
  | tree
  | json
  | matrix
deriving DecidableEq, Inhabited

namespace Format

def name : Format → String
  | tree => "tree"
  | json => "json"
  | matrix => "matrix"

/-- The format of a name, which is written in small letters. -/
def ofName? (name : String) : Option Format :=
  if name = "tree" then some tree
  else if name = "json" then some json
  else if name = "matrix" then some matrix
  else none

/-- The format of a name in any case. A name of no format is given back in lower case. -/
def ofAnyCase (name : String) : Except String Format :=
  let lowered := Text.lower name
  match ofName? lowered with
  | some format => .ok format
  | none => .error lowered

/-- What is said of a name, in lower case, that is no format. -/
def unknownMessage (lowered : String) : String :=
  "Unknown format: " ++ lowered ++ " (expected tree, json, matrix)"

/-- A forest in a format. -/
def present (format : Format) (store : Store) (roots : List Projection) : String :=
  match format with
  | tree => Projection.render store roots
  | json => (Json.array (Projection.toJsonList roots)).pretty
  | matrix => (Json.array (Projection.matrices roots)).compact

end Format

end LinkAtlas
