import LinkAtlas.Json.Printer
import LinkAtlas.Projection.Survey

/-!
# Projections as JSON

A projection as an object, which leaves the handle of its source out, and its matrix, which leaves
out all but the values.
-/

namespace LinkAtlas

namespace Projection

mutual

/-- A value that is absent and links that are none have no member. -/
def toJson : Projection → Json
  | ⟨edgeType, id, labels, value, _, links⟩ =>
      .object ([("edge_type", .text edgeType), ("id", .text id), ("labels", Json.ofTexts labels)] ++
        (match value with
          | some value => [("value", Json.ofScalar value)]
          | none => []) ++
        (match links with
          | [] => []
          | group :: rest => [("links", .object (groupsToJson (group :: rest)))]))

def groupsToJson : List (Label × List Projection) → List (String × Json)
  | [] => []
  | (edge, group) :: rest => (edge, .array (toJsonList group)) :: groupsToJson rest

def toJsonList : List Projection → List Json
  | [] => []
  | projection :: rest => projection.toJson :: toJsonList rest

end

/-- A value as a matrix has it. A number without a spelling leaves its place empty. -/
def cell : Scalar → Json
  | .text value => .text value
  | .number value => (Json.spelling? value).elim .null .number
  | .boolean value => .boolean value

/-- The value of a node alone. -/
def ownValue (value : Option Scalar) : Json :=
  match value with
  | some value => cell value
  | none => .null

mutual

/-- The matrix of a leaf is its value; that of another node is a row with its value in front and the
matrices of its children behind. -/
def matrix : Projection → Json
  | ⟨_, _, _, value, _, links⟩ =>
      match links with
      | [] => ownValue value
      | group :: rest => .array (ownValue value :: matrixOfGroups (group :: rest))

def matrixOfGroups : List (Label × List Projection) → List Json
  | [] => []
  | (_, group) :: rest => matrices group ++ matrixOfGroups rest

def matrices : List Projection → List Json
  | [] => []
  | projection :: rest => projection.matrix :: matrices rest

end

end Projection

namespace Tally

def toJson (tally : Tally) : Json :=
  .object [("roots", .ofNat tally.roots), ("nodes_projected", .ofNat tally.nodes),
    ("edges_followed", .ofNat tally.edges), ("max_depth_reached", .ofNat tally.deepest)]

end Tally

end LinkAtlas
