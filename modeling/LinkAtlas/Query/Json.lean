import LinkAtlas.Json.Printer
import LinkAtlas.Json.Reader
import LinkAtlas.Query.Tree

/-!
# Query paths as JSON

A path is an array, in which a string is a hop and an array a branch. Arrays nest at most
`deepestNesting` deep, the array of the path itself included.
-/

namespace LinkAtlas

namespace PathStep

mutual

def toJson : PathStep → Json
  | hop label => .text label
  | branch steps => .array (toJsonList steps)

def toJsonList : List PathStep → List Json
  | [] => []
  | step :: rest => step.toJson :: toJsonList rest

end

mutual

/-- The step that a value stands for, with `room` for further arrays. -/
def ofJson? (room : Nat) : Json → Option PathStep
  | .text label => some (.hop label)
  | .array items =>
      match room with
      | 0 => none
      | less + 1 => (ofItems? less items).map .branch
  | _ => none

def ofItems? (room : Nat) : List Json → Option (List PathStep)
  | [] => some []
  | item :: rest => do
      let step ← ofJson? room item
      let steps ← ofItems? room rest
      some (step :: steps)

end

end PathStep

namespace QueryPath

/-- How deep the arrays of a path may nest. -/
def deepestNesting : Nat := 127

def toJson (path : QueryPath) : Json := .array (PathStep.toJsonList path.steps)

def ofJson? : Json → Option QueryPath
  | .array items => (PathStep.ofItems? (deepestNesting - 1) items).map QueryPath.mk
  | _ => none

/-- The path that a text stands for. -/
def read (text : String) : Except GraphError QueryPath :=
  match (Json.read? text).bind ofJson? with
  | some path => .ok path
  | none => .error .malformed

end QueryPath

namespace QueryTree

mutual

def toJson : QueryTree → Json
  | ⟨label, children⟩ =>
      .object [("label", .text label), ("children", .array (toJsonList children))]

def toJsonList : List QueryTree → List Json
  | [] => []
  | child :: rest => child.toJson :: toJsonList rest

end

end QueryTree

end LinkAtlas
