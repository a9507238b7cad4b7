import LinkAtlas.Projection.Basic
import LinkAtlas.Store.Basic

/-!
# Rendering projections

A forest as an indented tree for readers: a line for each node and a line for each group of
children. The last column of a node shows which instance it was copied from, as far as that is still
in the store.
-/

namespace LinkAtlas

namespace Projection

def indent (level : Nat) : String := String.ofList (List.replicate (2 * level) ' ')

/-- The id of the source, or a dash if it has left the store. -/
def sourceColumn (store : Store) (source : Handle) : String :=
  match store.resolve source with
  | some vertex => vertex.id
  | none => "-"

/-- The line of a node. -/
def nodeLine (store : Store) (level : Nat) (id : InstanceId) (labels : List Label)
    (value : Option Scalar) (source : Handle) : String :=
  indent level ++ "- id: " ++ id ++ ", type: [" ++ String.intercalate ", " labels ++
    "], value: " ++ (value.map Scalar.display).getD "" ++ ", source: " ++
    sourceColumn store source

/-- The line above a group of children. -/
def groupLine (level : Nat) (edge : Label) : String := indent level ++ "  Link: " ++ edge

mutual

/-- The lines of a subtree, `level` steps in. -/
def lines (store : Store) (level : Nat) : Projection → List String
  | ⟨_, id, labels, value, source, links⟩ =>
      nodeLine store level id labels value source :: linesOfGroups store level links

def linesOfGroups (store : Store) (level : Nat) : List (Label × List Projection) → List String
  | [] => []
  | (edge, group) :: rest =>
      groupLine level edge :: (linesOfAll store (level + 2) group ++
        linesOfGroups store level rest)

def linesOfAll (store : Store) (level : Nat) : List Projection → List String
  | [] => []
  | projection :: rest => projection.lines store level ++ linesOfAll store level rest

end

/-- The rendering of a forest. Every line is ended by a line feed. -/
def render (store : Store) (roots : List Projection) : String :=
  String.join ((linesOfAll store 0 roots).map (· ++ "\n"))

end Projection

end LinkAtlas
