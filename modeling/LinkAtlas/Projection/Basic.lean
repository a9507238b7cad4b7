import LinkAtlas.Store.Instance

/-!
# Projections

A projection is a copy of an instance together with copies of what was reached from it. It is
detached from the store: later edits do not show in it, and only `source` says where the copy came
from.
-/

namespace LinkAtlas

structure Projection where
  /-- the kind of link that led here, or the label of the roots -/
  edgeType : Label
  id : InstanceId
  labels : List Label
  value : Option Scalar
  /-- the instance that was copied -/
  source : Handle
  /-- what was reached, by kind of link in the order of the query -/
  links : List (Label × List Projection)
deriving Inhabited

namespace Projection

def ofInstance (edgeType : Label) (vertex : Instance) : Projection where
  edgeType := edgeType
  id := vertex.id
  labels := vertex.labels.toList
  value := vertex.value
  source := vertex.handle
  links := []

/-- The groups of children by kind of link. -/
def groups (projection : Projection) : Ledger Label (List Projection) := projection.links

/-- Puts a child at the end of its group. -/
def addChild (parent child : Projection) : Projection :=
  { parent with
    links := parent.groups.alter child.edgeType fun present => some (present.getD [] ++ [child]) }

/-- The children that one kind of link led to. -/
def children (projection : Projection) (edge : Label) : List Projection :=
  (projection.groups.get? edge).getD []

def allChildren (projection : Projection) : List Projection :=
  projection.links.flatMap Prod.snd

def isLeaf (projection : Projection) : Bool := projection.links.isEmpty

mutual

/-- The number of links on the longest way down. -/
def depth : Projection → Nat
  | ⟨_, _, _, _, _, links⟩ => depthOfGroups links

def depthOfGroups : List (Label × List Projection) → Nat
  | [] => 0
  | (_, group) :: rest => max (depthBelow group) (depthOfGroups rest)

/-- The depth of a node with these children. -/
def depthBelow : List Projection → Nat
  | [] => 0
  | child :: rest => max (child.depth + 1) (depthBelow rest)

end

mutual

/-- The number of nodes, this one included. -/
def nodeCount : Projection → Nat
  | ⟨_, _, _, _, _, links⟩ => 1 + countGroups links

def countGroups : List (Label × List Projection) → Nat
  | [] => 0
  | (_, group) :: rest => countAll group + countGroups rest

def countAll : List Projection → Nat
  | [] => 0
  | child :: rest => child.nodeCount + countAll rest

end

/-- Two optional values are both absent or agree. -/
def valuesAgree : Option Scalar → Option Scalar → Bool
  | none, none => true
  | some first, some second => first.agrees second
  | _, _ => false

mutual

/-- Equality of projections up to the order of their groups; numbers are compared as numbers. -/
def agrees : Projection → Projection → Bool
  | ⟨edgeType, id, labels, value, source, links⟩, other =>
      edgeType == other.edgeType && id == other.id && labels == other.labels &&
        valuesAgree value other.value && source == other.source &&
        links.length == other.links.length && groupsAgree links other.groups

/-- Every group has its counterpart. -/
def groupsAgree : List (Label × List Projection) → Ledger Label (List Projection) → Bool
  | [], _ => true
  | (edge, group) :: rest, others =>
      (match others.get? edge with
        | some counterpart => allAgree group counterpart
        | none => false) && groupsAgree rest others

/-- The projections agree one by one. -/
def allAgree : List Projection → List Projection → Bool
  | [], [] => true
  | first :: rest, second :: tail => first.agrees second && allAgree rest tail
  | _, _ => false

end

end Projection

end LinkAtlas
