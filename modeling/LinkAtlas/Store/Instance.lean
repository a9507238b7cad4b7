import LinkAtlas.Ledger
import LinkAtlas.Roster
import LinkAtlas.Scalar

/-!
# Handles and instances

An instance holds its links itself: for each kind of link the roster of handles at the other end. A
kind without targets has no entry.
-/

namespace LinkAtlas

/-- Names one stay of an instance in a slot of the store. When the instance leaves, the slot goes on
to the next generation, so that the handle does not pass to the next occupant. -/
structure Handle where
  index : UInt32
  generation : UInt32
deriving DecidableEq, Inhabited

/-- The links of one instance by kind. -/
abbrev Links := Ledger Label (Roster Handle)

namespace Links

def targets (links : Links) (edge : Label) : Roster Handle := (links.get? edge).getD ∅

/-- Links to `target`; a link that is there stays where it is. -/
def link (links : Links) (edge : Label) (target : Handle) : Links :=
  links.alter edge fun present => some ((present.getD ∅).add target)

/-- Drops `target`, and the kind of link with its last target. -/
def unlink (links : Links) (edge : Label) (target : Handle) : Links :=
  links.alter edge fun present =>
    match present with
    | none => none
    | some targets =>
        let remaining := targets.remove target
        if remaining.isEmpty then none else some remaining

end Links

/-- A vertex of the graph. -/
structure Instance where
  handle : Handle
  id : InstanceId
  labels : Roster Label
  value : Option Scalar
  links : Links := []
deriving DecidableEq, Inhabited

namespace Instance

/-- The other ends of the links of one kind, in the order in which they were made. -/
def targets (vertex : Instance) (edge : Label) : Roster Handle := vertex.links.targets edge

def hasLabel (vertex : Instance) (label : Label) : Bool := label ∈ vertex.labels

def hasLink (vertex : Instance) (edge : Label) (target : Handle) : Bool :=
  target ∈ vertex.targets edge

/-- The kinds of link that the instance has, in the order in which each got its first. -/
def edgeTypes (vertex : Instance) : List Label := vertex.links.keys

/-- The number of links of all kinds. -/
def degree (vertex : Instance) : Nat :=
  vertex.links.foldl (fun total group => total + group.2.size) 0

def link (vertex : Instance) (edge : Label) (target : Handle) : Instance :=
  { vertex with links := vertex.links.link edge target }

def unlink (vertex : Instance) (edge : Label) (target : Handle) : Instance :=
  { vertex with links := vertex.links.unlink edge target }

end Instance

end LinkAtlas
