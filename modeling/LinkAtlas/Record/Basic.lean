import LinkAtlas.Ledger
import LinkAtlas.Scalar

/-!
# Records

A record describes one instance in a flat list: its id, its labels, its value and the ids that it is
linked to.
-/

namespace LinkAtlas

/-- A single label may stand without a list around it. -/
inductive LabelList where
  | one (label : Label)
  | many (labels : List Label)
deriving DecidableEq, Inhabited

def LabelList.toList : LabelList → List Label
  | one label => [label]
  | many labels => labels

structure Record where
  id : InstanceId
  typeLabels : LabelList := .many []
  value : Option Scalar := none
  links : Ledger Label (List InstanceId) := []
deriving DecidableEq, Inhabited

namespace Record

/-- Adds a target at the end of its group; a new kind of link goes to the end of the groups. -/
def addLink (record : Record) (edge : Label) (target : InstanceId) : Record :=
  { record with
    links := record.links.alter edge fun present => some (present.getD [] ++ [target]) }

end Record

end LinkAtlas
