import LinkAtlas.Error
import LinkAtlas.Proofs.Unfolding
import LinkAtlas.Store.Edit

/-!
# The registry

A registry knows instances by their ids alone: there are no handles in it, no slots and no
generations, and links name the ids at the other end. Edits and observations are those of a store.
-/

namespace LinkAtlas

/-- What is registered under an id. -/
structure Entry where
  labels : Roster Label
  value : Option Scalar
  links : Groups InstanceId := []

namespace Entry

def targets (entry : Entry) (edge : Label) : Roster InstanceId := Groups.members entry.links edge

def link (entry : Entry) (edge : Label) (target : InstanceId) : Entry :=
  { entry with links := Groups.add entry.links edge target }

/-- Cuts the links that are gone, and the kinds of link that are left without targets. -/
def cut (entry : Entry) (gone : Label → InstanceId → Bool) : Entry :=
  { entry with links := Groups.prune gone entry.links }

end Entry

structure Registry where
  entries : Ledger InstanceId Entry := []
  byType : Groups InstanceId := []

/-- What an edit answers when it is carried out. -/
inductive Answer where
  | done
  | flag (changed : Bool)
  | count (links : Nat)
deriving DecidableEq

/-- What can be told of an instance that is found. -/
structure Facts where
  id : InstanceId
  labels : List Label
  value : Option Scalar
  edgeTypes : List Label
deriving DecidableEq

/-- A projection that does not say which instance was copied. -/
structure Sketch where
  edgeType : Label
  id : InstanceId
  labels : List Label
  value : Option Scalar
  links : List (Label × List Sketch)

namespace Registry

def empty : Registry := {}

def find? (registry : Registry) (id : InstanceId) : Option Entry := registry.entries.get? id

/-! ## Edits -/

/-- Changes the entry of one id, if there is one. -/
def modify (registry : Registry) (id : InstanceId) (change : Entry → Entry) : Registry :=
  { registry with entries := registry.entries.alter id (Option.map change) }

/-- Cuts the links that are gone in every entry; `gone` is told both ends and the kind. -/
def cut (registry : Registry) (gone : InstanceId → Label → InstanceId → Bool) : Registry :=
  { registry with
    entries := registry.entries.thin fun source entry => some (entry.cut (gone source)) }

def add (registry : Registry) (id : InstanceId) (labels : Roster Label) (value : Option Scalar) :
    Registry where
  entries := registry.entries.insert id { labels := labels, value := value }
  byType := registry.byType.enter labels.toList id

/-- Strikes out an id wherever it stands. -/
def remove (registry : Registry) (id : InstanceId) : Registry where
  entries := (registry.cut fun _ _ target => target = id).entries.erase id
  byType := registry.byType.prune fun _ member => member = id

def addLabel (registry : Registry) (id : InstanceId) (label : Label) : Registry :=
  { registry.modify id fun entry => { entry with labels := entry.labels.add label } with
    byType := registry.byType.add label id }

def removeLabel (registry : Registry) (id : InstanceId) (label : Label) : Registry :=
  { registry.modify id fun entry => { entry with labels := entry.labels.remove label } with
    byType := registry.byType.drop label id }

def link (registry : Registry) (source : InstanceId) (edge : Label) (target : InstanceId) :
    Registry :=
  (registry.modify source (·.link edge target)).modify target (·.link edge source)

/-- The answer to an edit and the registry after it. -/
def perform (registry : Registry) : Edit → Except GraphError Answer × Registry
  | .add id labels value =>
      match registry.find? id with
      | some _ => (.error (.duplicateId id), registry)
      | none => (.ok .done, registry.add id (Roster.ofList labels) value)
  | .remove id =>
      match registry.find? id with
      | none => (.error (.unknownInstance id), registry)
      | some _ => (.ok .done, registry.remove id)
  | .addLabel id label =>
      match registry.find? id with
      | none => (.error (.unknownInstance id), registry)
      | some entry =>
          if label ∈ entry.labels then (.ok (.flag false), registry)
          else (.ok (.flag true), registry.addLabel id label)
  | .removeLabel id label =>
      match registry.find? id with
      | none => (.error (.unknownInstance id), registry)
      | some entry =>
          if label ∈ entry.labels then (.ok (.flag true), registry.removeLabel id label)
          else (.ok (.flag false), registry)
  | .link source edge target =>
      match registry.find? source, registry.find? target with
      | none, _ => (.error (.unknownInstance source), registry)
      | some _, none => (.error (.unknownInstance target), registry)
      | some _, some _ => (.ok .done, registry.link source edge target)
  | .unlink source edge target =>
      match registry.find? source, registry.find? target with
      | some entry, some _ =>
          (.ok (.flag (target ∈ entry.targets edge)),
            registry.cut (between source edge target))
      | _, _ => (.ok (.flag false), registry)
  | .unlinkAll id edge =>
      match registry.find? id with
      | none => (.error (.unknownInstance id), registry)
      | some entry => (.ok (.count (entry.targets edge).size), registry.cut (touching id edge))

def run (registry : Registry) (edits : List Edit) : Registry :=
  edits.foldl (fun registry edit => (registry.perform edit).2) registry

/-- The answers to a run of edits. -/
def answers : Registry → List Edit → List (Except GraphError Answer)
  | _, [] => []
  | registry, edit :: rest =>
      (registry.perform edit).1 :: answers (registry.perform edit).2 rest

/-! ## Observations -/

def size (registry : Registry) : Nat := registry.entries.length

def labels (registry : Registry) : List Label := registry.byType.keys

def facts? (registry : Registry) (id : InstanceId) : Option Facts :=
  (registry.find? id).map fun entry =>
    { id := id, labels := entry.labels.toList, value := entry.value, edgeTypes := entry.links.keys }

def idsOfType (registry : Registry) (label : Label) : List InstanceId :=
  (Groups.members registry.byType label).toList

def neighbors (registry : Registry) (id : InstanceId) (edge : Label) :
    Except GraphError (List InstanceId) :=
  match registry.find? id with
  | some entry => .ok (entry.targets edge).toList
  | none => .error (.unknownInstance id)

def hasLink (registry : Registry) (source : InstanceId) (edge : Label) (target : InstanceId) :
    Bool :=
  match registry.find? source, registry.find? target with
  | some entry, some _ => target ∈ entry.targets edge
  | _, _ => false

/-- The entries of a list of ids. -/
def lookUp (registry : Registry) (ids : List InstanceId) : List (InstanceId × Entry) :=
  ids.filterMap fun id => (registry.find? id).map (id, ·)

def reach (registry : Registry) (holder : InstanceId × Entry) (edge : Label) :
    List (InstanceId × Entry) :=
  registry.lookUp (holder.2.targets edge).toList

end Registry

namespace Sketch

def copy (label : Label) (holder : InstanceId × Entry) (links : List (Label × List Sketch)) :
    Sketch where
  edgeType := label
  id := holder.1
  labels := holder.2.labels.toList
  value := holder.2.value
  links := links

end Sketch

namespace Registry

/-- The forest of a path: the entries under the label of the roots, unfolded along the tree. -/
def query (registry : Registry) (path : QueryPath) : Except GraphError (List Sketch) :=
  (QueryTree.compile path).map fun tree =>
    (registry.lookUp (registry.idsOfType tree.label)).map (tree.unfold Sketch.copy registry.reach)

end Registry

end LinkAtlas
