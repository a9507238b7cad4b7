import LinkAtlas.Error
import LinkAtlas.Store.Basic

/-!
# Edits of the store

Each edit keeps the two ends of every link and the index of labels in step. An edit that is turned
down gives no store, so the old one stays in force. `Store.perform` and `Store.run` take edits as
data.
-/

namespace LinkAtlas

namespace Store

def handleOf (store : Store) (id : InstanceId) : Except GraphError Handle :=
  match store.byId.get? id with
  | some handle => .ok handle
  | none => .error (.unknownInstance id)

/-- Brings in an instance. A label that is given twice counts once. -/
def add (store : Store) (id : InstanceId) (labels : List Label) (value : Option Scalar) :
    Except GraphError (Handle × Store) :=
  if store.byId.contains id then .error (.duplicateId id)
  else
    let roster := Roster.ofList labels
    let (handle, allocated) := store.allocate
    let indexed := roster.toList.foldl (fun store label => store.enlist handle label) allocated
    let named := { indexed with byId := indexed.byId.insert id handle }
    .ok (handle, named.seat { handle := handle, id := id, labels := roster, value := value })

/-- Cuts the links of one kind between the instance of `handle` and its targets at their ends. -/
def detach (store : Store) (handle : Handle) (edge : Label) (targets : List Handle) : Store :=
  targets.foldl (fun store target => store.modify target (·.unlink edge handle)) store

/-- Takes out an instance with all its links. -/
def remove (store : Store) (id : InstanceId) : Except GraphError Store := do
  let handle ← store.handleOf id
  match store.resolve handle with
  | none => .error (.unknownInstance id)
  | some leaver =>
      let released := store.release handle
      let detached := leaver.links.foldl
        (fun store group => store.detach handle group.1 (group.2.toList.filter (· ≠ handle)))
        released
      let unindexed := leaver.labels.toList.foldl (fun store label => store.delist handle label)
        detached
      .ok { unindexed with byId := unindexed.byId.erase id }

/-- Gives an instance a label; tells whether the label is new to it. -/
def addLabel (store : Store) (id : InstanceId) (label : Label) :
    Except GraphError (Bool × Store) := do
  let handle ← store.handleOf id
  match store.resolve handle with
  | none => .ok (false, store)
  | some bearer =>
      if bearer.hasLabel label then .ok (false, store)
      else
        let labelled := store.modify handle fun bearer =>
          { bearer with labels := bearer.labels.add label }
        .ok (true, labelled.enlist handle label)

/-- Takes a label from an instance; tells whether it had it. -/
def removeLabel (store : Store) (id : InstanceId) (label : Label) :
    Except GraphError (Bool × Store) := do
  let handle ← store.handleOf id
  match store.resolve handle with
  | none => .ok (false, store)
  | some bearer =>
      if bearer.hasLabel label then
        let stripped := store.modify handle fun bearer =>
          { bearer with labels := bearer.labels.remove label }
        .ok (true, stripped.delist handle label)
      else .ok (false, store)

/-- Links two instances in both directions. -/
def link (store : Store) (source : InstanceId) (edge : Label) (target : InstanceId) :
    Except GraphError Store := do
  let sourceHandle ← store.handleOf source
  let targetHandle ← store.handleOf target
  let forward := store.modify sourceHandle (·.link edge targetHandle)
  .ok (forward.modify targetHandle (·.link edge sourceHandle))

/-- Drops the link from the instance of one handle to another handle; tells whether it was there. -/
def unlinkOneWay (store : Store) (source : Handle) (edge : Label) (target : Handle) :
    Bool × Store :=
  match store.resolve source with
  | none => (false, store)
  | some holder =>
      (holder.hasLink edge target, store.modify source (·.unlink edge target))

/-- Unlinks two instances in both directions; tells whether there was a link. An id that is not
present has no links. -/
def unlink (store : Store) (source : InstanceId) (edge : Label) (target : InstanceId) :
    Bool × Store :=
  match store.byId.get? source, store.byId.get? target with
  | some sourceHandle, some targetHandle =>
      let (forward, halfway) := store.unlinkOneWay sourceHandle edge targetHandle
      let (backward, done) := halfway.unlinkOneWay targetHandle edge sourceHandle
      (forward || backward, done)
  | _, _ => (false, store)

/-- Unlinks an instance from all that it is linked to by one kind of link; tells how many these
were. -/
def unlinkAll (store : Store) (id : InstanceId) (edge : Label) :
    Except GraphError (Nat × Store) := do
  let handle ← store.handleOf id
  let targets := match store.resolve handle with
    | some holder => (holder.targets edge).toList
    | none => []
  let cleared := store.modify handle fun holder => { holder with links := holder.links.erase edge }
  .ok (targets.length, cleared.detach handle edge targets)

def hasLink (store : Store) (source : InstanceId) (edge : Label) (target : InstanceId) : Bool :=
  match store.find? source, store.byId.get? target with
  | some holder, some handle => holder.hasLink edge handle
  | _, _ => false

/-- The instances at the other ends of the links of one kind, in the order of the links. -/
def neighbors (store : Store) (id : InstanceId) (edge : Label) :
    Except GraphError (List Instance) :=
  match store.find? id with
  | some holder => .ok ((holder.targets edge).toList.filterMap store.resolve)
  | none => .error (.unknownInstance id)

end Store

/-- A change that can be asked of a store. -/
inductive Edit where
  | add (id : InstanceId) (labels : List Label) (value : Option Scalar)
  | remove (id : InstanceId)
  | addLabel (id : InstanceId) (label : Label)
  | removeLabel (id : InstanceId) (label : Label)
  | link (source : InstanceId) (edge : Label) (target : InstanceId)
  | unlink (source : InstanceId) (edge : Label) (target : InstanceId)
  | unlinkAll (id : InstanceId) (edge : Label)
deriving DecidableEq

/-- What an edit answers when it is carried out. -/
inductive Reply where
  | done
  | handle (handle : Handle)
  | flag (changed : Bool)
  | count (links : Nat)
deriving DecidableEq

namespace Store

/-- The answer to an edit and the store after it, which is the old one if the edit is turned
down. -/
def perform (store : Store) (edit : Edit) : Except GraphError Reply × Store :=
  let outcome : Except GraphError (Reply × Store) :=
    match edit with
    | .add id labels value => (store.add id labels value).map fun (handle, after) =>
        (.handle handle, after)
    | .remove id => (store.remove id).map (Reply.done, ·)
    | .addLabel id label => (store.addLabel id label).map fun (changed, after) =>
        (.flag changed, after)
    | .removeLabel id label => (store.removeLabel id label).map fun (changed, after) =>
        (.flag changed, after)
    | .link source edge target => (store.link source edge target).map (Reply.done, ·)
    | .unlink source edge target =>
        let (changed, after) := store.unlink source edge target
        .ok (.flag changed, after)
    | .unlinkAll id edge => (store.unlinkAll id edge).map fun (links, after) =>
        (.count links, after)
  match outcome with
  | .ok (reply, after) => (.ok reply, after)
  | .error reason => (.error reason, store)

/-- The store after a run of edits, those that are turned down included. -/
def run (store : Store) (edits : List Edit) : Store :=
  edits.foldl (fun store edit => (store.perform edit).2) store

end Store

end LinkAtlas
