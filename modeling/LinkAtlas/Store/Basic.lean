import LinkAtlas.Store.Instance

/-!
# The store

Instances live in numbered slots and name each other by handles. A slot that is given back goes on a
stack, and the next newcomer takes the top of it. Two indexes are kept: from ids to handles and from
labels to the handles of their carriers.
-/

namespace LinkAtlas

/-- A place for one instance at a time; `generation` counts the instances that left it. -/
structure Slot where
  generation : UInt32 := 0
  occupant : Option Instance := none
deriving DecidableEq, Inhabited

structure Store where
  slots : Array Slot := #[]
  /-- the vacant slots, the one given back last in front -/
  free : List UInt32 := []
  byId : Ledger InstanceId Handle := []
  byType : Ledger Label (Roster Handle) := []
deriving DecidableEq, Inhabited

namespace Store

def empty : Store := {}

/-- The number of instances present. -/
def size (store : Store) : Nat := store.byId.length

def isEmpty (store : Store) : Bool := store.byId.isEmpty

/-- The instance that a handle was given out for, as long as it is present. -/
def resolve (store : Store) (handle : Handle) : Option Instance :=
  match store.slots[handle.index.toNat]? with
  | some slot => if slot.generation = handle.generation then slot.occupant else none
  | none => none

def find? (store : Store) (id : InstanceId) : Option Instance :=
  (store.byId.get? id).bind store.resolve

/-- The carriers of a label, in the order in which each got it. -/
def ofType (store : Store) (label : Label) : List Instance :=
  match store.byType.get? label with
  | some carriers => carriers.toList.filterMap store.resolve
  | none => []

def idsOfType (store : Store) (label : Label) : List InstanceId :=
  (store.ofType label).map Instance.id

/-- The labels that some instance carries, in the order in which each got its first carrier. -/
def labels (store : Store) : List Label := store.byType.keys

/-- All instances, in the order of their slots. -/
def instances (store : Store) : List Instance := store.slots.toList.filterMap Slot.occupant

/-- Changes the instance behind a handle, if there is one. -/
def modify (store : Store) (handle : Handle) (change : Instance → Instance) : Store :=
  { store with
    slots := store.slots.modify handle.index.toNat fun slot =>
      if slot.generation = handle.generation then
        { slot with occupant := slot.occupant.map change }
      else slot }

/-- A handle for a newcomer: the vacant slot given back last, or else a new slot. -/
def allocate (store : Store) : Handle × Store :=
  match store.free with
  | index :: free =>
      (⟨index, (store.slots[index.toNat]?.getD {}).generation⟩, { store with free := free })
  | [] => (⟨store.slots.size.toUInt32, 0⟩, { store with slots := store.slots.push {} })

/-- Seats an instance in the slot of its handle. -/
def seat (store : Store) (newcomer : Instance) : Store :=
  { store with
    slots := store.slots.modify newcomer.handle.index.toNat fun slot =>
      { slot with occupant := some newcomer } }

/-- Takes an instance out of its slot, which goes on to the next generation. -/
def release (store : Store) (handle : Handle) : Store :=
  { store with
    slots := store.slots.modify handle.index.toNat fun slot =>
      { generation := slot.generation + 1, occupant := none }
    free := handle.index :: store.free }

/-- Enters a carrier of a label into the index. -/
def enlist (store : Store) (handle : Handle) (label : Label) : Store :=
  { store with
    byType := store.byType.alter label fun carriers => some ((carriers.getD ∅).add handle) }

/-- Strikes a carrier of a label out of the index, and the label with its last carrier. -/
def delist (store : Store) (handle : Handle) (label : Label) : Store :=
  { store with
    byType := store.byType.alter label fun carriers =>
      match carriers with
      | none => none
      | some carriers =>
          let remaining := carriers.remove handle
          if remaining.isEmpty then none else some remaining }

end Store

end LinkAtlas
