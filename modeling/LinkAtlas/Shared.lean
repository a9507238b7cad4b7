import LinkAtlas.Projection.Survey
import LinkAtlas.Store.Edit

/-!
# Shared stores

One store behind a lock that many tasks share. A task that holds the lock for writing may fail in
the middle of its work. Nobody can tell then what it left behind, so the store is poisoned and every
later access is turned down. A task that only reads changes nothing when it fails.
-/

namespace LinkAtlas

structure SharedStore where
  store : Store := {}
  poisoned : Bool := false
deriving DecidableEq, Inhabited

namespace SharedStore

variable {α : Type}

/-- Gives a task the store to read. -/
def read (shared : SharedStore) (task : Store → Except GraphError α) : Except GraphError α :=
  if shared.poisoned then .error .poisoned else task shared.store

/-- Gives a task the store to change. -/
def write (shared : SharedStore) (task : Store → Except GraphError α × Store) :
    Except GraphError α × SharedStore :=
  if shared.poisoned then (.error .poisoned, shared)
  else
    let (answer, after) := task shared.store
    (answer, { shared with store := after })

/-- Lets a task read that may fail, which is the answer `none`. -/
def withRead (shared : SharedStore) (task : Store → Option α) : Except GraphError (Option α) :=
  shared.read fun store => .ok (task store)

/-- Lets a task write that may fail, which is the answer `none` and poisons the store. -/
def withWrite (shared : SharedStore) (task : Store → Option α × Store) :
    Except GraphError (Option α) × SharedStore :=
  if shared.poisoned then (.error .poisoned, shared)
  else
    let (answer, after) := task shared.store
    (.ok answer, { store := after, poisoned := answer.isNone })

def perform (shared : SharedStore) (edit : Edit) : Except GraphError Reply × SharedStore :=
  shared.write fun store => store.perform edit

def idsOfType (shared : SharedStore) (label : Label) : Except GraphError (List InstanceId) :=
  shared.read fun store => .ok (store.idsOfType label)

def contains (shared : SharedStore) (id : InstanceId) : Except GraphError Bool :=
  shared.read fun store => .ok (store.find? id).isSome

def query (shared : SharedStore) (path : QueryPath) : Except GraphError (List Projection) :=
  shared.read fun store => store.query path

end SharedStore

end LinkAtlas
