import LinkAtlas.Store.Edit

/-!
# Edits in place

`Store.perform` puts a new store in the place of the old one only if the edit is carried out. Here
an edit is a procedure that changes one store step by step, where nothing is taken back when a later
step fails. The two come to the same, because whatever can make an edit fail is looked at before the
first change.
-/

namespace LinkAtlas

/-- Work on a store that is changed in place. What was done before a failure stays done. -/
abbrev Procedure := ExceptT GraphError (StateM Store)

namespace Procedure

def handleOf (id : InstanceId) : Procedure Handle := do
  match (← get).byId.get? id with
  | some handle => return handle
  | none => throw (.unknownInstance id)

/-- One change after the other. -/
def each {α : Type} (items : List α) (change : α → Store → Store) : Procedure Unit :=
  items.forM fun item => modify (change item)

def add (id : InstanceId) (labels : List Label) (value : Option Scalar) : Procedure Reply := do
  if (← get).byId.contains id then throw (.duplicateId id)
  else
    let roster := Roster.ofList labels
    let handle ← modifyGet Store.allocate
    each roster.toList fun label store => store.enlist handle label
    modify fun store => { store with byId := store.byId.insert id handle }
    modify (·.seat { handle := handle, id := id, labels := roster, value := value })
    return .handle handle

def remove (id : InstanceId) : Procedure Reply := do
  let handle ← handleOf id
  match (← get).resolve handle with
  | none => throw (.unknownInstance id)
  | some leaver =>
      modify (·.release handle)
      each leaver.links fun group store =>
        store.detach handle group.1 (group.2.toList.filter (· ≠ handle))
      each leaver.labels.toList fun label store => store.delist handle label
      modify fun store => { store with byId := store.byId.erase id }
      return .done

def addLabel (id : InstanceId) (label : Label) : Procedure Reply := do
  let handle ← handleOf id
  match (← get).resolve handle with
  | none => return .flag false
  | some bearer =>
      if bearer.hasLabel label then return .flag false
      else
        modify (·.modify handle fun bearer => { bearer with labels := bearer.labels.add label })
        modify (·.enlist handle label)
        return .flag true

def removeLabel (id : InstanceId) (label : Label) : Procedure Reply := do
  let handle ← handleOf id
  match (← get).resolve handle with
  | none => return .flag false
  | some bearer =>
      if bearer.hasLabel label then
        modify (·.modify handle fun bearer => { bearer with labels := bearer.labels.remove label })
        modify (·.delist handle label)
        return .flag true
      else return .flag false

def link (source : InstanceId) (edge : Label) (target : InstanceId) : Procedure Reply := do
  let sourceHandle ← handleOf source
  let targetHandle ← handleOf target
  modify (·.modify sourceHandle (·.link edge targetHandle))
  modify (·.modify targetHandle (·.link edge sourceHandle))
  return .done

def unlink (source : InstanceId) (edge : Label) (target : InstanceId) : Procedure Reply := do
  let store ← get
  match store.byId.get? source, store.byId.get? target with
  | some sourceHandle, some targetHandle =>
      let forward ← modifyGet (·.unlinkOneWay sourceHandle edge targetHandle)
      let backward ← modifyGet (·.unlinkOneWay targetHandle edge sourceHandle)
      return .flag (forward || backward)
  | _, _ => return .flag false

def unlinkAll (id : InstanceId) (edge : Label) : Procedure Reply := do
  let handle ← handleOf id
  let store ← get
  let targets := match store.resolve handle with
    | some holder => (holder.targets edge).toList
    | none => []
  modify (·.modify handle fun holder => { holder with links := holder.links.erase edge })
  each targets fun target store => store.modify target (·.unlink edge handle)
  return .count targets.length

def enact : Edit → Procedure Reply
  | .add id labels value => add id labels value
  | .remove id => remove id
  | .addLabel id label => addLabel id label
  | .removeLabel id label => removeLabel id label
  | .link source edge target => link source edge target
  | .unlink source edge target => unlink source edge target
  | .unlinkAll id edge => unlinkAll id edge

/-- The answer of a procedure and the store that it leaves behind, which is there also after a
failure. -/
def outcome {α : Type} (work : Procedure α) (store : Store) : Except GraphError α × Store :=
  work.run store

/-! ## Step by step -/

section Steps

variable {α β : Type} {store : Store}

theorem outcome_pure (answer : α) :
    (pure answer : Procedure α).outcome store = (.ok answer, store) := rfl

theorem outcome_get_bind (next : Store → Procedure β) :
    (get >>= next).outcome store = (next store).outcome store := rfl

theorem outcome_modify_bind (change : Store → Store) (next : Unit → Procedure β) :
    (modify change >>= next).outcome store = (next ()).outcome (change store) := rfl

theorem outcome_modifyGet_bind (change : Store → α × Store) (next : α → Procedure β) :
    (modifyGet change >>= next).outcome store =
      (next (change store).1).outcome (change store).2 := rfl

theorem outcome_each_bind (items : List α) (change : α → Store → Store)
    (next : Unit → Procedure β) :
    (each items change >>= next).outcome store =
      (next ()).outcome (items.foldl (fun store item => change item store) store) := by
  induction items generalizing store with
  | nil => rfl
  | cons item rest ih => exact ih

/-- Looking for a handle changes nothing. -/
theorem outcome_handleOf_bind (id : InstanceId) (next : Handle → Procedure β) :
    (handleOf id >>= next).outcome store =
      match store.handleOf id with
      | .ok handle => (next handle).outcome store
      | .error reason => (.error reason, store) := by
  rw [handleOf, Store.handleOf, bind_assoc, outcome_get_bind]
  cases store.byId.get? id <;> rfl

end Steps

theorem ok_bind {α β : Type} (answer : α) (next : α → Except GraphError β) :
    (Except.ok answer >>= next) = next answer := rfl

variable (store : Store)

theorem outcome_add (id : InstanceId) (labels : List Label) (value : Option Scalar) :
    (add id labels value).outcome store = store.perform (.add id labels value) := by
  simp only [add, Store.perform, Store.add, outcome_get_bind]
  cases present : store.byId.contains id with
  | true => rfl
  | false =>
      simp only [Bool.false_eq_true, if_false, outcome_modifyGet_bind, outcome_each_bind,
        outcome_modify_bind, outcome_pure, Except.map]

theorem outcome_remove (id : InstanceId) :
    (remove id).outcome store = store.perform (.remove id) := by
  simp only [remove, Store.perform, Store.remove, outcome_handleOf_bind]
  cases store.handleOf id with
  | error reason => rfl
  | ok handle =>
      simp only [outcome_get_bind, ok_bind]
      cases store.resolve handle with
      | none => rfl
      | some leaver =>
          simp only [outcome_modify_bind, outcome_each_bind, outcome_pure, Except.map]

theorem outcome_addLabel (id : InstanceId) (label : Label) :
    (addLabel id label).outcome store = store.perform (.addLabel id label) := by
  simp only [addLabel, Store.perform, Store.addLabel, outcome_handleOf_bind]
  cases store.handleOf id with
  | error reason => rfl
  | ok handle =>
      simp only [outcome_get_bind, ok_bind]
      cases store.resolve handle with
      | none => rfl
      | some bearer =>
          dsimp only
          split <;> rfl

theorem outcome_removeLabel (id : InstanceId) (label : Label) :
    (removeLabel id label).outcome store = store.perform (.removeLabel id label) := by
  simp only [removeLabel, Store.perform, Store.removeLabel, outcome_handleOf_bind]
  cases store.handleOf id with
  | error reason => rfl
  | ok handle =>
      simp only [outcome_get_bind, ok_bind]
      cases store.resolve handle with
      | none => rfl
      | some bearer =>
          dsimp only
          split <;> rfl

theorem outcome_link (source : InstanceId) (edge : Label) (target : InstanceId) :
    (link source edge target).outcome store = store.perform (.link source edge target) := by
  simp only [link, Store.perform, Store.link, outcome_handleOf_bind]
  cases store.handleOf source with
  | error reason => rfl
  | ok first => cases store.handleOf target <;> rfl

theorem outcome_unlink (source : InstanceId) (edge : Label) (target : InstanceId) :
    (unlink source edge target).outcome store = store.perform (.unlink source edge target) := by
  simp only [unlink, Store.perform, Store.unlink, outcome_get_bind]
  cases store.byId.get? source with
  | none => rfl
  | some first => cases store.byId.get? target <;> rfl

theorem outcome_unlinkAll (id : InstanceId) (edge : Label) :
    (unlinkAll id edge).outcome store = store.perform (.unlinkAll id edge) := by
  simp only [unlinkAll, Store.perform, Store.unlinkAll, outcome_handleOf_bind]
  cases store.handleOf id with
  | error reason => rfl
  | ok handle =>
      simp only [outcome_get_bind, ok_bind, outcome_modify_bind, outcome_each_bind, outcome_pure]
      rfl

/-- An edit in place answers and leaves behind what it does as a whole. -/
theorem outcome_enact (edit : Edit) : (enact edit).outcome store = store.perform edit := by
  cases edit with
  | add id labels value => exact outcome_add store id labels value
  | remove id => exact outcome_remove store id
  | addLabel id label => exact outcome_addLabel store id label
  | removeLabel id label => exact outcome_removeLabel store id label
  | link source edge target => exact outcome_link store source edge target
  | unlink source edge target => exact outcome_unlink store source edge target
  | unlinkAll id edge => exact outcome_unlinkAll store id edge

end Procedure

end LinkAtlas
