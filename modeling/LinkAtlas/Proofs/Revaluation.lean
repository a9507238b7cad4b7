import LinkAtlas.Proofs.Edits
import LinkAtlas.Record.Load

/-!
# Values in a load

A load hands the values on and never looks at them. If the values of some records are changed, each
on its own, then the store they are loaded to is the same up to these values, the report is the
same, and so is the error if there is one.
-/

namespace LinkAtlas

variable {keep : Scalar → Option Scalar}

/-- The record with what is kept of its value. -/
def Record.revalue (keep : Scalar → Option Scalar) (record : Record) : Record :=
  { record with value := record.value.bind keep }

def Instance.revalue (keep : Scalar → Option Scalar) (vertex : Instance) : Instance :=
  { vertex with value := vertex.value.bind keep }

namespace Store

/-- The store with what is kept of the values in it. -/
def revalue (keep : Scalar → Option Scalar) (store : Store) : Store :=
  store.revise (Instance.revalue keep)

theorem revalue_modify (store : Store) (handle : Handle) {change : Instance → Instance}
    (commutes : ∀ vertex, (change vertex).revalue keep = change (vertex.revalue keep)) :
    (store.modify handle change).revalue keep = (store.revalue keep).modify handle change := by
  refine eq_of_slots_eq (fun place => ?_) rfl rfl rfl
  simp only [revalue, revise, modify, Array.getElem?_map, Array.getElem?_modify]
  split
  · cases store.slots[place]? with
    | none => rfl
    | some slot =>
        by_cases present : slot.generation = handle.generation
        · simp [present, Function.comp_def, commutes]
        · simp [present]
  · rfl

theorem seat_revalue (store : Store) (newcomer : Instance) :
    (store.revalue keep).seat (newcomer.revalue keep) = (store.seat newcomer).revalue keep := by
  refine eq_of_slots_eq (fun place => ?_) rfl rfl rfl
  have number : (newcomer.revalue keep).handle = newcomer.handle := rfl
  simp only [revalue, revise, seat, Array.getElem?_map, Array.getElem?_modify, number]
  split
  · cases store.slots[place]? <;> rfl
  · rfl

theorem allocate_revalue (store : Store) :
    (store.revalue keep).allocate = (store.allocate.1, store.allocate.2.revalue keep) := by
  unfold allocate revalue revise
  cases store.free with
  | nil => simp
  | cons index rest =>
      simp only [Array.getElem?_map]
      cases store.slots[index.toNat]? <;> rfl

theorem enrolled_revalue (store : Store) (newcomer : Instance) :
    (store.revalue keep).enrolled (newcomer.revalue keep) =
      (store.enrolled newcomer).revalue keep := by
  have settled : (store.revalue keep).settle (newcomer.revalue keep) =
      (store.settle newcomer).revalue keep := by
    rw [settle, allocate_revalue, seat_revalue, settle]
  unfold enrolled
  rw [settled]
  rfl

theorem add_revalue (store : Store) (id : InstanceId) (labels : List Label)
    (value : Option Scalar) :
    (store.revalue keep).add id labels (value.bind keep) =
      (store.add id labels value).map fun result => (result.1, result.2.revalue keep) := by
  have entered : (store.revalue keep).newcomer id labels (value.bind keep) =
      (store.newcomer id labels value).revalue keep := by
    unfold newcomer
    rw [allocate_revalue]
    rfl
  have ids : (store.revalue keep).byId = store.byId := rfl
  rw [add_eq, add_eq, entered, enrolled_revalue, allocate_revalue, ids]
  split <;> rfl

theorem find?_revalue (store : Store) (id : InstanceId) :
    (store.revalue keep).find? id = (store.find? id).map (Instance.revalue keep) := by
  unfold find?
  rw [revalue, resolve_revise_eq, Option.map_bind]
  rfl

theorem link_revalue (store : Store) (source : InstanceId) (edge : Label) (target : InstanceId) :
    (store.revalue keep).link source edge target =
      (store.link source edge target).map (revalue keep) := by
  have same (id : InstanceId) : (store.revalue keep).handleOf id = store.handleOf id := rfl
  unfold link
  rw [same, same]
  cases store.handleOf source with
  | error reason => rfl
  | ok here =>
      cases store.handleOf target with
      | error reason => rfl
      | ok there =>
          have commutes (other : Handle) (vertex : Instance) :
              (vertex.link edge other).revalue keep = (vertex.revalue keep).link edge other := rfl
          refine congrArg Except.ok ?_
          rw [revalue_modify _ there (commutes here), revalue_modify _ here (commutes there)]

/-! ## Loads -/

theorem bringAll_revalue (keep : Scalar → Option Scalar) (store : Store) (report : LoadReport)
    (records : List Record) :
    bringAll (store.revalue keep) report (records.map (Record.revalue keep)) =
      (bringAll store report records).map fun result => (result.1.revalue keep, result.2) := by
  induction records generalizing store report with
  | nil => rfl
  | cons record rest ih =>
      have first : (store.revalue keep).add record.id record.typeLabels.toList
          (record.value.bind keep) = _ := store.add_revalue _ _ record.value
      rw [List.map_cons, bringAll, bringAll]
      simp only [Record.revalue, first]
      cases store.add record.id record.typeLabels.toList record.value with
      | error reason => rfl
      | ok result => exact ih result.2 _

theorem linkAll_revalue (store : Store) (report : LoadReport) (entries : List LinkEntry) :
    linkAll (store.revalue keep) report entries =
      (linkAll store report entries).map fun result => (result.1.revalue keep, result.2) := by
  induction entries generalizing store report with
  | nil => rfl
  | cons entry rest ih =>
      rw [linkAll, linkAll, find?_revalue, Option.isNone_map]
      split
      · exact ih store _
      · rw [link_revalue]
        cases store.link entry.source entry.edge entry.target with
        | error reason => rfl
        | ok linked => exact ih linked _

/-- Records with other values load alike. -/
theorem ofRecords_revalue (records : List Record) :
    ofRecords (records.map (Record.revalue keep)) =
      (ofRecords records).map fun result => (result.1.revalue keep, result.2) := by
  have entries : (records.map (Record.revalue keep)).flatMap Record.entries =
      records.flatMap Record.entries := List.flatMap_map _ _ _
  have nothing : empty.revalue keep = empty := by simp [revalue, revise, empty]
  have populated := bringAll_revalue keep empty {} records
  rw [nothing] at populated
  rw [ofRecords, ofRecords, entries, populated]
  cases bringAll empty {} records with
  | error reason => rfl
  | ok result => exact result.1.linkAll_revalue _ _

end Store

end LinkAtlas
