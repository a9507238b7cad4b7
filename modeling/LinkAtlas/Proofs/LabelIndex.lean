import LinkAtlas.Proofs.Refinement

/-!
# The index of labels

Which labels an instance has is kept twice: by the instance itself and by the index. In every state
that is reached from an origin the two tell the same, the index lists no label without carriers, and
a label that a newcomer is given twice counts once.
-/

namespace LinkAtlas

namespace Roster

variable {α : Type} [DecidableEq α]

/-- A roster keeps the first places of a list. -/
theorem toList_ofList_sublist (members : List α) : (ofList members).toList.Sublist members := by
  induction members using List.reverseRecOn with
  | nil => exact List.Sublist.slnil
  | append_singleton members last ih =>
      rw [ofList_concat, toList_add]
      split
      · exact ih.trans (List.sublist_append_left members [last])
      · exact ih.append (List.Sublist.refl [last])

end Roster

namespace Store

variable {store : Store}

/-- What holds between the labels of the instances and the index of labels. -/
structure Indexed (store : Store) : Prop where
  listed : ∀ label id, id ∈ store.idsOfType label ↔
    ∃ vertex ∈ store.instances, vertex.id = id ∧ label ∈ vertex.labels
  listed_once : ∀ label, (store.idsOfType label).Nodup
  labels : ∀ label, label ∈ store.labels ↔ ∃ vertex ∈ store.instances, label ∈ vertex.labels
  labels_once : store.labels.Nodup
  /-- no entry without carriers, and no carrier that is gone -/
  entries : ∀ entry ∈ store.byType, entry.2 ≠ ∅ ∧
    ∀ handle ∈ entry.2, ∃ vertex ∈ store.instances, store.resolve handle = some vertex
  own_once : ∀ vertex ∈ store.instances, vertex.labels.toList.Nodup
  /-- whatever list of labels a newcomer is given, it gets each of them once -/
  arrival : ∀ id labels value handle,
    (store.perform (.add id labels value)).1 = .ok (.handle handle) →
    (store.perform (.add id labels value)).2.size ≤ capacity →
    ∃ newcomer, (store.perform (.add id labels value)).2.find? id = some newcomer ∧
      newcomer.labels.toList.Nodup ∧ newcomer.labels.toList.Sublist labels ∧
      ∀ label, label ∈ newcomer.labels.toList ↔ label ∈ labels

namespace Sound

theorem mem_idsOfType (sound : store.Sound) {label : Label} {id : InstanceId} :
    id ∈ store.idsOfType label ↔
      ∃ vertex ∈ store.instances, vertex.id = id ∧ label ∈ vertex.labels := by
  rw [idsOfType, ofType_eq, List.mem_map]
  constructor
  · rintro ⟨vertex, held, named⟩
    obtain ⟨handle, listed, live⟩ := List.mem_filterMap.mp held
    obtain ⟨carrier, alive, carried⟩ := (sound.carriers label handle).mp listed
    have same : carrier = vertex := Option.some.inj (alive.symm.trans live)
    rw [same] at carried
    exact ⟨vertex, sound.mem_instances_iff.mpr ((sound.handle_eq live).symm ▸ live), named, carried⟩
  · rintro ⟨vertex, inside, named, carried⟩
    have live := sound.mem_instances_iff.mp inside
    have listed := (sound.carriers label vertex.handle).mpr ⟨vertex, live, carried⟩
    exact ⟨vertex, List.mem_filterMap.mpr ⟨vertex.handle, listed, live⟩, named⟩

/-- The ids under a label are a roster as soon as handles are read as ids. -/
theorem nodup_idsOfType (sound : store.Sound) (label : Label) :
    (store.idsOfType label).Nodup := by
  rw [sound.idsOfType_registry]
  exact Roster.nodup _

theorem mem_labels (sound : store.Sound) {label : Label} :
    label ∈ store.labels ↔ ∃ vertex ∈ store.instances, label ∈ vertex.labels := by
  rw [labels, sound.types_neat.mem_keys_iff_exists]
  constructor
  · rintro ⟨handle, listed⟩
    obtain ⟨vertex, live, carried⟩ := (sound.carriers label handle).mp listed
    exact ⟨vertex, sound.mem_instances_iff.mpr ((sound.handle_eq live).symm ▸ live), carried⟩
  · rintro ⟨vertex, inside, carried⟩
    have live := sound.mem_instances_iff.mp inside
    exact ⟨vertex.handle, (sound.carriers label _).mpr ⟨vertex, live, carried⟩⟩

theorem resolve_of_mem_entry (sound : store.Sound) {entry : Label × Roster Handle}
    (entered : entry ∈ store.byType) {handle : Handle} (listed : handle ∈ entry.2) :
    ∃ vertex ∈ store.instances, store.resolve handle = some vertex := by
  rw [← Groups.members_of_mem sound.types_neat entered] at listed
  obtain ⟨vertex, live⟩ := sound.resolve_of_mem_byType listed
  exact ⟨vertex, sound.mem_instances_iff.mpr ((sound.handle_eq live).symm ▸ live), live⟩

/-- A newcomer is found under its id. -/
theorem find?_arrival (sound : store.Sound) {id : InstanceId} {labels : List Label}
    {value : Option Scalar} {handle : Handle}
    (given : (store.perform (.add id labels value)).1 = .ok (.handle handle))
    (bound : (store.perform (.add id labels value)).2.size ≤ capacity) :
    (store.perform (.add id labels value)).2.find? id =
      some (store.newcomer id labels value) := by
  obtain ⟨-, own, -⟩ := sound.arrival given
  obtain ⟨-, live⟩ := sound.resolve_arrival given bound
  rw [← own] at live
  exact (sound.perform bound).find?_eq_some_iff.mpr ⟨live, rfl⟩

theorem indexed (sound : store.Sound) : store.Indexed where
  listed := fun _ _ => sound.mem_idsOfType
  listed_once := sound.nodup_idsOfType
  labels := fun _ => sound.mem_labels
  labels_once := sound.types_neat.distinct
  entries := fun entry entered =>
    ⟨sound.types_neat.filled entry entered,
      fun _ listed => sound.resolve_of_mem_entry entered listed⟩
  own_once := fun vertex _ => vertex.labels.nodup
  arrival := fun id labels value _ given bound =>
    ⟨store.newcomer id labels value, sound.find?_arrival given bound, Roster.nodup _,
      Roster.toList_ofList_sublist labels, fun _ => Roster.mem_ofList⟩

end Sound

/-- Whatever is done to a store that began empty or was loaded, its index of labels fits the
instances. -/
theorem indexed_of_run {start : Store} (origin : Origin start) {edits : List Edit}
    (fits : start.Fits edits) : (start.run edits).Indexed :=
  (origin.sound_run fits).indexed

/-- A run in which labels are given twice, taken away, given back and refused, and a carrier leaves
its slot to another one. -/
def relabelling : List Edit :=
  [.add "ada" ["person", "guest", "person"] none, .add "bob" ["person"] none,
    .add "bob" ["host"] none, .removeLabel "ada" "person", .addLabel "eve" "guest",
    .addLabel "bob" "guest", .remove "bob", .add "eve" ["host", "person", "host"] none,
    .addLabel "ada" "person"]

theorem indexed_relabelling :
    empty.Fits relabelling ∧ (empty.run relabelling).Indexed ∧
      (empty.run relabelling).idsOfType "person" = ["eve", "ada"] :=
  have fits := fits_of_length_le (by decide)
  ⟨fits, indexed_of_run .empty fits, by decide⟩

end Store

end LinkAtlas
