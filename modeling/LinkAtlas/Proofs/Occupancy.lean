import LinkAtlas.Proofs.Turnover
import Mathlib.Data.List.Perm.Basic
import Mathlib.Order.Bounds.Basic

/-!
# Who lives where

In every state of a run, ids, slots and the stack of vacant slots fit each other: every id leads to
its own instance, every slot is either taken by one id or waits on the stack, and no more slots were
ever made than were needed at the busiest moment of the run.
-/

namespace LinkAtlas

namespace Store

variable {store : Store}

/-- What holds between the index of ids, the slots and the stack of vacant slots. -/
structure Settled (store : Store) : Prop where
  ids_once : store.byId.keys.Nodup
  named : ∀ id ∈ store.byId.keys, ∃ handle vertex, store.byId.get? id = some handle ∧
    store.resolve handle = some vertex ∧ vertex.id = id ∧ vertex.handle = handle
  occupied : ∀ place slot, store.slots[place]? = some slot → slot.occupant ≠ none →
    ∃! id, ∃ handle, store.byId.get? id = some handle ∧ handle.index.toNat = place
  vacant : ∀ place, place ∈ store.free.map UInt32.toNat ↔
    ∃ slot, store.slots[place]? = some slot ∧ slot.occupant = none
  vacant_once : (store.free.map UInt32.toNat).Nodup
  length_instances : store.instances.length = store.size
  instances_ids : (store.instances.map Instance.id).Nodup
  instances_handles : (store.instances.map Instance.handle).Nodup

/-! ## Slots by number -/

/-- Every slot has a number that fits into a handle. -/
theorem Housed.exists_index (housed : store.Housed) {place : Nat} {slot : Slot}
    (held : store.slots[place]? = some slot) :
    ∃ index : UInt32, index.toNat = place ∧ store.slot? index = some slot := by
  obtain ⟨inside, -⟩ := Array.getElem?_eq_some_iff.mp held
  have number : (UInt32.ofNat place).toNat = place :=
    UInt32.toNat_ofNat_of_lt' (Nat.lt_of_lt_of_le inside housed.room)
  refine ⟨UInt32.ofNat place, number, ?_⟩
  rw [slot?, number]
  exact held

theorem Housed.mem_free_iff (housed : store.Housed) {place : Nat} :
    place ∈ store.free.map UInt32.toNat ↔
      ∃ slot, store.slots[place]? = some slot ∧ slot.occupant = none := by
  rw [List.mem_map]
  constructor
  · rintro ⟨index, waiting, rfl⟩
    obtain ⟨generation, held⟩ := (housed.free_iff index).mp waiting
    exact ⟨_, held, rfl⟩
  · rintro ⟨⟨generation, occupant⟩, held, vacant⟩
    obtain ⟨index, number, seen⟩ := housed.exists_index held
    dsimp only at vacant
    rw [vacant] at seen
    exact ⟨index, (housed.free_iff index).mpr ⟨generation, seen⟩, number⟩

/-- The occupants of a row of slots that know their places stand in the order of their places. -/
theorem places_sublist {slots : List Slot} {first : Nat}
    (own : ∀ (place : Nat) slot vertex, slots[place]? = some slot → slot.occupant = some vertex →
      vertex.handle.index.toNat = first + place) :
    ((slots.filterMap Slot.occupant).map fun vertex => vertex.handle.index.toNat).Sublist
      (List.range' first slots.length) := by
  induction slots generalizing first with
  | nil => exact List.Sublist.slnil
  | cons slot rest ih =>
      have shifted : ∀ (place : Nat) next vertex, rest[place]? = some next →
          next.occupant = some vertex → vertex.handle.index.toNat = first + 1 + place := by
        intro place next vertex held occupied
        rw [own (place + 1) next vertex held occupied]
        omega
      have later := ih shifted
      rw [List.length_cons, List.range'_succ, List.filterMap_cons]
      cases occupied : slot.occupant with
      | none => exact later.cons first
      | some vertex =>
          have here : vertex.handle.index.toNat = first := own 0 slot vertex rfl occupied
          rw [List.map_cons, here]
          exact later.cons_cons first

theorem Housed.nodup_instances_handles (housed : store.Housed) :
    (store.instances.map Instance.handle).Nodup := by
  have places : (store.instances.map fun vertex => vertex.handle.index.toNat).Sublist
      (List.range' 0 store.slots.toList.length) := by
    refine places_sublist fun place slot vertex held occupied => ?_
    rw [Array.getElem?_toList] at held
    obtain ⟨index, number, seen⟩ := housed.exists_index held
    have same : slot = ⟨slot.generation, some vertex⟩ := by rw [← occupied]
    rw [same] at seen
    rw [housed.own _ _ _ seen, Nat.zero_add]
    exact number
  have once := places.nodup (List.nodup_range' 1)
  rw [← Function.comp_def (fun handle : Handle => handle.index.toNat), ← List.map_map] at once
  exact once.of_map _

namespace Sound

/-- The place of an instance is the image of its id and of no other. -/
theorem unique_id (sound : store.Sound) {place : Nat} {slot : Slot}
    (held : store.slots[place]? = some slot) (occupied : slot.occupant ≠ none) :
    ∃! id, ∃ handle, store.byId.get? id = some handle ∧ handle.index.toNat = place := by
  obtain ⟨generation, occupant⟩ := slot
  obtain ⟨vertex, rfl⟩ := Option.ne_none_iff_exists'.mp occupied
  obtain ⟨index, rfl, seen⟩ := sound.housed.exists_index held
  have live : store.resolve ⟨index, generation⟩ = some vertex := resolve_eq_some_iff.mpr seen
  refine ⟨vertex.id, ⟨⟨index, generation⟩, (sound.named _ _).mpr ⟨vertex, live, rfl⟩, rfl⟩, ?_⟩
  rintro other ⟨handle, entered, same⟩
  obtain ⟨holder, alive, named⟩ := (sound.named other handle).mp entered
  have one : handle = ⟨index, generation⟩ :=
    handle_eq_of_index_eq alive live (UInt32.toNat_inj.mp same)
  rw [one, live] at alive
  cases alive
  exact named.symm

theorem nodup_instances_ids (sound : store.Sound) : (store.instances.map Instance.id).Nodup := by
  refine sound.housed.nodup_instances_handles.of_map _ |>.map_on fun one first two second same => ?_
  have live := sound.mem_instances_iff.mp first
  have alive := sound.mem_instances_iff.mp second
  rw [sound.handle_eq_of_id_eq live alive same, alive] at live
  exact (Option.some.inj live).symm

/-- The instances are those that the index of ids has. -/
theorem instances_perm (sound : store.Sound) :
    (store.instances.map Instance.id).Perm store.byId.keys := by
  refine (List.perm_ext_iff_of_nodup sound.nodup_instances_ids sound.ids_distinct).mpr fun id => ?_
  rw [List.mem_map]
  constructor
  · rintro ⟨vertex, inside, named⟩
    have live := sound.mem_instances_iff.mp inside
    exact Ledger.mem_keys_of_get? ((sound.named id vertex.handle).mpr ⟨vertex, live, named⟩)
  · intro entered
    obtain ⟨handle, found⟩ := Ledger.get?_of_mem_keys entered
    obtain ⟨vertex, live, named⟩ := (sound.named id handle).mp found
    exact ⟨vertex, sound.mem_instances_iff.mpr ((sound.handle_eq live).symm ▸ live), named⟩

theorem length_instances (sound : store.Sound) : store.instances.length = store.size := by
  have same := sound.instances_perm.length_eq
  rw [List.length_map, Ledger.keys, List.length_map] at same
  exact same

theorem settled (sound : store.Sound) : store.Settled where
  ids_once := sound.ids_distinct
  named := by
    intro id entered
    obtain ⟨handle, found⟩ := Ledger.get?_of_mem_keys entered
    obtain ⟨vertex, live, named⟩ := (sound.named id handle).mp found
    exact ⟨handle, vertex, found, live, named, sound.handle_eq live⟩
  occupied := fun _ _ held occupied => sound.unique_id held occupied
  vacant := fun _ => sound.housed.mem_free_iff
  vacant_once := sound.housed.free_nodup.map fun _ _ same => UInt32.toNat_inj.mp same
  length_instances := sound.length_instances
  instances_ids := sound.nodup_instances_ids
  instances_handles := sound.housed.nodup_instances_handles

/-! ## The number of slots -/

/-- A slot is made only if all the others are taken. -/
theorem size_slots_enrolled (sound : store.Sound) (bound : store.size < capacity)
    {newcomer : Instance} (absent : store.find? newcomer.id = none) :
    (store.enrolled newcomer).slots.size =
      max store.slots.size (store.enrolled newcomer).size := by
  have grown := sound.size_enrolled absent
  have before := sound.count
  have slots : (store.enrolled newcomer).slots.size = store.allocate.2.slots.size :=
    Array.size_modify
  rw [slots, grown]
  obtain ⟨top, rest, generation, waiting, held, allocated⟩ | ⟨top, waiting, number, allocated⟩ :=
    sound.housed.allocate_cases (sound.room bound)
  · rw [waiting, List.length_cons] at before
    rw [allocated]
    dsimp only
    omega
  · rw [waiting, List.length_nil] at before
    rw [allocated]
    dsimp only
    rw [Array.size_push]
    omega

theorem size_le_slots (sound : store.Sound) : store.size ≤ store.slots.size := by
  rw [sound.count]
  exact Nat.le_add_left _ _

/-- After an edit there are as many slots as before, or as many as instances. -/
theorem size_slots_perform (sound : store.Sound) {edit : Edit}
    (bound : (store.perform edit).2.size ≤ capacity) :
    (store.perform edit).2.slots.size = max store.slots.size (store.perform edit).2.size := by
  have kept := (sound.perform bound).size_le_slots
  have change := sound.change edit
  generalize (store.perform edit).1 = answer, (store.perform edit).2 = after at bound kept change
  -- apart from an arrival, no edit makes or drops a slot
  have unchanged (same : after.slots.size = store.slots.size) :
      after.slots.size = max store.slots.size after.size := by omega
  cases change with
  | @enrolled id absent labels value =>
      have grown : (store.enrolled (store.newcomer id labels value)).size = store.size + 1 :=
        sound.size_enrolled absent
      exact sound.size_slots_enrolled (by omega) absent
  | evicted live => exact unchanged ((Array.size_map).trans Array.size_modify)
  | refused | idle => exact unchanged rfl
  | labelled | unlabelled | tied | severed | cleared => exact unchanged Array.size_map

end Sound

/-- The number of slots is the largest number of instances that the run has seen. -/
theorem isGreatest_size_slots {edits : List Edit} (fits : empty.Fits edits) :
    IsGreatest {instances | ∃ earlier, earlier <+: edits ∧ (empty.run earlier).size = instances}
      (empty.run edits).slots.size := by
  induction edits using List.reverseRecOn with
  | nil =>
      refine ⟨⟨[], List.prefix_rfl, rfl⟩, ?_⟩
      rintro instances ⟨earlier, initial, rfl⟩
      rw [List.prefix_nil.mp initial]
      exact Nat.le_refl 0
  | append_singleton edits edit ih =>
      have before := fits.of_prefix (List.prefix_append edits [edit])
      obtain ⟨⟨busiest, initial, reached⟩, highest⟩ := ih before
      have bound := fits _ List.prefix_rfl
      rw [run_concat] at bound
      have step := (sound_empty.run before).size_slots_perform bound
      rw [← run_concat] at step
      constructor
      · rcases Nat.le_total (empty.run edits).slots.size (empty.run (edits ++ [edit])).size with
          more | fewer
        · exact ⟨edits ++ [edit], List.prefix_rfl, (step.trans (max_eq_right more)).symm⟩
        · exact ⟨busiest, initial.trans (List.prefix_append edits [edit]),
            reached.trans (step.trans (max_eq_left fewer)).symm⟩
      · rintro instances ⟨earlier, part, rfl⟩
        rcases List.prefix_concat_iff.mp part with whole | shorter
        · rw [whole, step]
          exact Nat.le_max_right _ _
        · rw [step]
          exact Nat.le_trans (highest ⟨earlier, shorter, rfl⟩) (Nat.le_max_left _ _)

/-- The generation of a slot is the number of instances that left it, as far as 32 bits reach. -/
theorem generation_eq_departures {edits : List Edit} (fits : empty.Fits edits) {place : Nat}
    {slot : Slot} (held : (empty.run edits).slots[place]? = some slot) :
    slot.generation.toNat = departures (UInt32.ofNat place) empty edits % capacity := by
  obtain ⟨index, rfl, seen⟩ := (sound_empty.run fits).housed.exists_index held
  have counted := sound_empty.generation_run fits index
  rw [generation, seen] at counted
  have begun : empty.generation index = 0 := rfl
  rw [begun, UInt32.zero_add] at counted
  rw [UInt32.ofNat_toNat]
  exact (congrArg UInt32.toNat counted).trans UInt32.toNat_ofNat'

/-- Ids, slots and vacant slots fit each other after every run, no slot is made without need, and
every slot counts the instances that left it. -/
theorem settled_of_run {edits : List Edit} (fits : empty.Fits edits) :
    (empty.run edits).Settled ∧
      IsGreatest {instances | ∃ earlier, earlier <+: edits ∧ (empty.run earlier).size = instances}
        (empty.run edits).slots.size ∧
      ∀ place slot, (empty.run edits).slots[place]? = some slot →
        slot.generation.toNat = departures (UInt32.ofNat place) empty edits % capacity :=
  ⟨(sound_empty.run fits).settled, isGreatest_size_slots fits,
    fun _ _ held => generation_eq_departures fits held⟩

theorem settled_returning :
    empty.Fits returning ∧ (empty.run returning).Settled ∧
      IsGreatest {instances | ∃ earlier, earlier <+: returning ∧
        (empty.run earlier).size = instances} 2 ∧
      ∀ place slot, (empty.run returning).slots[place]? = some slot →
        slot.generation.toNat = departures (UInt32.ofNat place) empty returning % capacity := by
  have slots : (empty.run returning).slots.size = 2 := by decide
  have all := settled_of_run fits_returning
  rw [slots] at all
  exact ⟨fits_returning, all⟩

end Store

end LinkAtlas
