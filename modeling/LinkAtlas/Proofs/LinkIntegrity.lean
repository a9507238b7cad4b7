import LinkAtlas.Proofs.Runs
import LinkAtlas.Proofs.Unfolding

/-!
# Links stay intact

In every state that is reached from an origin, links are seen from both ends and lead to instances
that are present. The branches for stale handles are never taken.
-/

namespace LinkAtlas

namespace Store

variable {store : Store}

/-- Instances that are present are told apart by their handles. -/
theorem eq_of_handle_eq {one two : Instance} (first : store.resolve one.handle = some one)
    (second : store.resolve two.handle = some two) (same : one.handle = two.handle) :
    one = two := by
  rw [same, second] at first
  exact (Option.some.inj first).symm

/-- What holds of the links between the instances of a store. -/
structure Intact (store : Store) : Prop where
  symmetric : ∀ vertex ∈ store.instances, ∀ other ∈ store.instances, ∀ edge,
    other.handle ∈ (vertex.targets edge).toList ↔ vertex.handle ∈ (other.targets edge).toList
  resolved : ∀ vertex ∈ store.instances, ∀ edge, ∀ target ∈ (vertex.targets edge).toList,
    ∃ other ∈ store.instances, store.resolve target = some other ∧ other.handle = target
  /-- nothing is skipped on the way from the targets to the instances behind them -/
  complete : ∀ vertex ∈ store.instances, ∀ edge, ∃ others,
    store.neighbors vertex.id edge = .ok others ∧
      others.map Instance.handle = (vertex.targets edge).toList
  once : ∀ vertex ∈ store.instances, ∀ edge, (vertex.targets edge).toList.Nodup
  distinct : ∀ vertex ∈ store.instances, vertex.edgeTypes.Nodup
  filled : ∀ vertex ∈ store.instances, ∀ edge ∈ vertex.edgeTypes,
    (vertex.targets edge).toList ≠ []

namespace Sound

/-- The occupants of the slots are the instances that their own handles resolve to. -/
theorem mem_instances_iff (sound : store.Sound) {vertex : Instance} :
    vertex ∈ store.instances ↔ store.resolve vertex.handle = some vertex := by
  rw [instances, List.mem_filterMap]
  constructor
  · rintro ⟨slot, held, occupied⟩
    obtain ⟨place, bound, here⟩ := List.getElem_of_mem held
    have small : place < capacity := Nat.lt_of_lt_of_le bound sound.housed.room
    have number : (UInt32.ofNat place).toNat = place := UInt32.toNat_ofNat_of_lt' small
    have seen : store.slot? (UInt32.ofNat place) = some ⟨slot.generation, some vertex⟩ := by
      rw [slot?, number, Array.getElem?_eq_getElem bound, ← Array.getElem_toList, here, ← occupied]
    rw [sound.housed.own _ _ _ seen]
    exact resolve_eq_some_iff.mpr seen
  · intro live
    have seen := resolve_eq_some_iff.mp live
    exact ⟨_, Array.mem_toList_iff.mpr (Array.mem_of_getElem? seen), rfl⟩

/-- The instances at the other ends of links, one for each target. -/
theorem map_handle_filterMap_resolve (sound : store.Sound) {targets : List Handle}
    (present : ∀ target ∈ targets, ∃ other, store.resolve target = some other) :
    (targets.filterMap store.resolve).map Instance.handle = targets := by
  induction targets with
  | nil => rfl
  | cons target rest ih =>
      obtain ⟨other, live⟩ := present target List.mem_cons_self
      rw [List.filterMap_cons, live, List.map_cons, sound.handle_eq live,
        ih fun later member => present later (List.mem_cons_of_mem _ member)]

theorem resolve_of_mem_targets (sound : store.Sound) {handle target : Handle} {vertex : Instance}
    {edge : Label} (live : store.resolve handle = some vertex)
    (linked : target ∈ (vertex.targets edge).toList) :
    ∃ other, store.resolve target = some other := by
  obtain ⟨other, present, -⟩ := sound.reciprocal _ _ _ _ live linked
  exact ⟨other, present⟩

/-- What links lead to is present, and nothing is missing. -/
theorem map_resolve_targets (sound : store.Sound) {handle : Handle} {vertex : Instance}
    (live : store.resolve handle = some vertex) (edge : Label) :
    (vertex.targets edge).toList.map store.resolve = (store.reach vertex edge).map some := by
  have present : ∀ target ∈ (vertex.targets edge).toList,
      ∃ other, store.resolve target = some other := fun _ linked =>
    sound.resolve_of_mem_targets live linked
  unfold reach
  generalize (vertex.targets edge).toList = targets at present
  induction targets with
  | nil => rfl
  | cons target rest ih =>
      obtain ⟨other, held⟩ := present target List.mem_cons_self
      rw [List.map_cons, List.filterMap_cons, held, List.map_cons,
        ih fun later member => present later (List.mem_cons_of_mem _ member)]

theorem reach_eq_nil_iff (sound : store.Sound) {handle : Handle} {vertex : Instance}
    (live : store.resolve handle = some vertex) (edge : Label) :
    store.reach vertex edge = [] ↔ (vertex.targets edge).toList = [] := by
  have same := sound.map_resolve_targets live edge
  constructor
  · intro none
    rw [none] at same
    exact List.map_eq_nil_iff.mp same
  · intro none
    rw [none] at same
    exact List.map_eq_nil_iff.mp same.symm

theorem live_of_mem_reach (sound : store.Sound) {vertex next : Instance} {edge : Label}
    (reached : next ∈ store.reach vertex edge) : store.resolve next.handle = some next := by
  obtain ⟨target, -, held⟩ := List.mem_filterMap.mp reached
  exact (sound.handle_eq held).symm ▸ held

theorem nodup_reach (sound : store.Sound) {vertex : Instance}
    (live : store.resolve vertex.handle = some vertex) (edge : Label) :
    (store.reach vertex edge).Nodup := by
  refine List.Nodup.of_map Instance.handle ?_
  rw [reach, sound.map_handle_filterMap_resolve fun _ linked =>
    sound.resolve_of_mem_targets live linked]
  exact (vertex.targets edge).nodup

theorem mem_reach_iff (sound : store.Sound) {one two : Instance}
    (second : store.resolve two.handle = some two) {edge : Label} :
    two ∈ store.reach one edge ↔ two.handle ∈ one.targets edge := by
  rw [reach, List.mem_filterMap]
  constructor
  · rintro ⟨target, linked, held⟩
    exact sound.handle_eq held ▸ linked
  · intro linked
    exact ⟨two.handle, linked, second⟩

theorem live_of_mem_ofType (sound : store.Sound) {vertex : Instance} {label : Label}
    (listed : vertex ∈ store.ofType label) : store.resolve vertex.handle = some vertex := by
  rw [ofType_eq] at listed
  obtain ⟨handle, -, held⟩ := List.mem_filterMap.mp listed
  exact (sound.handle_eq held).symm ▸ held

/-- The carriers of a label are all present. -/
theorem map_handle_ofType (sound : store.Sound) (label : Label) :
    (store.ofType label).map Instance.handle = (Groups.members store.byType label).toList := by
  rw [ofType_eq]
  refine sound.map_handle_filterMap_resolve fun handle listed => ?_
  obtain ⟨bearer, alive, -⟩ := (sound.carriers label handle).mp listed
  exact ⟨bearer, alive⟩

/-- None of them is listed twice. -/
theorem nodup_ofType (sound : store.Sound) (label : Label) : (store.ofType label).Nodup := by
  refine List.Nodup.of_map Instance.handle ?_
  rw [sound.map_handle_ofType]
  exact (Groups.members store.byType label).nodup

theorem mem_ofType (sound : store.Sound) {vertex : Instance} {label : Label} :
    vertex ∈ store.ofType label ↔
      store.resolve vertex.handle = some vertex ∧ label ∈ vertex.labels := by
  constructor
  · intro listed
    have live := sound.live_of_mem_ofType listed
    have entered : vertex.handle ∈ (store.ofType label).map Instance.handle :=
      List.mem_map_of_mem listed
    rw [sound.map_handle_ofType] at entered
    obtain ⟨bearer, present, carried⟩ := (sound.carriers label _).mp entered
    rw [live] at present
    cases present
    exact ⟨live, carried⟩
  · rintro ⟨live, carried⟩
    rw [ofType_eq]
    exact List.mem_filterMap.mpr
      ⟨vertex.handle, (sound.carriers label _).mpr ⟨vertex, live, carried⟩, live⟩

theorem neighbors_of_live (sound : store.Sound) {vertex : Instance}
    (live : store.resolve vertex.handle = some vertex) (edge : Label) :
    store.neighbors vertex.id edge =
      .ok ((vertex.targets edge).toList.filterMap store.resolve) := by
  rw [neighbors, sound.find?_eq_some_iff.mpr ⟨live, rfl⟩]

theorem intact (sound : store.Sound) : store.Intact where
  symmetric := by
    intro vertex first other second edge
    exact sound.mem_targets_comm (sound.mem_instances_iff.mp first)
      (sound.mem_instances_iff.mp second) edge
  resolved := by
    intro vertex inside edge target linked
    obtain ⟨other, present⟩ :=
      sound.resolve_of_mem_targets (sound.mem_instances_iff.mp inside) linked
    have own := sound.handle_eq present
    exact ⟨other, sound.mem_instances_iff.mpr (own ▸ present), present, own⟩
  complete := by
    intro vertex inside edge
    have live := sound.mem_instances_iff.mp inside
    refine ⟨_, sound.neighbors_of_live live edge, ?_⟩
    exact sound.map_handle_filterMap_resolve fun _ linked =>
      sound.resolve_of_mem_targets live linked
  once := fun vertex _ edge => (vertex.targets edge).nodup
  distinct := fun vertex inside => (sound.neat (sound.mem_instances_iff.mp inside)).distinct
  filled := by
    intro vertex inside edge entered none
    have neat := sound.neat (sound.mem_instances_iff.mp inside)
    exact neat.mem_keys_iff.mp entered (Roster.eq_of_toList_eq none)

end Sound

/-- Whatever is done to a store that began empty or was loaded, its links are intact. -/
theorem intact_of_run {start : Store} (origin : Origin start) {edits : List Edit}
    (fits : start.Fits edits) : (start.run edits).Intact :=
  (origin.sound_run fits).intact

theorem intact_returning : empty.Fits returning ∧ (empty.run returning).Intact :=
  ⟨fits_returning, intact_of_run .empty fits_returning⟩

end Store

end LinkAtlas
