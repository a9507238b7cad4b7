import LinkAtlas.Proofs.Answers
import LinkAtlas.Proofs.Pruning

/-!
# What remains when several leave

Instances that are removed one after the other leave the store without any of them: what they stood
in is cut down where it stands, and the rest keeps its order. So the order of their leaving shows
nowhere but on the stack of vacant slots.
-/

namespace LinkAtlas

theorem Ledger.erase_eq_filter {κ α : Type} [DecidableEq κ] {ledger : Ledger κ α}
    (distinct : ledger.Distinct) (key : κ) :
    ledger.erase key = ledger.filter fun entry => entry.1 ≠ key := by
  rw [erase_eq_thin distinct, ← List.filterMap_eq_filter]
  refine List.filterMap_congr fun entry _ => ?_
  rcases eq_or_ne entry.1 key with same | same
  · simp [Option.guard, same]
  · simp [Option.guard, same]

theorem Ledger.erase_insert {κ α : Type} [DecidableEq κ] {ledger : Ledger κ α}
    (distinct : ledger.Distinct) {key : κ} (absent : key ∉ ledger.keys) (content : α) :
    (ledger.insert key content).erase key = ledger := by
  have entered : (ledger.insert key content).Distinct := distinct.alter _ _
  have others : (ledger.filter fun entry => entry.1 ≠ key) = ledger :=
    List.filter_eq_self.mpr fun entry member => decide_eq_true fun same =>
      absent (same ▸ mem_keys_of_mem member)
  rw [erase_eq_filter entered, insert_of_absent absent, List.filter_append, others]
  simp

theorem Ledger.get?_filter_keys {κ α : Type} [DecidableEq κ] (ledger : Ledger κ α) (gone : List κ)
    (key : κ) :
    Ledger.get? (ledger.filter fun entry => entry.1 ∉ gone) key =
      if key ∈ gone then none else ledger.get? key := by
  induction ledger with
  | nil => exact (ite_self none).symm
  | cons entry rest ih =>
      obtain ⟨first, content⟩ := entry
      rw [List.filter_cons, get?_cons]
      rcases eq_or_ne first key with same | same
      · by_cases leaves : key ∈ gone
        · simpa [same, leaves] using ih
        · simp [same, leaves, get?_cons]
      · by_cases leaves : first ∈ gone
        · simpa [same, leaves] using ih
        · simpa [same, leaves, get?_cons] using ih

/-- The labels that are left are those with a member that is left. -/
theorem Groups.keys_prune {α : Type} {groups : Groups α} (neat : Neat groups)
    (gone : Label → α → Bool) :
    (groups.prune gone).keys = groups.keys.filter fun label =>
      (members groups label).toList.any fun member => !gone label member := by
  unfold Ledger.keys prune Ledger.thin
  rw [List.map_filterMap, List.filter_map, ← List.filterMap_eq_filter, List.map_filterMap]
  refine List.filterMap_congr fun group entered => ?_
  have own : members groups group.1 = group.2 := members_of_mem neat entered
  cases kept : (group.2.toList.filter fun member => !gone group.1 member).isEmpty with
  | true =>
    have none : (group.2.toList.any fun member => !gone group.1 member) = false := by
      simpa using kept
    simp [Option.guard, Roster.isEmpty, kept, own, none]
  | false =>
    have some : (group.2.toList.any fun member => !gone group.1 member) = true := by
      simpa using kept
    simp [Option.guard, Roster.isEmpty, kept, own, some]

/-- Cuts every link to some handles. -/
def Instance.forgetAll (handles : List Handle) : Instance → Instance :=
  trim fun _ _ target => target ∈ handles

/-- A slot after some instances have left. -/
def Slot.lacking (leavers : List Handle) : Slot → Slot
  | ⟨generation, none⟩ => ⟨generation, none⟩
  | ⟨generation, some vertex⟩ =>
      if vertex.handle ∈ leavers then ⟨generation + 1, none⟩
      else ⟨generation, some (vertex.forgetAll leavers)⟩

namespace Slot

variable {leavers : List Handle} {leaver : Handle}

theorem lacking_of_mem {vertex : Instance} (leaves : vertex.handle ∈ leavers)
    (generation : UInt32) :
    lacking leavers ⟨generation, some vertex⟩ = ⟨generation + 1, none⟩ := if_pos leaves

theorem lacking_of_not_mem {vertex : Instance} (stays : vertex.handle ∉ leavers)
    (generation : UInt32) :
    lacking leavers ⟨generation, some vertex⟩ =
      ⟨generation, some (vertex.forgetAll leavers)⟩ := if_neg stays

/-- Who is in a slot afterwards was there before and did not leave. -/
theorem lacking_eq_some_iff {slot : Slot} {generation : UInt32} {shorn : Instance} :
    slot.lacking leavers = ⟨generation, some shorn⟩ ↔
      ∃ vertex, slot = ⟨generation, some vertex⟩ ∧ vertex.handle ∉ leavers ∧
        vertex.forgetAll leavers = shorn := by
  obtain ⟨present, occupant⟩ := slot
  cases occupant with
  | none => simp [lacking]
  | some vertex =>
      by_cases leaves : vertex.handle ∈ leavers
      · rw [lacking_of_mem leaves]
        simp [leaves]
      · rw [lacking_of_not_mem leaves]
        simp [leaves]

/-- A slot whose occupant stays when one more leaves. -/
theorem lacking_concat {slot : Slot}
    (stays : ∀ vertex, slot.occupant = some vertex → vertex.handle ≠ leaver) :
    slot.lacking (leavers ++ [leaver]) =
      { slot.lacking leavers with
        occupant := (slot.lacking leavers).occupant.map (Instance.forget leaver) } := by
  obtain ⟨generation, occupant⟩ := slot
  cases occupant with
  | none => rfl
  | some vertex =>
      have other := stays vertex rfl
      by_cases leaves : vertex.handle ∈ leavers
      · rw [lacking_of_mem leaves, lacking_of_mem (List.mem_append_left _ leaves)]
        rfl
      · have remains : vertex.handle ∉ leavers ++ [leaver] := by simp [leaves, other]
        rw [lacking_of_not_mem leaves, lacking_of_not_mem remains]
        simp [Instance.forget, Instance.forgetAll, Instance.trim_trim]

end Slot

namespace Store

variable {store : Store}

/-- The store without some of its instances, which give back their slots in the order given. -/
def lacking (store : Store) (leavers : List Instance) : Store where
  slots := store.slots.map (Slot.lacking (leavers.map Instance.handle))
  free := (leavers.map fun leaver => leaver.handle.index).reverse ++ store.free
  byId := store.byId.filter fun entry => entry.1 ∉ leavers.map Instance.id
  byType := Groups.prune (fun _ member => member ∈ leavers.map Instance.handle) store.byType

theorem size_slots_lacking (store : Store) (leavers : List Instance) :
    (store.lacking leavers).slots.size = store.slots.size := Array.size_map

theorem size_slots_evicted (store : Store) (leaver : Instance) :
    (store.evicted leaver).slots.size = store.slots.size :=
  Array.size_map.trans Array.size_modify

theorem free_lacking (store : Store) (leavers : List Instance) :
    (store.lacking leavers).free =
      (leavers.map fun leaver => leaver.handle.index).reverse ++ store.free := rfl

theorem free_evicted (store : Store) (leaver : Instance) :
    (store.evicted leaver).free = leaver.handle.index :: store.free := rfl

theorem byId_lacking (store : Store) (leavers : List Instance) :
    (store.lacking leavers).byId =
      store.byId.filter fun entry => entry.1 ∉ leavers.map Instance.id := rfl

theorem byType_lacking (store : Store) (leavers : List Instance) :
    (store.lacking leavers).byType =
      Groups.prune (fun _ member => member ∈ leavers.map Instance.handle) store.byType := rfl

theorem slot?_lacking (store : Store) (leavers : List Instance) (index : UInt32) :
    (store.lacking leavers).slot? index =
      (store.slot? index).map (Slot.lacking (leavers.map Instance.handle)) :=
  Array.getElem?_map

theorem slot?_evicted (store : Store) (leaver : Instance) (index : UInt32) :
    (store.evicted leaver).slot? index =
      ((store.release leaver.handle).slot? index).map fun slot =>
        { slot with occupant := slot.occupant.map (Instance.forget leaver.handle) } :=
  slot?_revise _ _ index

/-- A handle of one that left resolves to nothing, and the others to what is left behind them. -/
theorem Housed.resolve_lacking (housed : store.Housed) (leavers : List Instance) (handle : Handle) :
    (store.lacking leavers).resolve handle =
      if handle ∈ leavers.map Instance.handle then none
      else (store.resolve handle).map (Instance.forgetAll (leavers.map Instance.handle)) := by
  apply Option.ext
  intro shorn
  rw [resolve_eq_some_iff, slot?_lacking, Option.map_eq_some_iff]
  constructor
  · rintro ⟨slot, held, left⟩
    obtain ⟨vertex, rfl, stays, rfl⟩ := Slot.lacking_eq_some_iff.mp left
    rw [housed.own _ _ _ held] at stays
    rw [if_neg stays, resolve_eq_some_iff.mpr held]
    rfl
  · intro left
    split at left
    · cases left
    · rename_i stays
      obtain ⟨vertex, live, rfl⟩ := Option.map_eq_some_iff.mp left
      have own := housed.handle_eq live
      exact ⟨_, resolve_eq_some_iff.mp live,
        Slot.lacking_eq_some_iff.mpr ⟨vertex, rfl, own.symm ▸ stays, rfl⟩⟩

namespace Sound

theorem lacking_nil (sound : store.Sound) : store.lacking [] = store := by
  refine eq_of_slot?_eq ?_ Array.size_map ?_ rfl (List.filter_true _) ?_
  · exact Nat.le_trans (Nat.le_of_eq Array.size_map) sound.housed.room
  · intro index
    rw [slot?_lacking]
    cases held : store.slot? index with
    | none => rfl
    | some slot =>
        obtain ⟨generation, occupant⟩ := slot
        cases occupant with
        | none => rfl
        | some vertex =>
            have live : store.resolve ⟨index, generation⟩ = some vertex :=
              resolve_eq_some_iff.mpr held
            have same : vertex.forgetAll [] = vertex :=
              Instance.trim_eq_self (sound.neat live) fun _ _ _ => rfl
            simp [Slot.lacking, same]
  · exact Groups.prune_eq_self sound.types_neat fun _ _ _ => rfl

/-- When one more leaves, it is one more that is lacking. -/
theorem evicted_lacking (sound : store.Sound) {leavers : List Instance} {leaver : Instance}
    (live : store.resolve leaver.handle = some leaver)
    (other : leaver.handle ∉ leavers.map Instance.handle) (before : (store.lacking leavers).Sound)
    {shorn : Instance} (same : shorn.handle = leaver.handle) (named : shorn.id = leaver.id) :
    (store.lacking leavers).evicted shorn = store.lacking (leavers ++ [leaver]) := by
  have gone : (leavers ++ [leaver]).map Instance.handle =
      leavers.map Instance.handle ++ [leaver.handle] := List.map_append
  refine eq_of_slot?_eq ?_ ?_ ?_ ?_ ?_ ?_
  · rw [size_slots_evicted]
    exact before.housed.room
  · rw [size_slots_evicted, size_slots_lacking, size_slots_lacking]
  · intro index
    rw [slot?_evicted, slot?_release, slot?_lacking, slot?_lacking, gone, same]
    rcases eq_or_ne index leaver.handle.index with here | here
    · have leaves : leaver.handle ∈ leavers.map Instance.handle ++ [leaver.handle] :=
        List.mem_append_right _ List.mem_cons_self
      rw [if_pos here, here, resolve_eq_some_iff.mp live]
      simp only [Option.map_some, Slot.lacking_of_not_mem other, Slot.lacking_of_mem leaves]
      rfl
    · rw [if_neg here, Option.map_map]
      refine Option.map_congr fun slot held => (Slot.lacking_concat ?_).symm
      rintro vertex occupied again
      have own : vertex.handle = ⟨index, slot.generation⟩ :=
        sound.housed.own _ _ _ (held.trans (by rw [← occupied]))
      exact here (congrArg Handle.index (own.symm.trans again))
  · rw [free_evicted, free_lacking, free_lacking, same]
    simp
  · rw [byId_evicted, Ledger.erase_eq_filter before.ids_distinct, named, byId_lacking, byId_lacking]
    refine (List.filter_filter).trans (List.filter_congr fun entry _ => ?_)
    rw [List.map_append, List.map_singleton, ← Bool.decide_and]
    simp only [List.mem_append, List.mem_singleton, not_or, and_comm, ne_eq]
  · rw [byType_evicted, byType_lacking, byType_lacking, Groups.prune_prune, gone, same]
    simp only [List.mem_append, List.mem_singleton, Bool.decide_or]

theorem cut_lacking (sound : store.Sound) (leavers : List Instance) :
    Cut store (store.lacking leavers) (fun handle => handle ∈ leavers.map Instance.handle)
      (fun _ _ target => target ∈ leavers.map Instance.handle) where
  resolve := by
    intro handle
    rw [sound.housed.resolve_lacking]
    simp only [decide_eq_true_eq]
    rfl
  members := by
    intro label
    rw [byType_lacking]
    exact Groups.members_prune sound.types_neat.distinct _ label
  covered := fun _ _ _ leaves => leaves

end Sound

/-! ## Several removals -/

/-- Takes out several instances, one after the other. -/
def removeAll (store : Store) (ids : List InstanceId) : Except GraphError Store :=
  ids.foldlM remove store

theorem removeAll_concat (store : Store) (ids : List InstanceId) (id : InstanceId) :
    store.removeAll (ids ++ [id]) = store.removeAll ids >>= fun between => between.remove id := by
  unfold removeAll
  rw [List.foldlM_append]
  refine bind_congr fun between => ?_
  rw [List.foldlM_cons]
  exact bind_pure _

namespace Sound

/-- Removals in a row leave what lacks them all. -/
theorem removeAll_eq (sound : store.Sound) {leavers : List Instance}
    (live : ∀ leaver ∈ leavers, store.resolve leaver.handle = some leaver)
    (once : (leavers.map Instance.handle).Nodup) :
    store.removeAll (leavers.map Instance.id) = .ok (store.lacking leavers) ∧
      (store.lacking leavers).Sound := by
  induction leavers using List.reverseRecOn with
  | nil =>
      rw [sound.lacking_nil]
      exact ⟨rfl, sound⟩
  | append_singleton leavers leaver ih =>
      rw [List.map_append, List.nodup_append] at once
      obtain ⟨earlier, before⟩ :=
        ih (fun other member => live other (List.mem_append_left _ member)) once.1
      have present := live leaver (List.mem_append_right _ List.mem_cons_self)
      have other : leaver.handle ∉ leavers.map Instance.handle := fun again =>
        once.2.2 _ again _ List.mem_cons_self rfl
      -- what is left of the leaver when its turn comes
      have remains := sound.housed.resolve_lacking leavers leaver.handle
      rw [if_neg other, present, Option.map_some] at remains
      have last : (store.lacking leavers).evicted
            (leaver.forgetAll (leavers.map Instance.handle)) =
          store.lacking (leavers ++ [leaver]) :=
        sound.evicted_lacking present other before rfl rfl
      rw [List.map_append, List.map_singleton, removeAll_concat, earlier, ← last]
      exact ⟨before.remove_of_present (before.find?_eq_some_iff.mpr ⟨remains, rfl⟩),
        before.evicted remains⟩

/-- The instances of some ids that are present, each of them once. -/
theorem found_of_present (sound : store.Sound) {ids : List InstanceId} (once : ids.Nodup)
    (present : ∀ id ∈ ids, store.Present id) :
    (ids.filterMap store.find?).map Instance.id = ids ∧
      (∀ leaver ∈ ids.filterMap store.find?, store.resolve leaver.handle = some leaver) ∧
      ((ids.filterMap store.find?).map Instance.handle).Nodup := by
  have live : ∀ leaver ∈ ids.filterMap store.find?,
      store.resolve leaver.handle = some leaver := by
    intro leaver member
    obtain ⟨id, -, found⟩ := List.mem_filterMap.mp member
    exact (sound.find?_eq_some_iff.mp found).1
  have named : (ids.filterMap store.find?).map Instance.id = ids := by
    rw [List.map_filterMap]
    refine (List.filterMap_congr fun id member => ?_).trans List.filterMap_some
    obtain ⟨leaver, found⟩ := sound.present_iff.mp (present id member)
    rw [found, Option.map_some, (sound.find?_eq_some_iff.mp found).2]
  refine ⟨named, live, ?_⟩
  have apart : (ids.filterMap store.find?).Nodup :=
    List.Nodup.of_map Instance.id (named.symm ▸ once)
  exact apart.map_on fun first one second two same =>
    eq_of_handle_eq (live first one) (live second two) same

end Sound

/-! ## The order of leaving -/

/-- The same store but for the order in which the vacant slots wait. -/
structure SameButStack (one other : Store) : Prop where
  slots : one.slots = other.slots
  free : one.free.Perm other.free
  byId : one.byId = other.byId
  byType : one.byType = other.byType

theorem sameButStack_lacking (store : Store) {leavers permuted : List Instance}
    (same : leavers.Perm permuted) :
    SameButStack (store.lacking leavers) (store.lacking permuted) where
  slots := by
    have alike : Slot.lacking (leavers.map Instance.handle) =
        Slot.lacking (permuted.map Instance.handle) := by
      funext slot
      obtain ⟨generation, occupant⟩ := slot
      cases occupant with
      | none => rfl
      | some vertex =>
          simp only [Slot.lacking, Instance.forgetAll, (same.map Instance.handle).mem_iff]
    unfold lacking
    rw [alike]
  free := by
    refine List.Perm.append_right _ ?_
    exact (List.reverse_perm _).trans ((same.map _).trans (List.reverse_perm _).symm)
  byId := by
    rw [byId_lacking, byId_lacking]
    refine List.filter_congr fun entry _ => ?_
    simp only [(same.map Instance.id).mem_iff]
  byType := by
    rw [byType_lacking, byType_lacking]
    simp only [(same.map Instance.handle).mem_iff]

/-! ## What is left -/

/-- What is left of one instance when those behind some handles have left. -/
structure Shorn (before : Instance) (gone : List Handle) (after : Instance) : Prop where
  handle : after.handle = before.handle
  id : after.id = before.id
  labels : after.labels = before.labels
  value : after.value = before.value
  targets : ∀ edge, (after.targets edge).toList =
    (before.targets edge).toList.filter fun target => target ∉ gone
  edgeTypes : after.edgeTypes = before.edgeTypes.filter fun edge =>
    (before.targets edge).toList.any fun target => target ∉ gone

/-- A store is what another one was, restricted to all ids but some: every list has the entries
that are left in their old order, and lists without entries are dropped. -/
structure Restricted (before : Store) (ids : List InstanceId) (after : Store) : Prop where
  instances : List.Forall₂ (fun vertex shorn => Shorn vertex (ids.filterMap before.byId.get?) shorn)
    (before.instances.filter fun vertex => vertex.id ∉ ids) after.instances
  byId : ∀ id, after.byId.get? id = if id ∈ ids then none else before.byId.get? id
  neighbors : ∀ id ∉ ids, ∀ edge, (after.neighbors id edge).map (List.map Instance.id) =
    (before.neighbors id edge).map fun others => (others.map Instance.id).filter (· ∉ ids)
  idsOfType : ∀ label, after.idsOfType label = (before.idsOfType label).filter (· ∉ ids)
  labels : after.labels = before.labels.filter fun label =>
    (before.idsOfType label).any (· ∉ ids)

theorem shorn_forgetAll {vertex : Instance} (neat : Groups.Neat vertex.links) (gone : List Handle) :
    Shorn vertex gone (vertex.forgetAll gone) where
  handle := rfl
  id := rfl
  labels := rfl
  value := rfl
  targets := by
    intro edge
    simp only [decide_not]
    exact congrArg Roster.toList
      (Groups.members_prune neat.distinct (fun _ target => target ∈ gone) edge)
  edgeTypes := by
    simp only [decide_not]
    exact Groups.keys_prune neat fun _ target => target ∈ gone

theorem instances_lacking (store : Store) (leavers : List Instance) :
    (store.lacking leavers).instances =
      (store.instances.filter fun vertex => vertex.handle ∉ leavers.map Instance.handle).map
        (Instance.forgetAll (leavers.map Instance.handle)) := by
  unfold instances lacking
  rw [Array.toList_map, List.filterMap_map]
  generalize leavers.map Instance.handle = gone
  induction store.slots.toList with
  | nil => rfl
  | cons slot rest ih =>
      obtain ⟨generation, occupant⟩ := slot
      cases occupant with
      | none => exact ih
      | some vertex =>
          by_cases leaves : vertex.handle ∈ gone
          · simpa [Slot.lacking_of_mem leaves, leaves] using ih
          · simpa [Slot.lacking_of_not_mem leaves, leaves] using ih

namespace Sound

variable {leavers : List Instance}

/-- Those that leave are told by their handles as well as by their ids. -/
theorem handle_mem_iff (sound : store.Sound)
    (live : ∀ leaver ∈ leavers, store.resolve leaver.handle = some leaver) {vertex : Instance}
    (alive : store.resolve vertex.handle = some vertex) :
    vertex.handle ∈ leavers.map Instance.handle ↔ vertex.id ∈ leavers.map Instance.id := by
  rw [List.mem_map, List.mem_map]
  constructor
  · rintro ⟨leaver, member, same⟩
    exact ⟨leaver, member, congrArg Instance.id (eq_of_handle_eq (live leaver member) alive same)⟩
  · rintro ⟨leaver, member, same⟩
    exact ⟨leaver, member, sound.handle_eq_of_id_eq (live leaver member) alive same⟩

theorem handles_of_live (sound : store.Sound)
    (live : ∀ leaver ∈ leavers, store.resolve leaver.handle = some leaver) :
    (leavers.map Instance.id).filterMap store.byId.get? = leavers.map Instance.handle := by
  rw [List.filterMap_map, ← List.filterMap_eq_map]
  refine List.filterMap_congr fun leaver member => ?_
  exact (sound.named _ _).mpr ⟨leaver, live leaver member, rfl⟩

/-- Those that leave are not found any more, and the others without their links to them. -/
theorem find?_lacking (sound : store.Sound)
    (live : ∀ leaver ∈ leavers, store.resolve leaver.handle = some leaver) (id : InstanceId) :
    (store.lacking leavers).find? id =
      if id ∈ leavers.map Instance.id then none
      else (store.find? id).map (Instance.forgetAll (leavers.map Instance.handle)) := by
  rw [find?, byId_lacking, Ledger.get?_filter_keys]
  split
  · rfl
  · rename_i stays
    rw [sound.get?_byId]
    cases found : store.find? id with
    | none => rfl
    | some vertex =>
        obtain ⟨alive, rfl⟩ := sound.find?_eq_some_iff.mp found
        rw [Option.map_some, Option.bind_some, sound.housed.resolve_lacking,
          if_neg (mt (sound.handle_mem_iff live alive).mp stays), alive]

theorem restricted_lacking (sound : store.Sound)
    (live : ∀ leaver ∈ leavers, store.resolve leaver.handle = some leaver) :
    Restricted store (leavers.map Instance.id) (store.lacking leavers) where
  instances := by
    rw [sound.handles_of_live live, instances_lacking, List.forall₂_map_right_iff]
    have same : (store.instances.filter fun vertex => vertex.id ∉ leavers.map Instance.id) =
        store.instances.filter fun vertex => vertex.handle ∉ leavers.map Instance.handle := by
      refine List.filter_congr fun vertex inside => ?_
      simp only [sound.handle_mem_iff live (sound.mem_instances_iff.mp inside)]
    rw [same]
    refine List.forall₂_same.mpr fun vertex stays => shorn_forgetAll ?_ _
    exact sound.neat (sound.mem_instances_iff.mp (List.mem_filter.mp stays).1)
  byId := by
    intro id
    rw [byId_lacking]
    exact Ledger.get?_filter_keys _ _ _
  neighbors := by
    intro id stays edge
    rw [Store.neighbors, Store.neighbors, sound.find?_lacking live, if_neg stays]
    cases found : store.find? id with
    | none => rfl
    | some vertex =>
        obtain ⟨alive, -⟩ := sound.find?_eq_some_iff.mp found
        have reached := (sound.cut_lacking leavers).reach_trim sound alive edge
        refine congrArg Except.ok ((congrArg (List.map Instance.id) reached).trans ?_)
        dsimp only
        rw [List.map_map, List.filter_map]
        refine congrArg (List.map Instance.id) (List.filter_congr fun next linked => ?_)
        have present := sound.live_of_mem_reach linked
        simp only [Function.comp_def, decide_not, sound.handle_mem_iff live present]
  idsOfType := by
    intro label
    unfold idsOfType
    rw [(sound.cut_lacking leavers).ofType_eq sound, List.map_map, List.filter_map]
    refine congrArg (List.map Instance.id) (List.filter_congr fun bearer listed => ?_)
    have alive := sound.live_of_mem_ofType listed
    simp only [Function.comp_def, decide_not, sound.handle_mem_iff live alive]
  labels := by
    have kept := Groups.keys_prune sound.types_neat
      fun _ member => member ∈ leavers.map Instance.handle
    refine kept.trans (List.filter_congr fun label _ => ?_)
    rw [← sound.map_handle_ofType, idsOfType, List.any_map, List.any_map, Bool.eq_iff_iff,
      List.any_eq_true, List.any_eq_true]
    refine exists_congr fun bearer => and_congr_right fun listed => ?_
    have alive := sound.live_of_mem_ofType listed
    simp only [Function.comp_apply, decide_not, sound.handle_mem_iff live alive]

theorem removeAll_restricted (sound : store.Sound) {ids : List InstanceId} (once : ids.Nodup)
    (present : ∀ id ∈ ids, store.Present id) :
    store.removeAll ids = .ok (store.lacking (ids.filterMap store.find?)) ∧
      Restricted store ids (store.lacking (ids.filterMap store.find?)) := by
  obtain ⟨named, live, apart⟩ := sound.found_of_present once present
  obtain ⟨removed, -⟩ := sound.removeAll_eq live apart
  have left := sound.restricted_lacking live
  rw [named] at removed left
  exact ⟨removed, left⟩

end Sound

/-- In every state of a run, instances that are present may be removed in any order: every removal
succeeds, the stores at the end differ in nothing but the stack of vacant slots, and each of them is
the store before, restricted to the other instances. -/
theorem removals_of_run {start : Store} (origin : Origin start) {edits : List Edit}
    (fits : start.Fits edits) {ids permuted : List InstanceId} (once : ids.Nodup)
    (present : ∀ id ∈ ids, (start.run edits).Present id) (same : ids.Perm permuted) :
    ∃ one other, (start.run edits).removeAll ids = .ok one ∧
      (start.run edits).removeAll permuted = .ok other ∧ SameButStack one other ∧
      Restricted (start.run edits) ids one ∧ Restricted (start.run edits) permuted other := by
  have sound := origin.sound_run fits
  obtain ⟨removed, left⟩ := sound.removeAll_restricted once present
  obtain ⟨turned, right⟩ := sound.removeAll_restricted (same.nodup once) fun id member =>
    present id (same.mem_iff.mpr member)
  exact ⟨_, _, removed, turned, sameButStack_lacking _ (same.filterMap _), left, right⟩

/-- A newcomer likes one of the two who are there, and knows both of them and herself. -/
def gathering : List Edit :=
  returning ++ [.add "eve" ["host", "person"] none, .link "eve" "likes" "bob",
    .link "ada" "knows" "eve", .link "eve" "knows" "eve", .link "bob" "knows" "eve"]

/-- Two leave, and the third one keeps her link to herself. -/
theorem removals_of_gathering :
    empty.Fits gathering ∧ ["ada", "bob"].Nodup ∧
      (∀ id ∈ ["ada", "bob"], (empty.run gathering).Present id) ∧
      ∃ one other, (empty.run gathering).removeAll ["ada", "bob"] = .ok one ∧
        (empty.run gathering).removeAll ["bob", "ada"] = .ok other ∧ SameButStack one other ∧
        Restricted (empty.run gathering) ["ada", "bob"] one ∧
        Restricted (empty.run gathering) ["bob", "ada"] other ∧
        (one.neighbors "eve" "knows").map (List.map Instance.id) = .ok ["eve"] ∧
        one.idsOfType "person" = ["eve"] := by
  have fits : empty.Fits gathering := fits_of_length_le (by decide)
  have once : (["ada", "bob"] : List InstanceId).Nodup := by decide
  have present : ∀ id ∈ ["ada", "bob"],
      id ∈ (empty.run gathering).instances.map Instance.id := by decide
  obtain ⟨one, other, removed, turned, same, left, right⟩ :=
    removals_of_run .empty fits once present (List.Perm.swap "bob" "ada" [])
  have known : (((empty.run gathering).neighbors "eve" "knows").map fun others =>
      (others.map Instance.id).filter (· ∉ ["ada", "bob"])) = .ok ["eve"] := by decide
  have people : ((empty.run gathering).idsOfType "person").filter (· ∉ ["ada", "bob"]) =
      ["eve"] := by decide
  refine ⟨fits, once, present, one, other, removed, turned, same, left, right, ?_, ?_⟩
  · exact (left.neighbors "eve" (by decide) "knows").trans known
  · exact (left.idsOfType "person").trans people

end Store

end LinkAtlas
