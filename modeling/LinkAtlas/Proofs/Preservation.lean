import LinkAtlas.Proofs.Edits

/-!
# Soundness is kept

Each closed form of an edit is sound if the store before it was. Only a newcomer needs room: there
must be a slot number left for it.
-/

namespace LinkAtlas

namespace Store

variable {store : Store}

/-! ## Leaving -/

theorem resolve_evicted {leaver : Instance} (live : store.resolve leaver.handle = some leaver)
    (handle : Handle) :
    (store.evicted leaver).resolve handle =
      if handle = leaver.handle then none
      else (store.resolve handle).map (Instance.forget leaver.handle) := by
  refine (resolve_revise _ _ handle).trans ?_
  rw [resolve_release live]
  split <;> rfl

theorem resolve_evicted_eq_some_iff {leaver : Instance}
    (live : store.resolve leaver.handle = some leaver) {handle : Handle} {changed : Instance} :
    (store.evicted leaver).resolve handle = some changed ↔
      handle ≠ leaver.handle ∧ ∃ vertex, store.resolve handle = some vertex ∧
        vertex.forget leaver.handle = changed := by
  rw [resolve_evicted live]
  rcases eq_or_ne handle leaver.handle with here | here
  · simp [here]
  · rw [if_neg here, Option.map_eq_some_iff]
    exact (and_iff_right here).symm

/-- As many ids go as slots are given back. -/
theorem Sound.count_evicted (sound : store.Sound) {leaver : Instance}
    (live : store.resolve leaver.handle = some leaver) :
    (store.evicted leaver).slots.size =
      (store.evicted leaver).free.length + (store.evicted leaver).size := by
  have entered := (sound.named _ _).mpr ⟨leaver, live, rfl⟩
  have shorter : (store.byId.erase leaver.id).length + 1 = store.byId.length :=
    Ledger.length_erase (Ledger.mem_keys_of_get? entered)
  have slots : (store.evicted leaver).slots.size = store.slots.size :=
    (Array.size_map).trans Array.size_modify
  have waiting : (store.evicted leaver).free.length = store.free.length + 1 := List.length_cons
  have before := sound.count
  have left : (store.evicted leaver).size = (store.byId.erase leaver.id).length := rfl
  unfold size at before
  omega

theorem Sound.named_evicted (sound : store.Sound) {leaver : Instance}
    (live : store.resolve leaver.handle = some leaver) (id : InstanceId) (handle : Handle) :
    (store.evicted leaver).byId.get? id = some handle ↔
      ∃ vertex, (store.evicted leaver).resolve handle = some vertex ∧ vertex.id = id := by
  have lookup : (store.evicted leaver).byId.get? id =
      if id = leaver.id then none else store.byId.get? id :=
    Ledger.get?_alter sound.ids_distinct _ _ _
  rw [lookup]
  constructor
  · intro entered
    split at entered
    · cases entered
    rename_i other
    obtain ⟨vertex, held, same⟩ := (sound.named id handle).mp entered
    refine ⟨vertex.forget leaver.handle,
      (resolve_evicted_eq_some_iff live).mpr ⟨?_, vertex, held, rfl⟩, same⟩
    rintro rfl
    rw [live] at held
    cases held
    exact other same.symm
  · rintro ⟨changed, held, same⟩
    obtain ⟨different, vertex, alive, rfl⟩ := (resolve_evicted_eq_some_iff live).mp held
    have other : id ≠ leaver.id := fun again =>
      different (sound.handle_eq_of_id_eq alive live (Eq.trans same again))
    rw [if_neg other]
    exact (sound.named id handle).mpr ⟨vertex, alive, same⟩

theorem Sound.reciprocal_evicted (sound : store.Sound) {leaver : Instance}
    (live : store.resolve leaver.handle = some leaver) {handle target : Handle}
    {changed : Instance} {edge : Label}
    (held : (store.evicted leaver).resolve handle = some changed)
    (linked : target ∈ changed.targets edge) :
    ∃ other, (store.evicted leaver).resolve target = some other ∧ handle ∈ other.targets edge := by
  obtain ⟨different, vertex, alive, rfl⟩ := (resolve_evicted_eq_some_iff live).mp held
  obtain ⟨was, kept⟩ := (Instance.mem_targets_forget (sound.neat alive)).mp linked
  obtain ⟨other, present, back⟩ := sound.reciprocal _ _ _ _ alive was
  refine ⟨other.forget leaver.handle,
    (resolve_evicted_eq_some_iff live).mpr ⟨kept, other, present, rfl⟩, ?_⟩
  exact (Instance.mem_targets_forget (sound.neat present)).mpr ⟨back, different⟩

theorem Sound.carriers_evicted (sound : store.Sound) {leaver : Instance}
    (live : store.resolve leaver.handle = some leaver) (label : Label) (handle : Handle) :
    handle ∈ Groups.members (store.evicted leaver).byType label ↔
      ∃ vertex, (store.evicted leaver).resolve handle = some vertex ∧ label ∈ vertex.labels := by
  have listed : handle ∈ Groups.members (store.evicted leaver).byType label ↔
      handle ∈ Groups.members store.byType label ∧ handle ≠ leaver.handle := by
    rw [byType_evicted, Groups.members_prune sound.types_neat.distinct, Roster.mem_keep]
    simp
  rw [listed, sound.carriers]
  constructor
  · rintro ⟨⟨vertex, alive, carried⟩, different⟩
    exact ⟨vertex.forget leaver.handle,
      (resolve_evicted_eq_some_iff live).mpr ⟨different, vertex, alive, rfl⟩, carried⟩
  · rintro ⟨changed, held, carried⟩
    obtain ⟨different, vertex, alive, rfl⟩ := (resolve_evicted_eq_some_iff live).mp held
    exact ⟨⟨vertex, alive, carried⟩, different⟩

theorem Sound.evicted (sound : store.Sound) {leaver : Instance}
    (live : store.resolve leaver.handle = some leaver) : (store.evicted leaver).Sound where
  orderly := by
    have orderly := (sound.orderly.release live).trim
      fun _ _ target => target = leaver.handle
    have housed := orderly.housed
    exact ⟨⟨housed.room, housed.own, housed.free_iff, housed.free_nodup⟩,
      fun handle changed held => orderly.neat handle changed held⟩
  named := sound.named_evicted live
  ids_distinct := sound.ids_distinct.alter _ _
  count := sound.count_evicted live
  reciprocal := fun _ _ _ _ held linked => sound.reciprocal_evicted live held linked
  types_neat := by
    rw [byType_evicted]
    exact sound.types_neat.prune _
  carriers := sound.carriers_evicted live

/-! ## Arriving -/

theorem Sound.resolve_enrolled (sound : store.Sound) (bound : store.size < capacity)
    {newcomer : Instance} (own : newcomer.handle = store.allocate.1) (handle : Handle) :
    (store.enrolled newcomer).resolve handle =
      if handle = newcomer.handle then some newcomer else store.resolve handle :=
  sound.housed.resolve_settle (sound.room bound) own handle

theorem Sound.count_enrolled (sound : store.Sound) (bound : store.size < capacity)
    {newcomer : Instance} (absent : newcomer.id ∉ store.byId.keys) :
    (store.enrolled newcomer).slots.size =
      (store.enrolled newcomer).free.length + (store.enrolled newcomer).size := by
  have slots : (store.enrolled newcomer).slots.size + store.free.length =
      store.slots.size + (store.enrolled newcomer).free.length + 1 :=
    sound.housed.size_settle (sound.room bound) newcomer
  have longer : (store.enrolled newcomer).size = store.byId.length + 1 := by
    rw [size, enrolled, Ledger.insert_of_absent absent, List.length_append]
    rfl
  have before := sound.count
  unfold size at before
  omega

theorem Sound.unlisted (sound : store.Sound) {id : InstanceId} (absent : store.find? id = none) :
    id ∉ store.byId.keys :=
  sound.find?_eq_none_iff.mp absent

/-- Whoever resolves after the arrival is the newcomer or was there before. -/
theorem Sound.resolve_enrolled_eq_some_iff (sound : store.Sound) (bound : store.size < capacity)
    {newcomer : Instance} (own : newcomer.handle = store.allocate.1) {handle : Handle}
    {vertex : Instance} :
    (store.enrolled newcomer).resolve handle = some vertex ↔
      (handle = newcomer.handle ∧ newcomer = vertex) ∨ store.resolve handle = some vertex := by
  have vacant := sound.housed.resolve_allocate (sound.room bound)
  rw [← own] at vacant
  rw [sound.resolve_enrolled bound own]
  rcases eq_or_ne handle newcomer.handle with here | here
  · rw [if_pos here, here, vacant]
    simp
  · simp [here]

theorem Sound.named_enrolled (sound : store.Sound) (bound : store.size < capacity)
    {newcomer : Instance} (own : newcomer.handle = store.allocate.1)
    (absent : store.find? newcomer.id = none) (id : InstanceId) (handle : Handle) :
    (store.enrolled newcomer).byId.get? id = some handle ↔
      ∃ vertex, (store.enrolled newcomer).resolve handle = some vertex ∧ vertex.id = id := by
  have lookup : (store.enrolled newcomer).byId.get? id =
      if id = newcomer.id then some newcomer.handle else store.byId.get? id :=
    Ledger.get?_alter sound.ids_distinct _ _ _
  simp only [lookup, sound.resolve_enrolled_eq_some_iff bound own]
  rcases eq_or_ne id newcomer.id with same | same
  · rw [if_pos same]
    constructor
    · rintro ⟨⟩
      exact ⟨newcomer, Or.inl ⟨rfl, rfl⟩, same.symm⟩
    · rintro ⟨vertex, ⟨rfl, -⟩ | live, named⟩
      · rfl
      · have entered := (sound.named _ _).mpr ⟨vertex, live, named.trans same⟩
        exact absurd (Ledger.mem_keys_of_get? entered) (sound.unlisted absent)
  · rw [if_neg same, sound.named]
    constructor
    · rintro ⟨vertex, live, named⟩
      exact ⟨vertex, Or.inr live, named⟩
    · rintro ⟨vertex, ⟨-, rfl⟩ | live, named⟩
      · exact absurd named.symm same
      · exact ⟨vertex, live, named⟩

theorem Sound.reciprocal_enrolled (sound : store.Sound) (bound : store.size < capacity)
    {newcomer : Instance} (own : newcomer.handle = store.allocate.1)
    (unlinked : newcomer.links = []) {handle target : Handle} {vertex : Instance} {edge : Label}
    (held : (store.enrolled newcomer).resolve handle = some vertex)
    (linked : target ∈ vertex.targets edge) :
    ∃ other, (store.enrolled newcomer).resolve target = some other ∧
      handle ∈ other.targets edge := by
  rcases (sound.resolve_enrolled_eq_some_iff bound own).mp held with ⟨-, rfl⟩ | live
  · rw [Instance.targets_eq_members, unlinked] at linked
    exact absurd linked (Roster.not_mem_empty target)
  · obtain ⟨other, present, back⟩ := sound.reciprocal _ _ _ _ live linked
    exact ⟨other, (sound.resolve_enrolled_eq_some_iff bound own).mpr (Or.inr present), back⟩

theorem Sound.carriers_enrolled (sound : store.Sound) (bound : store.size < capacity)
    {newcomer : Instance} (own : newcomer.handle = store.allocate.1) (label : Label)
    (handle : Handle) :
    handle ∈ Groups.members (store.enrolled newcomer).byType label ↔
      ∃ vertex, (store.enrolled newcomer).resolve handle = some vertex ∧
        label ∈ vertex.labels := by
  refine (Groups.mem_members_enter sound.types_neat).trans ?_
  rw [sound.carriers]
  simp only [sound.resolve_enrolled_eq_some_iff bound own]
  constructor
  · rintro (⟨vertex, live, carried⟩ | ⟨carried, rfl⟩)
    · exact ⟨vertex, Or.inr live, carried⟩
    · exact ⟨newcomer, Or.inl ⟨rfl, rfl⟩, carried⟩
  · rintro ⟨vertex, ⟨same, rfl⟩ | live, carried⟩
    · exact Or.inr ⟨carried, same⟩
    · exact Or.inl ⟨vertex, live, carried⟩

theorem Sound.enrolled (sound : store.Sound) (bound : store.size < capacity)
    {newcomer : Instance} (own : newcomer.handle = store.allocate.1)
    (absent : store.find? newcomer.id = none) (unlinked : newcomer.links = []) :
    (store.enrolled newcomer).Sound where
  orderly := by
    have housed := sound.housed.settle (sound.room bound) own
    refine ⟨⟨housed.room, housed.own, housed.free_iff, housed.free_nodup⟩, ?_⟩
    intro handle vertex held
    rcases (sound.resolve_enrolled_eq_some_iff bound own).mp held with ⟨-, rfl⟩ | live
    · rw [unlinked]
      exact Groups.neat_nil
    · exact sound.neat live
  named := sound.named_enrolled bound own absent
  ids_distinct := sound.ids_distinct.alter _ _
  count := sound.count_enrolled bound (sound.unlisted absent)
  reciprocal := fun _ _ _ _ held linked => sound.reciprocal_enrolled bound own unlinked held linked
  types_neat := sound.types_neat.enter _ _
  carriers := sound.carriers_enrolled bound own

/-! ## Labels -/

theorem relabel_handle (handle : Handle) (change : Roster Label → Roster Label)
    (vertex : Instance) : (relabel handle change vertex).handle = vertex.handle := by
  unfold relabel
  split <;> rfl

theorem relabel_id (handle : Handle) (change : Roster Label → Roster Label) (vertex : Instance) :
    (relabel handle change vertex).id = vertex.id := by
  unfold relabel
  split <;> rfl

theorem relabel_links (handle : Handle) (change : Roster Label → Roster Label)
    (vertex : Instance) : (relabel handle change vertex).links = vertex.links := by
  unfold relabel
  split <;> rfl

/-- New labels for one instance, together with an index that fits them. -/
theorem Sound.relabel (sound : store.Sound) {handle : Handle}
    {change : Roster Label → Roster Label} {types : Groups Handle} (types_neat : Groups.Neat types)
    (carriers : ∀ label place, place ∈ Groups.members types label ↔
      ∃ vertex, store.resolve place = some vertex ∧
        label ∈ (Store.relabel handle change vertex).labels) :
    ({ store.revise (Store.relabel handle change) with byType := types } : Store).Sound := by
  refine sound.rework (fun vertex => ⟨relabel_handle handle change vertex,
    relabel_id handle change vertex⟩) ?_ ?_ types_neat carriers
  · intro place vertex live
    rw [relabel_links]
    exact sound.neat live
  · intro place vertex edge target live linked
    unfold Instance.targets at linked
    rw [relabel_links] at linked
    obtain ⟨other, present, back⟩ := sound.reciprocal _ _ _ _ live linked
    refine ⟨other, present, ?_⟩
    rw [Instance.targets, relabel_links]
    exact back

theorem Sound.labelled (sound : store.Sound) {bearer : Instance}
    (live : store.resolve bearer.handle = some bearer) (label : Label) :
    (store.labelled bearer.handle label).Sound := by
  refine sound.relabel (sound.types_neat.add _ _) fun kind place => ?_
  rw [Groups.mem_members_add sound.types_neat.distinct, sound.carriers]
  unfold Store.relabel
  constructor
  · rintro (⟨vertex, held, carried⟩ | ⟨rfl, rfl⟩)
    · refine ⟨vertex, held, ?_⟩
      split
      · exact Roster.mem_add.mpr (Or.inl carried)
      · exact carried
    · exact ⟨bearer, live, by simp⟩
  · rintro ⟨vertex, held, carried⟩
    split at carried
    · rename_i here
      rcases Roster.mem_add.mp carried with before | new
      · exact Or.inl ⟨vertex, held, before⟩
      · exact Or.inr ⟨new, (sound.handle_eq held).symm.trans here⟩
    · exact Or.inl ⟨vertex, held, carried⟩

theorem Sound.unlabelled (sound : store.Sound) (handle : Handle) (label : Label) :
    (store.unlabelled handle label).Sound := by
  rw [Store.unlabelled, Groups.drop_eq_prune sound.types_neat]
  refine sound.relabel (sound.types_neat.prune _) fun kind place => ?_
  rw [Groups.members_prune sound.types_neat.distinct, Roster.mem_keep, sound.carriers]
  unfold Store.relabel
  constructor
  · rintro ⟨⟨vertex, held, carried⟩, kept⟩
    refine ⟨vertex, held, ?_⟩
    split
    · rename_i here
      have own := sound.handle_eq held
      have other : kind ≠ label := by
        rintro rfl
        simp [← own, here] at kept
      exact Roster.mem_remove.mpr ⟨other, carried⟩
    · exact carried
  · rintro ⟨vertex, held, carried⟩
    have own := sound.handle_eq held
    split at carried
    · obtain ⟨other, before⟩ := Roster.mem_remove.mp carried
      exact ⟨⟨vertex, held, before⟩, by simp [other]⟩
    · rename_i elsewhere
      exact ⟨⟨vertex, held, carried⟩, by simp [← own, elsewhere]⟩

/-! ## Links -/

theorem tie_eq (first : Handle) (edge : Label) (second : Handle) (vertex : Instance) :
    tie first edge second vertex =
      { vertex with links := (tie first edge second vertex).links } := by
  unfold tie
  dsimp only
  split <;> split <;> rfl

theorem neat_tie {vertex : Instance} (neat : Groups.Neat vertex.links) (first : Handle)
    (edge : Label) (second : Handle) : Groups.Neat (tie first edge second vertex).links := by
  unfold tie
  dsimp only
  split <;> split
  · exact (neat.add edge second).add edge first
  · exact neat.add edge first
  · exact neat.add edge second
  · exact neat

theorem mem_targets_tie {vertex : Instance} (neat : Groups.Neat vertex.links)
    {first second : Handle}
    {edge kind : Label} {target : Handle} :
    target ∈ (tie first edge second vertex).targets kind ↔
      target ∈ vertex.targets kind ∨ kind = edge ∧
        (vertex.handle = first ∧ target = second ∨ vertex.handle = second ∧ target = first) := by
  have once (start : Instance) (distinct : Ledger.Distinct start.links) (end_ : Handle) :
      target ∈ (start.link edge end_).targets kind ↔
        target ∈ start.targets kind ∨ kind = edge ∧ target = end_ :=
    Groups.mem_members_add distinct
  unfold tie
  dsimp only
  rcases eq_or_ne vertex.handle first with here | here
  · rw [if_pos here]
    rcases eq_or_ne vertex.handle second with there | there
    · rw [if_pos there, once _ (neat.add edge second).distinct, once _ neat.distinct]
      tauto
    · rw [if_neg there, once _ neat.distinct]
      tauto
  · rw [if_neg here]
    rcases eq_or_ne vertex.handle second with there | there
    · rw [if_pos there, once _ neat.distinct]
      tauto
    · rw [if_neg there]
      tauto

theorem Sound.tied (sound : store.Sound) {vertex other : Instance}
    (one : store.resolve vertex.handle = some vertex)
    (two : store.resolve other.handle = some other) (edge : Label) :
    (store.revise (tie vertex.handle edge other.handle)).Sound := by
  refine sound.relink (tie_eq _ _ _) (fun handle start live => neat_tie (sound.neat live) _ _ _) ?_
  intro handle start kind target live linked
  have own := sound.handle_eq live
  rcases (mem_targets_tie (sound.neat live)).mp linked with
    before | ⟨same, ⟨here, there⟩ | ⟨here, there⟩⟩
  · obtain ⟨end_, present, back⟩ := sound.reciprocal _ _ _ _ live before
    exact ⟨end_, present, (mem_targets_tie (sound.neat present)).mpr (Or.inl back)⟩
  · refine ⟨other, there ▸ two, (mem_targets_tie (sound.neat two)).mpr (Or.inr ⟨same, Or.inr ?_⟩)⟩
    exact ⟨rfl, own.symm.trans here⟩
  · refine ⟨vertex, there ▸ one, (mem_targets_tie (sound.neat one)).mpr (Or.inr ⟨same, Or.inl ?_⟩)⟩
    exact ⟨rfl, own.symm.trans here⟩

end Store

end LinkAtlas
