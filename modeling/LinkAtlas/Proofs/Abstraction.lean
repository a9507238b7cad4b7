import LinkAtlas.Proofs.Preservation
import LinkAtlas.Proofs.Registry
import LinkAtlas.Proofs.Renaming

/-!
# The registry of a store

A sound store shows a registry when every handle in it is read as the id behind it. Handles of
different instances are read as different ids, so nothing runs together, and each edit of the store
shows as the edit of its registry.
-/

namespace LinkAtlas

/-- The entry of an instance whose targets are read by `name`. -/
def Instance.entry (name : Handle → InstanceId) (vertex : Instance) : Entry where
  labels := vertex.labels
  value := vertex.value
  links := Groups.rename name vertex.links

theorem Instance.targets_entry (name : Handle → InstanceId) {vertex : Instance}
    (neat : Groups.Neat vertex.links) (edge : Label) :
    (vertex.entry name).targets edge = (vertex.targets edge).rename name :=
  Groups.members_rename name neat.distinct edge

namespace Registry

/-- Changing the entry of one id, as a change of every entry. -/
theorem modify_eq_thin {registry : Registry} (distinct : registry.entries.Distinct)
    (id : InstanceId) (change : Entry → Entry) :
    registry.modify id change =
      { registry with
        entries := registry.entries.thin fun other entry =>
          some (if other = id then change entry else entry) } := by
  rw [modify, Ledger.alter_eq_thin distinct id rfl]
  refine congrArg (fun ledger => Registry.mk ledger registry.byType) ?_
  refine Ledger.thin_congr fun listed _ => ?_
  split <;> rfl

/-- A link is entered at both ends at once. -/
theorem link_eq_thin {registry : Registry} (distinct : registry.entries.Distinct)
    (source : InstanceId) (edge : Label) (target : InstanceId) :
    registry.link source edge target =
      { registry with
        entries := registry.entries.thin fun id entry =>
          let forward := if id = source then entry.link edge target else entry
          some (if id = target then forward.link edge source else forward) } := by
  rw [link, modify_eq_thin distinct, modify_eq_thin]
  · rw [Ledger.thin_thin]
    rfl
  · exact distinct.thin fun id entry => some (if id = source then entry.link edge target else entry)

theorem entries_remove {registry : Registry} (distinct : registry.entries.Distinct)
    (id : InstanceId) :
    (registry.remove id).entries = registry.entries.thin fun other entry =>
      if other = id then none else some (entry.cut fun _ target => target = id) := by
  unfold remove cut
  dsimp only
  rw [Ledger.erase_eq_thin, Ledger.thin_thin]
  · rfl
  · exact distinct.thin fun _ entry => some (entry.cut fun _ target => target = id)

end Registry

namespace Store

variable {store : Store} {name : Handle → InstanceId}

/-- The id behind a handle. -/
def nameOf (store : Store) (handle : Handle) : InstanceId :=
  ((store.resolve handle).map Instance.id).getD ""

/-- A reading of handles that is right wherever an instance is present. -/
def Names (store : Store) (name : Handle → InstanceId) : Prop :=
  ∀ handle vertex, store.resolve handle = some vertex → name handle = vertex.id

theorem names_nameOf (store : Store) : store.Names store.nameOf := by
  intro handle vertex live
  rw [nameOf, live]
  rfl

/-- What a store shows when its handles are read by `name`. -/
def view (store : Store) (name : Handle → InstanceId) : Registry where
  entries := store.byId.thin fun _ handle => (store.resolve handle).map (Instance.entry name)
  byType := Groups.rename name store.byType

def registry (store : Store) : Registry := store.view store.nameOf

namespace Sound

/-- Among the instances that are present, ids are as good as handles. -/
theorem id_eq_iff (sound : store.Sound) {handle : Handle} {vertex other : Instance}
    (live : store.resolve handle = some vertex)
    (present : store.resolve other.handle = some other) :
    vertex.id = other.id ↔ vertex.handle = other.handle := by
  have own := sound.handle_eq live
  constructor
  · intro same
    exact own.trans (sound.handle_eq_of_id_eq live present same)
  · intro same
    rw [← own, same, present] at live
    cases live
    rfl

theorem name_inj (sound : store.Sound) (names : store.Names name) {first second : Handle}
    {vertex other : Instance} (one : store.resolve first = some vertex)
    (two : store.resolve second = some other) : name first = name second ↔ first = second := by
  rw [names _ _ one, names _ _ two]
  constructor
  · exact sound.handle_eq_of_id_eq one two
  · rintro rfl
    rw [one] at two
    cases two
    rfl

theorem name_eq_iff (sound : store.Sound) (names : store.Names name) {handle : Handle}
    {vertex other : Instance} (live : store.resolve handle = some vertex)
    (present : store.resolve other.handle = some other) :
    name handle = other.id ↔ handle = other.handle := by
  rw [← names _ _ present]
  exact sound.name_inj names live present

theorem resolve_of_mem_byId (sound : store.Sound) {listed : InstanceId × Handle}
    (entered : listed ∈ store.byId) :
    ∃ vertex, store.resolve listed.2 = some vertex ∧ vertex.id = listed.1 :=
  (sound.named _ _).mp (Ledger.get?_of_mem sound.ids_distinct entered)

theorem resolve_of_mem_byType (sound : store.Sound) {label : Label} {handle : Handle}
    (listed : handle ∈ Groups.members store.byType label) :
    ∃ vertex, store.resolve handle = some vertex := by
  obtain ⟨vertex, live, -⟩ := (sound.carriers label handle).mp listed
  exact ⟨vertex, live⟩

/-- It does not matter which of the right readings is used. -/
theorem view_congr (sound : store.Sound) {other : Handle → InstanceId}
    (names : store.Names name) (others : store.Names other) :
    store.view name = store.view other := by
  have agree {handle : Handle} {vertex : Instance} (live : store.resolve handle = some vertex) :
      name handle = other handle := (names _ _ live).trans (others _ _ live).symm
  have entries :
      store.byId.thin (fun _ handle => (store.resolve handle).map (Instance.entry name)) =
      store.byId.thin fun _ handle => (store.resolve handle).map (Instance.entry other) := by
    refine Ledger.thin_congr fun listed _ => ?_
    cases live : store.resolve listed.2 with
    | none => rfl
    | some vertex =>
        have same : Groups.rename name vertex.links = Groups.rename other vertex.links := by
          refine Groups.rename_congr (sound.neat live) fun edge target linked => ?_
          obtain ⟨end_, present, -⟩ := sound.reciprocal _ _ _ _ live linked
          exact agree present
        simp only [Option.map_some, Instance.entry, same]
  have byType : Groups.rename name store.byType = Groups.rename other store.byType := by
    refine Groups.rename_congr sound.types_neat fun label handle listed => ?_
    obtain ⟨vertex, live⟩ := sound.resolve_of_mem_byType listed
    exact agree live
  unfold view
  rw [entries, byType]

theorem registry_eq_view (sound : store.Sound) (names : store.Names name) :
    store.registry = store.view name :=
  sound.view_congr (names_nameOf store) names

/-- An id is registered exactly if an instance is found under it. -/
theorem find?_view (sound : store.Sound) (name : Handle → InstanceId) (id : InstanceId) :
    (store.view name).find? id = (store.find? id).map (Instance.entry name) := by
  rw [Registry.find?, view, find?, Ledger.get?_thin sound.ids_distinct]
  cases store.byId.get? id with
  | none => rfl
  | some handle => rfl

theorem view_distinct (sound : store.Sound) (name : Handle → InstanceId) :
    (store.view name).entries.Distinct :=
  sound.ids_distinct.thin fun _ handle => (store.resolve handle).map (Instance.entry name)

/-! ## Revisions -/

/-- A revision of the instances shows as a change of every entry. -/
theorem view_revise (sound : store.Sound) {change : Instance → Instance}
    {changed : InstanceId → Entry → Entry}
    (same : ∀ handle vertex, store.resolve handle = some vertex →
      (change vertex).entry name = changed vertex.id (vertex.entry name)) :
    (store.revise change).view name =
      { store.view name with
        entries := (store.view name).entries.thin fun id entry => some (changed id entry) } := by
  have entries : store.byId.thin (fun _ handle =>
        ((store.revise change).resolve handle).map (Instance.entry name)) =
      (store.view name).entries.thin fun id entry => some (changed id entry) := by
    rw [view, Ledger.thin_thin]
    refine Ledger.thin_congr fun listed entered => ?_
    obtain ⟨vertex, live, named⟩ := sound.resolve_of_mem_byId entered
    rw [resolve_revise, live, ← named]
    exact congrArg some (same _ _ live)
  unfold view at entries ⊢
  exact congrArg (fun ledger => Registry.mk ledger (Groups.rename name store.byType)) entries

/-- Cutting links shows as a cut of the registry, if both see the same links as gone. -/
theorem view_trim (sound : store.Sound) {gone : Handle → Label → Handle → Bool}
    {cut : InstanceId → Label → InstanceId → Bool}
    (same : ∀ handle vertex edge target, store.resolve handle = some vertex →
      target ∈ vertex.targets edge → gone handle edge target = cut vertex.id edge (name target)) :
    (store.revise (Instance.trim gone)).view name = (store.view name).cut cut := by
  refine sound.view_revise fun handle vertex live => ?_
  unfold Instance.entry Instance.trim Entry.cut
  dsimp only
  rw [sound.handle_eq live, Groups.rename_prune (sound.neat live) fun edge target linked =>
    same handle vertex edge target live linked]

/-- The two ends of a link are read right. -/
theorem read_ends (sound : store.Sound) (names : store.Names name) {handle target : Handle}
    {vertex other : Instance} {edge : Label} (live : store.resolve handle = some vertex)
    (linked : target ∈ vertex.targets edge) (present : store.resolve other.handle = some other) :
    (vertex.id = other.id ↔ handle = other.handle) ∧
      (name target = other.id ↔ target = other.handle) := by
  obtain ⟨end_, reached, -⟩ := sound.reciprocal _ _ _ _ live linked
  rw [← names _ _ live]
  exact ⟨sound.name_eq_iff names live present, sound.name_eq_iff names reached present⟩

theorem view_severed (sound : store.Sound) (names : store.Names name) {vertex other : Instance}
    (one : store.resolve vertex.handle = some vertex)
    (two : store.resolve other.handle = some other) (edge : Label) :
    (store.revise (Instance.trim (between vertex.handle edge other.handle))).view name =
      (store.view name).cut (between vertex.id edge other.id) := by
  refine sound.view_trim fun handle holder kind target live linked => ?_
  obtain ⟨here, there⟩ := sound.read_ends names live linked one
  obtain ⟨opposite, back⟩ := sound.read_ends names live linked two
  unfold between
  simp only [here, there, opposite, back]

theorem view_cleared (sound : store.Sound) (names : store.Names name) {holder : Instance}
    (present : store.resolve holder.handle = some holder) (edge : Label) :
    (store.revise (Instance.trim (touching holder.handle edge))).view name =
      (store.view name).cut (touching holder.id edge) := by
  refine sound.view_trim fun handle vertex kind target live linked => ?_
  obtain ⟨here, there⟩ := sound.read_ends names live linked present
  unfold touching
  simp only [here, there]

theorem view_tied (sound : store.Sound) (names : store.Names name) {vertex other : Instance}
    (one : store.resolve vertex.handle = some vertex)
    (two : store.resolve other.handle = some other) (edge : Label) :
    (store.revise (tie vertex.handle edge other.handle)).view name =
      (store.view name).link vertex.id edge other.id := by
  have linked (start : Instance) {last : Instance}
      (present : store.resolve last.handle = some last) :
      (start.link edge last.handle).entry name = (start.entry name).link edge last.id := by
    unfold Instance.entry Instance.link Entry.link
    dsimp only
    rw [Links.link_eq_add, Groups.rename_add, names _ _ present]
  rw [Registry.link_eq_thin (sound.view_distinct name)]
  refine sound.view_revise fun handle holder live => ?_
  unfold tie
  simp only [sound.id_eq_iff live one, sound.id_eq_iff live two]
  split <;> split <;> simp only [linked _ one, linked _ two]

/-! ## Labels -/

theorem view_relabel (sound : store.Sound) (name : Handle → InstanceId) {bearer : Instance}
    (live : store.resolve bearer.handle = some bearer) (change : Roster Label → Roster Label) :
    (store.revise (Store.relabel bearer.handle change)).view name =
      (store.view name).modify bearer.id fun entry =>
        { entry with labels := change entry.labels } := by
  rw [Registry.modify_eq_thin (sound.view_distinct name)]
  refine sound.view_revise fun handle holder held => ?_
  unfold Store.relabel
  simp only [sound.id_eq_iff held live]
  split <;> rfl

theorem view_labelled (sound : store.Sound) (names : store.Names name) {bearer : Instance}
    (live : store.resolve bearer.handle = some bearer) (label : Label) :
    (store.labelled bearer.handle label).view name =
      (store.view name).addLabel bearer.id label := by
  have entries := congrArg Registry.entries
    (sound.view_relabel name live fun labels => labels.add label)
  have byType : Groups.rename name (Groups.add store.byType label bearer.handle) =
      Groups.add (Groups.rename name store.byType) label bearer.id := by
    rw [Groups.rename_add, names _ _ live]
  exact congrArg₂ Registry.mk entries byType

theorem view_unlabelled (sound : store.Sound) (names : store.Names name) {bearer : Instance}
    (live : store.resolve bearer.handle = some bearer) (label : Label) :
    (store.unlabelled bearer.handle label).view name =
      (store.view name).removeLabel bearer.id label := by
  have entries := congrArg Registry.entries
    (sound.view_relabel name live fun labels => labels.remove label)
  have byType : Groups.rename name (Groups.drop store.byType label bearer.handle) =
      Groups.drop (Groups.rename name store.byType) label bearer.id := by
    rw [Groups.drop_eq_prune sound.types_neat, Groups.drop_eq_prune (sound.types_neat.rename name)]
    refine Groups.rename_prune sound.types_neat fun kind handle listed => ?_
    obtain ⟨holder, held⟩ := sound.resolve_of_mem_byType listed
    simp only [sound.name_eq_iff names held live]
  exact congrArg₂ Registry.mk entries byType

/-! ## Leaving and arriving -/

/-- An instance that stays shows without the id of the leaver. -/
theorem entry_forget (sound : store.Sound) (names : store.Names name) {leaver : Instance}
    (gone : store.resolve leaver.handle = some leaver) {handle : Handle} {vertex : Instance}
    (live : store.resolve handle = some vertex) :
    (vertex.forget leaver.handle).entry name =
      (vertex.entry name).cut fun _ target => target = leaver.id := by
  unfold Instance.entry Instance.forget Instance.trim Entry.cut
  dsimp only
  rw [Groups.rename_prune (sound.neat live) fun edge target linked => ?_]
  rw [decide_eq_decide]
  exact (sound.read_ends names live linked gone).2.symm

theorem view_evicted (sound : store.Sound) (names : store.Names name) {leaver : Instance}
    (gone : store.resolve leaver.handle = some leaver) :
    (store.evicted leaver).view name = (store.view name).remove leaver.id := by
  have entries : (store.byId.erase leaver.id).thin (fun _ handle =>
        ((store.evicted leaver).resolve handle).map (Instance.entry name)) =
      ((store.view name).remove leaver.id).entries := by
    rw [Registry.entries_remove (sound.view_distinct name)]
    rw [view, Ledger.erase_eq_thin sound.ids_distinct, Ledger.thin_thin, Ledger.thin_thin]
    refine Ledger.thin_congr fun listed entered => ?_
    obtain ⟨vertex, live, named⟩ := sound.resolve_of_mem_byId entered
    have same := sound.id_eq_iff live gone
    rw [sound.handle_eq live] at same
    rw [live, ← named]
    rcases eq_or_ne vertex.id leaver.id with leaves | leaves
    · simp [leaves]
    · have stays : listed.2 ≠ leaver.handle := fun equal => leaves (same.mpr equal)
      simp [leaves, resolve_evicted gone, stays, live, sound.entry_forget names gone live]
  have byType : Groups.rename name (store.evicted leaver).byType =
      Groups.prune (fun _ member => member = leaver.id)
        (Groups.rename name store.byType) := by
    rw [byType_evicted]
    refine Groups.rename_prune sound.types_neat fun label handle listed => ?_
    obtain ⟨vertex, live⟩ := sound.resolve_of_mem_byType listed
    rw [decide_eq_decide]
    exact (sound.name_eq_iff names live gone).symm
  exact congrArg₂ Registry.mk entries byType

/-- The newcomer is registered behind all that was. -/
theorem entries_enrolled (sound : store.Sound) (name : Handle → InstanceId)
    (bound : store.size < capacity) {newcomer : Instance} (own : newcomer.handle = store.allocate.1)
    (absent : store.find? newcomer.id = none) :
    ((store.enrolled newcomer).view name).entries =
      (store.view name).entries ++ [(newcomer.id, newcomer.entry name)] := by
  have resolves := sound.resolve_enrolled bound own
  have vacant := sound.housed.resolve_allocate (sound.room bound)
  rw [← own] at vacant
  have before : store.byId.thin (fun _ handle =>
        ((store.enrolled newcomer).resolve handle).map (Instance.entry name)) =
      (store.view name).entries := by
    change _ = store.byId.thin fun _ handle => (store.resolve handle).map (Instance.entry name)
    refine Ledger.thin_congr fun listed entered => ?_
    obtain ⟨vertex, live, -⟩ := sound.resolve_of_mem_byId entered
    have elsewhere : listed.2 ≠ newcomer.handle := by
      intro equal
      rw [equal, vacant] at live
      cases live
    rw [resolves, if_neg elsewhere]
  rw [← before]
  rw [view, byId_enrolled, Ledger.insert_of_absent (sound.unlisted absent)]
  unfold Ledger.thin
  rw [List.filterMap_append]
  simp [resolves]

theorem view_enrolled (sound : store.Sound) (bound : store.size < capacity) {newcomer : Instance}
    (own : newcomer.handle = store.allocate.1) (absent : store.find? newcomer.id = none)
    (unlinked : newcomer.links = []) (named : name newcomer.handle = newcomer.id) :
    (store.enrolled newcomer).view name =
      (store.view name).add newcomer.id newcomer.labels newcomer.value := by
  have unregistered : newcomer.id ∉ (store.view name).entries.keys := by
    have none := sound.find?_view name newcomer.id
    rw [absent] at none
    exact Ledger.get?_eq_none_iff.mp none
  have last : newcomer.entry name = { labels := newcomer.labels, value := newcomer.value } := by
    rw [Instance.entry, unlinked]
    rfl
  have entries := sound.entries_enrolled name bound own absent
  rw [last, ← Ledger.insert_of_absent unregistered] at entries
  have byType : Groups.rename name (store.enrolled newcomer).byType =
      Groups.enter (Groups.rename name store.byType) newcomer.labels.toList newcomer.id := by
    rw [byType_enrolled, Groups.rename_enter, named]
  exact congrArg₂ Registry.mk entries byType

end Sound

end Store

end LinkAtlas
