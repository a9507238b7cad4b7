import LinkAtlas.Proofs.Sound

/-!
# What each edit does to a sound store

Every edit of a sound store has a closed form. Edits that take something away are revisions by
`Instance.trim` together with a `prune` of the index of labels; edits that add something append to
rosters. The edits that are turned down, and those that change nothing, are told apart by
`Store.find?` alone.
-/

namespace LinkAtlas

namespace Store

variable {store : Store}

/-! ## Cutting links one by one -/

theorem revise_trim_trim (store : Store) (first second : Handle → Label → Handle → Bool) :
    (store.revise (Instance.trim first)).revise (Instance.trim second) =
      store.revise (Instance.trim fun source edge target =>
        first source edge target || second source edge target) := by
  rw [revise_revise]
  exact congrArg store.revise (funext fun vertex => Instance.trim_trim first second vertex)

namespace Orderly

theorem trim_none (orderly : store.Orderly) :
    store.revise (Instance.trim fun _ _ _ => false) = store :=
  orderly.housed.revise_eq_self fun _ _ live =>
    Instance.trim_eq_self (orderly.neat _ _ live) fun _ _ _ => rfl

theorem modify_unlink (orderly : store.Orderly) (handle : Handle) (edge : Label) (target : Handle) :
    store.modify handle (·.unlink edge target) =
      store.revise (Instance.trim fun source first other =>
        source = handle && (first = edge && other = target)) := by
  rw [orderly.housed.modify_eq_revise]
  refine orderly.housed.revise_congr fun place vertex live => ?_
  rcases eq_or_ne vertex.handle handle with here | here
  · rw [if_pos here, Instance.unlink, Links.unlink_eq_drop,
      Groups.drop_eq_prune (orderly.neat _ _ live)]
    simp [Instance.trim, here]
  · rw [if_neg here, Instance.trim_eq_self (orderly.neat _ _ live)]
    intro first other _
    simp [here]

theorem detach_eq (orderly : store.Orderly) (handle : Handle) (edge : Label)
    (targets : List Handle) :
    store.detach handle edge targets =
      store.revise (Instance.trim fun source first other =>
        source ∈ targets && (first = edge && other = handle)) := by
  unfold detach
  induction targets generalizing store with
  | nil => simpa using orderly.trim_none.symm
  | cons target rest ih =>
      rw [List.foldl_cons, orderly.modify_unlink, ih (orderly.trim _), revise_trim_trim]
      congr 2
      funext source first other
      simp only [List.mem_cons, Bool.decide_or, Bool.and_or_distrib_right]

/-- The links of a leaver are cut at their far ends, group after group. -/
theorem foldl_detach_eq (orderly : store.Orderly) (handle : Handle) (groups : Links) :
    groups.foldl (fun store group =>
        store.detach handle group.1 (group.2.toList.filter (· ≠ handle))) store =
      store.revise (Instance.trim fun source edge target =>
        groups.any (fun group => group.1 = edge && source ∈ group.2) &&
          (source ≠ handle && target = handle)) := by
  induction groups generalizing store with
  | nil => simpa using orderly.trim_none.symm
  | cons group rest ih =>
      rw [List.foldl_cons, orderly.detach_eq, ih (orderly.trim _), revise_trim_trim]
      congr 2
      funext source edge target
      rw [List.any_cons, Bool.and_or_distrib_right]
      congr 1
      rw [Bool.eq_iff_iff]
      simp only [Bool.and_eq_true, decide_eq_true_eq, List.mem_filter, Roster.mem_iff]
      constructor
      · rintro ⟨⟨member, other⟩, same, here⟩
        exact ⟨⟨same.symm, member⟩, other, here⟩
      · rintro ⟨⟨same, member⟩, other, here⟩
        exact ⟨⟨member, other⟩, same.symm, here⟩

end Orderly

/-! ## The index of labels -/

theorem foldl_enlist (handle : Handle) (labels : List Label) (store : Store) :
    labels.foldl (fun store label => store.enlist handle label) store =
      { store with
        byType :=
          labels.foldl (fun groups label => Groups.add groups label handle) store.byType } := by
  induction labels generalizing store with
  | nil => rfl
  | cons label rest ih => exact ih (store.enlist handle label)

theorem foldl_delist (handle : Handle) (labels : List Label) (store : Store) :
    labels.foldl (fun store label => store.delist handle label) store =
      { store with
        byType :=
          labels.foldl (fun groups label => Groups.drop groups label handle) store.byType } := by
  induction labels generalizing store with
  | nil => rfl
  | cons label rest ih =>
      rw [List.foldl_cons, delist_eq, ih]
      rfl

theorem byType_allocate (store : Store) : store.allocate.2.byType = store.byType := by
  unfold allocate
  split <;> rfl

theorem byId_allocate (store : Store) : store.allocate.2.byId = store.byId := by
  unfold allocate
  split <;> rfl

/-! ## Closed forms -/

/-- The instance that `Store.add` brings in. -/
def newcomer (store : Store) (id : InstanceId) (labels : List Label) (value : Option Scalar) :
    Instance where
  handle := store.allocate.1
  id := id
  labels := Roster.ofList labels
  value := value

/-- The store with a newcomer, which is entered in both indexes. -/
def enrolled (store : Store) (newcomer : Instance) : Store :=
  { store.settle newcomer with
    byId := store.byId.insert newcomer.id newcomer.handle
    byType := Groups.enter store.byType newcomer.labels.toList newcomer.handle }

/-- The store without a leaver, whose handle is struck out wherever it stood. -/
def evicted (store : Store) (leaver : Instance) : Store :=
  { (store.release leaver.handle).revise (Instance.forget leaver.handle) with
    byId := store.byId.erase leaver.id
    byType := Groups.prune (fun _ member => member = leaver.handle) store.byType }

@[simp] theorem byId_enrolled (store : Store) (newcomer : Instance) :
    (store.enrolled newcomer).byId = store.byId.insert newcomer.id newcomer.handle := rfl

@[simp] theorem byType_enrolled (store : Store) (newcomer : Instance) :
    (store.enrolled newcomer).byType =
      Groups.enter store.byType newcomer.labels.toList newcomer.handle := rfl

@[simp] theorem byId_evicted (store : Store) (leaver : Instance) :
    (store.evicted leaver).byId = store.byId.erase leaver.id := rfl

@[simp] theorem byType_evicted (store : Store) (leaver : Instance) :
    (store.evicted leaver).byType =
      Groups.prune (fun _ member => member = leaver.handle) store.byType := rfl

/-- Gives the labels of one instance a new form. -/
def relabel (handle : Handle) (change : Roster Label → Roster Label) (vertex : Instance) :
    Instance :=
  if vertex.handle = handle then { vertex with labels := change vertex.labels } else vertex

def labelled (store : Store) (handle : Handle) (label : Label) : Store :=
  { store.revise (relabel handle (·.add label)) with
    byType := Groups.add store.byType label handle }

def unlabelled (store : Store) (handle : Handle) (label : Label) : Store :=
  { store.revise (relabel handle (·.remove label)) with
    byType := Groups.drop store.byType label handle }

/-- Links an instance to the second handle if it has the first, and to the first if it has the
second. -/
def tie (first : Handle) (edge : Label) (second : Handle) (vertex : Instance) : Instance :=
  let forward := if vertex.handle = first then vertex.link edge second else vertex
  if vertex.handle = second then forward.link edge first else forward

theorem add_eq (store : Store) (id : InstanceId) (labels : List Label) (value : Option Scalar) :
    store.add id labels value =
      if store.byId.contains id then .error (.duplicateId id)
      else .ok (store.allocate.1, store.enrolled (store.newcomer id labels value)) := by
  unfold add
  simp only [foldl_enlist, byType_allocate, byId_allocate]
  rfl

namespace Sound

/-! ## Instances -/

theorem add_of_present (sound : store.Sound) {id : InstanceId} {vertex : Instance}
    (found : store.find? id = some vertex) (labels : List Label) (value : Option Scalar) :
    store.add id labels value = .error (.duplicateId id) := by
  rw [add, sound.contains_byId, found]
  rfl

theorem add_of_absent (sound : store.Sound) {id : InstanceId} (absent : store.find? id = none)
    (labels : List Label) (value : Option Scalar) :
    store.add id labels value =
      .ok (store.allocate.1, store.enrolled (store.newcomer id labels value)) := by
  rw [add_eq, sound.contains_byId, absent]
  rfl

theorem remove_of_absent (sound : store.Sound) {id : InstanceId} (absent : store.find? id = none) :
    store.remove id = .error (.unknownInstance id) := by
  rw [remove, sound.handleOf_of_absent absent]
  rfl

/-- The far ends of the links of a leaver are all the places where its handle stands. -/
theorem revise_far_ends (sound : store.Sound) {leaver : Instance}
    (live : store.resolve leaver.handle = some leaver) :
    (store.release leaver.handle).revise (Instance.trim fun source edge target =>
        leaver.links.any (fun group => group.1 = edge && source ∈ group.2) &&
          (source ≠ leaver.handle && target = leaver.handle)) =
      (store.release leaver.handle).revise (Instance.forget leaver.handle) := by
  have housed := sound.housed.release live
  refine housed.revise_congr fun handle vertex held => ?_
  have own := housed.handle_eq held
  rw [resolve_release live] at held
  split at held
  · cases held
  rename_i other
  refine Instance.trim_congr (sound.neat held) fun edge target linked => ?_
  rcases eq_or_ne target leaver.handle with here | here
  · rw [here, sound.mem_targets_comm held live, Instance.targets_eq_members] at linked
    have listed : leaver.links.any (fun group =>
        group.1 = edge && vertex.handle ∈ group.2) = true := by
      obtain ⟨roster, entered⟩ := Ledger.get?_of_mem_keys
        ((sound.neat live).mem_keys_iff.mpr fun none => Roster.not_mem_empty _ (none ▸ linked))
      have member := Ledger.mem_of_get? entered
      have same : Groups.members leaver.links edge = roster :=
        Groups.members_of_mem (sound.neat live) member
      refine List.any_eq_true.mpr ⟨(edge, roster), member, ?_⟩
      rw [same] at linked
      simp [own, linked]
    rw [listed, own]
    simp [here, other]
  · simp [here]

/-- The labels of a leaver are all the entries of the index that it stands in. -/
theorem strike_labels (sound : store.Sound) {leaver : Instance}
    (live : store.resolve leaver.handle = some leaver) :
    leaver.labels.toList.foldl (fun groups label => Groups.drop groups label leaver.handle)
        store.byType =
      Groups.prune (fun _ member => member = leaver.handle) store.byType := by
  rw [Groups.foldl_drop_eq_prune sound.types_neat]
  refine Groups.prune_congr sound.types_neat fun label member listed => ?_
  rcases eq_or_ne member leaver.handle with here | here
  · rw [here] at listed
    obtain ⟨bearer, alive, carried⟩ := (sound.carriers _ _).mp listed
    rw [live] at alive
    cases alive
    have inside : label ∈ leaver.labels.toList := carried
    simp [inside]
  · simp [here]

theorem remove_of_present (sound : store.Sound) {id : InstanceId} {leaver : Instance}
    (found : store.find? id = some leaver) : store.remove id = .ok (store.evicted leaver) := by
  obtain ⟨live, rfl⟩ := sound.find?_eq_some_iff.mp found
  rw [remove, sound.handleOf_of_found found]
  simp only [bind, Except.bind, live, foldl_delist, (sound.orderly.release live).foldl_detach_eq,
    sound.revise_far_ends live]
  rw [evicted, ← sound.strike_labels live]
  rfl

/-! ## Labels -/

theorem addLabel_of_absent (sound : store.Sound) {id : InstanceId}
    (absent : store.find? id = none) (label : Label) :
    store.addLabel id label = .error (.unknownInstance id) := by
  rw [addLabel, sound.handleOf_of_absent absent]
  rfl

theorem addLabel_of_present (sound : store.Sound) {id : InstanceId} {bearer : Instance}
    (found : store.find? id = some bearer) (label : Label) :
    store.addLabel id label =
      .ok (if label ∈ bearer.labels then (false, store)
        else (true, store.labelled bearer.handle label)) := by
  obtain ⟨live, -⟩ := sound.find?_eq_some_iff.mp found
  rw [addLabel, sound.handleOf_of_found found]
  simp only [bind, Except.bind, live, Instance.hasLabel]
  by_cases carried : label ∈ bearer.labels
  · simp [carried]
  · rw [sound.housed.modify_eq_revise]
    simp only [carried, decide_false, Bool.false_eq_true, if_false]
    rfl

theorem removeLabel_of_absent (sound : store.Sound) {id : InstanceId}
    (absent : store.find? id = none) (label : Label) :
    store.removeLabel id label = .error (.unknownInstance id) := by
  rw [removeLabel, sound.handleOf_of_absent absent]
  rfl

theorem removeLabel_of_present (sound : store.Sound) {id : InstanceId} {bearer : Instance}
    (found : store.find? id = some bearer) (label : Label) :
    store.removeLabel id label =
      .ok (if label ∈ bearer.labels then (true, store.unlabelled bearer.handle label)
        else (false, store)) := by
  obtain ⟨live, -⟩ := sound.find?_eq_some_iff.mp found
  rw [removeLabel, sound.handleOf_of_found found]
  simp only [bind, Except.bind, live, Instance.hasLabel]
  by_cases carried : label ∈ bearer.labels
  · rw [sound.housed.modify_eq_revise, delist_eq]
    simp only [carried, decide_true, if_true]
    rfl
  · simp [carried]

/-! ## Links -/

theorem link_of_source_absent (sound : store.Sound) {source : InstanceId}
    (absent : store.find? source = none) (edge : Label) (target : InstanceId) :
    store.link source edge target = .error (.unknownInstance source) := by
  rw [link, sound.handleOf_of_absent absent]
  rfl

theorem link_of_target_absent (sound : store.Sound) {source target : InstanceId}
    {vertex : Instance} (found : store.find? source = some vertex)
    (absent : store.find? target = none) (edge : Label) :
    store.link source edge target = .error (.unknownInstance target) := by
  rw [link, sound.handleOf_of_found found, sound.handleOf_of_absent absent]
  rfl

theorem link_of_present (sound : store.Sound) {source target : InstanceId}
    {vertex other : Instance} (found : store.find? source = some vertex)
    (reached : store.find? target = some other) (edge : Label) :
    store.link source edge target =
      .ok (store.revise (tie vertex.handle edge other.handle)) := by
  rw [link, sound.handleOf_of_found found, sound.handleOf_of_found reached]
  simp only [bind, Except.bind]
  have keeps (first : Instance) : (if first.handle = vertex.handle then
      first.link edge other.handle else first).handle = first.handle := by
    split <;> rfl
  rw [sound.housed.modify_eq_revise, (sound.housed.revise keeps).modify_eq_revise, revise_revise]
  simp only [keeps]
  rfl

theorem unlink_of_absent (sound : store.Sound) {source target : InstanceId}
    (absent : store.find? source = none ∨ store.find? target = none) (edge : Label) :
    store.unlink source edge target = (false, store) := by
  rw [unlink, sound.get?_byId, sound.get?_byId]
  rcases absent with none | none
  · rw [none]
    rfl
  · rw [none]
    cases store.find? source <;> rfl

theorem unlink_of_present (sound : store.Sound) {source target : InstanceId}
    {vertex other : Instance} (found : store.find? source = some vertex)
    (reached : store.find? target = some other) (edge : Label) :
    store.unlink source edge target =
      (vertex.hasLink edge other.handle,
        store.revise (Instance.trim (between vertex.handle edge other.handle))) := by
  obtain ⟨live, -⟩ := sound.find?_eq_some_iff.mp found
  obtain ⟨present, -⟩ := sound.find?_eq_some_iff.mp reached
  have halfway := sound.orderly.trim fun source first target => source = vertex.handle &&
    (first = edge && target = other.handle)
  rw [unlink, sound.get?_byId, sound.get?_byId, found, reached]
  simp only [Option.map_some, unlinkOneWay, live, sound.orderly.modify_unlink, resolve_revise,
    present, halfway.modify_unlink, revise_trim_trim]
  refine Prod.ext ?_ (congrArg store.revise (congrArg Instance.trim ?_))
  · -- a link that is gone at one end was never there at the other
    rw [Bool.eq_iff_iff, Bool.or_eq_true]
    refine or_iff_left_of_imp fun back => ?_
    simp only [Instance.hasLink, decide_eq_true_eq] at back ⊢
    exact (sound.mem_targets_comm live present edge).mpr
      ((Instance.mem_targets_trim (sound.neat present) _).mp back).1
  · funext first kind second
    rw [between, Bool.eq_iff_iff]
    simp only [Bool.or_eq_true, Bool.and_eq_true, decide_eq_true_eq]
    tauto

theorem unlinkAll_of_absent (sound : store.Sound) {id : InstanceId}
    (absent : store.find? id = none) (edge : Label) :
    store.unlinkAll id edge = .error (.unknownInstance id) := by
  rw [unlinkAll, sound.handleOf_of_absent absent]
  rfl

theorem unlinkAll_of_present (sound : store.Sound) {id : InstanceId} {holder : Instance}
    (found : store.find? id = some holder) (edge : Label) :
    store.unlinkAll id edge =
      .ok ((holder.targets edge).size,
        store.revise (Instance.trim (touching holder.handle edge))) := by
  obtain ⟨live, -⟩ := sound.find?_eq_some_iff.mp found
  have cleared : store.modify holder.handle
        (fun holder => { holder with links := holder.links.erase edge }) =
      store.revise (Instance.trim fun source kind _ =>
        source = holder.handle && kind = edge) := by
    rw [sound.housed.modify_eq_revise]
    refine sound.housed.revise_congr fun handle vertex held => ?_
    rcases eq_or_ne vertex.handle holder.handle with here | here
    · rw [if_pos here, Groups.erase_eq_prune (sound.neat held)]
      simp [Instance.trim, here]
    · rw [if_neg here, Instance.trim_eq_self (sound.neat held)]
      intro kind target _
      simp [here]
  rw [unlinkAll, sound.handleOf_of_found found]
  simp only [bind, Except.bind, live, cleared, (sound.orderly.trim _).detach_eq, revise_trim_trim]
  refine congrArg Except.ok (Prod.ext rfl (sound.housed.revise_congr fun handle vertex held => ?_))
  refine Instance.trim_congr (sound.neat held) fun kind target linked => ?_
  have own := sound.handle_eq held
  rw [Bool.eq_iff_iff]
  simp only [touching, Bool.or_eq_true, Bool.and_eq_true, decide_eq_true_eq]
  constructor
  · rintro (⟨here, same⟩ | ⟨-, same, there⟩)
    · exact ⟨same, Or.inl here⟩
    · exact ⟨same, Or.inr there⟩
  · rintro ⟨same, here | there⟩
    · exact Or.inl ⟨here, same⟩
    · rw [same, there] at linked
      exact Or.inr ⟨own ▸ (sound.mem_targets_comm held live edge).mp linked, same, there⟩

end Sound

end Store

end LinkAtlas
