import LinkAtlas.Proofs.Abstraction
import LinkAtlas.Proofs.LinkIntegrity

/-!
# Stores refine registries

A run of edits gives the same answers on a store and on a registry, and nothing that can be observed
of the store without looking at handles tells the two apart.
-/

namespace LinkAtlas

/-- The answer without the handle of a newcomer. -/
def Reply.answer : Reply → Answer
  | .done => .done
  | .handle _ => .done
  | .flag changed => .flag changed
  | .count links => .count links

def Instance.facts (vertex : Instance) : Facts where
  id := vertex.id
  labels := vertex.labels.toList
  value := vertex.value
  edgeTypes := vertex.edgeTypes

/-- The instance as it is registered. -/
def Instance.holder (name : Handle → InstanceId) (vertex : Instance) : InstanceId × Entry :=
  (vertex.id, vertex.entry name)

namespace Projection

mutual

/-- Forgets which instances were copied. -/
def sketch : Projection → Sketch
  | ⟨edgeType, id, labels, value, _, links⟩ => ⟨edgeType, id, labels, value, sketchGroups links⟩

def sketchGroups : List (Label × List Projection) → List (Label × List Sketch)
  | [] => []
  | (label, group) :: rest => (label, sketchAll group) :: sketchGroups rest

def sketchAll : List Projection → List Sketch
  | [] => []
  | first :: rest => first.sketch :: sketchAll rest

end

theorem sketchAll_eq_map (group : List Projection) : sketchAll group = group.map sketch := by
  induction group with
  | nil => rfl
  | cons first rest ih => rw [sketchAll, ih, List.map_cons]

theorem sketchGroups_eq_map (links : List (Label × List Projection)) :
    sketchGroups links = links.map fun group => (group.1, group.2.map sketch) := by
  induction links with
  | nil => rfl
  | cons group rest ih => rw [sketchGroups, ih, sketchAll_eq_map, List.map_cons]

end Projection

namespace Store

variable {store : Store} {name : Handle → InstanceId}

/-! ## Reading instances -/

namespace Sound

theorem toList_targets_entry (sound : store.Sound) (names : store.Names name) {handle : Handle}
    {vertex : Instance} (live : store.resolve handle = some vertex) (edge : Label) :
    ((vertex.entry name).targets edge).toList = (vertex.targets edge).toList.map name := by
  rw [Instance.targets_entry name (sound.neat live)]
  refine Roster.toList_rename fun first inside second member same => ?_
  obtain ⟨one, present⟩ := sound.resolve_of_mem_targets live inside
  obtain ⟨two, reached⟩ := sound.resolve_of_mem_targets live member
  exact (sound.name_inj names present reached).mp same

theorem size_targets_entry (sound : store.Sound) (names : store.Names name) {handle : Handle}
    {vertex : Instance} (live : store.resolve handle = some vertex) (edge : Label) :
    ((vertex.entry name).targets edge).size = (vertex.targets edge).size := by
  unfold Roster.size
  rw [sound.toList_targets_entry names live, List.length_map]

theorem mem_targets_entry (sound : store.Sound) (names : store.Names name) {handle : Handle}
    {vertex other : Instance} (live : store.resolve handle = some vertex)
    (present : store.resolve other.handle = some other) (edge : Label) :
    other.id ∈ (vertex.entry name).targets edge ↔ other.handle ∈ vertex.targets edge := by
  rw [Instance.targets_entry name (sound.neat live), Roster.mem_rename]
  constructor
  · rintro ⟨target, linked, same⟩
    obtain ⟨end_, reached⟩ := sound.resolve_of_mem_targets live linked
    rw [← (sound.name_eq_iff names reached present).mp same]
    exact linked
  · intro linked
    exact ⟨other.handle, linked, names _ _ present⟩

theorem toList_carriers (sound : store.Sound) (names : store.Names name) (label : Label) :
    (Groups.members (store.view name).byType label).toList =
      (Groups.members store.byType label).toList.map name := by
  rw [view, Groups.members_rename name sound.types_neat.distinct]
  refine Roster.toList_rename fun first inside second member same => ?_
  obtain ⟨one, present⟩ := sound.resolve_of_mem_byType inside
  obtain ⟨two, reached⟩ := sound.resolve_of_mem_byType member
  exact (sound.name_inj names present reached).mp same

end Sound

theorem Names.map_id (names : store.Names name) {handles : List Handle}
    (present : ∀ handle ∈ handles, ∃ vertex, store.resolve handle = some vertex) :
    (handles.filterMap store.resolve).map Instance.id = handles.map name := by
  induction handles with
  | nil => rfl
  | cons handle rest ih =>
      obtain ⟨vertex, live⟩ := present handle List.mem_cons_self
      rw [List.filterMap_cons, live, List.map_cons, List.map_cons, names _ _ live,
        ih fun later member => present later (List.mem_cons_of_mem _ member)]

/-! ## One edit -/

theorem names_revise (names : store.Names name) {change : Instance → Instance}
    (keeps : ∀ vertex, (change vertex).id = vertex.id) : (store.revise change).Names name := by
  intro handle changed revised
  rw [resolve_revise] at revised
  obtain ⟨vertex, live, rfl⟩ := Option.map_eq_some_iff.mp revised
  rw [keeps]
  exact names _ _ live

theorem names_evicted (names : store.Names name) {leaver : Instance}
    (gone : store.resolve leaver.handle = some leaver) : (store.evicted leaver).Names name := by
  intro handle changed held
  obtain ⟨-, vertex, live, rfl⟩ := (resolve_evicted_eq_some_iff gone).mp held
  exact names handle vertex live

theorem Sound.find?_registry (sound : store.Sound) (id : InstanceId) :
    store.registry.find? id = (store.find? id).map (Instance.entry store.nameOf) :=
  sound.find?_view _ id

theorem Sound.find?_of_live (sound : store.Sound) {vertex : Instance}
    (live : store.resolve vertex.handle = some vertex) :
    store.registry.find? vertex.id = some (vertex.entry store.nameOf) := by
  rw [sound.find?_registry, sound.find?_eq_some_iff.mpr ⟨live, rfl⟩]
  rfl

theorem Refused.registry_perform (sound : store.Sound) {edit : Edit} {reason : GraphError}
    (refused : Refused store edit reason) :
    store.registry.perform edit = (.error reason, store.registry) := by
  cases refused with
  | add found labels value => simp only [Registry.perform, sound.find?_registry, found, Option.map]
  | remove absent => simp only [Registry.perform, sound.find?_registry, absent, Option.map]
  | addLabel absent label => simp only [Registry.perform, sound.find?_registry, absent, Option.map]
  | removeLabel absent label =>
      simp only [Registry.perform, sound.find?_registry, absent, Option.map]
  | source absent edge target =>
      simp only [Registry.perform, sound.find?_registry, absent, Option.map]
  | target found absent edge =>
      simp only [Registry.perform, sound.find?_registry, found, absent, Option.map]
  | unlinkAll absent edge => simp only [Registry.perform, sound.find?_registry, absent, Option.map]

theorem Idle.registry_perform (sound : store.Sound) {edit : Edit} (idle : Idle store edit) :
    store.registry.perform edit = (.ok (.flag false), store.registry) := by
  cases idle with
  | addLabel live carried =>
      simp only [Registry.perform, sound.find?_of_live live]
      exact if_pos carried
  | removeLabel live missing =>
      simp only [Registry.perform, sound.find?_of_live live]
      exact if_neg missing
  | @unlink source target absent edge =>
      simp only [Registry.perform, sound.find?_registry]
      rcases absent with none | none
      · rw [none]
        rfl
      · rw [none]
        cases store.find? source <;> rfl

/-- The registry of a store with a newcomer has one more entry. -/
theorem Sound.registry_enrolled (sound : store.Sound) (bound : store.size < capacity)
    {newcomer : Instance} (own : newcomer.handle = store.allocate.1)
    (absent : store.find? newcomer.id = none) (unlinked : newcomer.links = []) :
    (store.enrolled newcomer).registry =
      store.registry.add newcomer.id newcomer.labels newcomer.value := by
  have later := names_nameOf (store.enrolled newcomer)
  have earlier : store.Names (store.enrolled newcomer).nameOf := fun handle vertex live =>
    later handle vertex ((sound.resolve_enrolled_eq_some_iff bound own).mpr (Or.inr live))
  have arrived : (store.enrolled newcomer).resolve newcomer.handle = some newcomer :=
    (sound.resolve_enrolled_eq_some_iff bound own).mpr (Or.inl ⟨rfl, rfl⟩)
  rw [sound.registry_eq_view earlier]
  exact sound.view_enrolled bound own absent unlinked (later _ _ arrived)

/-- An edit of a store shows as the edit of its registry. -/
theorem Change.registry_perform (sound : store.Sound) {edit : Edit}
    {answer : Except GraphError Reply} {after : Store} (change : Change store edit answer after)
    (kept : after.Sound) (bound : after.size ≤ capacity) :
    store.registry.perform edit = (answer.map Reply.answer, after.registry) := by
  have names := names_nameOf store
  cases change with
  | refused refused => exact refused.registry_perform sound
  | idle idle => exact idle.registry_perform sound
  | @enrolled id absent labels value =>
      have grown : (store.enrolled (store.newcomer id labels value)).size = store.size + 1 :=
        sound.size_enrolled absent
      simp only [Registry.perform, sound.find?_registry, absent, Option.map, Except.map]
      rw [sound.registry_enrolled (by omega) rfl absent rfl]
      rfl
  | @evicted leaver live =>
      simp only [Registry.perform, sound.find?_of_live live, Except.map]
      rw [kept.registry_eq_view (names_evicted names live), sound.view_evicted names live]
      rfl
  | @labelled bearer live label fresh =>
      simp only [Registry.perform, sound.find?_of_live live, Except.map]
      have after_names : (store.labelled bearer.handle label).Names store.nameOf :=
        names_revise names (relabel_id _ _)
      rw [kept.registry_eq_view after_names, sound.view_labelled names live]
      exact if_neg fresh
  | @unlabelled bearer live label carried =>
      simp only [Registry.perform, sound.find?_of_live live, Except.map]
      have after_names : (store.unlabelled bearer.handle label).Names store.nameOf :=
        names_revise names (relabel_id _ _)
      rw [kept.registry_eq_view after_names, sound.view_unlabelled names live]
      exact if_pos carried
  | tied one two edge =>
      simp only [Registry.perform, sound.find?_of_live one, sound.find?_of_live two, Except.map]
      rw [kept.registry_eq_view (names_revise names fun vertex => by rw [tie_eq]),
        sound.view_tied names one two]
      rfl
  | severed one two edge =>
      simp only [Registry.perform, sound.find?_of_live one, sound.find?_of_live two, Except.map]
      rw [kept.registry_eq_view (names_revise names fun _ => rfl), sound.view_severed names one two]
      simp only [sound.mem_targets_entry names one two, Reply.answer, Instance.hasLink]
      rfl
  | cleared live edge =>
      simp only [Registry.perform, sound.find?_of_live live, Except.map]
      rw [kept.registry_eq_view (names_revise names fun _ => rfl), sound.view_cleared names live,
        sound.size_targets_entry names live]
      rfl

/-! ## Observations -/

/-- What can be observed of a store without its handles is what the registry has. -/
structure Mirrors (store : Store) (registry : Registry) : Prop where
  facts : ∀ id, (store.find? id).map Instance.facts = registry.facts? id
  idsOfType : ∀ label, store.idsOfType label = registry.idsOfType label
  labels : store.labels = registry.labels
  neighbors : ∀ id edge,
    (store.neighbors id edge).map (·.map Instance.id) = registry.neighbors id edge
  hasLink : ∀ source edge target, store.hasLink source edge target =
    registry.hasLink source edge target
  size : store.size = registry.size
  query : ∀ path, (store.query path).map (·.map Projection.sketch) = registry.query path

namespace Sound

theorem facts_registry (sound : store.Sound) (id : InstanceId) :
    (store.find? id).map Instance.facts = store.registry.facts? id := by
  rw [Registry.facts?, sound.find?_registry, Option.map_map]
  cases found : store.find? id with
  | none => rfl
  | some vertex =>
      obtain ⟨-, rfl⟩ := sound.find?_eq_some_iff.mp found
      have kinds : (Groups.rename store.nameOf vertex.links).keys = vertex.links.keys :=
        Groups.keys_rename _ _
      simp only [Option.map_some, Function.comp_apply, Instance.entry, kinds]
      rfl

theorem idsOfType_registry (sound : store.Sound) (label : Label) :
    store.idsOfType label = store.registry.idsOfType label := by
  rw [idsOfType, Registry.idsOfType, registry, ofType_eq,
    sound.toList_carriers (names_nameOf store)]
  exact (names_nameOf store).map_id fun handle listed => sound.resolve_of_mem_byType listed

theorem neighbors_registry (sound : store.Sound) (id : InstanceId) (edge : Label) :
    (store.neighbors id edge).map (·.map Instance.id) = store.registry.neighbors id edge := by
  rw [neighbors, Registry.neighbors, sound.find?_registry]
  cases found : store.find? id with
  | none => rfl
  | some vertex =>
      obtain ⟨live, -⟩ := sound.find?_eq_some_iff.mp found
      have names := names_nameOf store
      simp only [Option.map_some, Except.map, sound.toList_targets_entry names live]
      rw [names.map_id fun target linked => sound.resolve_of_mem_targets live linked]

theorem hasLink_registry (sound : store.Sound) (source : InstanceId) (edge : Label)
    (target : InstanceId) :
    store.hasLink source edge target = store.registry.hasLink source edge target := by
  rw [hasLink, Registry.hasLink, sound.find?_registry, sound.find?_registry, sound.get?_byId]
  cases found : store.find? source with
  | none => rfl
  | some vertex =>
      cases reached : store.find? target with
      | none => rfl
      | some other =>
          obtain ⟨one, -⟩ := sound.find?_eq_some_iff.mp found
          obtain ⟨two, rfl⟩ := sound.find?_eq_some_iff.mp reached
          simp only [Option.map_some, sound.mem_targets_entry (names_nameOf store) one two]
          rfl

theorem size_registry (sound : store.Sound) : store.size = store.registry.size := by
  refine (List.filterMap_length_eq_length.mpr fun listed entered => ?_).symm
  obtain ⟨vertex, live, -⟩ := sound.resolve_of_mem_byId entered
  dsimp only
  rw [live]
  rfl

/-- Looking up what handles are read as finds the instances behind them. -/
theorem lookUp_registry (sound : store.Sound) (handles : List Handle)
    (present : ∀ handle ∈ handles, ∃ vertex, store.resolve handle = some vertex) :
    (handles.filterMap store.resolve).map (Instance.holder store.nameOf) =
      store.registry.lookUp (handles.map store.nameOf) := by
  induction handles with
  | nil => rfl
  | cons handle rest ih =>
      obtain ⟨vertex, live⟩ := present handle List.mem_cons_self
      have own := sound.handle_eq live
      have entered : store.registry.find? (store.nameOf handle) =
          some (vertex.entry store.nameOf) := by
        rw [names_nameOf store _ _ live]
        exact sound.find?_of_live (own.symm ▸ live)
      have later := ih fun next member => present next (List.mem_cons_of_mem _ member)
      unfold Registry.lookUp at later ⊢
      rw [List.filterMap_cons, live, List.map_cons, List.map_cons, List.filterMap_cons, entered,
        later, names_nameOf store _ _ live]
      rfl

/-- The projection of an instance shows as the sketch of its entry. -/
theorem sketch_trace (sound : store.Sound) (tree : QueryTree) {vertex : Instance}
    (live : store.resolve vertex.handle = some vertex) :
    (tree.trace store vertex).sketch =
      tree.unfold Sketch.copy store.registry.reach (vertex.holder store.nameOf) := by
  refine QueryTree.map_unfold (fun vertex => store.resolve vertex.handle = some vertex)
    ?_ ?_ tree vertex live
  · intro label holder links _
    exact congrArg (Sketch.mk label holder.id holder.labels.toList holder.value)
      (Projection.sketchGroups_eq_map links)
  · intro holder edge alive
    have present : ∀ target ∈ (holder.targets edge).toList,
        ∃ vertex, store.resolve target = some vertex := fun _ linked =>
      sound.resolve_of_mem_targets alive linked
    constructor
    · intro next reached
      exact sound.live_of_mem_reach reached
    · rw [Registry.reach, Store.reach, sound.lookUp_registry _ present]
      exact congrArg store.registry.lookUp
        (sound.toList_targets_entry (names_nameOf store) alive edge).symm

theorem query_registry (sound : store.Sound) (path : QueryPath) :
    (store.query path).map (·.map Projection.sketch) = store.registry.query path := by
  rw [query_eq]
  unfold Registry.query
  cases QueryTree.compile path with
  | error reason => rfl
  | ok tree =>
      have carriers := sound.toList_carriers (names_nameOf store) tree.label
      have roots := sound.lookUp_registry (Groups.members store.byType tree.label).toList
        fun handle listed => sound.resolve_of_mem_byType listed
      unfold Registry.idsOfType
      simp only [Except.map]
      rw [registry, carriers, ← registry, ← roots, ← ofType_eq, List.map_map, List.map_map]
      refine congrArg Except.ok (List.map_congr_left fun vertex listed => ?_)
      exact sound.sketch_trace tree (sound.live_of_mem_ofType listed)

theorem mirrors_registry (sound : store.Sound) : store.Mirrors store.registry where
  facts := sound.facts_registry
  idsOfType := sound.idsOfType_registry
  labels := (Groups.keys_rename store.nameOf store.byType).symm
  neighbors := sound.neighbors_registry
  hasLink := sound.hasLink_registry
  size := sound.size_registry
  query := sound.query_registry

end Sound

/-! ## Runs -/

/-- The answers to a run of edits. -/
def replies : Store → List Edit → List (Except GraphError Reply)
  | _, [] => []
  | store, edit :: rest => (store.perform edit).1 :: replies (store.perform edit).2 rest

theorem Fits.tail {edit : Edit} {rest : List Edit} (fits : store.Fits (edit :: rest)) :
    (store.perform edit).2.Fits rest := fun earlier initial =>
  fits (edit :: earlier) (List.cons_prefix_cons.mpr ⟨rfl, initial⟩)

/-- One edit of a store is the same edit of its registry. -/
theorem Sound.registry_perform (sound : store.Sound) {edit : Edit}
    (bound : (store.perform edit).2.size ≤ capacity) :
    store.registry.perform edit =
      ((store.perform edit).1.map Reply.answer, (store.perform edit).2.registry) :=
  (sound.change edit).registry_perform sound (sound.perform bound) bound

/-- A run of edits of a store is the same run of its registry. -/
theorem Sound.registry_run (sound : store.Sound) {edits : List Edit} (fits : store.Fits edits) :
    (store.replies edits).map (Except.map Reply.answer) = store.registry.answers edits ∧
      (store.run edits).registry = store.registry.run edits := by
  induction edits generalizing store with
  | nil => exact ⟨rfl, rfl⟩
  | cons edit rest ih =>
      have bound : (store.perform edit).2.size ≤ capacity := fits.tail [] List.nil_prefix
      have step := sound.registry_perform bound
      obtain ⟨answers, final⟩ := ih (sound.perform bound) fits.tail
      constructor
      · rw [replies, List.map_cons, Registry.answers, step, answers]
      · refine final.trans ?_
        change _ = (store.registry.perform edit).2.run rest
        rw [step]

theorem registry_empty : empty.registry = Registry.empty := rfl

/-- Answers and observations of every run are those of the registry. -/
theorem refines_registry {edits : List Edit} (fits : empty.Fits edits) :
    (empty.replies edits).map (Except.map Reply.answer) = Registry.empty.answers edits ∧
      ∀ earlier, earlier <+: edits →
        (empty.run earlier).Mirrors (Registry.empty.run earlier) := by
  obtain ⟨answers, -⟩ := sound_empty.registry_run fits
  refine ⟨answers, fun earlier initial => ?_⟩
  obtain ⟨-, same⟩ := sound_empty.registry_run (fits.of_prefix initial)
  rw [← registry_empty, ← same]
  exact (sound_empty.run (fits.of_prefix initial)).mirrors_registry

theorem refines_registry_returning :
    empty.Fits returning ∧
      (empty.replies returning).map (Except.map Reply.answer) = Registry.empty.answers returning ∧
      ∀ earlier, earlier <+: returning →
        (empty.run earlier).Mirrors (Registry.empty.run earlier) :=
  ⟨fits_returning, refines_registry fits_returning⟩

end Store

end LinkAtlas
