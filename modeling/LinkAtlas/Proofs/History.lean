import LinkAtlas.Proofs.Recount
import LinkAtlas.Proofs.Refinement

/-!
# Content and order

The chronicle of a run says what the store contains after it, and in which order: whatever a store
lists is in chronological order. The chronicle is told from the edits and their answers, so nobody
has to look into the store for it.
-/

namespace LinkAtlas

namespace Registry

variable {registry after : Registry} {log : List Event}

/-- What a row of events does to a registry. -/
inductive Steps (start : Registry) : List Event → Registry → Prop where
  | start : Steps start [] start
  | next {events : List Event} {event : Event} {middle after : Registry}
      (earlier : Steps start events middle) (step : Step middle event after) :
      Steps start (events ++ [event]) after

theorem Step.steps {event : Event} (step : Step registry event after) :
    Steps registry [event] after :=
  .next .start step

theorem Recounts.steps (old : registry.Recounts log) {events : List Event}
    (steps : Steps registry events after) : after.Recounts (log ++ events) := by
  induction steps with
  | start => rwa [List.append_nil]
  | next earlier step ih =>
      rw [← List.append_assoc]
      exact ih.step step

/-- A label that a newcomer gains is as good as one that it brings along. -/
theorem addLabel_add (registry : Registry) (id : InstanceId) {labels : Roster Label}
    (value : Option Scalar) {label : Label} (fresh : label ∉ labels) :
    (registry.add id labels value).addLabel id label =
      registry.add id (labels.add label) value := by
  have entries : (registry.entries.insert id { labels := labels, value := value }).alter id
        (Option.map fun entry => { entry with labels := entry.labels.add label }) =
      registry.entries.insert id { labels := labels.add label, value := value } :=
    Ledger.alter_insert _ _ _ _
  have byType : (registry.byType.enter labels.toList id).add label id =
      registry.byType.enter (labels.add label).toList id := by
    rw [Roster.toList_add_of_not_mem fresh, Groups.enter_concat]
  exact congrArg₂ Registry.mk entries byType

/-- A newcomer gains its labels one after the other, those that are given twice for nothing. -/
theorem steps_add (distinct : registry.entries.Distinct) {id : InstanceId}
    (absent : registry.find? id = none) (labels : List Label) (value : Option Scalar) :
    Steps registry (.arrived id :: labels.map (.gained id))
      (registry.add id (Roster.ofList labels) value) := by
  induction labels using List.reverseRecOn with
  | nil => exact (Step.arrived absent value).steps
  | append_singleton labels label ih =>
      have found : (registry.add id (Roster.ofList labels) value).find? id =
          some { labels := Roster.ofList labels, value := value } := by
        rw [find?_add distinct, if_pos rfl]
      rw [List.map_append, ← List.cons_append, Roster.ofList_concat]
      by_cases carried : label ∈ Roster.ofList labels
      · rw [Roster.add_of_mem carried]
        exact ih.next (.regained found carried)
      · rw [← addLabel_add registry id value carried]
        exact ih.next (.gained found carried)

/-- An edit does to a registry what its events do. -/
theorem steps_perform (distinct : registry.entries.Distinct) (edit : Edit) :
    Steps registry (edit.outcome (registry.perform edit).1) (registry.perform edit).2 := by
  cases edit with
  | add id labels value =>
      cases found : registry.find? id with
      | some entry =>
          simp only [perform, found]
          exact .start
      | none =>
          simp only [perform, found]
          exact steps_add distinct found labels value
  | remove id =>
      cases found : registry.find? id with
      | none =>
          simp only [perform, found]
          exact .start
      | some entry =>
          simp only [perform, found]
          exact (Step.left found).steps
  | addLabel id label =>
      cases found : registry.find? id with
      | none =>
          simp only [perform, found]
          exact .start
      | some entry =>
          simp only [perform, found]
          by_cases carried : label ∈ entry.labels
          · rw [if_pos carried]
            exact (Step.regained found carried).steps
          · rw [if_neg carried]
            exact (Step.gained found carried).steps
  | removeLabel id label =>
      cases found : registry.find? id with
      | none =>
          simp only [perform, found]
          exact .start
      | some entry =>
          simp only [perform, found]
          by_cases carried : label ∈ entry.labels
          · rw [if_pos carried]
            exact (Step.lost found carried).steps
          · rw [if_neg carried]
            exact (Step.missed found carried).steps
  | link source edge target =>
      cases one : registry.find? source with
      | none =>
          simp only [perform, one]
          exact .start
      | some entry =>
          cases two : registry.find? target with
          | none =>
              simp only [perform, one, two]
              exact .start
          | some opposite =>
              simp only [perform, one, two]
              exact (Step.tied one two edge).steps
  | unlink source edge target =>
      cases one : registry.find? source with
      | none =>
          simp only [perform, one]
          exact (Step.apart (Or.inl one) edge).steps
      | some entry =>
          cases two : registry.find? target with
          | none =>
              simp only [perform, one, two]
              exact (Step.apart (Or.inr two) edge).steps
          | some opposite =>
              simp only [perform, one, two]
              exact (Step.severed one two edge).steps
  | unlinkAll id edge =>
      cases found : registry.find? id with
      | none =>
          simp only [perform, found]
          exact .start
      | some entry =>
          simp only [perform, found]
          exact (Step.cleared found edge).steps

/-- A run of edits adds its chronicle to the log. -/
theorem Recounts.run (old : registry.Recounts log) (edits : List Edit) :
    (registry.run edits).Recounts (log ++ Edit.chronicle edits (registry.answers edits)) := by
  induction edits generalizing registry log with
  | nil =>
      change registry.Recounts (log ++ [])
      rw [List.append_nil]
      exact old
  | cons edit rest ih =>
      have next := old.steps (steps_perform old.distinct edit)
      rw [answers, Edit.chronicle, ← List.append_assoc]
      exact ih next

end Registry

namespace Store

variable {store : Store} {log : List Event}

/-- The events of a run. -/
def chronicle (store : Store) (edits : List Edit) : List Event :=
  Edit.chronicle edits (store.replies edits)

/-- Everything that a store lists is what stands, in chronological order. -/
structure Chronicled (store : Store) (log : List Event) : Prop where
  neighbors : ∀ vertex ∈ store.instances, ∀ edge, ∃ others,
    store.neighbors vertex.id edge = .ok others ∧
      Chronological (Linked vertex.id edge) log (others.map Instance.id)
  idsOfType : ∀ label, Chronological (fun id => Carries id label) log (store.idsOfType label)
  labels : ∀ vertex ∈ store.instances,
    Chronological (Carries vertex.id) log vertex.labels.toList
  edgeTypes : ∀ vertex ∈ store.instances,
    Chronological (fun edge log => ∃ other, Linked vertex.id edge other log) log vertex.edgeTypes
  carried : Chronological (fun label log => ∃ id, Carries id label log) log store.labels

namespace Sound

theorem entryOf_registry (sound : store.Sound) {vertex : Instance}
    (inside : vertex ∈ store.instances) :
    store.registry.entryOf vertex.id = vertex.entry store.nameOf :=
  Registry.entryOf_of_found (sound.find?_of_live (sound.mem_instances_iff.mp inside))

/-- The ids of the neighbours, read off the registry. -/
theorem ids_neighbors (sound : store.Sound) {vertex : Instance} (inside : vertex ∈ store.instances)
    (edge : Label) :
    ∃ others, store.neighbors vertex.id edge = .ok others ∧
      others.map Instance.id =
        (Groups.members (store.registry.entryOf vertex.id).links edge).toList := by
  have live := sound.mem_instances_iff.mp inside
  have seen := sound.neighbors_registry vertex.id edge
  rw [sound.neighbors_of_live live, Registry.neighbors, sound.find?_of_live live] at seen
  refine ⟨_, sound.neighbors_of_live live edge, ?_⟩
  rw [sound.entryOf_registry inside]
  exact Except.ok.inj seen

/-- A store lists what its registry lists. -/
theorem chronicled (sound : store.Sound) (recounts : store.registry.Recounts log) :
    store.Chronicled log where
  neighbors := by
    intro vertex inside edge
    obtain ⟨others, reached, ids⟩ := sound.ids_neighbors inside edge
    exact ⟨others, reached, ids ▸ (recounts.links vertex.id).members edge⟩
  idsOfType := by
    intro label
    rw [sound.idsOfType_registry]
    exact recounts.byType.members label
  labels := by
    intro vertex inside
    have own := recounts.labels vertex.id
    rw [sound.entryOf_registry inside] at own
    exact own
  edgeTypes := by
    intro vertex inside
    have kinds := (recounts.links vertex.id).keys
    rw [sound.entryOf_registry inside, Instance.entry, Groups.keys_rename] at kinds
    exact kinds
  carried := by
    have listed : store.labels = store.registry.byType.keys :=
      (Groups.keys_rename store.nameOf store.byType).symm
    rw [listed]
    exact recounts.byType.keys

end Sound

/-- What a store contains after a run of edits, and in which order, is told by the chronicle of the
run. -/
theorem chronicled_of_run {edits : List Edit} (fits : empty.Fits edits) :
    (empty.run edits).Chronicled (empty.chronicle edits) := by
  obtain ⟨answers, same⟩ := sound_empty.registry_run fits
  have recounts := Registry.recounts_empty.run edits
  rw [List.nil_append, ← registry_empty, ← answers, Edit.chronicle_map, ← same] at recounts
  exact (sound_empty.run fits).chronicled recounts

/-- A run in which links and labels are made twice, undone and made again, an instance is linked to
itself, and another one leaves and comes back. -/
def mending : List Edit :=
  [.add "ada" ["guest", "person", "guest"] none, .add "bob" ["person"] none,
    .add "eve" ["host"] none, .link "ada" "knows" "ada", .link "bob" "knows" "ada",
    .link "ada" "likes" "eve", .link "ada" "knows" "eve", .link "ada" "knows" "bob",
    .link "ada" "knows" "tom", .unlink "ada" "knows" "bob", .unlink "ada" "likes" "eve",
    .link "ada" "knows" "bob", .link "eve" "likes" "ada", .removeLabel "ada" "guest",
    .remove "eve", .add "eve" ["person", "host"] none, .addLabel "ada" "guest",
    .link "eve" "knows" "ada"]

theorem chronicled_mending :
    empty.Fits mending ∧ (empty.run mending).Chronicled (empty.chronicle mending) ∧
      ((empty.run mending).neighbors "ada" "knows").map (·.map Instance.id) =
        .ok ["ada", "bob", "eve"] ∧
      (empty.run mending).labels = ["person", "host", "guest"] :=
  have fits := fits_of_length_le (by decide)
  ⟨fits, chronicled_of_run fits, by decide, by decide⟩

end Store

end LinkAtlas
