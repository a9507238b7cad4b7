import LinkAtlas.Proofs.Answers
import LinkAtlas.Proofs.Branches

/-!
# Additions only extend what was seen

Edits that only bring something in leave all that was there where it was. Every list grows at its
end, and a forest is found again inside the later one: its roots are the first roots there, and
below each of them new children may stand between the old ones and new groups before them.
-/

namespace LinkAtlas

/-- A list is found again, member by member, at the beginning of another one. -/
def Begins {α β : Type} (related : α → β → Prop) (members : List α) (longer : List β) : Prop :=
  ∃ first later, longer = first ++ later ∧ List.Forall₂ related members first

section Lists

variable {α β γ δ : Type} {related : α → β → Prop}

theorem Begins.map {further : γ → δ → Prop} {one : α → γ} {other : β → δ}
    {members : List α} {longer : List β} (begins : Begins related members longer)
    (carries : ∀ member counterpart, related member counterpart →
      further (one member) (other counterpart)) :
    Begins further (members.map one) (longer.map other) := by
  obtain ⟨first, later, rfl, matched⟩ := begins
  refine ⟨first.map other, later.map other, List.map_append, ?_⟩
  rw [List.forall₂_map_left_iff, List.forall₂_map_right_iff]
  exact matched.imp carries

theorem Begins.prefix_map {one : α → γ} {other : β → γ} {members : List α} {longer : List β}
    (begins : Begins related members longer)
    (same : ∀ member counterpart, related member counterpart → one member = other counterpart) :
    members.map one <+: longer.map other := by
  obtain ⟨first, later, rfl, matched⟩ := begins
  have alike : members.map one = first.map other := by
    rw [← List.forall₂_eq_eq_eq, List.forall₂_map_left_iff, List.forall₂_map_right_iff]
    exact matched.imp same
  rw [alike, List.map_append]
  exact List.prefix_append _ _

theorem Begins.sublist {members : List α} {longer : List β}
    (begins : Begins related members longer) : List.SublistForall₂ related members longer := by
  obtain ⟨first, later, rfl, matched⟩ := begins
  exact List.sublistForall₂_iff.mpr ⟨first, matched, List.sublist_append_left _ _⟩

theorem sublistForall₂_append {first second : List α} {one other : List β}
    (left : List.SublistForall₂ related first one)
    (right : List.SublistForall₂ related second other) :
    List.SublistForall₂ related (first ++ second) (one ++ other) := by
  rw [List.sublistForall₂_iff] at left right ⊢
  obtain ⟨chosen, matched, part⟩ := left
  obtain ⟨picked, paired, piece⟩ := right
  exact ⟨chosen ++ picked, List.rel_append matched paired, part.append piece⟩

end Lists

namespace Projection

/-- A projection is found again in another one: it is a copy of the same instance, which may have
got further labels, and the children in each of its groups occur in their order among the children
that the same kind of link leads to there. -/
inductive Embeds : Projection → Projection → Prop where
  | intro {old new : Projection} (edgeType : new.edgeType = old.edgeType) (id : new.id = old.id)
      (value : new.value = old.value) (source : new.source = old.source)
      (labels : old.labels <+: new.labels)
      (below : ∀ group ∈ old.links,
        List.SublistForall₂ Embeds group.2 (new.children group.1)) : Embeds old new

end Projection

/-! ## Instances and stores that grow -/

/-- What may have become of an instance when something was added. -/
structure Instance.Grows (vertex grown : Instance) : Prop where
  handle : grown.handle = vertex.handle
  id : grown.id = vertex.id
  value : grown.value = vertex.value
  labels : vertex.labels.toList <+: grown.labels.toList
  targets : ∀ edge, (vertex.targets edge).toList <+: (grown.targets edge).toList

namespace Instance.Grows

variable {vertex grown last : Instance}

theorem refl (vertex : Instance) : vertex.Grows vertex :=
  ⟨rfl, rfl, rfl, List.prefix_rfl, fun _ => List.prefix_rfl⟩

theorem trans (first : vertex.Grows grown) (second : grown.Grows last) : vertex.Grows last where
  handle := second.handle.trans first.handle
  id := second.id.trans first.id
  value := second.value.trans first.value
  labels := first.labels.trans second.labels
  targets edge := (first.targets edge).trans (second.targets edge)

end Instance.Grows

theorem Roster.prefix_add {α : Type} [DecidableEq α] (roster : Roster α) (newcomer : α) :
    roster.toList <+: (roster.add newcomer).toList := by
  rw [toList_add]
  split
  · exact List.prefix_rfl
  · exact List.prefix_append _ _

theorem Groups.prefix_add {α : Type} [DecidableEq α] {groups : Groups α}
    (distinct : Ledger.Distinct groups) (label : Label) (newcomer : α) (other : Label) :
    (members groups other).toList <+: (members (groups.add label newcomer) other).toList := by
  rw [members_add distinct]
  split
  · rename_i same
    rw [same]
    exact Roster.prefix_add _ _
  · exact List.prefix_rfl

namespace Store

/-- A store has grown into another one: whoever was present is so still, under the same handle, and
the carriers of a label have not changed places. -/
structure Extends (before after : Store) : Prop where
  resolve : ∀ handle vertex, before.resolve handle = some vertex →
    ∃ grown, after.resolve handle = some grown ∧ vertex.Grows grown
  carriers : ∀ label,
    (Groups.members before.byType label).toList <+: (Groups.members after.byType label).toList

theorem Extends.refl (store : Store) : Extends store store :=
  ⟨fun _ vertex live => ⟨vertex, live, .refl vertex⟩, fun _ => List.prefix_rfl⟩

theorem Extends.trans {before between after : Store} (first : Extends before between)
    (second : Extends between after) : Extends before after where
  resolve := by
    intro handle vertex live
    obtain ⟨grown, held, more⟩ := first.resolve handle vertex live
    obtain ⟨last, kept, further⟩ := second.resolve handle grown held
    exact ⟨last, kept, more.trans further⟩
  carriers label := (first.carriers label).trans (second.carriers label)

variable {store : Store}

/-- A revision that only adds to instances, together with an index that only got longer. -/
theorem extends_revise {change : Instance → Instance} {types : Groups Handle}
    (grows : ∀ handle vertex, store.resolve handle = some vertex → vertex.Grows (change vertex))
    (carriers : ∀ label,
      (Groups.members store.byType label).toList <+: (Groups.members types label).toList) :
    Extends store { store.revise change with byType := types } where
  resolve := by
    intro handle vertex live
    refine ⟨change vertex, (resolve_revise store change handle).trans ?_, grows handle vertex live⟩
    rw [live]
    rfl
  carriers := carriers

theorem grows_relabel (handle : Handle) (label : Label) (vertex : Instance) :
    vertex.Grows (relabel handle (·.add label) vertex) := by
  unfold relabel
  split
  · exact ⟨rfl, rfl, rfl, Roster.prefix_add _ _, fun _ => List.prefix_rfl⟩
  · exact .refl vertex

theorem grows_link {vertex : Instance} (distinct : Ledger.Distinct vertex.links) (edge : Label)
    (target : Handle) : vertex.Grows (vertex.link edge target) :=
  ⟨rfl, rfl, rfl, List.prefix_rfl, Groups.prefix_add distinct edge target⟩

theorem grows_tie {vertex : Instance} (neat : Groups.Neat vertex.links) (first : Handle)
    (edge : Label) (second : Handle) : vertex.Grows (tie first edge second vertex) := by
  unfold tie
  dsimp only
  split <;> split
  · have forward := grows_link neat.distinct edge second
    have again : Groups.Neat (vertex.link edge second).links := neat.add edge second
    exact forward.trans (grows_link again.distinct edge first)
  · exact grows_link neat.distinct edge first
  · exact grows_link neat.distinct edge second
  · exact .refl vertex

theorem Sound.extends_enrolled (sound : store.Sound) (bound : store.size < capacity)
    {newcomer : Instance} (own : newcomer.handle = store.allocate.1) :
    Extends store (store.enrolled newcomer) where
  resolve := fun handle vertex live =>
    ⟨vertex, (sound.resolve_enrolled_eq_some_iff bound own).mpr (Or.inr live), .refl vertex⟩
  carriers := by
    intro label
    have absent : newcomer.handle ∉ Groups.members store.byType label := by
      intro listed
      obtain ⟨vertex, live, -⟩ := (sound.carriers label _).mp listed
      rw [own, sound.housed.resolve_allocate (sound.room bound)] at live
      cases live
    rw [byType_enrolled, Groups.toList_members_enter sound.types_neat absent]
    exact List.prefix_append _ _

/-- One addition extends a store. -/
theorem Sound.extends_perform (sound : store.Sound) {edit : Edit} (additive : edit.Additive)
    (bound : (store.perform edit).2.size ≤ capacity) : Extends store (store.perform edit).2 := by
  have change := sound.change edit
  generalize (store.perform edit).1 = answer, (store.perform edit).2 = after at bound change ⊢
  cases change with
  | refused => exact .refl store
  | idle => exact .refl store
  | @enrolled id absent labels value =>
      have grown : (store.enrolled (store.newcomer id labels value)).size = store.size + 1 :=
        sound.size_enrolled absent
      exact sound.extends_enrolled (by omega) rfl
  | labelled live fresh =>
      exact extends_revise (fun _ vertex _ => grows_relabel _ _ vertex)
        (Groups.prefix_add sound.types_neat.distinct _ _)
  | tied one two edge =>
      exact extends_revise (fun _ _ live => grows_tie (sound.neat live) _ _ _)
        fun _ => List.prefix_rfl
  | evicted | unlabelled | severed | cleared => exact additive.elim

/-- A run of additions extends a store. -/
theorem Sound.extends_run (sound : store.Sound) {edits : List Edit}
    (additive : ∀ edit ∈ edits, edit.Additive) (fits : store.Fits edits) :
    Extends store (store.run edits) := by
  induction edits using List.reverseRecOn with
  | nil => exact .refl store
  | append_singleton edits edit ih =>
      have earlier := fits.of_prefix (List.prefix_append edits [edit])
      have bound := fits _ List.prefix_rfl
      rw [run_concat] at bound ⊢
      have whole :=
        ih (fun member listed => additive member (List.mem_append_left _ listed)) earlier
      have last := additive edit (List.mem_append_right _ List.mem_cons_self)
      exact whole.trans ((sound.run earlier).extends_perform last bound)

/-! ## What is seen of a store that grows -/

variable {before after : Store}

/-- An instance that was present before, and what has become of it. -/
structure Kept (before after : Store) (vertex grown : Instance) : Prop where
  live : before.resolve vertex.handle = some vertex
  held : after.resolve vertex.handle = some grown
  grows : vertex.Grows grown

/-- The instances behind handles that all were present before. -/
theorem Extends.kept_resolve (extension : Extends before after) (sound : before.Sound)
    {handles longer : List Handle} (initial : handles <+: longer)
    (present : ∀ handle ∈ handles, ∃ vertex, before.resolve handle = some vertex) :
    Begins (Kept before after) (handles.filterMap before.resolve)
      (longer.filterMap after.resolve) := by
  obtain ⟨later, rfl⟩ := initial
  refine ⟨handles.filterMap after.resolve, later.filterMap after.resolve, List.filterMap_append, ?_⟩
  induction handles with
  | nil => exact .nil
  | cons handle rest ih =>
      obtain ⟨vertex, live⟩ := present handle List.mem_cons_self
      obtain ⟨grown, held, grows⟩ := extension.resolve handle vertex live
      have own := sound.handle_eq live
      have others := ih fun other listed => present other (List.mem_cons_of_mem _ listed)
      rw [List.filterMap_cons_some live, List.filterMap_cons_some held]
      exact .cons ⟨own.symm ▸ live, own.symm ▸ held, grows⟩ others

theorem Extends.kept_reach (extension : Extends before after) (sound : before.Sound)
    {vertex grown : Instance} (kept : Kept before after vertex grown) (edge : Label) :
    Begins (Kept before after) (before.reach vertex edge) (after.reach grown edge) :=
  extension.kept_resolve sound (kept.grows.targets edge)
    fun _ linked => sound.resolve_of_mem_targets kept.live linked

theorem Extends.kept_ofType (extension : Extends before after) (sound : before.Sound)
    (label : Label) : Begins (Kept before after) (before.ofType label) (after.ofType label) := by
  rw [ofType_eq, ofType_eq]
  refine extension.kept_resolve sound (extension.carriers label) fun handle listed => ?_
  obtain ⟨bearer, live, -⟩ := (sound.carriers label handle).mp listed
  exact ⟨bearer, live⟩

mutual

/-- The projection of an instance is found again in the projection of what has become of it. -/
theorem Extends.embeds_trace (extension : Extends before after) (sound : before.Sound) :
    ∀ (tree : QueryTree) (vertex grown : Instance), Kept before after vertex grown →
      Projection.Embeds (tree.trace before vertex) (tree.trace after grown)
  | ⟨label, children⟩, vertex, grown, kept => by
      refine .intro ?_ ?_ ?_ ?_ ?_ fun group entered => ?_
      · rw [QueryTree.edgeType_trace, QueryTree.edgeType_trace]
      · rw [QueryTree.trace_eq, QueryTree.trace_eq]
        exact kept.grows.id
      · rw [QueryTree.trace_eq, QueryTree.trace_eq]
        exact kept.grows.value
      · rw [QueryTree.source_trace, QueryTree.source_trace]
        exact kept.grows.handle
      · rw [QueryTree.trace_eq, QueryTree.trace_eq]
        exact kept.grows.labels
      · rw [QueryTree.trace_eq] at entered
        rw [eq_of_mem_gather entered, QueryTree.children_trace]
        exact extension.embeds_traceAll sound children vertex grown group.1 kept

theorem Extends.embeds_traceAll (extension : Extends before after) (sound : before.Sound) :
    ∀ (trees : List QueryTree) (vertex grown : Instance) (edge : Label),
      Kept before after vertex grown →
      List.SublistForall₂ Projection.Embeds (QueryTree.traceAll before trees vertex edge)
        (QueryTree.traceAll after trees grown edge)
  | [], _, _, _, _ => .nil
  | tree :: rest, vertex, grown, edge, kept => by
      have behind := extension.embeds_traceAll sound rest vertex grown edge kept
      rw [QueryTree.traceAll_cons, QueryTree.traceAll_cons]
      -- siblings with one label share a group, so what is new below the first of them stands
      -- before what is old below the others: the old ones are no beginning of the group
      refine sublistForall₂_append ?_ behind
      split
      · have reached := extension.kept_reach sound kept edge
        exact Begins.sublist <|
          reached.map fun next further => extension.embeds_trace sound tree next further
      · exact .nil

end

/-- What is seen of a store, as far as it was seen of an earlier one, is there in the same order. -/
structure Continues (earlier later : Store) : Prop where
  idsOfType : ∀ label, earlier.idsOfType label <+: later.idsOfType label
  neighbors : ∀ id, earlier.Present id → ∀ edge, ∃ others more,
    earlier.neighbors id edge = .ok others ∧ later.neighbors id edge = .ok more ∧
      others.map Instance.id <+: more.map Instance.id
  forests : ∀ path tree, QueryTree.compile path = .ok tree → ∃ forest larger,
    earlier.query path = .ok forest ∧ later.query path = .ok larger ∧
      Begins Projection.Embeds forest larger

theorem Extends.continues (extension : Extends before after) (sound : before.Sound)
    (safe : after.Sound) : Continues before after where
  idsOfType label := (extension.kept_ofType sound label).prefix_map
    fun _ _ kept => kept.grows.id.symm
  neighbors := by
    intro id present edge
    obtain ⟨vertex, found⟩ := sound.present_iff.mp present
    obtain ⟨live, rfl⟩ := sound.find?_eq_some_iff.mp found
    obtain ⟨grown, held, grows⟩ := extension.resolve _ vertex live
    have kept : Kept before after vertex grown := ⟨live, held, grows⟩
    have alive : after.resolve grown.handle = some grown := grows.handle.symm ▸ held
    refine ⟨_, _, sound.neighbors_of_live live edge, grows.id ▸ safe.neighbors_of_live alive edge,
      ?_⟩
    exact (extension.kept_reach sound kept edge).prefix_map fun _ _ kept => kept.grows.id.symm
  forests := by
    intro path tree compiles
    rw [query_eq, query_eq, compiles]
    refine ⟨_, _, rfl, rfl, ?_⟩
    exact (extension.kept_ofType sound tree.label).map fun vertex grown =>
      extension.embeds_trace sound tree vertex grown

/-- Whatever was seen in some state of a run is seen in the same order after any further edits that
only add, whether they succeed or not: carriers and neighbours are followed by new ones, and every
forest is found again inside the later one, with its roots in front. -/
theorem continues_of_additions {start : Store} (origin : Origin start) {edits additions : List Edit}
    (fits : start.Fits (edits ++ additions)) (additive : ∀ edit ∈ additions, edit.Additive) :
    Continues (start.run edits) ((start.run edits).run additions) := by
  have sound := origin.sound_run (fits.of_prefix (List.prefix_append edits additions))
  have extension := sound.extends_run additive fits.of_append
  exact extension.continues sound (sound.run fits.of_append)

/-- Additions of which the last but one fails. The host gets a link of a new kind, and a newcomer
comes between the links that were there. -/
def welcome : List Edit :=
  [.addLabel "ada" "member", .link "ada" "likes" "bob", .add "eve" ["person"] none,
    .link "eve" "knows" "ada", .add "bob" ["person"] none, .link "bob" "knows" "eve"]

theorem continues_welcome :
    empty.Fits (returning ++ welcome) ∧ (∀ edit ∈ welcome, edit.Additive) ∧
      Continues (empty.run returning) ((empty.run returning).run welcome) := by
  have fits : empty.Fits (returning ++ welcome) := fits_of_length_le (by decide)
  have additive : ∀ edit ∈ welcome, edit.Additive := by
    simp [welcome, Edit.Additive]
  exact ⟨fits, additive, continues_of_additions .empty fits additive⟩

end Store

end LinkAtlas
