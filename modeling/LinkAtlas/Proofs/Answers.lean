import LinkAtlas.Proofs.InPlace
import LinkAtlas.Proofs.LinkIntegrity
import LinkAtlas.Proofs.Refinement

/-!
# Answers tell the truth

An edit is turned down exactly if an id in it is missing, or taken already, and then nothing in the
store has changed. An edit that says it changed nothing leaves the same store behind, down to every
slot and the order of every list; and an edit that leaves the same store behind says so.
-/

namespace LinkAtlas

theorem Instance.link_eq_self {vertex : Instance} (neat : Groups.Neat vertex.links) {edge : Label}
    {target : Handle} (linked : target ∈ vertex.targets edge) :
    vertex.link edge target = vertex := by
  unfold Instance.link
  rw [Links.link_eq_add, Groups.add_of_mem neat linked]

/-- The id of the instance that an edit concerns, if it is one that has to be present. -/
def Edit.subject? : Edit → Option InstanceId
  | .remove id | .addLabel id _ | .removeLabel id _ | .unlinkAll id _ => some id
  | .add .. | .link .. | .unlink .. => none

namespace Store

variable {store : Store}

/-- An instance with this id is in some slot. -/
def Present (store : Store) (id : InstanceId) : Prop := id ∈ store.instances.map Instance.id

/-! ## Who is found -/

namespace Sound

theorem present_iff (sound : store.Sound) {id : InstanceId} :
    store.Present id ↔ ∃ vertex, store.find? id = some vertex := by
  rw [Present, List.mem_map]
  constructor
  · rintro ⟨vertex, inside, rfl⟩
    exact ⟨vertex, sound.find?_eq_some_iff.mpr ⟨sound.mem_instances_iff.mp inside, rfl⟩⟩
  · rintro ⟨vertex, found⟩
    obtain ⟨live, named⟩ := sound.find?_eq_some_iff.mp found
    exact ⟨vertex, sound.mem_instances_iff.mpr live, named⟩

theorem not_present_iff (sound : store.Sound) {id : InstanceId} :
    ¬ store.Present id ↔ store.find? id = none := by
  rw [sound.present_iff, not_exists, Option.eq_none_iff_forall_ne_some]

/-! ## Edits that are turned down -/

theorem perform_eq_error_iff (sound : store.Sound) {edit : Edit} {reason : GraphError} :
    (store.perform edit).1 = .error reason ↔ Refused store edit reason := by
  constructor
  · intro failed
    have change := sound.change edit
    generalize (store.perform edit).1 = answer, (store.perform edit).2 = after at failed change
    subst failed
    cases change with
    | refused refused => exact refused
  · intro refused
    cases refused with
    | add found labels value => simp only [Store.perform, sound.add_of_present found, Except.map]
    | remove absent => simp only [Store.perform, sound.remove_of_absent absent, Except.map]
    | addLabel absent label =>
        simp only [Store.perform, sound.addLabel_of_absent absent, Except.map]
    | removeLabel absent label =>
        simp only [Store.perform, sound.removeLabel_of_absent absent, Except.map]
    | source absent edge target =>
        simp only [Store.perform, sound.link_of_source_absent absent, Except.map]
    | target found absent edge =>
        simp only [Store.perform, sound.link_of_target_absent found absent, Except.map]
    | unlinkAll absent edge =>
        simp only [Store.perform, sound.unlinkAll_of_absent absent, Except.map]

theorem perform_of_error (sound : store.Sound) {edit : Edit} {reason : GraphError}
    (failed : (store.perform edit).1 = .error reason) :
    store.perform edit = (.error reason, store) := by
  have change := sound.change edit
  refine Prod.ext failed ?_
  generalize (store.perform edit).1 = answer, (store.perform edit).2 = after at failed change ⊢
  subst failed
  cases change with
  | refused refused => rfl

end Sound

/-! ## Edits that change nothing -/

/-- A revision that leaves the store as it is leaves every instance as it is. -/
theorem fixed_of_revise_eq {change : Instance → Instance} {types : Groups Handle}
    (same : ({ store.revise change with byType := types } : Store) = store) {handle : Handle}
    {vertex : Instance} (live : store.resolve handle = some vertex) : change vertex = vertex := by
  have revised : ({ store.revise change with byType := types } : Store).resolve handle =
      (store.resolve handle).map change := resolve_revise store change handle
  rw [same, live] at revised
  exact (Option.some.inj revised).symm

theorem labelled_ne {bearer : Instance}
    (live : store.resolve bearer.handle = some bearer) {label : Label}
    (fresh : label ∉ bearer.labels) : store.labelled bearer.handle label ≠ store := by
  intro same
  have fixed := congrArg Instance.labels (fixed_of_revise_eq same live)
  rw [Store.relabel, if_pos rfl] at fixed
  exact fresh (fixed ▸ Roster.mem_add.mpr (Or.inr rfl))

theorem unlabelled_ne {bearer : Instance}
    (live : store.resolve bearer.handle = some bearer) {label : Label}
    (carried : label ∈ bearer.labels) : store.unlabelled bearer.handle label ≠ store := by
  intro same
  have fixed := congrArg Instance.labels (fixed_of_revise_eq same live)
  rw [Store.relabel, if_pos rfl] at fixed
  rw [← fixed] at carried
  exact (Roster.mem_remove.mp carried).1 rfl

namespace Sound

/-- Cutting links changes nothing exactly if none of them is there. -/
theorem revise_trim_eq_self_iff (sound : store.Sound) {gone : Handle → Label → Handle → Bool} :
    store.revise (Instance.trim gone) = store ↔
      ∀ handle vertex edge target, store.resolve handle = some vertex →
        target ∈ vertex.targets edge → gone handle edge target = false := by
  constructor
  · intro same handle vertex edge target live linked
    have fixed : vertex.trim gone = vertex := fixed_of_revise_eq same live
    rw [← fixed] at linked
    rw [← sound.handle_eq live]
    exact ((Instance.mem_targets_trim (sound.neat live) gone).mp linked).2
  · intro stays
    refine sound.housed.revise_eq_self fun handle vertex live => ?_
    refine Instance.trim_eq_self (sound.neat live) fun edge target linked => ?_
    rw [sound.handle_eq live]
    exact stays _ _ _ _ live linked

theorem severed_eq_self_iff (sound : store.Sound) {vertex other : Instance}
    (one : store.resolve vertex.handle = some vertex) (edge : Label) :
    store.revise (Instance.trim (between vertex.handle edge other.handle)) = store ↔
      other.handle ∉ vertex.targets edge := by
  rw [sound.revise_trim_eq_self_iff]
  constructor
  · intro stays linked
    have cut := stays _ _ _ _ one linked
    rw [between_first.mpr ⟨rfl, rfl⟩] at cut
    cases cut
  · intro apart handle holder kind target live linked
    rw [Bool.eq_false_iff]
    intro cut
    simp only [between, Bool.and_eq_true, Bool.or_eq_true, decide_eq_true_eq] at cut
    obtain ⟨rfl, ⟨rfl, rfl⟩ | ⟨rfl, rfl⟩⟩ := cut
    · rw [one] at live
      cases live
      exact apart linked
    · exact apart ((sound.mem_targets_comm live one _).mp linked)

theorem cleared_eq_self_iff (sound : store.Sound) {holder : Instance}
    (present : store.resolve holder.handle = some holder) (edge : Label) :
    store.revise (Instance.trim (touching holder.handle edge)) = store ↔
      (holder.targets edge).size = 0 := by
  have none : (holder.targets edge).size = 0 ↔ ∀ target, target ∉ holder.targets edge := by
    rw [Roster.size, List.length_eq_zero_iff, List.eq_nil_iff_forall_not_mem]
    rfl
  rw [sound.revise_trim_eq_self_iff, none]
  constructor
  · intro stays target linked
    have cut := stays _ _ _ _ present linked
    simp [touching] at cut
  · intro apart handle vertex kind target live linked
    rw [Bool.eq_false_iff]
    intro cut
    simp only [touching, Bool.and_eq_true, Bool.or_eq_true, decide_eq_true_eq] at cut
    obtain ⟨rfl, rfl | rfl⟩ := cut
    · rw [present] at live
      cases live
      exact apart _ linked
    · exact apart _ ((sound.mem_targets_comm live present _).mp linked)

/-- A link that is there is not made again. -/
theorem tied_eq_self (sound : store.Sound) {vertex other : Instance}
    (one : store.resolve vertex.handle = some vertex)
    (two : store.resolve other.handle = some other) {edge : Label}
    (linked : other.handle ∈ vertex.targets edge) :
    store.revise (tie vertex.handle edge other.handle) = store := by
  have back := (sound.mem_targets_comm one two edge).mp linked
  refine sound.housed.revise_eq_self fun handle start live => ?_
  have own := sound.handle_eq live
  have forth : (if start.handle = vertex.handle then start.link edge other.handle else start) =
      start := by
    split
    · rename_i here
      rw [own] at here
      rw [here, one] at live
      cases live
      exact Instance.link_eq_self (sound.neat one) linked
    · rfl
  unfold tie
  dsimp only
  rw [forth]
  split
  · rename_i there
    rw [own] at there
    rw [there, two] at live
    cases live
    exact Instance.link_eq_self (sound.neat two) back
  · rfl

end Sound

/-! ## Links between ids -/

theorem find?_revise (store : Store) (change : Instance → Instance) (id : InstanceId) :
    (store.revise change).find? id = (store.find? id).map change := by
  unfold find?
  rw [resolve_revise_eq, Option.map_bind]
  rfl

namespace Sound

theorem hasLink_iff (sound : store.Sound) {source target : InstanceId} {edge : Label} :
    store.hasLink source edge target = true ↔
      ∃ vertex other, store.find? source = some vertex ∧ store.find? target = some other ∧
        other.handle ∈ vertex.targets edge := by
  rw [hasLink, sound.get?_byId]
  cases store.find? source with
  | none => simp
  | some vertex =>
      cases store.find? target with
      | none => simp
      | some other => simp [Instance.hasLink]

/-- A new link is seen from both ends, and all others are as they were. -/
theorem hasLink_tied (sound : store.Sound) {vertex other : Instance}
    (one : store.resolve vertex.handle = some vertex)
    (two : store.resolve other.handle = some other) (edge kind : Label)
    (source target : InstanceId) :
    (store.revise (tie vertex.handle edge other.handle)).hasLink source kind target = true ↔
      store.hasLink source kind target = true ∨ kind = edge ∧
        (source = vertex.id ∧ target = other.id ∨ source = other.id ∧ target = vertex.id) := by
  have handles (start : Instance) :
      (tie vertex.handle edge other.handle start).handle = start.handle := by rw [tie_eq]
  rw [sound.hasLink_iff, (sound.tied one two edge).hasLink_iff]
  simp only [find?_revise, Option.map_eq_some_iff]
  constructor
  · rintro ⟨_, _, ⟨first, found, rfl⟩, ⟨second, reached, rfl⟩, linked⟩
    obtain ⟨live, rfl⟩ := sound.find?_eq_some_iff.mp found
    obtain ⟨present, rfl⟩ := sound.find?_eq_some_iff.mp reached
    rw [handles, mem_targets_tie (sound.neat live)] at linked
    rw [sound.id_eq_iff live one, sound.id_eq_iff live two, sound.id_eq_iff present one,
      sound.id_eq_iff present two]
    exact linked.imp_left fun before => ⟨first, second, found, reached, before⟩
  · rintro (⟨first, second, found, reached, before⟩ | ⟨rfl, ⟨rfl, rfl⟩ | ⟨rfl, rfl⟩⟩)
    · obtain ⟨live, -⟩ := sound.find?_eq_some_iff.mp found
      refine ⟨_, _, ⟨first, found, rfl⟩, ⟨second, reached, rfl⟩, ?_⟩
      rw [handles, mem_targets_tie (sound.neat live)]
      exact Or.inl before
    · refine ⟨_, _, ⟨vertex, sound.find?_eq_some_iff.mpr ⟨one, rfl⟩, rfl⟩,
        ⟨other, sound.find?_eq_some_iff.mpr ⟨two, rfl⟩, rfl⟩, ?_⟩
      rw [handles, mem_targets_tie (sound.neat one)]
      exact Or.inr ⟨rfl, Or.inl ⟨rfl, rfl⟩⟩
    · refine ⟨_, _, ⟨other, sound.find?_eq_some_iff.mpr ⟨two, rfl⟩, rfl⟩,
        ⟨vertex, sound.find?_eq_some_iff.mpr ⟨one, rfl⟩, rfl⟩, ?_⟩
      rw [handles, mem_targets_tie (sound.neat two)]
      exact Or.inr ⟨rfl, Or.inr ⟨rfl, rfl⟩⟩

end Sound

/-! ## Who is turned down -/

namespace Sound

theorem refused_add_iff (sound : store.Sound) {id : InstanceId} {labels : List Label}
    {value : Option Scalar} {reason : GraphError} :
    Refused store (.add id labels value) reason ↔
      store.Present id ∧ reason = .duplicateId id := by
  rw [sound.present_iff]
  constructor
  · intro refused
    cases refused with
    | add found => exact ⟨⟨_, found⟩, rfl⟩
  · rintro ⟨⟨vertex, found⟩, rfl⟩
    exact .add found labels value

/-- Edits that concern one instance are turned down exactly if it is missing. -/
theorem refused_subject_iff (sound : store.Sound) {edit : Edit} {id : InstanceId}
    (subject : edit.subject? = some id) {reason : GraphError} :
    Refused store edit reason ↔ ¬ store.Present id ∧ reason = .unknownInstance id := by
  rw [sound.not_present_iff]
  constructor
  · intro refused
    cases refused with
    | remove absent | addLabel absent | removeLabel absent | unlinkAll absent =>
        cases subject
        exact ⟨absent, rfl⟩
    | add | source | target => cases subject
  · rintro ⟨absent, rfl⟩
    cases edit with
    | remove => cases subject; exact .remove absent
    | addLabel _ label => cases subject; exact .addLabel absent label
    | removeLabel _ label => cases subject; exact .removeLabel absent label
    | unlinkAll _ edge => cases subject; exact .unlinkAll absent edge
    | add | link | unlink => cases subject

theorem refused_link_iff (sound : store.Sound) {source target : InstanceId} {edge : Label}
    {reason : GraphError} :
    Refused store (.link source edge target) reason ↔
      ¬ store.Present source ∧ reason = .unknownInstance source ∨
        store.Present source ∧ ¬ store.Present target ∧ reason = .unknownInstance target := by
  rw [sound.not_present_iff, sound.not_present_iff, sound.present_iff]
  constructor
  · intro refused
    cases refused with
    | source absent edge target => exact Or.inl ⟨absent, rfl⟩
    | target found absent edge => exact Or.inr ⟨⟨_, found⟩, absent, rfl⟩
  · rintro (⟨absent, rfl⟩ | ⟨⟨vertex, found⟩, absent, rfl⟩)
    · exact .source absent edge target
    · exact .target found absent edge

end Sound

/-! ## What the answers say -/

/-- The edit is carried out, and it answers that nothing has changed exactly if nothing has. -/
def Flags (store : Store) (edit : Edit) : Prop :=
  ∃ changed, (store.perform edit).1 = .ok (.flag changed) ∧
    (changed = false ↔ (store.perform edit).2 = store)

namespace Sound

theorem flags_addLabel (sound : store.Sound) {id : InstanceId} (present : store.Present id)
    (label : Label) : store.Flags (.addLabel id label) := by
  have change := sound.change_addLabel id label
  unfold Flags
  generalize (store.perform (.addLabel id label)).1 = answer,
    (store.perform (.addLabel id label)).2 = after at change ⊢
  cases change with
  | refused refused => exact absurd present ((sound.refused_subject_iff rfl).mp refused).1
  | idle => exact ⟨false, rfl, iff_of_true rfl rfl⟩
  | labelled live fresh =>
      exact ⟨true, rfl, iff_of_false Bool.noConfusion (labelled_ne live fresh)⟩

theorem flags_removeLabel (sound : store.Sound) {id : InstanceId} (present : store.Present id)
    (label : Label) : store.Flags (.removeLabel id label) := by
  have change := sound.change_removeLabel id label
  unfold Flags
  generalize (store.perform (.removeLabel id label)).1 = answer,
    (store.perform (.removeLabel id label)).2 = after at change ⊢
  cases change with
  | refused refused => exact absurd present ((sound.refused_subject_iff rfl).mp refused).1
  | idle => exact ⟨false, rfl, iff_of_true rfl rfl⟩
  | unlabelled live carried =>
      exact ⟨true, rfl, iff_of_false Bool.noConfusion (unlabelled_ne live carried)⟩

/-- Cutting a link is never turned down. -/
theorem flags_unlink (sound : store.Sound) (source : InstanceId) (edge : Label)
    (target : InstanceId) : store.Flags (.unlink source edge target) := by
  have change := sound.change_unlink source edge target
  unfold Flags
  generalize (store.perform (.unlink source edge target)).1 = answer,
    (store.perform (.unlink source edge target)).2 = after at change ⊢
  cases change with
  | refused refused => cases refused
  | idle => exact ⟨false, rfl, iff_of_true rfl rfl⟩
  | severed one two =>
      refine ⟨_, rfl, ?_⟩
      rw [sound.severed_eq_self_iff one, Instance.hasLink, decide_eq_false_iff_not]

theorem counts_unlinkAll (sound : store.Sound) {id : InstanceId} (present : store.Present id)
    (edge : Label) :
    ∃ links, (store.perform (.unlinkAll id edge)).1 = .ok (.count links) ∧
      (links = 0 ↔ (store.perform (.unlinkAll id edge)).2 = store) := by
  have change := sound.change_unlinkAll id edge
  generalize (store.perform (.unlinkAll id edge)).1 = answer,
    (store.perform (.unlinkAll id edge)).2 = after at change ⊢
  cases change with
  | refused refused => exact absurd present ((sound.refused_subject_iff rfl).mp refused).1
  | idle idle => cases idle
  | cleared live => exact ⟨_, rfl, (sound.cleared_eq_self_iff live edge).symm⟩

theorem link_linked (sound : store.Sound) {source target : InstanceId} {edge : Label}
    (linked : store.hasLink source edge target = true) :
    store.perform (.link source edge target) = (.ok .done, store) := by
  obtain ⟨vertex, other, found, reached, there⟩ := sound.hasLink_iff.mp linked
  obtain ⟨one, -⟩ := sound.find?_eq_some_iff.mp found
  obtain ⟨two, -⟩ := sound.find?_eq_some_iff.mp reached
  rw [sound.perform_link found reached, sound.tied_eq_self one two there]

theorem link_links (sound : store.Sound) {source target : InstanceId} (first : store.Present source)
    (second : store.Present target) (edge : Label) :
    (store.perform (.link source edge target)).1 = .ok .done ∧
      (store.perform (.link source edge target)).2.hasLink source edge target = true ∧
      (store.perform (.link source edge target)).2.hasLink target edge source = true := by
  obtain ⟨vertex, found⟩ := sound.present_iff.mp first
  obtain ⟨other, reached⟩ := sound.present_iff.mp second
  obtain ⟨one, rfl⟩ := sound.find?_eq_some_iff.mp found
  obtain ⟨two, rfl⟩ := sound.find?_eq_some_iff.mp reached
  rw [sound.perform_link found reached]
  exact ⟨rfl, (sound.hasLink_tied one two edge edge _ _).mpr (Or.inr ⟨rfl, Or.inl ⟨rfl, rfl⟩⟩),
    (sound.hasLink_tied one two edge edge _ _).mpr (Or.inr ⟨rfl, Or.inr ⟨rfl, rfl⟩⟩)⟩

end Sound

/-- The answers to edits are in line with what is in the store and with what the edits do to it. -/
structure Candid (store : Store) : Prop where
  add : ∀ id labels value reason, (store.perform (.add id labels value)).1 = .error reason ↔
    store.Present id ∧ reason = .duplicateId id
  remove : ∀ id reason, (store.perform (.remove id)).1 = .error reason ↔
    ¬ store.Present id ∧ reason = .unknownInstance id
  addLabel : ∀ id label reason, (store.perform (.addLabel id label)).1 = .error reason ↔
    ¬ store.Present id ∧ reason = .unknownInstance id
  removeLabel : ∀ id label reason, (store.perform (.removeLabel id label)).1 = .error reason ↔
    ¬ store.Present id ∧ reason = .unknownInstance id
  unlinkAll : ∀ id edge reason, (store.perform (.unlinkAll id edge)).1 = .error reason ↔
    ¬ store.Present id ∧ reason = .unknownInstance id
  /-- the source is looked for first -/
  link : ∀ source edge target reason,
    (store.perform (.link source edge target)).1 = .error reason ↔
      ¬ store.Present source ∧ reason = .unknownInstance source ∨
        store.Present source ∧ ¬ store.Present target ∧ reason = .unknownInstance target
  /-- a failure leaves the whole store as it was, also if it is changed in place -/
  failed : ∀ edit reason, (store.perform edit).1 = .error reason →
    store.perform edit = (.error reason, store) ∧
      (Procedure.enact edit).outcome store = (.error reason, store)
  labelAdded : ∀ id label, store.Present id → store.Flags (.addLabel id label)
  labelRemoved : ∀ id label, store.Present id → store.Flags (.removeLabel id label)
  /-- cutting a link is not turned down even if an id is missing -/
  unlinked : ∀ source edge target, store.Flags (.unlink source edge target)
  allUnlinked : ∀ id edge, store.Present id →
    ∃ links, (store.perform (.unlinkAll id edge)).1 = .ok (.count links) ∧
      (links = 0 ↔ (store.perform (.unlinkAll id edge)).2 = store)
  linkedBefore : ∀ source edge target, store.hasLink source edge target = true →
    store.perform (.link source edge target) = (.ok .done, store)
  linkedAfter : ∀ source edge target, store.Present source → store.Present target →
    (store.perform (.link source edge target)).1 = .ok .done ∧
      (store.perform (.link source edge target)).2.hasLink source edge target = true ∧
      (store.perform (.link source edge target)).2.hasLink target edge source = true

theorem Sound.candid (sound : store.Sound) : store.Candid where
  add _ _ _ _ := sound.perform_eq_error_iff.trans sound.refused_add_iff
  remove _ _ := sound.perform_eq_error_iff.trans (sound.refused_subject_iff rfl)
  addLabel _ _ _ := sound.perform_eq_error_iff.trans (sound.refused_subject_iff rfl)
  removeLabel _ _ _ := sound.perform_eq_error_iff.trans (sound.refused_subject_iff rfl)
  unlinkAll _ _ _ := sound.perform_eq_error_iff.trans (sound.refused_subject_iff rfl)
  link _ _ _ _ := sound.perform_eq_error_iff.trans sound.refused_link_iff
  failed edit _ failure :=
    have same := sound.perform_of_error failure
    ⟨same, (Procedure.outcome_enact store edit).trans same⟩
  labelAdded _ label present := sound.flags_addLabel present label
  labelRemoved _ label present := sound.flags_removeLabel present label
  unlinked := sound.flags_unlink
  allUnlinked _ edge present := sound.counts_unlinkAll present edge
  linkedBefore _ _ _ := sound.link_linked
  linkedAfter _ edge _ first second := sound.link_links first second edge

/-- Whatever is done to a store that began empty or was loaded, its answers tell the truth. -/
theorem candid_of_run {start : Store} (origin : Origin start) {edits : List Edit}
    (fits : start.Fits edits) : (start.run edits).Candid :=
  (origin.sound_run fits).candid

theorem candid_returning : empty.Fits returning ∧ (empty.run returning).Candid :=
  ⟨fits_returning, candid_of_run .empty fits_returning⟩

end Store

end LinkAtlas
