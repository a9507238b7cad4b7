import LinkAtlas.Proofs.LinkIntegrity
import LinkAtlas.Proofs.Unfolding

/-!
# Deleting commutes with querying

When an instance or a link is taken out of a store, every forest loses exactly the parts that were
reached through it. A forest is pruned by the links that led to its nodes: the instance above, the
kind of link and the instance below.
-/

namespace LinkAtlas

namespace Projection

mutual

/-- Cuts out every child that a link which is gone led to, together with all that is below it, and
the groups that are left without children. -/
def prune (gone : Handle → Label → Handle → Bool) : Projection → Projection
  | ⟨edgeType, id, labels, value, source, links⟩ =>
      ⟨edgeType, id, labels, value, source, pruneGroups gone source links⟩

def pruneGroups (gone : Handle → Label → Handle → Bool) (source : Handle) :
    List (Label × List Projection) → List (Label × List Projection)
  | [] => []
  | (edge, group) :: rest =>
      let kept := pruneAll gone source edge group
      if kept.isEmpty then pruneGroups gone source rest
      else (edge, kept) :: pruneGroups gone source rest

def pruneAll (gone : Handle → Label → Handle → Bool) (source : Handle) (edge : Label) :
    List Projection → List Projection
  | [] => []
  | child :: rest =>
      if gone source edge child.source then pruneAll gone source edge rest
      else child.prune gone :: pruneAll gone source edge rest

end

/-- The forest without an instance: it goes as a root and below every node. -/
def without (handle : Handle) (forest : List Projection) : List Projection :=
  (forest.filter fun root => root.source ≠ handle).map
    (prune fun _ _ target => target = handle)

variable {gone : Handle → Label → Handle → Bool}

theorem pruneAll_eq_map (source : Handle) (edge : Label) (group : List Projection) :
    pruneAll gone source edge group =
      (group.filter fun child => !gone source edge child.source).map (prune gone) := by
  induction group with
  | nil => rfl
  | cons child rest ih =>
      rw [pruneAll, ih]
      cases cut : gone source edge child.source with
      | true => simp [cut]
      | false => simp [cut]

theorem pruneAll_append (source : Handle) (edge : Label) (first second : List Projection) :
    pruneAll gone source edge (first ++ second) =
      pruneAll gone source edge first ++ pruneAll gone source edge second := by
  rw [pruneAll_eq_map, pruneAll_eq_map, pruneAll_eq_map, List.filter_append, List.map_append]

theorem pruneGroups_gather (gone : Handle → Label → Handle → Bool) (source : Handle)
    (labels : List Label) (found : Label → List Projection) :
    pruneGroups gone source (gather labels found) =
      gather labels fun edge => pruneAll gone source edge (found edge) := by
  unfold gather
  induction (Roster.ofList labels).toList with
  | nil => rfl
  | cons edge rest ih =>
      cases sought : found edge with
      | nil => simpa [sought, pruneAll] using ih
      | cons first others =>
          cases kept : pruneAll gone source edge (first :: others) with
          | nil => simpa [pruneGroups, sought, kept] using ih
          | cons stays more => simpa [pruneGroups, sought, kept] using ih

end Projection

namespace Store

variable {before after : Store}

/-- How a store comes from another one by taking out the instances that `left` and the links that
are `gone`. -/
structure Cut (before after : Store) (left : Handle → Bool)
    (gone : Handle → Label → Handle → Bool) : Prop where
  resolve : ∀ handle, after.resolve handle =
    if left handle then none else (before.resolve handle).map (Instance.trim gone)
  members : ∀ label, Groups.members after.byType label =
    (Groups.members before.byType label).keep fun handle => !left handle
  /-- no link to an instance that left is kept -/
  covered : ∀ source edge target, left target = true → gone source edge target = true

namespace Cut

variable {left : Handle → Bool} {gone : Handle → Label → Handle → Bool}

/-- What is left behind a list of handles of which some are dropped. -/
theorem filterMap_resolve (cut : Cut before after left gone) (sound : before.Sound)
    {dropped : Handle → Bool} (all : ∀ handle, left handle = true → dropped handle = true)
    (handles : List Handle) :
    (handles.filter fun handle => !dropped handle).filterMap after.resolve =
      ((handles.filterMap before.resolve).filter fun vertex => !dropped vertex.handle).map
        (Instance.trim gone) := by
  induction handles with
  | nil => rfl
  | cons handle rest ih =>
      cases live : before.resolve handle with
      | none =>
          have nothing : after.resolve handle = none := by
            rw [cut.resolve, live]
            exact ite_self none
          rw [List.filterMap_cons, live, ← ih, List.filter_cons]
          split
          · rw [List.filterMap_cons, nothing]
          · rfl
      | some vertex =>
          have own := sound.handle_eq live
          rw [List.filterMap_cons, live, List.filter_cons, List.filter_cons, own]
          cases goes : dropped handle with
          | true => exact ih
          | false =>
              have stays : left handle = false := by
                cases leaves : left handle with
                | false => rfl
                | true => exact (goes.symm.trans (all handle leaves)).symm
              have survives : after.resolve handle = some (vertex.trim gone) := by
                rw [cut.resolve, stays, live]
                rfl
              simpa [survives] using ih

theorem reach_trim (cut : Cut before after left gone) (sound : before.Sound) {vertex : Instance}
    (live : before.resolve vertex.handle = some vertex) (edge : Label) :
    after.reach (vertex.trim gone) edge =
      ((before.reach vertex edge).filter fun next => !gone vertex.handle edge next.handle).map
        (Instance.trim gone) := by
  have kept : (vertex.trim gone).targets edge =
      (vertex.targets edge).keep fun target => !gone vertex.handle edge target :=
    Groups.members_prune (sound.neat live).distinct _ edge
  rw [reach, kept]
  exact cut.filterMap_resolve sound (fun target => cut.covered vertex.handle edge target) _

theorem ofType_eq (cut : Cut before after left gone) (sound : before.Sound) (label : Label) :
    after.ofType label =
      ((before.ofType label).filter fun vertex => !left vertex.handle).map
        (Instance.trim gone) := by
  rw [Store.ofType_eq, Store.ofType_eq, cut.members]
  exact cut.filterMap_resolve sound (fun _ leaves => leaves) _

mutual

/-- Pruning an unfolding gives the unfolding of what is left. -/
theorem prune_trace (cut : Cut before after left gone) (sound : before.Sound) :
    ∀ (tree : QueryTree) (vertex : Instance), before.resolve vertex.handle = some vertex →
      (tree.trace before vertex).prune gone = tree.trace after (vertex.trim gone)
  | ⟨label, children⟩, vertex, live => by
      have below : (fun edge => Projection.pruneAll gone vertex.handle edge
            (QueryTree.traceAll before children vertex edge)) =
          QueryTree.traceAll after children (vertex.trim gone) :=
        funext fun edge => cut.prune_traceAll sound children vertex edge live
      have groups := Projection.pruneGroups_gather gone vertex.handle
        (children.map QueryTree.label) (QueryTree.traceAll before children vertex)
      rw [below] at groups
      rw [QueryTree.trace_eq, QueryTree.trace_eq]
      exact congrArg (Projection.copy label (vertex.trim gone)) groups

theorem prune_traceAll (cut : Cut before after left gone) (sound : before.Sound) :
    ∀ (trees : List QueryTree) (vertex : Instance) (edge : Label),
      before.resolve vertex.handle = some vertex →
      Projection.pruneAll gone vertex.handle edge (QueryTree.traceAll before trees vertex edge) =
        QueryTree.traceAll after trees (vertex.trim gone) edge
  | [], _, _, _ => rfl
  | tree :: rest, vertex, edge, live => by
      have first : Projection.pruneAll gone vertex.handle edge
            ((before.reach vertex edge).map (tree.trace before)) =
          (after.reach (vertex.trim gone) edge).map (tree.trace after) := by
        rw [cut.reach_trim sound live, Projection.pruneAll_eq_map, List.filter_map, List.map_map,
          List.map_map]
        simp only [Function.comp_def, QueryTree.source_trace]
        refine List.map_congr_left fun next member => ?_
        exact cut.prune_trace sound tree next
          (sound.live_of_mem_reach (List.mem_filter.mp member).1)
      have later := cut.prune_traceAll sound rest vertex edge live
      unfold QueryTree.traceAll at later ⊢
      rw [QueryTree.unfoldAll, QueryTree.unfoldAll, Projection.pruneAll_append, later]
      rcases eq_or_ne tree.label edge with begins | begins
      · rw [if_pos begins, if_pos begins]
        exact congrArg (· ++ _) first
      · rw [if_neg begins, if_neg begins]
        rfl

end

/-- The forest of what is left is the forest of what was there, without the roots that left and
pruned by the links that are gone. -/
theorem query_eq (cut : Cut before after left gone) (sound : before.Sound) (path : QueryPath) :
    after.query path = (before.query path).map fun forest =>
      (forest.filter fun root => !left root.source).map (Projection.prune gone) := by
  rw [Store.query_eq, Store.query_eq]
  cases QueryTree.compile path with
  | error reason => rfl
  | ok tree =>
      refine congrArg Except.ok ?_
      dsimp only
      rw [cut.ofType_eq sound, List.filter_map, List.map_map, List.map_map]
      simp only [Function.comp_def, QueryTree.source_trace]
      refine List.map_congr_left fun vertex member => (cut.prune_trace sound tree vertex ?_).symm
      exact sound.live_of_mem_ofType (List.mem_filter.mp member).1

end Cut

/-! ## What edits take out -/

variable {store : Store}

theorem Sound.cut_evicted (sound : store.Sound) {leaver : Instance}
    (live : store.resolve leaver.handle = some leaver) :
    Cut store (store.evicted leaver) (fun handle => handle = leaver.handle)
      (fun _ _ target => target = leaver.handle) where
  resolve := by
    intro handle
    rw [resolve_evicted live]
    simp only [decide_eq_true_eq]
    rfl
  members := by
    intro label
    rw [byType_evicted]
    exact Groups.members_prune sound.types_neat.distinct _ label
  covered := fun _ _ _ leaves => leaves

theorem cut_trim (store : Store) (gone : Handle → Label → Handle → Bool) :
    Cut store (store.revise (Instance.trim gone)) (fun _ => false) gone where
  resolve := fun handle => resolve_revise store _ handle
  members := fun _ => (Roster.keep_eq_self fun _ _ => rfl).symm
  covered := fun _ _ _ leaves => Bool.noConfusion leaves

theorem Sound.query_remove (sound : store.Sound) {id : InstanceId} {leaver : Instance}
    (found : store.find? id = some leaver) :
    ∃ after, store.remove id = .ok after ∧ ∀ path,
      after.query path = (store.query path).map (Projection.without leaver.handle) := by
  obtain ⟨live, -⟩ := sound.find?_eq_some_iff.mp found
  refine ⟨store.evicted leaver, sound.remove_of_present found, fun path => ?_⟩
  rw [(sound.cut_evicted live).query_eq sound]
  unfold Projection.without
  simp only [ne_eq, decide_not]

theorem Sound.query_unlink (sound : store.Sound) {source target : InstanceId}
    {vertex other : Instance} (found : store.find? source = some vertex)
    (reached : store.find? target = some other) (edge : Label) (path : QueryPath) :
    (store.unlink source edge target).2.query path =
      (store.query path).map fun forest =>
        forest.map (Projection.prune (between vertex.handle edge other.handle)) := by
  rw [sound.unlink_of_present found reached, (cut_trim store _).query_eq sound]
  simp only [Bool.not_false, List.filter_true]

/-- In every state of a run, the forest after a removal is the forest before without the instance,
and the forest after the cut of a link is the forest before without what the link led to. -/
theorem query_after_deletion {start : Store} (origin : Origin start) {edits : List Edit}
    (fits : start.Fits edits) :
    (∀ id leaver, (start.run edits).find? id = some leaver →
      ∃ after, (start.run edits).remove id = .ok after ∧ ∀ path,
        after.query path = ((start.run edits).query path).map
          (Projection.without leaver.handle)) ∧
    ∀ source vertex target other, (start.run edits).find? source = some vertex →
      (start.run edits).find? target = some other → ∀ edge path,
        ((start.run edits).unlink source edge target).2.query path =
          ((start.run edits).query path).map fun forest =>
            forest.map (Projection.prune (between vertex.handle edge other.handle)) := by
  have sound := origin.sound_run fits
  constructor
  · intro id leaver found
    exact sound.query_remove found
  · intro source vertex target other found reached edge path
    exact sound.query_unlink found reached edge path

theorem query_after_deletion_returning :
    (∃ after, (empty.run returning).remove "bob" = .ok after ∧ ∀ path,
      after.query path = ((empty.run returning).query path).map
        (Projection.without guest.handle)) ∧
    ∀ edge path, ((empty.run returning).unlink "ada" edge "bob").2.query path =
      ((empty.run returning).query path).map fun forest =>
        forest.map (Projection.prune (between host.handle edge guest.handle)) := by
  obtain ⟨removed, unlinked⟩ := query_after_deletion .empty fits_returning
  exact ⟨removed "bob" guest find?_guest, unlinked "ada" host "bob" guest find?_host find?_guest⟩

end Store

end LinkAtlas
