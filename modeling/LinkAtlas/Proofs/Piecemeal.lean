import LinkAtlas.Proofs.Cuts

/-!
# Removals piece by piece

What is taken out of a store at once may as well be taken out piece by piece, in any order. All the
links of one kind go like the links to each of the neighbours, and an instance goes like its links,
its labels, and then the instance that is left over.
-/

namespace LinkAtlas

namespace Store

variable {store : Store}

/-! ## Link by link -/

namespace Sound

/-- Links to different neighbours are cut one after the other; each of them is there when its turn
comes. -/
theorem run_unlinks (sound : store.Sound) {id : InstanceId} {edge : Label} {holder : Instance}
    (found : store.find? id = some holder) {targets : List InstanceId} (once : targets.Nodup)
    (linked : ∀ target ∈ targets, ∃ other, store.find? target = some other ∧
      other.handle ∈ holder.targets edge) :
    store.run (targets.map (.unlink id edge ·)) =
        store.revise (Instance.trim fun source kind place =>
          targets.any fun target => store.isNamed ⟨id, edge, target⟩ source kind place) ∧
      store.replies (targets.map (.unlink id edge ·)) = targets.map fun _ => .ok (.flag true) := by
  induction targets generalizing store holder with
  | nil => exact ⟨sound.orderly.trim_none.symm, rfl⟩
  | cons target rest ih =>
      obtain ⟨⟨other, reached, there⟩, later⟩ := List.forall_mem_cons.mp linked
      obtain ⟨fresh, apart⟩ := List.nodup_cons.mp once
      obtain ⟨live, -⟩ := sound.find?_eq_some_iff.mp found
      obtain ⟨present, rfl⟩ := sound.find?_eq_some_iff.mp reached
      have step := sound.perform_unlink found reached edge
      have flag : holder.hasLink edge other.handle = true := decide_eq_true there
      have first : store.isNamed ⟨id, edge, other.id⟩ =
          between holder.handle edge other.handle := by
        funext source kind place
        rw [isNamed, sound.get?_byId, sound.get?_byId, found, reached]
        rfl
      have trimmed : (store.revise (Instance.trim (between holder.handle edge other.handle))).find?
          id = some (holder.trim (between holder.handle edge other.handle)) := by
        rw [find?_revise, found]
        rfl
      have remain : ∀ target ∈ rest, ∃ next,
          (store.revise (Instance.trim (between holder.handle edge other.handle))).find? target =
              some next ∧
            next.handle ∈
              (holder.trim (between holder.handle edge other.handle)).targets edge := by
        intro target member
        obtain ⟨next, sought, here⟩ := later target member
        obtain ⟨alive, named⟩ := sound.find?_eq_some_iff.mp sought
        refine ⟨next.trim (between holder.handle edge other.handle), by
          rw [find?_revise, sought]; rfl, ?_⟩
        refine (Instance.mem_targets_trim (sound.neat live) _).mpr ⟨here, ?_⟩
        rw [Bool.eq_false_iff, ne_eq, between_first]
        rintro ⟨-, same⟩
        have again : next.id = other.id := congrArg Instance.id
          (eq_of_handle_eq alive present same)
        exact fresh (again ▸ named ▸ member)
      obtain ⟨whole, answers⟩ :=
        ih (sound.trim (between_comm holder.handle edge other.handle)) trimmed apart remain
      constructor
      · rw [List.map_cons]
        change (store.perform (.unlink id edge other.id)).2.run _ = _
        rw [step]
        refine whole.trans ((store.revise_trim_trim _ _).trans ?_)
        simp only [List.any_cons, first]
        rfl
      · rw [List.map_cons, replies, step, answers, flag, List.map_cons]

/-- The links to all neighbours are all the links of a kind. -/
theorem revise_neighbours (sound : store.Sound) {id : InstanceId} {edge : Label} {holder : Instance}
    (found : store.find? id = some holder) {targets : List InstanceId}
    (all : targets.Perm ((store.reach holder edge).map Instance.id)) :
    store.revise (Instance.trim fun source kind place =>
        targets.any fun target => store.isNamed ⟨id, edge, target⟩ source kind place) =
      store.revise (Instance.trim (touching holder.handle edge)) := by
  obtain ⟨live, rfl⟩ := sound.find?_eq_some_iff.mp found
  have named {other : Instance} (present : store.resolve other.handle = some other) :
      store.isNamed ⟨holder.id, edge, other.id⟩ =
        between holder.handle edge other.handle := by
    funext source kind place
    rw [isNamed, (sound.named _ _).mpr ⟨holder, live, rfl⟩,
      (sound.named _ _).mpr ⟨other, present, rfl⟩]
  have cut {other : Instance} (present : store.resolve other.handle = some other)
      (linked : other.handle ∈ holder.targets edge) :
      other.id ∈ targets :=
    all.mem_iff.mpr (List.mem_map_of_mem ((sound.mem_reach_iff present).mpr linked))
  refine sound.housed.revise_congr fun handle vertex held => ?_
  refine Instance.trim_congr (sound.neat held) fun kind place linked => ?_
  have alive := (sound.handle_eq held).symm ▸ held
  obtain ⟨next, reached⟩ := sound.resolve_of_mem_targets held linked
  rw [Bool.eq_iff_iff, List.any_eq_true]
  constructor
  · rintro ⟨target, member, goes⟩
    obtain ⟨other, listed, rfl⟩ := List.mem_map.mp (all.mem_iff.mp member)
    rw [named (sound.live_of_mem_reach listed)] at goes
    simp only [between, touching, Bool.and_eq_true, Bool.or_eq_true, decide_eq_true_eq] at goes ⊢
    exact ⟨goes.1, goes.2.imp And.left And.right⟩
  · intro goes
    simp only [touching, Bool.and_eq_true, Bool.or_eq_true, decide_eq_true_eq] at goes
    obtain ⟨rfl, here | there⟩ := goes
    · -- a link from the holder
      have own := sound.handle_eq reached
      have same : vertex = holder := eq_of_handle_eq alive live here
      subst same
      rw [← own] at linked reached
      refine ⟨next.id, cut reached linked, ?_⟩
      rw [named reached, between_first]
      exact ⟨rfl, own.symm⟩
    · -- a link to the holder, which is seen from its other end
      rw [there] at linked
      have back := (sound.mem_targets_comm alive live kind).mp linked
      refine ⟨vertex.id, cut alive back, ?_⟩
      rw [named alive, between_second]
      exact ⟨rfl, there⟩

theorem unlinks_all (sound : store.Sound) {id : InstanceId} {holder : Instance}
    (found : store.find? id = some holder) (edge : Label) {targets : List InstanceId}
    (all : targets.Perm ((store.reach holder edge).map Instance.id)) :
    store.perform (.unlinkAll id edge) = (.ok (.count (store.reach holder edge).length),
        store.run (targets.map (.unlink id edge ·))) ∧
      store.replies (targets.map (.unlink id edge ·)) = targets.map fun _ => .ok (.flag true) := by
  obtain ⟨live, -⟩ := sound.find?_eq_some_iff.mp found
  have once : ((store.reach holder edge).map Instance.id).Nodup :=
    (sound.nodup_reach live edge).map_on fun one first two second same =>
      eq_of_handle_eq (sound.live_of_mem_reach first) (sound.live_of_mem_reach second)
        (sound.handle_eq_of_id_eq (sound.live_of_mem_reach first) (sound.live_of_mem_reach second)
          same)
  have linked : ∀ target ∈ targets, ∃ other, store.find? target = some other ∧
      other.handle ∈ holder.targets edge := by
    intro target member
    obtain ⟨other, listed, rfl⟩ := List.mem_map.mp (all.mem_iff.mp member)
    have present := sound.live_of_mem_reach listed
    exact ⟨other, sound.find?_eq_some_iff.mpr ⟨present, rfl⟩,
      (sound.mem_reach_iff present).mp listed⟩
  obtain ⟨whole, answers⟩ := sound.run_unlinks found (all.symm.nodup once) linked
  have many := congrArg List.length (sound.map_resolve_targets live edge)
  rw [List.length_map, List.length_map] at many
  refine ⟨?_, answers⟩
  rw [sound.perform_unlinkAll found, whole, sound.revise_neighbours found all, Roster.size, many]

end Sound

/-! ## What is left behind -/

theorem release_revise (store : Store) (change : Instance → Instance) (handle : Handle) :
    (store.revise change).release handle = (store.release handle).revise change := by
  refine eq_of_slots_eq (fun place => ?_) rfl rfl rfl
  unfold release revise
  rw [Array.getElem?_modify, Array.getElem?_map, Array.getElem?_map, Array.getElem?_modify]
  split <;> cases store.slots[place]? <;> rfl

/-- What a leaver had does not show in what it leaves behind, and neither does a revision of the
others that they forget together with the leaver. -/
theorem Sound.evicted_rework (sound : store.Sound) {leaver changed : Instance}
    (live : store.resolve leaver.handle = some leaver) (same : changed.handle = leaver.handle)
    (named : changed.id = leaver.id) {change : Instance → Instance} {types : Groups Handle}
    (forgotten : ∀ vertex, store.resolve vertex.handle = some vertex →
      vertex.handle ≠ leaver.handle →
      (change vertex).forget leaver.handle = vertex.forget leaver.handle)
    (struck : Groups.prune (fun _ member => member = leaver.handle) types =
      Groups.prune (fun _ member => member = leaver.handle) store.byType) :
    ({ store.revise change with byType := types } : Store).evicted changed =
      store.evicted leaver := by
  have slots : (((store.revise change).release leaver.handle).revise
        (Instance.forget leaver.handle)) =
      (store.release leaver.handle).revise (Instance.forget leaver.handle) := by
    rw [release_revise, revise_revise]
    refine (sound.housed.release live).revise_congr fun handle vertex held => ?_
    rw [resolve_release live] at held
    split at held
    · cases held
    · rename_i different
      obtain rfl := sound.handle_eq held
      exact forgotten vertex held different
  have places : (({ store.revise change with byType := types } : Store).evicted changed).slots =
      (store.evicted leaver).slots := by
    simp only [Store.evicted, same]
    exact (congrArg Store.slots slots :)
  refine eq_of_slots_eq (fun place => by rw [places]) ?_ ?_ ?_
  · rw [free_evicted, free_evicted, same]
    rfl
  · rw [byId_evicted, byId_evicted, named]
    rfl
  · rw [byType_evicted, byType_evicted, same]
    exact struck

/-- The two ends of a link are all that is added when it is made, so that a cut that takes it leaves
what it would have left before. -/
theorem trim_tie {vertex : Instance} (neat : Groups.Neat vertex.links) {first second : Handle}
    {edge : Label} {gone : Handle → Label → Handle → Bool}
    (forth : vertex.handle = first → gone first edge second = true)
    (back : vertex.handle = second → gone second edge first = true) :
    (tie first edge second vertex).trim gone = vertex.trim gone := by
  have once (start : Instance) (tidy : Groups.Neat start.links) (target : Handle)
      (goes : gone start.handle edge target = true) :
      (start.link edge target).trim gone = start.trim gone :=
    congrArg (fun links => { start with links := links }) (Groups.prune_add tidy goes)
  unfold tie
  dsimp only
  by_cases here : vertex.handle = first
  · rw [if_pos here]
    have joined := once vertex neat second (here ▸ forth here)
    by_cases there : vertex.handle = second
    · rw [if_pos there]
      exact (once (vertex.link edge second) (neat.add edge second) first (there ▸ back there)).trans
        joined
    · rw [if_neg there]
      exact joined
  · rw [if_neg here]
    by_cases there : vertex.handle = second
    · rw [if_pos there]
      exact once vertex neat first (there ▸ back there)
    · rw [if_neg there]

end Store

/-- Edits of the labels and the links of one instance. -/
def Edit.About (id : InstanceId) : Edit → Prop
  | .add .. => False
  | .remove _ => False
  | .addLabel other _ => other = id
  | .removeLabel other _ => other = id
  | .link source _ target => source = id ∨ target = id
  | .unlink source _ target => source = id ∨ target = id
  | .unlinkAll other _ => other = id

namespace Store

variable {store : Store}

namespace Sound

/-- What becomes of an instance before it leaves does not show afterwards. -/
theorem perform_about (sound : store.Sound) {id : InstanceId} {leaver : Instance}
    (found : store.find? id = some leaver) {edit : Edit} (about : edit.About id) :
    (store.perform edit).2.Sound ∧ ∃ changed, (store.perform edit).2.find? id = some changed ∧
      (store.perform edit).2.evicted changed = store.evicted leaver := by
  obtain ⟨live, named⟩ := sound.find?_eq_some_iff.mp found
  have itself {vertex : Instance} (present : store.resolve vertex.handle = some vertex)
      (same : vertex.id = id) : vertex = leaver :=
    Option.some.inj ((sound.find?_eq_some_iff.mpr ⟨present, same⟩).symm.trans found)
  have change := sound.change edit
  generalize (store.perform edit).1 = answer, (store.perform edit).2 = after at change ⊢
  cases change with
  | refused => exact ⟨sound, leaver, found, rfl⟩
  | idle => exact ⟨sound, leaver, found, rfl⟩
  | enrolled => exact about.elim
  | evicted => exact about.elim
  | @labelled bearer present label fresh =>
      obtain rfl := itself present about
      refine ⟨sound.labelled present label, Store.relabel bearer.handle (·.add label) bearer,
        (find?_revise store _ id).trans (congrArg (Option.map _) found),
        sound.evicted_rework live (relabel_handle _ _ _) (relabel_id _ _ _) ?_
          (Groups.prune_add sound.types_neat (decide_eq_true rfl))⟩
      intro vertex _ different
      rw [Store.relabel, if_neg different]
  | @unlabelled bearer present label carried =>
      obtain rfl := itself present about
      refine ⟨sound.unlabelled _ _, Store.relabel bearer.handle (·.remove label) bearer,
        (find?_revise store _ id).trans (congrArg (Option.map _) found),
        sound.evicted_rework live (relabel_handle _ _ _) (relabel_id _ _ _) ?_ ?_⟩
      · intro vertex _ different
        rw [Store.relabel, if_neg different]
      · rw [Groups.drop_eq_prune sound.types_neat, Groups.prune_prune]
        refine Groups.prune_congr sound.types_neat fun kind member _ => ?_
        cases decide (member = bearer.handle) <;> simp
  | @tied one other first second edge =>
      have near : one = leaver ∨ other = leaver := about.imp (itself first) (itself second)
      refine ⟨sound.tied first second edge, tie one.handle edge other.handle leaver,
        (find?_revise store _ id).trans (congrArg (Option.map _) found),
        sound.evicted_rework live (by rw [tie_eq]) (by rw [tie_eq]) ?_ rfl⟩
      intro vertex held different
      refine trim_tie (sound.neat held) (fun here => ?_) fun there => ?_
      · rcases near with rfl | rfl
        · exact absurd here different
        · exact decide_eq_true rfl
      · rcases near with rfl | rfl
        · exact decide_eq_true rfl
        · exact absurd there different
  | @severed one other first second edge =>
      have near : one = leaver ∨ other = leaver := about.imp (itself first) (itself second)
      refine ⟨sound.trim (between_comm _ _ _),
        leaver.trim (between one.handle edge other.handle),
        (find?_revise store _ id).trans (congrArg (Option.map _) found),
        sound.evicted_rework live rfl rfl ?_ rfl⟩
      intro vertex held different
      rw [Instance.forget, Instance.trim_trim]
      refine Instance.trim_congr (sound.neat held) fun kind target _ => ?_
      rw [Bool.eq_iff_iff, Bool.or_eq_true]
      refine or_iff_right_of_imp fun cut => ?_
      simp only [between, Bool.and_eq_true, Bool.or_eq_true, decide_eq_true_eq] at cut
      rcases near with rfl | rfl
      · exact decide_eq_true (cut.2.resolve_left fun here => different here.1).2
      · exact decide_eq_true (cut.2.resolve_right fun there => different there.1).2
  | @cleared holder present edge =>
      obtain rfl := itself present about
      refine ⟨sound.trim (touching_comm _ _), holder.trim (touching holder.handle edge),
        (find?_revise store _ id).trans (congrArg (Option.map _) found),
        sound.evicted_rework live rfl rfl ?_ rfl⟩
      intro vertex held different
      rw [Instance.forget, Instance.trim_trim]
      refine Instance.trim_congr (sound.neat held) fun kind target _ => ?_
      simp only [touching, different, decide_false, Bool.false_or]
      cases decide (target = holder.handle) <;> simp

theorem run_about (sound : store.Sound) {id : InstanceId} {leaver : Instance}
    (found : store.find? id = some leaver) {edits : List Edit}
    (about : ∀ edit ∈ edits, edit.About id) :
    (store.run edits).Sound ∧ ∃ changed, (store.run edits).find? id = some changed ∧
      (store.run edits).evicted changed = store.evicted leaver := by
  induction edits generalizing store leaver with
  | nil => exact ⟨sound, leaver, found, rfl⟩
  | cons edit rest ih =>
      obtain ⟨first, others⟩ := List.forall_mem_cons.mp about
      obtain ⟨safe, changed, there, same⟩ := sound.perform_about found first
      obtain ⟨last, final, present, whole⟩ := ih safe there others
      exact ⟨last, final, present, whole.trans same⟩

/-- An instance that was changed first leaves the same store behind. -/
theorem remove_run_about (sound : store.Sound) {id : InstanceId} {leaver : Instance}
    (found : store.find? id = some leaver) {edits : List Edit}
    (about : ∀ edit ∈ edits, edit.About id) :
    (store.run edits).perform (.remove id) = (.ok .done, store.evicted leaver) := by
  obtain ⟨last, changed, present, same⟩ := sound.run_about found about
  rw [last.perform_remove present, same]

end Sound

/-- What is removed at once may as well be removed piece by piece, in any order. -/
structure Piecemeal (store : Store) : Prop where
  /-- all links of a kind, and each of them is there when its turn comes -/
  links : ∀ id edge holder, store.find? id = some holder →
    ∃ others, store.neighbors id edge = .ok others ∧
      ∀ targets : List InstanceId, targets.Perm (others.map Instance.id) →
        store.perform (.unlinkAll id edge) =
            (.ok (.count others.length), store.run (targets.map (.unlink id edge ·))) ∧
          store.replies (targets.map (.unlink id edge ·)) = targets.map fun _ => .ok (.flag true)
  /-- an instance, of which the bare rest goes last -/
  instances : ∀ id leaver, store.find? id = some leaver →
    ∀ edges labels : List Label, edges.Perm leaver.edgeTypes → labels.Perm leaver.labels.toList →
      store.perform (.remove id) =
        (.ok .done, store.run
          (edges.map (.unlinkAll id ·) ++ labels.map (.removeLabel id ·) ++ [.remove id]))

theorem Sound.piecemeal (sound : store.Sound) : store.Piecemeal where
  links := by
    intro id edge holder found
    refine ⟨store.reach holder edge, ?_, fun targets all => sound.unlinks_all found edge all⟩
    rw [neighbors, found]
    rfl
  instances := by
    intro id leaver found edges labels _ _
    rw [run_concat, sound.perform_remove found, sound.remove_run_about found]
    intro edit listed
    rcases List.mem_append.mp listed with cleared | bared
    · obtain ⟨edge, -, rfl⟩ := List.mem_map.mp cleared
      rfl
    · obtain ⟨label, -, rfl⟩ := List.mem_map.mp bared
      rfl

theorem piecemeal_of_run {start : Store} (origin : Origin start) {edits : List Edit}
    (fits : start.Fits edits) : (start.run edits).Piecemeal :=
  (origin.sound_run fits).piecemeal

theorem piecemeal_returning : empty.Fits returning ∧ (empty.run returning).Piecemeal :=
  ⟨fits_returning, piecemeal_of_run .empty fits_returning⟩

end Store

end LinkAtlas
