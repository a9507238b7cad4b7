import LinkAtlas.Proofs.Piecemeal

/-!
# Undoing additions

Whoever joins a group joins it at the end, so that cutting the newcomer out gives the group back as
it was, and no group at all if there was none. For that reason a removal undoes an addition to the
last detail. Only a slot remembers that it was used: its generation has gone on.
-/

namespace LinkAtlas

namespace Store

variable {store : Store}

/-! ## Links -/

namespace Sound

/-- Cutting a link that was made just now gives back the store from before. -/
theorem severed_tied (sound : store.Sound) {vertex other : Instance}
    (one : store.resolve vertex.handle = some vertex) {edge : Label}
    (apart : other.handle ∉ vertex.targets edge) :
    (store.revise (tie vertex.handle edge other.handle)).revise
        (Instance.trim (between vertex.handle edge other.handle)) = store := by
  rw [revise_revise]
  refine Eq.trans (sound.housed.revise_congr fun handle start live => ?_)
    ((sound.severed_eq_self_iff one edge).mpr apart)
  exact trim_tie (sound.neat live) (fun _ => between_first.mpr ⟨rfl, rfl⟩)
    fun _ => between_second.mpr ⟨rfl, rfl⟩

theorem unlink_link (sound : store.Sound) {source target : InstanceId} (first : store.Present source)
    (second : store.Present target) {edge : Label}
    (apart : store.hasLink source edge target = false) :
    (store.perform (.link source edge target)).1 = .ok .done ∧
      (store.perform (.link source edge target)).2.perform (.unlink source edge target) =
        (.ok (.flag true), store) ∧
      (store.perform (.link source edge target)).2.perform (.unlink target edge source) =
        (.ok (.flag true), store) := by
  obtain ⟨vertex, found⟩ := sound.present_iff.mp first
  obtain ⟨other, reached⟩ := sound.present_iff.mp second
  obtain ⟨one, -⟩ := sound.find?_eq_some_iff.mp found
  obtain ⟨two, -⟩ := sound.find?_eq_some_iff.mp reached
  have fresh : other.handle ∉ vertex.targets edge := fun linked => by
    rw [sound.hasLink_iff.mpr ⟨vertex, other, found, reached, linked⟩] at apart
    cases apart
  have tied := sound.tied one two edge
  have handles (start : Instance) :
      (tie vertex.handle edge other.handle start).handle = start.handle := by rw [tie_eq]
  have found' := (find?_revise store (tie vertex.handle edge other.handle) source).trans
    (congrArg (Option.map _) found)
  have reached' := (find?_revise store (tie vertex.handle edge other.handle) target).trans
    (congrArg (Option.map _) reached)
  have forth : (tie vertex.handle edge other.handle vertex).hasLink edge other.handle = true :=
    decide_eq_true ((mem_targets_tie (sound.neat one)).mpr (Or.inr ⟨rfl, Or.inl ⟨rfl, rfl⟩⟩))
  have back : (tie vertex.handle edge other.handle other).hasLink edge vertex.handle = true :=
    decide_eq_true ((mem_targets_tie (sound.neat two)).mpr (Or.inr ⟨rfl, Or.inr ⟨rfl, rfl⟩⟩))
  rw [sound.perform_link found reached]
  refine ⟨rfl, ?_, ?_⟩
  · rw [tied.perform_unlink found' reached', handles, handles, forth, sound.severed_tied one fresh]
  · rw [tied.perform_unlink reached' found', handles, handles, back, between_swap,
      sound.severed_tied one fresh]

/-! ## Labels -/

theorem unlabelled_labelled (sound : store.Sound) {bearer : Instance}
    (live : store.resolve bearer.handle = some bearer) {label : Label}
    (fresh : label ∉ bearer.labels) :
    (store.labelled bearer.handle label).unlabelled bearer.handle label = store := by
  have unlisted : bearer.handle ∉ Groups.members store.byType label := fun listed => by
    obtain ⟨vertex, alive, carried⟩ := (sound.carriers _ _).mp listed
    rw [live] at alive
    cases alive
    exact fresh carried
  have vertices : (store.revise (Store.relabel bearer.handle (·.add label))).revise
      (Store.relabel bearer.handle (·.remove label)) = store := by
    rw [revise_revise]
    refine sound.housed.revise_eq_self fun handle vertex held => ?_
    by_cases here : vertex.handle = bearer.handle
    · have same : vertex = bearer :=
        eq_of_handle_eq ((sound.handle_eq held).symm ▸ held) live here
      subst same
      simp [Store.relabel, Roster.remove_add fresh]
    · simp [Store.relabel, here]
  have types : Groups.drop (Groups.add store.byType label bearer.handle) label bearer.handle =
      store.byType := Groups.drop_add sound.types_neat unlisted
  refine eq_of_slots_eq (fun place => ?_) rfl rfl types
  exact (congrArg (fun store : Store => store.slots[place]?) vertices :)

theorem removeLabel_addLabel (sound : store.Sound) {id : InstanceId} {bearer : Instance}
    (found : store.find? id = some bearer) {label : Label} (fresh : label ∉ bearer.labels) :
    (store.perform (.addLabel id label)).1 = .ok (.flag true) ∧
      (store.perform (.addLabel id label)).2.perform (.removeLabel id label) =
        (.ok (.flag true), store) := by
  obtain ⟨live, -⟩ := sound.find?_eq_some_iff.mp found
  have tagged : (store.labelled bearer.handle label).find? id =
      some { bearer with labels := bearer.labels.add label } := by
    refine (find?_revise store _ id).trans ?_
    rw [found, Option.map_some, Store.relabel, if_pos rfl]
  have carried : label ∈ bearer.labels.add label := Roster.mem_add.mpr (Or.inr rfl)
  rw [sound.perform_addLabel found fresh]
  refine ⟨rfl, ?_⟩
  rw [(sound.labelled live label).perform_removeLabel tagged, if_pos carried,
    sound.unlabelled_labelled live fresh]

end Sound

/-! ## Instances -/

/-- The store after somebody was there for a while: the slot that was used has gone on to its next
generation, and is the only vacant one if there was none before. -/
def aged (store : Store) : Store :=
  match store.free with
  | top :: _ =>
      { store with
        slots := store.slots.modify top.toNat fun slot =>
          { slot with generation := slot.generation + 1 } }
  | [] =>
      { store with
        slots := store.slots.push ⟨1, none⟩
        free := [store.slots.size.toUInt32] }

/-- The slot of a newcomer that is gone again, and all the other slots. -/
theorem Housed.slot?_aged (housed : store.Housed)
    (room : store.free = [] → store.slots.size < capacity) (index : UInt32) :
    store.aged.slot? index =
      if index = store.allocate.1.index then some ⟨store.allocate.1.generation + 1, none⟩
      else store.slot? index := by
  unfold aged
  obtain ⟨top, rest, generation, waiting, held, allocated⟩ | ⟨top, waiting, number, allocated⟩ :=
    housed.allocate_cases room
  · rw [waiting, allocated]
    unfold slot? at held ⊢
    rw [Array.getElem?_modify]
    rcases eq_or_ne index top with here | here
    · simp [here, held]
    · have elsewhere : top.toNat ≠ index.toNat := fun same => here (UInt32.toNat_inj.mp same.symm)
      simp [here, elsewhere]
  · rw [waiting, allocated]
    unfold slot?
    rcases eq_or_ne index top with here | here
    · rw [if_pos here, here, number]
      exact Array.getElem?_push_size
    · have elsewhere : index.toNat ≠ store.slots.size := fun same =>
        here (UInt32.toNat_inj.mp (same.trans number.symm))
      rw [if_neg here, Array.getElem?_push, if_neg elsewhere]

theorem Housed.size_slots_aged (housed : store.Housed)
    (room : store.free = [] → store.slots.size < capacity) (newcomer : Instance) :
    (store.settle newcomer).slots.size = store.aged.slots.size := by
  rw [Store.settle, seat, Array.size_modify]
  unfold aged
  obtain ⟨top, rest, generation, waiting, held, allocated⟩ | ⟨top, waiting, number, allocated⟩ :=
    housed.allocate_cases room
  · rw [waiting, allocated]
    exact Array.size_modify.symm
  · rw [waiting, allocated]
    exact (Array.size_push _).trans (Array.size_push _).symm

theorem free_aged (store : Store) (newcomer : Instance) :
    store.allocate.1.index :: (store.settle newcomer).free = store.aged.free := by
  unfold settle seat aged allocate
  cases store.free <;> simp

namespace Sound

/-- Somebody who arrives and leaves again leaves nothing behind but the next generation of a
slot. -/
theorem evicted_enrolled (sound : store.Sound) (bound : store.size < capacity)
    {newcomer : Instance} (own : newcomer.handle = store.allocate.1)
    (absent : store.find? newcomer.id = none) (unlinked : newcomer.links = []) :
    (store.enrolled newcomer).evicted newcomer = store.aged := by
  have room := sound.room bound
  have vacant : store.resolve newcomer.handle = none := own ▸ sound.housed.resolve_allocate room
  have entered := sound.enrolled bound own absent unlinked
  refine eq_of_slot?_eq ?_ ?_ ?_ ?_ ?_ ?_
  · rw [size_slots_evicted]
    exact entered.housed.room
  · rw [size_slots_evicted]
    exact sound.housed.size_slots_aged room newcomer
  · intro index
    have seated : (store.enrolled newcomer).slot? index =
        if index = newcomer.handle.index then some ⟨newcomer.handle.generation, some newcomer⟩
        else store.slot? index := sound.housed.slot?_settle room own index
    rw [slot?_evicted, slot?_release, seated, sound.housed.slot?_aged room, ← own]
    rcases eq_or_ne index newcomer.handle.index with here | here
    · rw [if_pos here, if_pos here, if_pos here]
      rfl
    · rw [if_neg here, if_neg here, if_neg here]
      cases held : store.slot? index with
      | none => rfl
      | some slot =>
          obtain ⟨generation, occupant⟩ := slot
          cases occupant with
          | none => rfl
          | some vertex =>
              have live : store.resolve ⟨index, generation⟩ = some vertex :=
                resolve_eq_some_iff.mpr held
              have same : vertex.forget newcomer.handle = vertex := by
                refine Instance.trim_eq_self (sound.neat live) fun edge target linked => ?_
                obtain ⟨other, present⟩ := sound.resolve_of_mem_targets live linked
                refine decide_eq_false fun again => ?_
                rw [again, vacant] at present
                cases present
              rw [Option.map_some, Option.map_some, same]
  · rw [free_evicted, own]
    exact store.free_aged newcomer
  · rw [byId_evicted, byId_enrolled,
      Ledger.erase_insert sound.ids_distinct (sound.unlisted absent)]
    unfold aged
    split <;> rfl
  · rw [byType_evicted, byType_enrolled,
      Groups.prune_enter sound.types_neat fun _ => decide_eq_true rfl]
    have unlisted : Groups.prune (fun _ member => member = newcomer.handle) store.byType =
        store.byType := by
      refine Groups.prune_eq_self sound.types_neat fun label member listed => ?_
      obtain ⟨vertex, live, -⟩ := (sound.carriers label member).mp listed
      refine decide_eq_false fun again => ?_
      rw [again, vacant] at live
      cases live
    rw [unlisted]
    unfold aged
    split <;> rfl

theorem remove_visitor (sound : store.Sound) (bound : store.size < capacity) {id : InstanceId}
    (absent : ¬ store.Present id) (labels : List Label) (value : Option Scalar)
    {edits : List Edit} (about : ∀ edit ∈ edits, edit.About id) :
    (store.perform (.add id labels value)).1 = .ok (.handle store.allocate.1) ∧
      (store.run (.add id labels value :: edits)).perform (.remove id) =
        (.ok .done, store.aged) := by
  have unfound := sound.not_present_iff.mp absent
  have entered : (store.enrolled (store.newcomer id labels value)).Sound :=
    sound.enrolled bound rfl unfound rfl
  have there : (store.enrolled (store.newcomer id labels value)).find? id =
      some (store.newcomer id labels value) :=
    entered.find?_eq_some_iff.mpr
      ⟨(sound.resolve_enrolled_eq_some_iff bound rfl).mpr (Or.inl ⟨rfl, rfl⟩), rfl⟩
  have arrived := sound.perform_add unfound labels value
  refine ⟨congrArg Prod.fst arrived, ?_⟩
  change ((store.perform (.add id labels value)).2.run edits).perform (.remove id) = _
  rw [arrived, entered.remove_run_about there about,
    sound.evicted_enrolled bound rfl unfound rfl]

end Sound

/-- Additions can be taken back. -/
structure Undoable (store : Store) : Prop where
  /-- a link, from either end -/
  link : ∀ source edge target, store.Present source → store.Present target →
    store.hasLink source edge target = false →
    (store.perform (.link source edge target)).1 = .ok .done ∧
      (store.perform (.link source edge target)).2.perform (.unlink source edge target) =
        (.ok (.flag true), store) ∧
      (store.perform (.link source edge target)).2.perform (.unlink target edge source) =
        (.ok (.flag true), store)
  label : ∀ id bearer label, store.find? id = some bearer → label ∉ bearer.labels →
    (store.perform (.addLabel id label)).1 = .ok (.flag true) ∧
      (store.perform (.addLabel id label)).2.perform (.removeLabel id label) =
        (.ok (.flag true), store)
  /-- an instance, whatever it was linked to and labelled with while it was there -/
  visit : ∀ id labels value, ¬ store.Present id → store.size < capacity →
    ∀ edits : List Edit, (∀ edit ∈ edits, edit.About id) →
      (store.perform (.add id labels value)).1 = .ok (.handle store.allocate.1) ∧
        (store.run (.add id labels value :: edits)).perform (.remove id) =
          (.ok .done, store.aged)

theorem Sound.undoable (sound : store.Sound) : store.Undoable where
  link _ _ _ first second apart := sound.unlink_link first second apart
  label _ _ _ found fresh := sound.removeLabel_addLabel found fresh
  visit _ labels value absent bound _ about :=
    sound.remove_visitor bound absent labels value about

theorem undoable_of_run {start : Store} (origin : Origin start) {edits : List Edit}
    (fits : start.Fits edits) : (start.run edits).Undoable :=
  (origin.sound_run fits).undoable

theorem undoable_returning : empty.Fits returning ∧ (empty.run returning).Undoable :=
  ⟨fits_returning, undoable_of_run .empty fits_returning⟩

end Store

end LinkAtlas
