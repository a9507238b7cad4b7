import LinkAtlas.Proofs.LinkIntegrity
import LinkAtlas.Proofs.Refinement

/-!
# Turnover of the slots

The generation of a slot counts the instances that have left it, as far as 32 bits reach. An edit
takes one instance out of a slot at most, so the count is read off the edits of a run.
-/

namespace LinkAtlas

namespace Store

variable {store : Store}

/-- Whether an edit takes an instance out of a slot. -/
def vacates (store : Store) (index : UInt32) : Edit → Bool
  | .remove id => (store.find? id).any fun leaver => leaver.handle.index = index
  | _ => false

/-- How often a run takes an instance out of a slot. -/
def departures (index : UInt32) : Store → List Edit → Nat
  | _, [] => 0
  | store, edit :: rest =>
      (store.vacates index edit).toNat + departures index (store.perform edit).2 rest

theorem departures_append (index : UInt32) (store : Store) (earlier later : List Edit) :
    departures index store (earlier ++ later) =
      departures index store earlier + departures index (store.run earlier) later := by
  induction earlier generalizing store with
  | nil => exact (Nat.zero_add _).symm
  | cons edit rest ih =>
      rw [List.cons_append, departures, departures, ih, Nat.add_assoc]
      rfl

/-- The generation of a slot; a slot that is yet to come begins with generation zero. -/
def generation (store : Store) (index : UInt32) : UInt32 :=
  ((store.slot? index).map Slot.generation).getD 0

theorem generation_of_live {handle : Handle} {vertex : Instance}
    (live : store.resolve handle = some vertex) :
    store.generation handle.index = handle.generation := by
  rw [generation, resolve_eq_some_iff.mp live]
  rfl

/-- Revisions leave the generations alone, whatever becomes of the index of labels. -/
theorem generation_revise (store : Store) (change : Instance → Instance) (types : Groups Handle)
    (index : UInt32) :
    ({ store.revise change with byType := types } : Store).generation index =
      store.generation index := by
  have slots : ({ store.revise change with byType := types } : Store).slot? index =
      (store.slot? index).map fun slot => { slot with occupant := slot.occupant.map change } :=
    slot?_revise store change index
  unfold generation
  rw [slots, Option.map_map]
  rfl

theorem generation_evicted {leaver : Instance}
    (live : store.resolve leaver.handle = some leaver) (index : UInt32) :
    (store.evicted leaver).generation index =
      if leaver.handle.index = index then store.generation index + 1
      else store.generation index := by
  have slots : (store.evicted leaver).slot? index =
      ((store.release leaver.handle).slot? index).map fun slot =>
        { slot with occupant := slot.occupant.map (Instance.forget leaver.handle) } :=
    slot?_revise _ _ index
  unfold generation
  rw [slots, slot?_release]
  rcases eq_or_ne leaver.handle.index index with here | here
  · have occupied := resolve_eq_some_iff.mp live
    rw [here] at occupied
    simp [here, occupied]
  · simp [here, here.symm, Option.map_map, Function.comp_def]

/-- A newcomer finds its slot in the generation that its handle names. -/
theorem Housed.generation_allocate (housed : store.Housed)
    (room : store.free = [] → store.slots.size < capacity) :
    store.generation store.allocate.1.index = store.allocate.1.generation := by
  unfold generation
  obtain ⟨top, rest, generation, waiting, held, allocated⟩ | ⟨top, waiting, number, allocated⟩ :=
    housed.allocate_cases room
  · rw [allocated, held]
    rfl
  · have none : store.slot? top = none := by
      rw [slot?, number]
      exact Array.getElem?_eq_none (Nat.le_refl _)
    rw [allocated, none]
    rfl

theorem Sound.generation_enrolled (sound : store.Sound) (bound : store.size < capacity)
    {newcomer : Instance} (own : newcomer.handle = store.allocate.1) (index : UInt32) :
    (store.enrolled newcomer).generation index = store.generation index := by
  have slots : (store.enrolled newcomer).slot? index =
      if index = newcomer.handle.index then some ⟨newcomer.handle.generation, some newcomer⟩
      else store.slot? index := sound.housed.slot?_settle (sound.room bound) own index
  rcases eq_or_ne index newcomer.handle.index with here | here
  · rw [generation, slots, if_pos here, here, own,
      sound.housed.generation_allocate (sound.room bound)]
    rfl
  · rw [generation, slots, if_neg here]
    rfl

/-- A slot goes on to the next generation exactly when an instance leaves it. -/
theorem Sound.generation_perform (sound : store.Sound) {edit : Edit}
    (bound : (store.perform edit).2.size ≤ capacity) (index : UInt32) :
    (store.perform edit).2.generation index =
      store.generation index + UInt32.ofNat (store.vacates index edit).toNat := by
  have change := sound.change edit
  generalize (store.perform edit).1 = answer, (store.perform edit).2 = after at bound change
  cases change with
  | refused refused =>
      cases refused with
      | remove absent => simp [vacates, absent]
      | add | addLabel | removeLabel | source | target | unlinkAll => simp [vacates]
  | idle idle => cases idle <;> simp [vacates]
  | @enrolled id absent labels value =>
      have grown : (store.enrolled (store.newcomer id labels value)).size = store.size + 1 :=
        sound.size_enrolled absent
      rw [sound.generation_enrolled (by omega) rfl]
      simp [vacates]
  | @evicted leaver live =>
      rw [generation_evicted live, vacates, sound.find?_eq_some_iff.mpr ⟨live, rfl⟩]
      rcases eq_or_ne leaver.handle.index index with here | here <;> simp [here]
  | labelled live fresh =>
      exact (generation_revise store _ _ index).trans (by simp [vacates])
  | unlabelled live carried =>
      exact (generation_revise store _ _ index).trans (by simp [vacates])
  | tied one two edge =>
      exact (generation_revise store _ store.byType index).trans (by simp [vacates])
  | severed one two edge =>
      exact (generation_revise store _ store.byType index).trans (by simp [vacates])
  | cleared live edge =>
      exact (generation_revise store _ store.byType index).trans (by simp [vacates])

/-- After a run, the generation of a slot has grown by the number of instances that left it. -/
theorem Sound.generation_run (sound : store.Sound) {edits : List Edit} (fits : store.Fits edits)
    (index : UInt32) :
    (store.run edits).generation index =
      store.generation index + UInt32.ofNat (departures index store edits) := by
  induction edits generalizing store with
  | nil => exact (UInt32.add_zero _).symm
  | cons edit rest ih =>
      have bound : (store.perform edit).2.size ≤ capacity := fits.tail [] List.nil_prefix
      have later := ih (sound.perform bound) fits.tail
      rw [departures, UInt32.ofNat_add, ← UInt32.add_assoc, ← sound.generation_perform bound]
      exact later

end Store

end LinkAtlas
