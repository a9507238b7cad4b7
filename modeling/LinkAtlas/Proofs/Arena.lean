import LinkAtlas.Store.Basic
import Mathlib.Data.List.Nodup

/-!
# The arena

What a handle resolves to after each step of the arena, as long as every vacant slot waits on the
stack once and every occupant knows its own handle. A slot number has 32 bits, so this holds of at
most `Store.capacity` slots.

Changes of instances are written as a `revise`: one function applied to every occupant. Two
revisions that agree on the occupants give the same store.
-/

namespace LinkAtlas

namespace Store

/-- The number of slots that handles can tell apart. -/
def capacity : Nat := UInt32.size

def slot? (store : Store) (index : UInt32) : Option Slot := store.slots[index.toNat]?

/-- Applies one function to every occupant. -/
def revise (store : Store) (change : Instance → Instance) : Store :=
  { store with
    slots := store.slots.map fun slot => { slot with occupant := slot.occupant.map change } }

theorem resolve_eq_some_iff {store : Store} {handle : Handle} {vertex : Instance} :
    store.resolve handle = some vertex ↔
      store.slot? handle.index = some ⟨handle.generation, some vertex⟩ := by
  unfold resolve slot?
  cases store.slots[handle.index.toNat]? with
  | none => simp
  | some slot =>
      obtain ⟨generation, occupant⟩ := slot
      rcases eq_or_ne generation handle.generation with same | same
      · simp [same]
      · simp [same]

/-- Two handles into one slot do not both resolve. -/
theorem handle_eq_of_index_eq {store : Store} {first second : Handle} {vertex other : Instance}
    (one : store.resolve first = some vertex) (two : store.resolve second = some other)
    (same : first.index = second.index) : first = second := by
  have held := resolve_eq_some_iff.mp one
  rw [same, resolve_eq_some_iff.mp two] at held
  cases first
  cases second
  simp_all

theorem eq_of_slots_eq {first second : Store}
    (slots : ∀ place : Nat, first.slots[place]? = second.slots[place]?)
    (free : first.free = second.free) (byId : first.byId = second.byId)
    (byType : first.byType = second.byType) : first = second := by
  have same : first.slots = second.slots := Array.ext_getElem? slots
  cases first
  cases second
  simp_all

/-- Stores of at most `capacity` slots are the same if all their parts are the same. -/
theorem eq_of_slot?_eq {first second : Store} (room : first.slots.size ≤ capacity)
    (size : first.slots.size = second.slots.size)
    (slots : ∀ index, first.slot? index = second.slot? index) (free : first.free = second.free)
    (byId : first.byId = second.byId) (byType : first.byType = second.byType) : first = second := by
  apply eq_of_slots_eq _ free byId byType
  intro place
  by_cases inside : place < first.slots.size
  · have number : place.toUInt32.toNat = place :=
      UInt32.toNat_ofNat_of_lt' (Nat.lt_of_lt_of_le inside room)
    have held := slots place.toUInt32
    unfold slot? at held
    rwa [number] at held
  · rw [Array.getElem?_eq_none (Nat.le_of_not_lt inside),
      Array.getElem?_eq_none (size ▸ Nat.le_of_not_lt inside)]

/-! ## Revisions -/

theorem slot?_modify (store : Store) (handle : Handle) (change : Instance → Instance)
    (index : UInt32) :
    (store.modify handle change).slot? index = (store.slot? index).map fun slot =>
      if index = handle.index ∧ slot.generation = handle.generation then
        { slot with occupant := slot.occupant.map change }
      else slot := by
  unfold slot? modify
  rw [Array.getElem?_modify]
  rcases eq_or_ne index handle.index with here | here
  · simp [here]
  · have elsewhere : handle.index.toNat ≠ index.toNat := fun same =>
      here (UInt32.toNat_inj.mp same.symm)
    simp [here, elsewhere]

theorem slot?_revise (store : Store) (change : Instance → Instance) (index : UInt32) :
    (store.revise change).slot? index =
      (store.slot? index).map fun slot => { slot with occupant := slot.occupant.map change } :=
  Array.getElem?_map

theorem resolve_revise (store : Store) (change : Instance → Instance) (handle : Handle) :
    (store.revise change).resolve handle = (store.resolve handle).map change := by
  apply Option.ext
  intro vertex
  rw [resolve_eq_some_iff, slot?_revise]
  constructor
  · intro revised
    obtain ⟨⟨generation, occupant⟩, held, same⟩ := Option.map_eq_some_iff.mp revised
    obtain ⟨former, was, now⟩ := Option.map_eq_some_iff.mp (congrArg Slot.occupant same)
    have present : generation = handle.generation := congrArg Slot.generation same
    dsimp only at was
    rw [present, was] at held
    rw [resolve_eq_some_iff.mpr held, ← now]
    rfl
  · intro revised
    obtain ⟨former, was, now⟩ := Option.map_eq_some_iff.mp revised
    rw [resolve_eq_some_iff.mp was, ← now]
    rfl

theorem resolve_revise_eq (store : Store) (change : Instance → Instance) :
    (store.revise change).resolve = fun handle => (store.resolve handle).map change :=
  funext (resolve_revise store change)

theorem revise_revise (store : Store) (first second : Instance → Instance) :
    (store.revise first).revise second = store.revise fun vertex => second (first vertex) := by
  unfold revise
  simp [Function.comp_def]

/-! ## Housed instances -/

/-- The slots can all be told apart, every occupant knows its handle, and the vacant slots wait on
the stack, each of them once. -/
structure Housed (store : Store) : Prop where
  room : store.slots.size ≤ capacity
  own : ∀ index generation vertex,
    store.slot? index = some ⟨generation, some vertex⟩ → vertex.handle = ⟨index, generation⟩
  free_iff : ∀ index, index ∈ store.free ↔ ∃ generation, store.slot? index = some ⟨generation, none⟩
  free_nodup : store.free.Nodup

theorem housed_empty : Housed empty where
  room := Nat.zero_le _
  own := fun _ _ _ held => nomatch held
  free_iff := by
    intro index
    simp [empty, slot?]
  free_nodup := List.nodup_nil

namespace Housed

variable {store : Store}

theorem handle_eq (housed : store.Housed) {handle : Handle} {vertex : Instance}
    (live : store.resolve handle = some vertex) : vertex.handle = handle :=
  housed.own _ _ _ (resolve_eq_some_iff.mp live)

/-- Two revisions that agree on the occupants are the same. -/
theorem revise_congr (housed : store.Housed) {first second : Instance → Instance}
    (same : ∀ handle vertex, store.resolve handle = some vertex → first vertex = second vertex) :
    store.revise first = store.revise second := by
  refine eq_of_slot?_eq ?_ ?_ ?_ rfl rfl rfl
  · exact Nat.le_trans (Nat.le_of_eq Array.size_map) housed.room
  · exact (Array.size_map).trans Array.size_map.symm
  intro index
  rw [slot?_revise, slot?_revise]
  cases held : store.slot? index with
  | none => rfl
  | some slot =>
      obtain ⟨generation, occupant⟩ := slot
      cases occupant with
      | none => rfl
      | some vertex =>
          have live : store.resolve ⟨index, generation⟩ = some vertex :=
            resolve_eq_some_iff.mpr held
          simp [same _ _ live]

theorem revise_eq_self (housed : store.Housed) {change : Instance → Instance}
    (same : ∀ handle vertex, store.resolve handle = some vertex → change vertex = vertex) :
    store.revise change = store := by
  rw [housed.revise_congr same]
  simp [Store.revise]

/-- Changing the instance behind a handle is a revision of the one that has this handle. -/
theorem modify_eq_revise (housed : store.Housed) (handle : Handle) (change : Instance → Instance) :
    store.modify handle change =
      store.revise fun vertex => if vertex.handle = handle then change vertex else vertex := by
  refine eq_of_slot?_eq ?_ ?_ ?_ rfl rfl rfl
  · exact Nat.le_trans (Nat.le_of_eq Array.size_modify) housed.room
  · exact (Array.size_modify).trans Array.size_map.symm
  intro index
  rw [slot?_modify, slot?_revise]
  cases held : store.slot? index with
  | none => rfl
  | some slot =>
      obtain ⟨generation, occupant⟩ := slot
      cases occupant with
      | none => simp
      | some vertex =>
          have own : vertex.handle = ⟨index, generation⟩ := housed.own _ _ _ held
          have here : vertex.handle = handle ↔
              index = handle.index ∧ generation = handle.generation := by
            rw [own]
            cases handle
            simp
          rcases eq_or_ne vertex.handle handle with present | present
          · simp [here.mp present, present]
          · simp [mt here.mpr present, present]

theorem revise (housed : store.Housed) {change : Instance → Instance}
    (keeps : ∀ vertex, (change vertex).handle = vertex.handle) : (store.revise change).Housed where
  room := by
    rw [Store.revise, Array.size_map]
    exact housed.room
  own := by
    intro index generation vertex held
    rw [slot?_revise] at held
    obtain ⟨⟨former, occupant⟩, was, same⟩ := Option.map_eq_some_iff.mp held
    obtain ⟨original, occupied, changed⟩ :=
      Option.map_eq_some_iff.mp (congrArg Slot.occupant same)
    have present : former = generation := congrArg Slot.generation same
    dsimp only at occupied
    rw [present, occupied] at was
    rw [← changed, keeps]
    exact housed.own _ _ _ was
  free_iff := by
    intro index
    rw [slot?_revise]
    refine (housed.free_iff index).trans (exists_congr fun generation => ?_)
    cases store.slot? index with
    | none => simp
    | some slot =>
        obtain ⟨present, occupant⟩ := slot
        cases occupant <;> simp
  free_nodup := housed.free_nodup

end Housed

/-! ## Leaving -/

theorem slot?_release (store : Store) (handle : Handle) (index : UInt32) :
    (store.release handle).slot? index =
      if index = handle.index then (store.slot? index).map fun slot => ⟨slot.generation + 1, none⟩
      else store.slot? index := by
  unfold slot? release
  rw [Array.getElem?_modify]
  rcases eq_or_ne index handle.index with here | here
  · simp [here]
  · have elsewhere : handle.index.toNat ≠ index.toNat := fun same =>
      here (UInt32.toNat_inj.mp same.symm)
    simp [here, elsewhere]

/-- A released handle resolves to nothing, and all others to what they did before. -/
theorem resolve_release {store : Store} {handle : Handle} {leaver : Instance}
    (live : store.resolve handle = some leaver) (other : Handle) :
    (store.release handle).resolve other =
      if other = handle then none else store.resolve other := by
  apply Option.ext
  intro vertex
  rw [resolve_eq_some_iff, slot?_release]
  rcases eq_or_ne other.index handle.index with here | here
  · rw [if_pos here, here, resolve_eq_some_iff.mp live]
    rcases eq_or_ne other handle with same | same
    · simp [same]
    · simp only [Option.map_some, Option.some.injEq, Slot.mk.injEq, reduceCtorEq, and_false,
        if_neg same, false_iff]
      exact fun alive => same (handle_eq_of_index_eq alive live here)
  · have different : other ≠ handle := fun same => here (congrArg Handle.index same)
    rw [if_neg here, if_neg different, resolve_eq_some_iff]

theorem Housed.release {store : Store} (housed : store.Housed) {handle : Handle}
    {leaver : Instance} (live : store.resolve handle = some leaver) :
    (store.release handle).Housed where
  room := Nat.le_trans (Nat.le_of_eq Array.size_modify) housed.room
  own := by
    intro index generation vertex held
    rw [slot?_release] at held
    split at held
    · obtain ⟨slot, _, same⟩ := Option.map_eq_some_iff.mp held
      cases same
    · exact housed.own _ _ _ held
  free_iff := by
    intro index
    rw [slot?_release]
    refine List.mem_cons.trans ?_
    rcases eq_or_ne index handle.index with here | here
    · simp [here, resolve_eq_some_iff.mp live]
    · simp [here, housed.free_iff]
  free_nodup := by
    refine List.nodup_cons.mpr ⟨?_, housed.free_nodup⟩
    intro waiting
    obtain ⟨generation, held⟩ := (housed.free_iff _).mp waiting
    rw [resolve_eq_some_iff.mp live] at held
    cases held

/-! ## Arriving -/

/-- The arena with a newcomer in the slot that was allocated for it. -/
def settle (store : Store) (newcomer : Instance) : Store := store.allocate.2.seat newcomer

theorem slot?_seat (store : Store) (newcomer : Instance) (index : UInt32) :
    (store.seat newcomer).slot? index =
      if index = newcomer.handle.index then
        (store.slot? index).map fun slot => ⟨slot.generation, some newcomer⟩
      else store.slot? index := by
  unfold slot? seat
  rw [Array.getElem?_modify]
  rcases eq_or_ne index newcomer.handle.index with here | here
  · simp [here]
  · have elsewhere : newcomer.handle.index.toNat ≠ index.toNat := fun same =>
      here (UInt32.toNat_inj.mp same.symm)
    simp [here, elsewhere]

namespace Housed

variable {store : Store}

/-- Where a newcomer goes: to the vacant slot on top of the stack, or to a new slot if every slot is
occupied. -/
theorem allocate_cases (housed : store.Housed)
    (room : store.free = [] → store.slots.size < capacity) :
    (∃ index rest generation, store.free = index :: rest ∧
      store.slot? index = some ⟨generation, none⟩ ∧
      store.allocate = (⟨index, generation⟩, { store with free := rest })) ∨
    (∃ index : UInt32, store.free = [] ∧ index.toNat = store.slots.size ∧
      store.allocate = (⟨index, 0⟩, { store with slots := store.slots.push {} })) := by
  unfold allocate
  cases waiting : store.free with
  | nil =>
      exact Or.inr ⟨store.slots.size.toUInt32, rfl,
        UInt32.toNat_ofNat_of_lt' (room waiting), rfl⟩
  | cons index rest =>
      obtain ⟨generation, held⟩ := (housed.free_iff index).mp (waiting ▸ List.mem_cons_self)
      have seen := held
      unfold slot? at seen
      exact Or.inl ⟨index, rest, generation, rfl, held, by simp [seen]⟩

theorem slot?_settle (housed : store.Housed)
    (room : store.free = [] → store.slots.size < capacity) {newcomer : Instance}
    (own : newcomer.handle = store.allocate.1) (index : UInt32) :
    (store.settle newcomer).slot? index =
      if index = newcomer.handle.index then some ⟨newcomer.handle.generation, some newcomer⟩
      else store.slot? index := by
  rw [settle, slot?_seat]
  obtain ⟨top, rest, generation, waiting, held, allocated⟩ | ⟨top, waiting, number, allocated⟩ :=
    housed.allocate_cases room
  · rw [allocated] at own ⊢
    rcases eq_or_ne index newcomer.handle.index with here | here
    · have seen : store.slot? index = some ⟨generation, none⟩ := by
        rw [here, own]
        exact held
      rw [if_pos here, if_pos here, own]
      exact congrArg (Option.map _) seen
    · rw [if_neg here, if_neg here]
      rfl
  · rw [allocated] at own ⊢
    rcases eq_or_ne index newcomer.handle.index with here | here
    · have fresh : ({ store with slots := store.slots.push {} } : Store).slot? index = some {} := by
        rw [here, own]
        rw [slot?, number]
        exact Array.getElem?_push_size
      rw [if_pos here, if_pos here, fresh, own]
      rfl
    · have elsewhere : index.toNat ≠ store.slots.size := fun same =>
        here (by rw [own]; exact UInt32.toNat_inj.mp (same.trans number.symm))
      rw [if_neg here, if_neg here]
      unfold slot?
      rw [Array.getElem?_push, if_neg elsewhere]

/-- Nobody lives where a newcomer goes. -/
theorem slot?_allocate (housed : store.Housed)
    (room : store.free = [] → store.slots.size < capacity) (generation : UInt32)
    (vertex : Instance) :
    store.slot? store.allocate.1.index ≠ some ⟨generation, some vertex⟩ := by
  obtain ⟨top, rest, present, waiting, held, allocated⟩ | ⟨top, waiting, number, allocated⟩ :=
    housed.allocate_cases room
  · rw [allocated]
    intro occupied
    cases held.symm.trans occupied
  · rw [allocated]
    intro occupied
    unfold slot? at occupied
    dsimp only at occupied
    rw [number, Array.getElem?_eq_none (Nat.le_refl _)] at occupied
    cases occupied

theorem resolve_allocate (housed : store.Housed)
    (room : store.free = [] → store.slots.size < capacity) :
    store.resolve store.allocate.1 = none := by
  cases found : store.resolve store.allocate.1 with
  | none => rfl
  | some vertex => exact absurd (resolve_eq_some_iff.mp found) (housed.slot?_allocate room _ _)

/-- The handle of a newcomer resolves to it, and all others to what they did before. -/
theorem resolve_settle (housed : store.Housed)
    (room : store.free = [] → store.slots.size < capacity) {newcomer : Instance}
    (own : newcomer.handle = store.allocate.1) (handle : Handle) :
    (store.settle newcomer).resolve handle =
      if handle = newcomer.handle then some newcomer else store.resolve handle := by
  apply Option.ext
  intro vertex
  rw [resolve_eq_some_iff, housed.slot?_settle room own]
  rcases eq_or_ne handle.index newcomer.handle.index with here | here
  · rw [if_pos here]
    rcases eq_or_ne handle newcomer.handle with same | same
    · simp [same]
    · have elsewhen : newcomer.handle.generation ≠ handle.generation := fun present => same (by
        change Handle.mk handle.index handle.generation =
          Handle.mk newcomer.handle.index newcomer.handle.generation
        rw [here, present])
      have vacant : store.resolve handle ≠ some vertex := fun live => by
        have occupied := resolve_eq_some_iff.mp live
        rw [here, own] at occupied
        exact housed.slot?_allocate room _ _ occupied
      simp [same, elsewhen, vacant]
  · have different : handle ≠ newcomer.handle := fun same => here (congrArg Handle.index same)
    rw [if_neg here, if_neg different, resolve_eq_some_iff]

theorem size_settle (housed : store.Housed)
    (room : store.free = [] → store.slots.size < capacity) (newcomer : Instance) :
    (store.settle newcomer).slots.size + store.free.length =
      store.slots.size + (store.settle newcomer).free.length + 1 := by
  rw [settle, seat, Array.size_modify]
  obtain ⟨top, rest, generation, waiting, held, allocated⟩ | ⟨top, waiting, number, allocated⟩ :=
    housed.allocate_cases room
  · rw [allocated, waiting, List.length_cons]
    exact (Nat.add_assoc _ _ _).symm
  · rw [allocated, waiting]
    simp [Array.size_push]

theorem settle (housed : store.Housed)
    (room : store.free = [] → store.slots.size < capacity) {newcomer : Instance}
    (own : newcomer.handle = store.allocate.1) : (store.settle newcomer).Housed where
  room := by
    rw [Store.settle, seat, Array.size_modify]
    obtain ⟨top, rest, generation, waiting, held, allocated⟩ | ⟨top, waiting, number, allocated⟩ :=
      housed.allocate_cases room
    · rw [allocated]
      exact housed.room
    · rw [allocated, Array.size_push]
      exact room waiting
  own := by
    intro index generation vertex held
    rw [housed.slot?_settle room own] at held
    split at held
    · rename_i here
      cases held
      rw [here]
    · exact housed.own _ _ _ held
  free_iff := by
    intro index
    rw [housed.slot?_settle room own]
    unfold Store.settle seat
    obtain ⟨top, rest, generation, waiting, held, allocated⟩ | ⟨top, waiting, number, allocated⟩ :=
      housed.allocate_cases room
    · rw [own, allocated]
      have once := housed.free_nodup
      rw [waiting, List.nodup_cons] at once
      have listed := housed.free_iff index
      rw [waiting, List.mem_cons] at listed
      rcases eq_or_ne index top with here | here
      · simp [here, once.1]
      · rw [or_iff_right here] at listed
        simp only [if_neg here]
        exact listed
    · have listed := housed.free_iff index
      rw [own, allocated]
      rw [waiting] at listed ⊢
      rcases eq_or_ne index top with here | here
      · simp [here]
      · simp only [if_neg here]
        exact listed
  free_nodup := by
    unfold Store.settle seat
    obtain ⟨top, rest, generation, waiting, held, allocated⟩ | ⟨top, waiting, number, allocated⟩ :=
      housed.allocate_cases room
    · have once := housed.free_nodup
      rw [waiting, List.nodup_cons] at once
      rw [allocated]
      exact once.2
    · rw [allocated]
      exact housed.free_nodup

end Housed

end Store

end LinkAtlas
