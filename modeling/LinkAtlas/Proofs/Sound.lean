import LinkAtlas.Proofs.Arena
import LinkAtlas.Proofs.Groups
import LinkAtlas.Store.Edit

/-!
# Sound stores

A store is sound if its arena is in order and everything it keeps twice agrees: the index of ids
with the occupants, the index of labels with the labels of the occupants, and the two ends of every
link.
A revision that touches nothing but links keeps a store sound as long as it treats both ends of a
link alike.
-/

namespace LinkAtlas

namespace Instance

/-- Cuts the links that are gone; `gone` is told the instance, the kind of link and the target. -/
def trim (gone : Handle → Label → Handle → Bool) (vertex : Instance) : Instance :=
  { vertex with links := Groups.prune (gone vertex.handle) vertex.links }

variable {vertex : Instance}

theorem mem_targets_trim (neat : Groups.Neat vertex.links) (gone : Handle → Label → Handle → Bool)
    {edge : Label} {target : Handle} :
    target ∈ (vertex.trim gone).targets edge ↔
      target ∈ vertex.targets edge ∧ gone vertex.handle edge target = false := by
  have cut : (vertex.trim gone).targets edge =
      (vertex.targets edge).keep fun target => !gone vertex.handle edge target :=
    Groups.members_prune neat.distinct _ edge
  rw [cut, Roster.mem_keep, Bool.not_eq_true']

theorem trim_trim (first second : Handle → Label → Handle → Bool) (vertex : Instance) :
    (vertex.trim first).trim second =
      vertex.trim fun source edge target =>
        first source edge target || second source edge target := by
  have twice := Groups.prune_prune (first vertex.handle) (second vertex.handle) vertex.links
  unfold trim
  dsimp only
  rw [twice]

theorem trim_congr (neat : Groups.Neat vertex.links) {first second : Handle → Label → Handle → Bool}
    (same : ∀ edge, ∀ target ∈ vertex.targets edge,
      first vertex.handle edge target = second vertex.handle edge target) :
    vertex.trim first = vertex.trim second := by
  unfold trim
  rw [Groups.prune_congr neat same]

theorem trim_eq_self (neat : Groups.Neat vertex.links) {gone : Handle → Label → Handle → Bool}
    (stays : ∀ edge, ∀ target ∈ vertex.targets edge, gone vertex.handle edge target = false) :
    vertex.trim gone = vertex := by
  rw [trim, Groups.prune_eq_self neat stays]

/-- Cuts every link to one handle. -/
def forget (handle : Handle) : Instance → Instance :=
  trim fun _ _ target => target = handle

theorem mem_targets_forget (neat : Groups.Neat vertex.links) {handle : Handle} {edge : Label}
    {target : Handle} :
    target ∈ (vertex.forget handle).targets edge ↔
      target ∈ vertex.targets edge ∧ target ≠ handle := by
  rw [forget, mem_targets_trim neat, decide_eq_false_iff_not]

end Instance

namespace Store

/-- The arena is in order and no instance keeps a kind of link twice or without targets. -/
structure Orderly (store : Store) : Prop where
  housed : store.Housed
  neat : ∀ handle vertex, store.resolve handle = some vertex → Groups.Neat vertex.links

namespace Orderly

variable {store : Store}

theorem trim (orderly : store.Orderly) (gone : Handle → Label → Handle → Bool) :
    (store.revise (Instance.trim gone)).Orderly where
  housed := orderly.housed.revise fun _ => rfl
  neat := by
    intro handle changed revised
    rw [resolve_revise] at revised
    obtain ⟨vertex, live, rfl⟩ := Option.map_eq_some_iff.mp revised
    exact (orderly.neat _ _ live).prune _

theorem release (orderly : store.Orderly) {handle : Handle} {leaver : Instance}
    (live : store.resolve handle = some leaver) : (store.release handle).Orderly where
  housed := orderly.housed.release live
  neat := by
    intro other vertex held
    rw [resolve_release live] at held
    split at held
    · cases held
    · exact orderly.neat _ _ held

end Orderly

/-- The two indexes, the links and the arena agree with each other. -/
structure Sound (store : Store) : Prop where
  orderly : store.Orderly
  /-- an id is entered exactly if an instance with it is present, under the handle of that one -/
  named : ∀ id handle, store.byId.get? id = some handle ↔
    ∃ vertex, store.resolve handle = some vertex ∧ vertex.id = id
  ids_distinct : Ledger.Distinct store.byId
  count : store.slots.size = store.free.length + store.size
  /-- whoever is linked to is present and links back -/
  reciprocal : ∀ handle vertex edge target, store.resolve handle = some vertex →
    target ∈ vertex.targets edge →
    ∃ other, store.resolve target = some other ∧ handle ∈ other.targets edge
  types_neat : Groups.Neat store.byType
  carriers : ∀ label handle, handle ∈ Groups.members store.byType label ↔
    ∃ vertex, store.resolve handle = some vertex ∧ label ∈ vertex.labels

theorem sound_empty : Sound empty where
  orderly := by
    refine ⟨housed_empty, fun handle vertex live => ?_⟩
    simp [empty, resolve] at live
  named := by
    intro id handle
    simp [empty, resolve]
  ids_distinct := Ledger.distinct_nil
  count := rfl
  reciprocal := by
    intro handle vertex edge target live
    simp [empty, resolve] at live
  types_neat := Groups.neat_nil
  carriers := by
    intro label handle
    simp [empty, resolve, Groups.members]

namespace Sound

variable {store : Store}

theorem housed (sound : store.Sound) : store.Housed := sound.orderly.housed

theorem neat (sound : store.Sound) {handle : Handle} {vertex : Instance}
    (live : store.resolve handle = some vertex) : Groups.Neat vertex.links :=
  sound.orderly.neat handle vertex live

theorem handle_eq (sound : store.Sound) {handle : Handle} {vertex : Instance}
    (live : store.resolve handle = some vertex) : vertex.handle = handle :=
  sound.housed.handle_eq live

/-- An instance is found under its id exactly if it is present. -/
theorem find?_eq_some_iff (sound : store.Sound) {id : InstanceId} {vertex : Instance} :
    store.find? id = some vertex ↔ store.resolve vertex.handle = some vertex ∧ vertex.id = id := by
  rw [find?, Option.bind_eq_some_iff]
  constructor
  · rintro ⟨handle, entered, live⟩
    obtain ⟨other, alive, same⟩ := (sound.named id handle).mp entered
    have one : other = vertex := Option.some.inj (alive.symm.trans live)
    rw [sound.handle_eq live, ← one]
    exact ⟨alive, same⟩
  · rintro ⟨live, same⟩
    exact ⟨vertex.handle, (sound.named id _).mpr ⟨vertex, live, same⟩, live⟩

theorem get?_byId (sound : store.Sound) (id : InstanceId) :
    store.byId.get? id = (store.find? id).map Instance.handle := by
  cases found : store.find? id with
  | some vertex =>
      obtain ⟨live, same⟩ := sound.find?_eq_some_iff.mp found
      exact (sound.named id _).mpr ⟨vertex, live, same⟩
  | none =>
      cases entered : store.byId.get? id with
      | none => rfl
      | some handle =>
          obtain ⟨vertex, live, same⟩ := (sound.named id handle).mp entered
          have own := sound.handle_eq live
          rw [sound.find?_eq_some_iff.mpr ⟨own ▸ live, same⟩] at found
          cases found

theorem find?_eq_none_iff (sound : store.Sound) {id : InstanceId} :
    store.find? id = none ↔ id ∉ store.byId.keys := by
  rw [← Ledger.get?_eq_none_iff, sound.get?_byId, Option.map_eq_none_iff]

theorem handleOf_of_found (sound : store.Sound) {id : InstanceId} {vertex : Instance}
    (found : store.find? id = some vertex) : store.handleOf id = .ok vertex.handle := by
  rw [handleOf, sound.get?_byId, found]
  rfl

theorem handleOf_of_absent (sound : store.Sound) {id : InstanceId}
    (absent : store.find? id = none) : store.handleOf id = .error (.unknownInstance id) := by
  rw [handleOf, sound.get?_byId, absent]
  rfl

theorem contains_byId (sound : store.Sound) (id : InstanceId) :
    store.byId.contains id = (store.find? id).isSome := by
  rw [Ledger.contains, sound.get?_byId, Option.isSome_map]

/-- Different instances have different ids. -/
theorem handle_eq_of_id_eq (sound : store.Sound) {first second : Handle} {vertex other : Instance}
    (one : store.resolve first = some vertex) (two : store.resolve second = some other)
    (same : vertex.id = other.id) : first = second := by
  have entered := (sound.named _ _).mpr ⟨vertex, one, same⟩
  rw [(sound.named _ _).mpr ⟨other, two, rfl⟩] at entered
  exact (Option.some.inj entered).symm

/-- Links are seen from both ends. -/
theorem mem_targets_comm (sound : store.Sound) {first second : Handle} {vertex other : Instance}
    (one : store.resolve first = some vertex) (two : store.resolve second = some other)
    (edge : Label) : second ∈ vertex.targets edge ↔ first ∈ other.targets edge := by
  constructor
  · intro linked
    obtain ⟨present, live, back⟩ := sound.reciprocal _ _ _ _ one linked
    rw [two] at live
    cases live
    exact back
  · intro linked
    obtain ⟨present, live, back⟩ := sound.reciprocal _ _ _ _ two linked
    rw [one] at live
    cases live
    exact back

/-- As long as the ids leave room for one more slot number, so do the slots. -/
theorem room (sound : store.Sound) (bound : store.size < capacity) :
    store.free = [] → store.slots.size < capacity := by
  intro waiting
  rw [sound.count, waiting, List.length_nil, Nat.zero_add]
  exact bound

/-! ## Revisions -/

/-- A revision that leaves handles and ids as they are, together with an index of labels that fits
it. -/
theorem rework (sound : store.Sound) {change : Instance → Instance} {types : Groups Handle}
    (keeps : ∀ vertex, (change vertex).handle = vertex.handle ∧ (change vertex).id = vertex.id)
    (neat : ∀ handle vertex, store.resolve handle = some vertex → Groups.Neat (change vertex).links)
    (reciprocal : ∀ handle vertex edge target, store.resolve handle = some vertex →
      target ∈ (change vertex).targets edge →
      ∃ other, store.resolve target = some other ∧ handle ∈ (change other).targets edge)
    (types_neat : Groups.Neat types)
    (carriers : ∀ label handle, handle ∈ Groups.members types label ↔
      ∃ vertex, store.resolve handle = some vertex ∧ label ∈ (change vertex).labels) :
    ({ store.revise change with byType := types } : Store).Sound := by
  have resolves (handle : Handle) : ({ store.revise change with byType := types } : Store).resolve
      handle = (store.resolve handle).map change := resolve_revise store change handle
  have housed := sound.housed.revise fun vertex => (keeps vertex).1
  refine ⟨⟨⟨housed.room, housed.own, housed.free_iff, housed.free_nodup⟩, ?_⟩, ?_,
    sound.ids_distinct, (Array.size_map).trans sound.count, ?_, types_neat, ?_⟩
  · intro handle changed revised
    obtain ⟨vertex, live, rfl⟩ := Option.map_eq_some_iff.mp ((resolves handle).symm.trans revised)
    exact neat handle vertex live
  · intro id handle
    rw [resolves]
    refine (sound.named id handle).trans ?_
    constructor
    · rintro ⟨vertex, live, same⟩
      exact ⟨change vertex, by rw [live]; rfl, (keeps vertex).2.trans same⟩
    · rintro ⟨changed, revised, same⟩
      obtain ⟨vertex, live, rfl⟩ := Option.map_eq_some_iff.mp revised
      exact ⟨vertex, live, (keeps vertex).2.symm.trans same⟩
  · intro handle changed edge target revised linked
    obtain ⟨vertex, live, rfl⟩ := Option.map_eq_some_iff.mp ((resolves handle).symm.trans revised)
    obtain ⟨other, present, back⟩ := reciprocal handle vertex edge target live linked
    exact ⟨change other, by rw [resolves, present]; rfl, back⟩
  · intro label handle
    rw [resolves]
    refine (carriers label handle).trans ?_
    constructor
    · rintro ⟨vertex, live, carried⟩
      exact ⟨change vertex, by rw [live]; rfl, carried⟩
    · rintro ⟨changed, revised, carried⟩
      obtain ⟨vertex, live, rfl⟩ := Option.map_eq_some_iff.mp revised
      exact ⟨vertex, live, carried⟩

/-- New links between the instances of a sound store, each with its counterpart. -/
theorem relink (sound : store.Sound) {change : Instance → Instance}
    (links : ∀ vertex, change vertex = { vertex with links := (change vertex).links })
    (neat : ∀ handle vertex, store.resolve handle = some vertex → Groups.Neat (change vertex).links)
    (reciprocal : ∀ handle vertex edge target, store.resolve handle = some vertex →
      target ∈ (change vertex).targets edge →
      ∃ other, store.resolve target = some other ∧ handle ∈ (change other).targets edge) :
    (store.revise change).Sound := by
  refine sound.rework (fun vertex => ?_) neat reciprocal sound.types_neat fun label handle => ?_
  · rw [links vertex]
    exact ⟨rfl, rfl⟩
  · refine (sound.carriers label handle).trans (exists_congr fun vertex => ?_)
    rw [links vertex]

/-- Cutting links in sound stores, each of them at both ends. -/
theorem trim (sound : store.Sound) {gone : Handle → Label → Handle → Bool}
    (both : ∀ source edge target, gone source edge target = gone target edge source) :
    (store.revise (Instance.trim gone)).Sound := by
  refine sound.relink (fun _ => rfl) (fun handle vertex live => (sound.neat live).prune _) ?_
  intro handle vertex edge target live linked
  obtain ⟨held, kept⟩ := (Instance.mem_targets_trim (sound.neat live) gone).mp linked
  obtain ⟨other, present, back⟩ := sound.reciprocal _ _ _ _ live held
  refine ⟨other, present, (Instance.mem_targets_trim (sound.neat present) gone).mpr ⟨back, ?_⟩⟩
  rw [sound.handle_eq present, both, ← sound.handle_eq live]
  exact kept

end Sound

end Store

end LinkAtlas
