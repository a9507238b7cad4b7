import LinkAtlas.Proofs.Turnover

/-!
# What a handle stands for

A handle stands for the instance that it was given out for as long as that one is present. Later it
stands for nobody, unless its slot has been left so often that the generations have come around: a
slot counts the instances that leave it with 32 bits. Slot numbers have 32 bits as well, so that no
two of more than `Store.capacity` instances can be told apart for certain.
-/

namespace LinkAtlas

namespace Store

variable {store : Store}

/-! ## While the instance stays -/

/-- An edit that does not remove an instance leaves it where it is. -/
theorem Sound.resolve_perform (sound : store.Sound) {handle : Handle} {vertex : Instance}
    (live : store.resolve handle = some vertex) {edit : Edit} (stays : edit ≠ .remove vertex.id)
    (bound : (store.perform edit).2.size ≤ capacity) :
    ∃ later, (store.perform edit).2.resolve handle = some later ∧ later.id = vertex.id ∧
      later.value = vertex.value := by
  have change := sound.change edit
  generalize (store.perform edit).1 = answer, (store.perform edit).2 = after at bound change ⊢
  have revised {change : Instance → Instance}
      (keeps : (change vertex).id = vertex.id ∧ (change vertex).value = vertex.value) :
      ∃ later, (store.revise change).resolve handle = some later ∧ later.id = vertex.id ∧
        later.value = vertex.value := by
    refine ⟨change vertex, ?_, keeps⟩
    rw [resolve_revise, live]
    rfl
  have relabelled (place : Handle) (change : Roster Label → Roster Label) :
      (Store.relabel place change vertex).id = vertex.id ∧
        (Store.relabel place change vertex).value = vertex.value := by
    unfold Store.relabel
    split <;> exact ⟨rfl, rfl⟩
  cases change with
  | refused refused => exact ⟨vertex, live, rfl, rfl⟩
  | idle idle => exact ⟨vertex, live, rfl, rfl⟩
  | @enrolled id absent labels value =>
      have grown : (store.enrolled (store.newcomer id labels value)).size = store.size + 1 :=
        sound.size_enrolled absent
      exact ⟨vertex, (sound.resolve_enrolled_eq_some_iff (by omega) rfl).mpr (Or.inr live),
        rfl, rfl⟩
  | @evicted leaver gone =>
      have elsewhere : handle ≠ leaver.handle := by
        rintro rfl
        rw [gone] at live
        cases live
        exact stays rfl
      exact ⟨vertex.forget leaver.handle,
        (resolve_evicted_eq_some_iff gone).mpr ⟨elsewhere, vertex, live, rfl⟩, rfl, rfl⟩
  | labelled bearing fresh => exact revised (relabelled _ _)
  | unlabelled bearing carried => exact revised (relabelled _ _)
  | tied one two edge => exact revised (by rw [tie_eq]; exact ⟨rfl, rfl⟩)
  | severed one two edge => exact revised ⟨rfl, rfl⟩
  | cleared holding edge => exact revised ⟨rfl, rfl⟩

/-- A run that does not remove an instance leaves it where it is. -/
theorem Sound.resolve_run (sound : store.Sound) {handle : Handle} {vertex : Instance}
    (live : store.resolve handle = some vertex) {edits : List Edit}
    (stays : .remove vertex.id ∉ edits) (fits : store.Fits edits) :
    ∃ later, (store.run edits).resolve handle = some later ∧ later.id = vertex.id ∧
      later.value = vertex.value := by
  induction edits generalizing store vertex with
  | nil => exact ⟨vertex, live, rfl, rfl⟩
  | cons edit rest ih =>
      have bound : (store.perform edit).2.size ≤ capacity := fits.tail [] List.nil_prefix
      have here : edit ≠ .remove vertex.id := fun same => stays (same ▸ List.mem_cons_self)
      obtain ⟨next, held, named, valued⟩ := sound.resolve_perform live here bound
      have later : .remove next.id ∉ rest := fun gone =>
        stays (named ▸ List.mem_cons_of_mem edit gone)
      obtain ⟨last, reached, called, worth⟩ := ih (sound.perform bound) held later fits.tail
      exact ⟨last, reached, called.trans named, worth.trans valued⟩

/-! ## After the instance has left -/

/-- The removal of an instance empties its slot. -/
theorem Sound.departures_pos (sound : store.Sound) {handle : Handle} {vertex : Instance}
    (live : store.resolve handle = some vertex) {edits : List Edit}
    (removed : .remove vertex.id ∈ edits) (fits : store.Fits edits) :
    0 < departures handle.index store edits := by
  obtain ⟨stay, rest, rfl, first⟩ := List.eq_append_cons_of_mem removed
  have initial := fits.of_prefix (List.prefix_append stay _)
  obtain ⟨leaver, held, named, -⟩ := sound.resolve_run live first initial
  have kept := sound.run initial
  have own := kept.handle_eq held
  have found : (store.run stay).find? vertex.id = some leaver :=
    kept.find?_eq_some_iff.mpr ⟨own.symm ▸ held, named⟩
  have empties : (store.run stay).vacates handle.index (.remove vertex.id) = true := by
    simp [vacates, found, own]
  rw [departures_append, departures, empties]
  exact Nat.lt_of_lt_of_le (Nat.lt_add_right _ Nat.one_pos) (Nat.le_add_left _ _)

/-- A handle resolves to somebody only while the generation of its slot is the one it names. -/
theorem Sound.resolve_of_departures (sound : store.Sound) {handle : Handle}
    (current : store.generation handle.index = handle.generation) {edits : List Edit}
    (fits : store.Fits edits) (out : departures handle.index store edits % capacity ≠ 0) :
    (store.run edits).resolve handle = none := by
  cases held : (store.run edits).resolve handle with
  | none => rfl
  | some vertex =>
      have counted := sound.generation_run fits handle.index
      rw [generation_of_live held, current] at counted
      have none : UInt32.ofNat (departures handle.index store edits) = 0 :=
        UInt32.left_eq_add.mp counted
      have zero := congrArg UInt32.toNat none
      rw [UInt32.toNat_ofNat'] at zero
      exact absurd zero out

/-- A handle that is given to a newcomer belongs to nobody else, stands for the newcomer until it is
removed, and for nobody after that, as long as the instances that have left the slot since then are
not a multiple of `Store.capacity`. -/
theorem handle_stands_for_newcomer {start : Store} (origin : Origin start)
    {before after : List Edit} {id : InstanceId} {labels : List Label} {value : Option Scalar}
    {handle : Handle} (fits : start.Fits (before ++ .add id labels value :: after))
    (given : ((start.run before).perform (.add id labels value)).1 = .ok (.handle handle)) :
    (∀ other ∈ (start.run before).instances, other.handle ≠ handle) ∧
      (.remove id ∉ after → ∃ vertex,
        (start.run (before ++ .add id labels value :: after)).resolve handle = some vertex ∧
          vertex.handle = handle ∧ vertex.id = id ∧ vertex.value = value) ∧
      (.remove id ∈ after →
        0 < departures handle.index (start.run (before ++ [.add id labels value])) after ∧
        (departures handle.index (start.run (before ++ [.add id labels value])) after %
            capacity ≠ 0 →
          (start.run (before ++ .add id labels value :: after)).resolve handle = none)) := by
  have early := origin.sound_run (fits.of_prefix (List.prefix_append before _))
  have split : before ++ .add id labels value :: after =
      (before ++ [.add id labels value]) ++ after := by simp
  rw [split] at fits ⊢
  have upTo := fits.of_prefix (List.prefix_append (before ++ [.add id labels value]) after)
  have sound := origin.sound_run upTo
  have rest := fits.of_append
  have bound := upTo _ List.prefix_rfl
  rw [run_concat] at bound
  obtain ⟨vacant, arrived⟩ := early.resolve_arrival given bound
  rw [← run_concat] at arrived
  rw [run_append]
  refine ⟨?_, ?_, ?_⟩
  · rintro other inside rfl
    rw [early.mem_instances_iff.mp inside] at vacant
    cases vacant
  · intro stays
    obtain ⟨vertex, held, named, valued⟩ := sound.resolve_run arrived stays rest
    exact ⟨vertex, held, (sound.run rest).handle_eq held, named, valued⟩
  · intro removed
    exact ⟨sound.departures_pos arrived removed rest,
      sound.resolve_of_departures (generation_of_live arrived) rest⟩

/-- A run that gives a slot to its third instance. -/
def succession : List Edit :=
  [.add "ada" ["host"] none, .add "bob" ["guest"] none, .remove "bob",
    .add "eve" ["guest"] (some (.boolean true)), .link "eve" "knows" "ada", .remove "eve",
    .add "bob" ["guest"] none]

/-- The third instance of a slot is neither the first nor the second. -/
theorem handle_stands_for_newcomer_succession :
    empty.Fits succession ∧
      ((empty.run (succession.take 3)).perform
        (.add "eve" ["guest"] (some (.boolean true)))).1 = .ok (.handle ⟨1, 1⟩) ∧
      (∀ other ∈ (empty.run (succession.take 3)).instances, other.handle ≠ ⟨1, 1⟩) ∧
      (∃ vertex, (empty.run (succession.take 5)).resolve ⟨1, 1⟩ = some vertex ∧
        vertex.handle = ⟨1, 1⟩ ∧ vertex.id = "eve" ∧ vertex.value = some (.boolean true)) ∧
      0 < departures 1 (empty.run (succession.take 4)) (succession.drop 4) ∧
      (empty.run succession).resolve ⟨1, 1⟩ = none := by
  have fits : empty.Fits succession := fits_of_length_le (by decide)
  have given : ((empty.run (succession.take 3)).perform
      (.add "eve" ["guest"] (some (.boolean true)))).1 = .ok (.handle ⟨1, 1⟩) := by decide
  have stays : empty.Fits (succession.take 3 ++
      .add "eve" ["guest"] (some (.boolean true)) :: [.link "eve" "knows" "ada"]) :=
    fits.of_prefix (by decide)
  have leaves : empty.Fits (succession.take 3 ++
      .add "eve" ["guest"] (some (.boolean true)) :: succession.drop 4) := fits
  obtain ⟨apart, present, -⟩ := handle_stands_for_newcomer .empty stays given
  obtain ⟨-, -, gone⟩ := handle_stands_for_newcomer .empty leaves given
  obtain ⟨left, nobody⟩ := gone (by decide)
  exact ⟨fits, given, apart, present (by decide), left, nobody (by decide)⟩

/-! ## Where handles run out -/

/-- The store whose only slot has been left and is in this generation now. -/
def vacated (generation : UInt32) : Store where
  slots := #[⟨generation, none⟩]
  free := [0]

/-- One visitor after the other comes and goes. -/
def visits (count : Nat) : List Edit :=
  (List.replicate count [.add "bob" [] none, .remove "bob"]).flatten

theorem run_visit (generation : UInt32) :
    (vacated generation).run [.add "bob" [] none, .remove "bob"] = vacated (generation + 1) := by
  have came : ((vacated generation).perform (.add "bob" [] none)).2 =
      ⟨#[⟨generation, some ⟨⟨0, generation⟩, "bob", ∅, none, []⟩⟩], [],
        [("bob", ⟨0, generation⟩)], []⟩ := rfl
  have live : (⟨#[⟨generation, some ⟨⟨0, generation⟩, "bob", ∅, none, []⟩⟩], [],
      [("bob", ⟨0, generation⟩)], []⟩ : Store).resolve ⟨0, generation⟩ =
        some ⟨⟨0, generation⟩, "bob", ∅, none, []⟩ := if_pos rfl
  rw [run, List.foldl_cons, List.foldl_cons, List.foldl_nil, came]
  simp only [perform, remove, handleOf, Ledger.get?, if_true, bind, Except.bind, live]
  rfl

theorem run_visits (generation : UInt32) (count : Nat) :
    (vacated generation).run (visits count) = vacated (generation + UInt32.ofNat count) := by
  induction count generalizing generation with
  | zero => exact congrArg vacated (UInt32.add_zero generation).symm
  | succ count ih =>
      rw [visits, List.replicate_succ, List.flatten_cons, run_append, run_visit]
      refine (ih (generation + 1)).trans (congrArg vacated ?_)
      rw [UInt32.ofNat_add, UInt32.add_assoc, UInt32.add_comm 1]
      rfl

/-- The ids of a crowd. -/
def stranger (number : Nat) : InstanceId := String.ofList (List.replicate number 'a')

/-- So many instances arrive and none of them leaves. -/
def crowd (count : Nat) : List Edit :=
  (List.range count).map fun number => .add (stranger number) [] none

theorem stranger_injective : Function.Injective stranger := fun _ _ same =>
  (List.replicate_left_inj).mp (String.ofList_injective same)

theorem crowd_succ (count : Nat) :
    crowd (count + 1) = crowd count ++ [.add (stranger count) [] none] := by
  rw [crowd, List.range_succ, List.map_append]
  rfl

theorem fits_crowd {count : Nat} (few : count ≤ capacity) : empty.Fits (crowd count) :=
  fits_of_length_le (by rwa [crowd, List.length_map, List.length_range])

/-- A store says no to an id exactly if it has it. -/
theorem absent_of_crowd {count : Nat} (few : count ≤ capacity)
    (ids : (empty.run (crowd count)).byId.keys = (List.range count).map stranger) :
    (empty.run (crowd count)).find? (stranger count) = none := by
  rw [(sound_empty.run (fits_crowd few)).find?_eq_none_iff, ids,
    List.mem_map_of_injective stranger_injective]
  exact List.not_mem_range_self

/-- A crowd leaves no slot vacant. -/
theorem run_crowd {count : Nat} (few : count ≤ capacity) :
    (empty.run (crowd count)).byId.keys = (List.range count).map stranger ∧
      (empty.run (crowd count)).free = [] := by
  induction count with
  | zero => exact ⟨rfl, rfl⟩
  | succ count ih =>
      have fewer := Nat.le_of_succ_le few
      obtain ⟨ids, waiting⟩ := ih fewer
      have sound := sound_empty.run (fits_crowd fewer)
      have absent := absent_of_crowd fewer ids
      have unlisted : ((empty.run (crowd count)).newcomer (stranger count) [] none).id ∉
          (empty.run (crowd count)).byId.keys := sound.unlisted absent
      rw [crowd_succ, run_concat, perform_add_of_ok (sound.add_of_absent absent [] none)]
      constructor
      · rw [byId_enrolled, Ledger.insert_of_absent unlisted, Ledger.keys_append, ids,
          List.range_succ, List.map_append]
        rfl
      · have left : (empty.run (crowd count)).allocate.2.free = [] := by
          rw [allocate, waiting]
        exact left

/-- The next one of a crowd gets the next slot number, cut to 32 bits. -/
theorem answer_crowd {count : Nat} (few : count ≤ capacity) :
    ((empty.run (crowd count)).perform (.add (stranger count) [] none)).1 =
      .ok (.handle ⟨count.toUInt32, 0⟩) := by
  obtain ⟨ids, waiting⟩ := run_crowd few
  have sound := sound_empty.run (fits_crowd few)
  have slots : (empty.run (crowd count)).slots.size = count := by
    have total := congrArg List.length ids
    rw [Ledger.keys, List.length_map, List.length_map, List.length_range] at total
    rw [sound.count, waiting, List.length_nil, Nat.zero_add]
    exact total
  have next : (empty.run (crowd count)).allocate.1 = ⟨count.toUInt32, 0⟩ := by
    rw [allocate, waiting, slots]
  simp only [perform, sound.add_of_absent (absent_of_crowd few ids), Except.map, next]

/-- The first one of a crowd stays in the first slot. -/
theorem first_of_crowd {count : Nat} (somebody : 0 < count) (few : count ≤ capacity) :
    ∃ first ∈ (empty.run (crowd count)).instances,
      first.handle = ⟨0, 0⟩ ∧ first.id = stranger 0 := by
  obtain ⟨rest, rfl⟩ := Nat.exists_eq_add_one.mpr somebody
  have apart : crowd (rest + 1) =
      [.add (stranger 0) [] none] ++
        (List.range rest).map fun number => .add (stranger (number + 1)) [] none := by
    rw [crowd, List.range_succ_eq_map, List.map_cons, List.map_map]
    rfl
  have fits := fits_crowd few
  rw [apart] at fits ⊢
  have sound := sound_empty.run (fits.of_prefix (List.prefix_append _ _))
  have live : (empty.run [.add (stranger 0) [] none]).resolve ⟨0, 0⟩ =
      some ⟨⟨0, 0⟩, stranger 0, ∅, none, []⟩ := by decide
  have stays : Edit.remove (stranger 0) ∉
      (List.range rest).map fun number => Edit.add (stranger (number + 1)) [] none := by
    simp
  obtain ⟨first, held, named, -⟩ := sound.resolve_run live stays fits.of_append
  have kept := sound.run fits.of_append
  have own := kept.handle_eq held
  rw [run_append]
  exact ⟨first, kept.mem_instances_iff.mpr (own.symm ▸ held), own, named⟩

/-- Handles alias beyond the limits of 32 bits. When a slot has been left 4294967296 times, the
handle of its first instance, which was removed long ago, stands for a newcomer; and a newcomer to
4294967296 instances gets the handle of one that is present. -/
theorem handles_come_around :
    ((empty.perform (.add "ada" [] none)).1 = .ok (.handle ⟨0, 0⟩) ∧
      (empty.run ([.add "ada" [] none, .remove "ada"] ++ visits 4294967295 ++
        [.add "eve" [] none])).resolve ⟨0, 0⟩ = some ⟨⟨0, 0⟩, "eve", ∅, none, []⟩) ∧
    (∃ first ∈ (empty.run (crowd 4294967296)).instances, first.handle = ⟨0, 0⟩) ∧
      ((empty.run (crowd 4294967296)).perform (.add (stranger 4294967296) [] none)).1 =
        .ok (.handle ⟨0, 0⟩) := by
  have few : 4294967296 ≤ capacity := Nat.le_of_eq rfl
  refine ⟨⟨rfl, ?_⟩, ?_, ?_⟩
  · have left : empty.run [.add "ada" [] none, .remove "ada"] = vacated 1 := by decide
    have around : (1 : UInt32) + UInt32.ofNat 4294967295 = 0 := by decide
    rw [run_append, run_append, left, run_visits, around]
    decide
  · obtain ⟨first, inside, own, -⟩ := first_of_crowd (by decide) few
    exact ⟨first, inside, own⟩
  · exact answer_crowd few

end Store

end LinkAtlas
