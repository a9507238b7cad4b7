import LinkAtlas.Proofs.Change
import LinkAtlas.Proofs.Preservation
import LinkAtlas.Record.Load
import Mathlib.Data.List.Induction

/-!
# Runs of edits

Every state of a run is sound, as long as none of them holds more than `Store.capacity` instances at
once. A store that was loaded from records is the end of such a run: the records' instances are
brought in one after the other and then linked.
-/

namespace LinkAtlas

namespace Store

variable {store : Store}

/-- A newcomer adds one to the number of instances. -/
theorem Sound.size_enrolled (sound : store.Sound) {newcomer : Instance}
    (absent : store.find? newcomer.id = none) :
    (store.enrolled newcomer).size = store.size + 1 := by
  rw [size, byId_enrolled, Ledger.insert_of_absent (sound.unlisted absent), List.length_append]
  rfl

/-- An edit keeps a store sound unless it leads beyond the capacity. -/
theorem Sound.perform (sound : store.Sound) {edit : Edit}
    (bound : (store.perform edit).2.size ≤ capacity) : (store.perform edit).2.Sound := by
  have change := sound.change edit
  generalize (store.perform edit).1 = answer, (store.perform edit).2 = after at bound change
  cases change with
  | refused => exact sound
  | idle => exact sound
  | @enrolled id absent labels value =>
      have grown : (store.enrolled (store.newcomer id labels value)).size = store.size + 1 :=
        sound.size_enrolled absent
      exact sound.enrolled (by omega) rfl absent rfl
  | evicted live => exact sound.evicted live
  | labelled live fresh => exact sound.labelled live _
  | unlabelled live carried => exact sound.unlabelled _ _
  | tied one two edge => exact sound.tied one two edge
  | severed one two edge => exact sound.trim (between_comm _ _ _)
  | cleared live edge => exact sound.trim (touching_comm _ _)

/-- What has come of an addition that was answered with a handle. -/
theorem Sound.arrival (sound : store.Sound) {id : InstanceId} {labels : List Label}
    {value : Option Scalar} {handle : Handle}
    (given : (store.perform (.add id labels value)).1 = .ok (.handle handle)) :
    store.find? id = none ∧ store.allocate.1 = handle ∧
      (store.perform (.add id labels value)).2 =
        store.enrolled (store.newcomer id labels value) := by
  have change := sound.change_add id labels value
  generalize (store.perform (.add id labels value)).1 = answer,
    (store.perform (.add id labels value)).2 = after at given change ⊢
  cases change with
  | refused refused => cases given
  | idle idle => cases given
  | enrolled absent labels value =>
      cases given
      exact ⟨absent, rfl, rfl⟩

/-- The handle that is given out belonged to nobody and now belongs to the newcomer. -/
theorem Sound.resolve_arrival (sound : store.Sound) {id : InstanceId} {labels : List Label}
    {value : Option Scalar} {handle : Handle}
    (given : (store.perform (.add id labels value)).1 = .ok (.handle handle))
    (bound : (store.perform (.add id labels value)).2.size ≤ capacity) :
    store.resolve handle = none ∧
      (store.perform (.add id labels value)).2.resolve handle =
        some (store.newcomer id labels value) := by
  obtain ⟨absent, rfl, same⟩ := sound.arrival given
  have grown : (store.enrolled (store.newcomer id labels value)).size = store.size + 1 :=
    sound.size_enrolled absent
  rw [same] at bound ⊢
  have left : store.size < capacity := by omega
  exact ⟨sound.housed.resolve_allocate (sound.room left),
    (sound.resolve_enrolled_eq_some_iff left rfl).mpr (Or.inl ⟨rfl, rfl⟩)⟩

/-- An edit adds one instance at most. -/
theorem Sound.size_perform_le (sound : store.Sound) (edit : Edit) :
    (store.perform edit).2.size ≤ store.size + 1 := by
  have change := sound.change edit
  generalize (store.perform edit).1 = answer, (store.perform edit).2 = after at change ⊢
  cases change with
  | @enrolled id absent labels value => exact Nat.le_of_eq (sound.size_enrolled absent)
  | @evicted leaver live =>
      have entered := (sound.named _ _).mpr ⟨leaver, live, rfl⟩
      have shorter : (store.byId.erase leaver.id).length + 1 = store.byId.length :=
        Ledger.length_erase (Ledger.mem_keys_of_get? entered)
      unfold size
      rw [byId_evicted]
      omega
  | refused => exact Nat.le_succ _
  | idle => exact Nat.le_succ _
  | labelled live fresh => exact Nat.le_succ _
  | unlabelled live carried => exact Nat.le_succ _
  | tied one two edge => exact Nat.le_succ _
  | severed one two edge => exact Nat.le_succ _
  | cleared live edge => exact Nat.le_succ _

/-! ## Many edits -/

/-- At no moment of the run are more instances present than handles can tell apart. -/
def Fits (store : Store) (edits : List Edit) : Prop :=
  ∀ earlier, earlier <+: edits → (store.run earlier).size ≤ capacity

theorem run_append (store : Store) (earlier later : List Edit) :
    store.run (earlier ++ later) = (store.run earlier).run later :=
  List.foldl_append

theorem run_concat (store : Store) (edits : List Edit) (edit : Edit) :
    store.run (edits ++ [edit]) = ((store.run edits).perform edit).2 :=
  run_append store edits [edit]

theorem Fits.of_prefix {edits earlier : List Edit} (fits : store.Fits edits)
    (initial : earlier <+: edits) : store.Fits earlier :=
  fun part first => fits part (first.trans initial)

theorem Fits.of_append {earlier later : List Edit} (fits : store.Fits (earlier ++ later)) :
    (store.run earlier).Fits later := by
  intro part initial
  rw [← run_append]
  exact fits _ ((List.prefix_append_right_inj earlier).mpr initial)

/-- Every state of a run is sound. -/
theorem Sound.run (sound : store.Sound) {edits : List Edit} (fits : store.Fits edits) :
    (store.run edits).Sound := by
  induction edits using List.reverseRecOn with
  | nil => exact sound
  | append_singleton edits edit ih =>
      have before := ih (fits.of_prefix (List.prefix_append edits [edit]))
      have bound := fits _ List.prefix_rfl
      rw [run_concat] at bound ⊢
      exact before.perform bound

theorem Sound.size_run_le (sound : store.Sound) {edits : List Edit}
    (room : store.size + edits.length ≤ capacity) :
    store.Fits edits ∧ (store.run edits).size ≤ store.size + edits.length := by
  induction edits using List.reverseRecOn with
  | nil =>
      refine ⟨fun earlier initial => ?_, Nat.le_refl _⟩
      rw [List.prefix_nil.mp initial]
      exact room
  | append_singleton edits edit ih =>
      rw [List.length_append, List.length_singleton] at room ⊢
      obtain ⟨fits, smaller⟩ := ih (by omega)
      have step := (sound.run fits).size_perform_le edit
      rw [← run_concat] at step
      refine ⟨fun earlier initial => ?_, by omega⟩
      rcases List.prefix_concat_iff.mp initial with whole | part
      · rw [whole]
        omega
      · exact fits earlier part

/-- A short run cannot lead beyond the capacity. -/
theorem fits_of_length_le {edits : List Edit} (short : edits.length ≤ capacity) :
    empty.Fits edits :=
  (sound_empty.size_run_le (Nat.le_trans (Nat.le_of_eq (Nat.zero_add _)) short)).1

/-- A run in which an instance is linked to itself, a link is refused, and an id leaves and comes
back into the slot that it had. -/
def returning : List Edit :=
  [.add "ada" ["person"] none, .add "bob" ["person"] none, .link "ada" "knows" "ada",
    .link "ada" "knows" "bob", .link "ada" "knows" "eve", .remove "bob",
    .add "bob" ["person", "guest"] (some (.boolean true)), .link "bob" "knows" "ada"]

theorem fits_returning : empty.Fits returning := fits_of_length_le (by decide)

/-- The instance that stayed. -/
def host : Instance where
  handle := ⟨0, 0⟩
  id := "ada"
  labels := Roster.ofList ["person"]
  value := none
  links := [("knows", Roster.ofList [⟨0, 0⟩, ⟨1, 1⟩])]

/-- The instance that came back. -/
def guest : Instance where
  handle := ⟨1, 1⟩
  id := "bob"
  labels := Roster.ofList ["person", "guest"]
  value := some (.boolean true)
  links := [("knows", Roster.ofList [⟨0, 0⟩])]

theorem find?_host : (empty.run returning).find? "ada" = some host := by decide

theorem find?_guest : (empty.run returning).find? "bob" = some guest := by decide

/-! ## Runs that only add -/

end Store

/-- Edits that bring something in and take nothing away. -/
def Edit.Additive : Edit → Prop
  | .add .. => True
  | .addLabel .. => True
  | .link .. => True
  | _ => False

namespace Store

variable {store : Store}

theorem size_le_add {id : InstanceId} {labels : List Label} {value : Option Scalar}
    {handle : Handle} {after : Store} (added : store.add id labels value = .ok (handle, after)) :
    store.size ≤ after.size := by
  unfold add at added
  split at added
  · cases added
  · simp only [foldl_enlist, byId_allocate, Except.ok.injEq, Prod.mk.injEq] at added
    rw [← added.2]
    exact Ledger.length_le_insert _ _ _

theorem size_addLabel {id : InstanceId} {label : Label} {changed : Bool} {after : Store}
    (tagged : store.addLabel id label = .ok (changed, after)) : after.size = store.size := by
  unfold addLabel at tagged
  cases named : store.handleOf id with
  | error reason =>
      rw [named] at tagged
      cases tagged
  | ok handle =>
      simp only [named, bind, Except.bind] at tagged
      split at tagged
      · cases tagged
        rfl
      · split at tagged <;> cases tagged <;> rfl

theorem size_link {source target : InstanceId} {edge : Label} {after : Store}
    (linked : store.link source edge target = .ok after) : after.size = store.size := by
  unfold link at linked
  cases one : store.handleOf source with
  | error reason =>
      rw [one] at linked
      cases linked
  | ok first =>
      cases two : store.handleOf target with
      | error reason =>
          simp only [one, two, bind, Except.bind] at linked
          cases linked
      | ok second =>
          simp only [one, two, bind, Except.bind] at linked
          cases linked
          rfl

theorem size_le_perform {edit : Edit} (additive : edit.Additive) :
    store.size ≤ (store.perform edit).2.size := by
  cases edit with
  | add id labels value =>
      simp only [perform]
      cases outcome : store.add id labels value with
      | error reason => exact Nat.le_refl _
      | ok result => exact size_le_add outcome
  | addLabel id label =>
      simp only [perform]
      cases outcome : store.addLabel id label with
      | error reason => exact Nat.le_refl _
      | ok result => exact Nat.le_of_eq (size_addLabel outcome).symm
  | link source edge target =>
      simp only [perform]
      cases outcome : store.link source edge target with
      | error reason => exact Nat.le_refl _
      | ok after => exact Nat.le_of_eq (size_link outcome).symm
  | remove | removeLabel | unlink | unlinkAll => exact additive.elim

theorem size_le_run {edits : List Edit} (additive : ∀ edit ∈ edits, edit.Additive) :
    store.size ≤ (store.run edits).size := by
  induction edits generalizing store with
  | nil => exact Nat.le_refl _
  | cons edit rest ih =>
      exact Nat.le_trans (size_le_perform (additive edit List.mem_cons_self))
        (ih fun later member => additive later (List.mem_cons_of_mem _ member))

/-- A run that only adds is largest at its end. -/
theorem fits_of_additive {edits : List Edit} (additive : ∀ edit ∈ edits, edit.Additive)
    (bound : (store.run edits).size ≤ capacity) : store.Fits edits := by
  rintro earlier ⟨later, rfl⟩
  rw [run_append] at bound
  exact Nat.le_trans
    (size_le_run fun edit member => additive edit (List.mem_append_right _ member)) bound

/-! ## Loading records -/

theorem perform_add_of_ok {id : InstanceId} {labels : List Label} {value : Option Scalar}
    {handle : Handle} {after : Store} (added : store.add id labels value = .ok (handle, after)) :
    (store.perform (.add id labels value)).2 = after := by
  simp only [perform, added, Except.map]

theorem perform_link_of_ok {source target : InstanceId} {edge : Label} {after : Store}
    (linked : store.link source edge target = .ok after) :
    (store.perform (.link source edge target)).2 = after := by
  simp only [perform, linked, Except.map]

/-- If records are brought in, the first of them was added and the others came after it. -/
theorem exists_of_bringAll_cons {record : Record} {rest : List Record} {report : LoadReport}
    {result : Store × LoadReport} (brought : bringAll store report (record :: rest) = .ok result) :
    ∃ handle after,
      store.add record.id record.typeLabels.toList record.value = .ok (handle, after) ∧
      bringAll after { report with instances := report.instances + 1 } rest = .ok result := by
  rw [bringAll] at brought
  cases added : store.add record.id record.typeLabels.toList record.value with
  | error reason =>
      rw [added] at brought
      cases brought
  | ok entered =>
      rw [added] at brought
      exact ⟨entered.1, entered.2, rfl, brought⟩

/-- The instances of records arrive by a run of additions. -/
theorem bringAll_eq_run {records : List Record} {report final : LoadReport} {after : Store}
    (brought : bringAll store report records = .ok (after, final)) :
    after = store.run (records.map fun record =>
      .add record.id record.typeLabels.toList record.value) := by
  induction records generalizing store report with
  | nil =>
      cases brought
      rfl
  | cons record rest ih =>
      obtain ⟨handle, next, added, later⟩ := exists_of_bringAll_cons brought
      have same := ih later
      rw [← perform_add_of_ok added] at same
      exact same

/-- The links of records arrive by a run of links. -/
theorem linkAll_eq_run {entries : List LinkEntry} {report final : LoadReport} {after : Store}
    (linked : linkAll store report entries = .ok (after, final)) :
    ∃ edits : List Edit, (∀ edit ∈ edits, edit.Additive) ∧ after = store.run edits := by
  induction entries generalizing store report with
  | nil =>
      cases linked
      refine ⟨[], ?_, rfl⟩
      intro edit member
      cases member
  | cons entry rest ih =>
      unfold linkAll at linked
      split at linked
      · exact ih linked
      · cases tied : store.link entry.source entry.edge entry.target with
        | error reason =>
            rw [tied] at linked
            cases linked
        | ok next =>
            rw [tied] at linked
            obtain ⟨edits, additive, same⟩ := ih linked
            refine ⟨.link entry.source entry.edge entry.target :: edits, ?_, ?_⟩
            · rintro edit (_ | ⟨_, member⟩)
              · trivial
              · exact additive edit member
            · rw [← perform_link_of_ok tied] at same
              exact same

/-- A store that was loaded is the end of a run that only adds. -/
theorem ofRecords_eq_run {records : List Record} {after : Store} {report : LoadReport}
    (loaded : ofRecords records = .ok (after, report)) :
    ∃ edits : List Edit, (∀ edit ∈ edits, edit.Additive) ∧ after = empty.run edits := by
  unfold ofRecords at loaded
  cases brought : bringAll empty {} records with
  | error reason =>
      rw [brought] at loaded
      cases loaded
  | ok populated =>
      rw [brought] at loaded
      obtain ⟨links, additive, same⟩ := linkAll_eq_run loaded
      refine ⟨(records.map fun record =>
        .add record.id record.typeLabels.toList record.value) ++ links, ?_, same.trans ?_⟩
      · intro edit member
        rcases List.mem_append.mp member with arrival | link
        · obtain ⟨record, -, rfl⟩ := List.mem_map.mp arrival
          trivial
        · exact additive edit link
      · rw [run_append, ← bringAll_eq_run brought]

theorem sound_of_loaded {records : List Record} {after : Store} {report : LoadReport}
    (loaded : ofRecords records = .ok (after, report)) (bound : after.size ≤ capacity) :
    after.Sound := by
  obtain ⟨edits, additive, rfl⟩ := ofRecords_eq_run loaded
  exact sound_empty.run (fits_of_additive additive bound)

/-! ## Where runs begin -/

/-- A store that nobody has edited yet: the empty one, or one that was loaded from records. -/
inductive Origin : Store → Prop where
  | empty : Origin empty
  | loaded {records : List Record} {start : Store} {report : LoadReport}
      (loaded : ofRecords records = .ok (start, report)) : Origin start

theorem Origin.sound {start : Store} (origin : Origin start) (bound : start.size ≤ capacity) :
    start.Sound := by
  cases origin with
  | empty => exact sound_empty
  | loaded loaded => exact sound_of_loaded loaded bound

/-- Every state that is reached from an origin is sound. -/
theorem Origin.sound_run {start : Store} (origin : Origin start) {edits : List Edit}
    (fits : start.Fits edits) : (start.run edits).Sound :=
  (origin.sound (fits [] (List.nil_prefix))).run fits

end Store

end LinkAtlas
