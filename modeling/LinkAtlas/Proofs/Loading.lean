import LinkAtlas.Proofs.Answers
import LinkAtlas.Proofs.Occupancy

/-!
# What records say

Records are loaded exactly if no id is repeated among them, and then the store means what they say:
one instance for each record, a link wherever either end lists it, and a report that accounts for
every entry. In which order the records come makes no difference to any of this.
-/

namespace LinkAtlas

/-! ## Reading records -/

namespace Record

/-- The record lists this id as a target of this kind of link. -/
def Lists (record : Record) (edge : Label) (target : InstanceId) : Prop :=
  ∃ group ∈ record.links, group.1 = edge ∧ target ∈ group.2

/-- The id, the labels in the order in which each is first mentioned, and the value. -/
def profile (record : Record) : InstanceId × List Label × Option Scalar :=
  (record.id, record.typeLabels.toList.eraseDups, record.value)

/-- The targets of all link entries; a target that is repeated stands there each time. -/
def targets (record : Record) : List InstanceId := record.links.flatMap Prod.snd

theorem mem_entries {record : Record} {entry : LinkEntry} :
    entry ∈ record.entries ↔ entry.source = record.id ∧ record.Lists entry.edge entry.target := by
  unfold entries Lists
  simp only [List.mem_flatMap, List.mem_map]
  constructor
  · rintro ⟨group, listed, target, inside, rfl⟩
    exact ⟨rfl, group, listed, rfl, inside⟩
  · rintro ⟨source, group, listed, edge, inside⟩
    refine ⟨group, listed, entry.target, inside, ?_⟩
    rw [← source, edge]

theorem map_target_entries (record : Record) :
    record.entries.map LinkEntry.target = record.targets := by
  simp only [entries, targets, List.map_flatMap, List.map_map]
  exact congrArg record.links.flatMap (funext fun group => List.map_id group.2)

end Record

/-- What an instance has in common with the record that describes it. -/
def Instance.profile (vertex : Instance) : InstanceId × List Label × Option Scalar :=
  (vertex.id, vertex.labels.toList, vertex.value)

/-- The entry asks for a link between two ids, whichever of them it starts from. -/
def LinkEntry.Joins (entry : LinkEntry) (source : InstanceId) (edge : Label)
    (target : InstanceId) : Prop :=
  entry.edge = edge ∧
    (entry.source = source ∧ entry.target = target ∨
      entry.source = target ∧ entry.target = source)

namespace Store

variable {store : Store}

/-! ## Stores without vacant slots -/

theorem instances_revise (store : Store) (change : Instance → Instance) :
    (store.revise change).instances = store.instances.map change := by
  unfold instances revise
  rw [Array.toList_map, List.filterMap_map, List.map_filterMap]
  rfl

theorem free_enrolled (vacant : store.free = []) (newcomer : Instance) :
    (store.enrolled newcomer).free = [] := by
  simp [enrolled, settle, seat, allocate, vacant]

/-- As long as no slot was given back, a newcomer takes the slot behind all others. -/
theorem instances_enrolled (vacant : store.free = []) (room : store.slots.size < capacity)
    {newcomer : Instance} (own : newcomer.handle = store.allocate.1) :
    (store.enrolled newcomer).instances = store.instances ++ [newcomer] := by
  have number : newcomer.handle.index.toNat = store.slots.size := by
    simp only [own, allocate, vacant]
    exact UInt32.toNat_ofNat_of_lt' room
  have seated : (store.enrolled newcomer).slots =
      (store.slots.push {}).modify store.slots.size fun slot =>
        { slot with occupant := some newcomer } := by
    simp [enrolled, settle, seat, allocate, vacant, number]
  have last : (store.slots.push {}).modify store.slots.size (fun slot =>
      { slot with occupant := some newcomer }) = store.slots.push ⟨0, some newcomer⟩ := by
    refine Array.ext_getElem? fun place => ?_
    rw [Array.getElem?_modify, Array.getElem?_push, Array.getElem?_push]
    rcases eq_or_ne store.slots.size place with here | here
    · simp [here]
    · simp [here, here.symm]
  unfold instances
  rw [seated, last, Array.toList_push, List.filterMap_append]
  rfl

namespace Sound

variable {newcomer : Instance}

theorem find?_enrolled (sound : store.Sound) (bound : store.size < capacity)
    (own : newcomer.handle = store.allocate.1) (absent : store.find? newcomer.id = none)
    (unlinked : newcomer.links = []) {id : InstanceId} {vertex : Instance} :
    (store.enrolled newcomer).find? id = some vertex ↔
      newcomer = vertex ∧ newcomer.id = id ∨ store.find? id = some vertex := by
  rw [(sound.enrolled bound own absent unlinked).find?_eq_some_iff, sound.find?_eq_some_iff,
    sound.resolve_enrolled_eq_some_iff bound own]
  constructor
  · rintro ⟨⟨-, rfl⟩ | live, named⟩
    · exact Or.inl ⟨rfl, named⟩
    · exact Or.inr ⟨live, named⟩
  · rintro (⟨rfl, named⟩ | ⟨live, named⟩)
    · exact ⟨Or.inl ⟨rfl, rfl⟩, named⟩
    · exact ⟨Or.inr live, named⟩

/-- A newcomer has no links, and nobody has links to it. -/
theorem hasLink_enrolled (sound : store.Sound) (bound : store.size < capacity)
    (own : newcomer.handle = store.allocate.1) (absent : store.find? newcomer.id = none)
    (unlinked : newcomer.links = []) (source : InstanceId) (edge : Label) (target : InstanceId) :
    (store.enrolled newcomer).hasLink source edge target = store.hasLink source edge target := by
  rw [Bool.eq_iff_iff, (sound.enrolled bound own absent unlinked).hasLink_iff, sound.hasLink_iff]
  simp only [sound.find?_enrolled bound own absent unlinked]
  constructor
  · rintro ⟨vertex, other, ⟨rfl, -⟩ | found, reached, linked⟩
    · rw [Instance.targets_eq_members, unlinked] at linked
      exact absurd linked (Roster.not_mem_empty _)
    · obtain ⟨live, -⟩ := sound.find?_eq_some_iff.mp found
      obtain ⟨held, present, -⟩ := sound.reciprocal _ _ _ _ live linked
      rcases reached with ⟨rfl, -⟩ | reached
      · rw [own, sound.housed.resolve_allocate (sound.room bound)] at present
        cases present
      · exact ⟨vertex, other, found, reached, linked⟩
  · rintro ⟨vertex, other, found, reached, linked⟩
    exact ⟨vertex, other, Or.inr found, Or.inr reached, linked⟩

/-- A newcomer stands behind all others that carry its labels. -/
theorem idsOfType_enrolled (sound : store.Sound) (bound : store.size < capacity)
    (own : newcomer.handle = store.allocate.1) (absent : store.find? newcomer.id = none)
    (unlinked : newcomer.links = []) (label : Label) :
    (store.enrolled newcomer).idsOfType label =
      store.idsOfType label ++ if label ∈ newcomer.labels.toList then [newcomer.id] else [] := by
  have unlisted : newcomer.id ∉ Groups.members store.registry.byType label := by
    intro listed
    have inside : newcomer.id ∈ store.idsOfType label := sound.idsOfType_registry label ▸ listed
    obtain ⟨vertex, carries, named⟩ := List.mem_map.mp inside
    have found := sound.find?_eq_some_iff.mpr ⟨sound.live_of_mem_ofType carries, named⟩
    rw [absent] at found
    cases found
  rw [(sound.enrolled bound own absent unlinked).idsOfType_registry, sound.idsOfType_registry,
    sound.registry_enrolled bound own absent unlinked]
  exact Groups.toList_members_enter (sound.types_neat.rename _) unlisted _

end Sound

theorem idsOfType_revise (store : Store) {change : Instance → Instance}
    (keeps : ∀ vertex, (change vertex).id = vertex.id) (label : Label) :
    (store.revise change).idsOfType label = store.idsOfType label := by
  have ids : Instance.id ∘ change = Instance.id := funext keeps
  unfold idsOfType
  rw [ofType_eq, ofType_eq, resolve_revise_eq, List.map_filterMap, List.map_filterMap]
  simp only [Option.map_map, ids]
  rfl

/-! ## Halfway through a load -/

/-- The store is filled with the instances of some records and with the links of those entries whose
ends are there. -/
structure Loaded (records : List Record) (done : List LinkEntry) (store : Store) : Prop where
  sound : store.Sound
  /-- no slot was ever given back -/
  vacant : store.free = []
  instances : store.instances.map Instance.profile = records.map Record.profile
  idsOfType : ∀ label, store.idsOfType label =
    (records.filter fun record => label ∈ record.typeLabels.toList).map Record.id
  linked : ∀ source edge target, store.hasLink source edge target = true ↔
    source ∈ records.map Record.id ∧ target ∈ records.map Record.id ∧
      ∃ entry ∈ done, entry.Joins source edge target

theorem loaded_empty : Loaded [] [] empty where
  sound := sound_empty
  vacant := rfl
  instances := rfl
  idsOfType _ := rfl
  linked source edge target := by simp [empty, hasLink, find?]

namespace Loaded

variable {records : List Record} {done : List LinkEntry}

theorem ids_eq (loaded : Loaded records done store) :
    store.instances.map Instance.id = records.map Record.id := by
  have first := congrArg (List.map Prod.fst) loaded.instances
  rw [List.map_map, List.map_map] at first
  exact first

theorem size_eq (loaded : Loaded records done store) : store.size = records.length := by
  rw [← loaded.sound.length_instances, ← List.length_map, loaded.ids_eq, List.length_map]

theorem present_iff (loaded : Loaded records done store) {id : InstanceId} :
    store.Present id ↔ id ∈ records.map Record.id := by
  rw [Present, loaded.ids_eq]

theorem find?_eq_none (loaded : Loaded records done store) {id : InstanceId}
    (fresh : id ∉ records.map Record.id) : store.find? id = none :=
  loaded.sound.not_present_iff.mp (mt loaded.present_iff.mp fresh)

theorem exists_find? (loaded : Loaded records done store) {id : InstanceId}
    (named : id ∈ records.map Record.id) : ∃ vertex, store.find? id = some vertex :=
  loaded.sound.present_iff.mp (loaded.present_iff.mpr named)

/-- A record with a new id brings in its instance. -/
theorem arrive (loaded : Loaded records [] store) {record : Record}
    (room : records.length < capacity) (fresh : record.id ∉ records.map Record.id) :
    ∃ handle after, store.add record.id record.typeLabels.toList record.value =
      .ok (handle, after) ∧ Loaded (records ++ [record]) [] after := by
  have sound := loaded.sound
  have absent := loaded.find?_eq_none fresh
  have bound : store.size < capacity := loaded.size_eq ▸ room
  refine ⟨_, _, sound.add_of_absent absent _ _, ?_⟩
  constructor
  · exact sound.enrolled bound rfl absent rfl
  · exact free_enrolled loaded.vacant _
  · rw [instances_enrolled loaded.vacant (sound.room bound loaded.vacant) rfl, List.map_append,
      List.map_append, loaded.instances]
    refine congrArg _ (congrArg (fun labels => [(record.id, labels, record.value)]) ?_)
    exact Roster.toList_ofList_eq_eraseDups _
  · intro label
    have carried : label ∈ (store.newcomer record.id record.typeLabels.toList
        record.value).labels.toList ↔ label ∈ record.typeLabels.toList := Roster.mem_ofList
    rw [sound.idsOfType_enrolled bound rfl absent rfl, loaded.idsOfType, List.filter_append,
      List.map_append]
    refine congrArg _ ?_
    by_cases listed : label ∈ record.typeLabels.toList
    · rw [if_pos (carried.mpr listed)]
      simp [listed, newcomer]
    · rw [if_neg (mt carried.mp listed)]
      simp [listed]
  · intro source edge target
    rw [sound.hasLink_enrolled bound rfl absent rfl, loaded.linked]
    simp

/-- An entry whose target is no record id links nothing. -/
theorem skip (loaded : Loaded records done store) {entry : LinkEntry}
    (broken : entry.target ∉ records.map Record.id) : Loaded records (done ++ [entry]) store := by
  refine { loaded with linked := fun source edge target => (loaded.linked _ _ _).trans ?_ }
  refine and_congr_right fun first => and_congr_right fun second => ?_
  simp only [List.mem_append, List.mem_singleton, or_and_right, exists_or, exists_eq_left]
  refine (or_iff_left ?_).symm
  rintro ⟨-, ⟨-, rfl⟩ | ⟨-, rfl⟩⟩
  · exact broken second
  · exact broken first

/-- An entry between two record ids is carried out. -/
theorem tie (loaded : Loaded records done store) {entry : LinkEntry}
    (first : entry.source ∈ records.map Record.id) (second : entry.target ∈ records.map Record.id) :
    ∃ after, store.link entry.source entry.edge entry.target = .ok after ∧
      Loaded records (done ++ [entry]) after := by
  have sound := loaded.sound
  obtain ⟨vertex, found⟩ := loaded.exists_find? first
  obtain ⟨other, reached⟩ := loaded.exists_find? second
  obtain ⟨one, named⟩ := sound.find?_eq_some_iff.mp found
  obtain ⟨two, called⟩ := sound.find?_eq_some_iff.mp reached
  have kept (start : Instance) :
      (Store.tie vertex.handle entry.edge other.handle start).profile = start.profile := by
    rw [tie_eq]
    rfl
  refine ⟨_, sound.link_of_present found reached _, ?_⟩
  constructor
  · exact sound.tied one two _
  · exact loaded.vacant
  · rw [instances_revise, List.map_map, ← loaded.instances]
    exact List.map_congr_left fun start _ => kept start
  · intro label
    rw [idsOfType_revise _ fun start => congrArg Prod.fst (kept start), loaded.idsOfType]
  · intro source edge target
    rw [sound.hasLink_tied one two, loaded.linked, named, called]
    simp only [List.mem_append, List.mem_singleton, or_and_right, exists_or, exists_eq_left,
      LinkEntry.Joins]
    constructor
    · rintro (⟨here, there, before⟩ | ⟨rfl, ⟨rfl, rfl⟩ | ⟨rfl, rfl⟩⟩)
      · exact ⟨here, there, Or.inl before⟩
      · exact ⟨first, second, Or.inr ⟨rfl, Or.inl ⟨rfl, rfl⟩⟩⟩
      · exact ⟨second, first, Or.inr ⟨rfl, Or.inr ⟨rfl, rfl⟩⟩⟩
    · rintro ⟨here, there, before | ⟨rfl, ends⟩⟩
      · exact Or.inl ⟨here, there, before⟩
      · refine Or.inr ⟨rfl, ends.imp (fun same => ⟨same.1.symm, same.2.symm⟩) fun same => ?_⟩
        exact ⟨same.2.symm, same.1.symm⟩

/-- Records with new ids bring in their instances one after the other. -/
theorem bringAll (loaded : Loaded records [] store) (report : LoadReport) (arriving : List Record)
    (room : (records ++ arriving).length ≤ capacity)
    (distinct : ((records ++ arriving).map Record.id).Nodup) :
    ∃ after final, Store.bringAll store report arriving = .ok (after, final) ∧
      Loaded (records ++ arriving) [] after := by
  induction arriving generalizing records store report with
  | nil => exact ⟨store, report, rfl, (List.append_nil records).symm ▸ loaded⟩
  | cons record rest ih =>
      have fresh : record.id ∉ records.map Record.id := by
        intro before
        rw [List.map_append, List.map_cons] at distinct
        exact (List.nodup_cons.mp (List.nodup_middle.mp distinct)).1 (List.mem_append_left _ before)
      have left : records.length < capacity := by
        rw [List.length_append, List.length_cons] at room
        omega
      obtain ⟨handle, next, added, arrived⟩ := loaded.arrive left fresh
      rw [List.append_cons] at room distinct ⊢
      obtain ⟨after, final, brought, last⟩ :=
        ih arrived { report with instances := report.instances + 1 } room distinct
      refine ⟨after, final, ?_, last⟩
      rw [Store.bringAll, added]
      exact brought

/-- Entries that start from record ids are carried out or reported, and none of them fails. -/
theorem linkAll (loaded : Loaded records done store) {entries : List LinkEntry}
    (sources : ∀ entry ∈ entries, entry.source ∈ records.map Record.id) (report : LoadReport) :
    ∃ after, Store.linkAll store report entries = .ok (after,
        { report with
          links := report.links +
            (entries.filter fun entry => entry.target ∈ records.map Record.id).length
          broken := report.broken ++
            entries.filter fun entry => !decide (entry.target ∈ records.map Record.id) }) ∧
      Loaded records (done ++ entries) after := by
  induction entries generalizing store done report with
  | nil => exact ⟨store, by simp [Store.linkAll], (List.append_nil done).symm ▸ loaded⟩
  | cons entry rest ih =>
      have later : ∀ entry ∈ rest, entry.source ∈ records.map Record.id := fun entry member =>
        sources entry (List.mem_cons_of_mem _ member)
      rw [List.append_cons]
      by_cases named : entry.target ∈ records.map Record.id
      · obtain ⟨other, reached⟩ := loaded.exists_find? named
        obtain ⟨next, linked, tied⟩ := loaded.tie (sources entry List.mem_cons_self) named
        obtain ⟨after, rested, last⟩ := ih tied later { report with links := report.links + 1 }
        refine ⟨after, ?_, last⟩
        rw [Store.linkAll, reached, linked]
        refine rested.trans ?_
        simp only [List.filter_cons, named, decide_true, if_true, Bool.not_true,
          Bool.false_eq_true, if_false, List.length_cons, Nat.add_assoc, Nat.add_comm 1]
      · obtain ⟨after, rested, last⟩ := ih (loaded.skip named) later
          { report with broken := report.broken ++ [entry] }
        refine ⟨after, ?_, last⟩
        rw [Store.linkAll, loaded.find?_eq_none named]
        refine rested.trans ?_
        simp only [List.filter_cons, named, decide_false, Bool.false_eq_true, if_false,
          Bool.not_false, if_true, List.append_assoc, List.singleton_append]

end Loaded

/-! ## What a load comes to -/

/-- The record is the first one whose id occurred before. -/
def FirstRepeat (records : List Record) (record : Record) : Prop :=
  ∃ earlier later, records = earlier ++ record :: later ∧ (earlier.map Record.id).Nodup ∧
    record.id ∈ earlier.map Record.id

/-- The store has what the records say and nothing else. -/
structure Means (records : List Record) (store : Store) : Prop where
  /-- one instance for each record, in their order -/
  instances : store.instances.map Instance.profile = records.map Record.profile
  found : ∀ record ∈ records, ∃ vertex, store.find? record.id = some vertex ∧
    vertex.profile = record.profile
  absent : ∀ id, id ∉ records.map Record.id → store.find? id = none
  size : store.size = records.length
  idsOfType : ∀ label, store.idsOfType label =
    (records.filter fun record => label ∈ record.typeLabels.toList).map Record.id
  hasLink : ∀ source edge target, store.hasLink source edge target = true ↔
    source ∈ records.map Record.id ∧ target ∈ records.map Record.id ∧
      ∃ record ∈ records, record.id = source ∧ record.Lists edge target ∨
        record.id = target ∧ record.Lists edge source

/-- The entries of the records whose target is the id of no record. -/
def brokenEntries (records : List Record) : List LinkEntry :=
  records.flatMap fun record => record.links.flatMap fun group =>
    (group.2.filter fun target => target ∉ records.map Record.id).map fun target =>
      { source := record.id, edge := group.1, target := target }

/-- The report counts all that the records ask for. -/
structure Accounts (records : List Record) (report : LoadReport) : Prop where
  instances : report.instances = records.length
  broken : report.broken = brokenEntries records
  total : report.links + report.broken.length = (records.flatMap Record.targets).length

theorem exists_firstRepeat {records : List Record} (repeated : ¬ (records.map Record.id).Nodup) :
    ∃ record, FirstRepeat records record := by
  induction records using List.reverseRecOn with
  | nil => exact absurd List.nodup_nil repeated
  | append_singleton records last ih =>
      by_cases distinct : (records.map Record.id).Nodup
      · refine ⟨last, records, [], rfl, distinct, ?_⟩
        by_contra fresh
        rw [List.map_append] at repeated
        exact repeated (List.nodup_append'.mpr ⟨distinct, List.nodup_singleton _,
          List.disjoint_singleton.mpr fresh⟩)
      · obtain ⟨record, earlier, later, rfl, first, again⟩ := ih distinct
        exact ⟨record, earlier, later ++ [last], by simp, first, again⟩

theorem bringAll_append (store : Store) (report : LoadReport) (earlier later : List Record) :
    bringAll store report (earlier ++ later) =
      (bringAll store report earlier).bind fun result => bringAll result.1 result.2 later := by
  induction earlier generalizing store report with
  | nil => rfl
  | cons record rest ih =>
      rw [List.cons_append, bringAll, bringAll]
      cases store.add record.id record.typeLabels.toList record.value with
      | error reason => rfl
      | ok result => exact ih result.2 _

/-- Every record that is brought in is counted, and nothing else of the report changes. -/
theorem report_of_bringAll {records : List Record} {report final : LoadReport} {after : Store}
    (brought : bringAll store report records = .ok (after, final)) :
    final = { report with instances := report.instances + records.length } := by
  induction records generalizing store report with
  | nil =>
      cases brought
      rfl
  | cons record rest ih =>
      obtain ⟨handle, next, -, later⟩ := exists_of_bringAll_cons brought
      have counted := ih later
      rw [Nat.add_assoc, Nat.add_comm 1] at counted
      exact counted

theorem ofRecords_of_firstRepeat {records : List Record} {record : Record}
    (bound : records.length ≤ capacity) (first : FirstRepeat records record) :
    ofRecords records = .error (.duplicateId record.id) := by
  obtain ⟨earlier, later, rfl, distinct, again⟩ := first
  have room : earlier.length ≤ capacity :=
    Nat.le_trans (List.prefix_append earlier _).length_le bound
  obtain ⟨populated, report, brought, loaded⟩ := loaded_empty.bringAll {} earlier room distinct
  obtain ⟨vertex, found⟩ := loaded.exists_find? again
  rw [ofRecords, bringAll_append, brought]
  simp only [Except.bind, bringAll, loaded.sound.add_of_present found]
  rfl

theorem Loaded.means {records : List Record}
    (loaded : Loaded records (records.flatMap Record.entries) store) : Means records store where
  instances := loaded.instances
  found := by
    intro record listed
    have inside : record.profile ∈ store.instances.map Instance.profile :=
      loaded.instances ▸ List.mem_map_of_mem listed
    obtain ⟨vertex, seated, same⟩ := List.mem_map.mp inside
    refine ⟨vertex, loaded.sound.find?_eq_some_iff.mpr ⟨?_, congrArg Prod.fst same⟩, same⟩
    exact loaded.sound.mem_instances_iff.mp seated
  absent _ := loaded.find?_eq_none
  size := loaded.size_eq
  idsOfType := loaded.idsOfType
  hasLink := by
    intro source edge target
    rw [loaded.linked]
    refine and_congr_right fun _ => and_congr_right fun _ => ?_
    constructor
    · rintro ⟨entry, asked, rfl, ends⟩
      obtain ⟨record, listed, member⟩ := List.mem_flatMap.mp asked
      obtain ⟨own, lists⟩ := Record.mem_entries.mp member
      refine ⟨record, listed, ends.imp ?_ ?_⟩
      · rintro ⟨rfl, rfl⟩
        exact ⟨own.symm, lists⟩
      · rintro ⟨rfl, rfl⟩
        exact ⟨own.symm, lists⟩
    · rintro ⟨record, listed, ⟨rfl, lists⟩ | ⟨rfl, lists⟩⟩
      · exact ⟨⟨record.id, edge, target⟩,
          List.mem_flatMap.mpr ⟨record, listed, Record.mem_entries.mpr ⟨rfl, lists⟩⟩,
          rfl, Or.inl ⟨rfl, rfl⟩⟩
      · exact ⟨⟨record.id, edge, source⟩,
          List.mem_flatMap.mpr ⟨record, listed, Record.mem_entries.mpr ⟨rfl, lists⟩⟩,
          rfl, Or.inr ⟨rfl, rfl⟩⟩

theorem filter_entries (records : List Record) :
    ((records.flatMap Record.entries).filter fun entry =>
      !decide (entry.target ∈ records.map Record.id)) = brokenEntries records := by
  simp only [brokenEntries, Record.entries, List.filter_flatMap, List.filter_map, decide_not]
  rfl

theorem ofRecords_of_nodup {records : List Record} (bound : records.length ≤ capacity)
    (distinct : (records.map Record.id).Nodup) :
    ∃ store report, ofRecords records = .ok (store, report) ∧ Means records store ∧
      Accounts records report := by
  obtain ⟨populated, counted, brought, loaded⟩ := loaded_empty.bringAll {} records bound distinct
  have sources : ∀ entry ∈ records.flatMap Record.entries,
      entry.source ∈ records.map Record.id := by
    intro entry asked
    obtain ⟨record, listed, member⟩ := List.mem_flatMap.mp asked
    rw [(Record.mem_entries.mp member).1]
    exact List.mem_map_of_mem listed
  obtain ⟨store, linked, complete⟩ := loaded.linkAll sources counted
  have entries : (records.flatMap Record.entries).length =
      (records.flatMap Record.targets).length := by
    rw [← List.length_map LinkEntry.target, List.map_flatMap]
    simp only [Record.map_target_entries]
  have second : ofRecords records =
      linkAll populated counted (records.flatMap Record.entries) := by
    rw [ofRecords, brought]
    rfl
  have first := report_of_bringAll brought
  rw [Nat.zero_add] at first
  subst first
  refine ⟨store, _, second.trans linked, complete.means, rfl, ?_, ?_⟩
  · exact (List.nil_append _).trans (filter_entries records)
  · rw [← entries, List.length_eq_length_filter_add (l := records.flatMap Record.entries)
      fun entry => decide (entry.target ∈ records.map Record.id)]
    simp only [List.nil_append, Nat.zero_add]

/-- Records are turned away exactly if two of them share an id. -/
theorem exists_error_iff {records : List Record} (bound : records.length ≤ capacity) :
    (∃ reason, ofRecords records = .error reason) ↔ ¬ (records.map Record.id).Nodup := by
  constructor
  · rintro ⟨reason, failed⟩ distinct
    obtain ⟨store, report, loaded, -⟩ := ofRecords_of_nodup bound distinct
    rw [failed] at loaded
    cases loaded
  · intro repeated
    obtain ⟨record, first⟩ := exists_firstRepeat repeated
    exact ⟨_, ofRecords_of_firstRepeat bound first⟩

/-- A store that has been loaded means what the records say, and the report accounts for them. -/
theorem means_of_ofRecords {records : List Record} {report : LoadReport}
    (bound : records.length ≤ capacity) (loaded : ofRecords records = .ok (store, report)) :
    Means records store ∧ Accounts records report := by
  have distinct : (records.map Record.id).Nodup := by
    by_contra repeated
    obtain ⟨reason, failed⟩ := (exists_error_iff bound).mpr repeated
    cases failed.symm.trans loaded
  obtain ⟨_, _, again, means, accounts⟩ := ofRecords_of_nodup bound distinct
  cases loaded.symm.trans again
  exact ⟨means, accounts⟩

theorem ofRecords_eq_error_iff {records : List Record} (bound : records.length ≤ capacity)
    {reason : GraphError} :
    ofRecords records = .error reason ↔
      ∃ record, FirstRepeat records record ∧ reason = .duplicateId record.id := by
  constructor
  · intro failed
    obtain ⟨record, first⟩ := exists_firstRepeat ((exists_error_iff bound).mp ⟨reason, failed⟩)
    rw [ofRecords_of_firstRepeat bound first] at failed
    exact ⟨record, first, (Except.error.inj failed).symm⟩
  · rintro ⟨record, first, rfl⟩
    exact ofRecords_of_firstRepeat bound first

/-! ## The order of the records -/

/-- The stores have the same instances and the same links, in whatever order they keep them. -/
structure SameGraph (store other : Store) : Prop where
  instances : (store.instances.map Instance.profile).Perm (other.instances.map Instance.profile)
  found : ∀ id, (store.find? id).map Instance.profile = (other.find? id).map Instance.profile
  size : store.size = other.size
  idsOfType : ∀ label, (store.idsOfType label).Perm (other.idsOfType label)
  hasLink : ∀ source edge target,
    store.hasLink source edge target = other.hasLink source edge target

/-- The reports count the same and name the same broken entries. -/
structure SameCounts (report other : LoadReport) : Prop where
  instances : report.instances = other.instances
  links : report.links = other.links
  broken : report.broken.Perm other.broken

variable {records others : List Record}

theorem Means.sameGraph {other : Store} (means : Means records store) (shows : Means others other)
    (shuffled : others.Perm records) : SameGraph store other where
  instances := by
    rw [means.instances, shows.instances]
    exact (shuffled.map Record.profile).symm
  found := by
    intro id
    have named : id ∈ others.map Record.id ↔ id ∈ records.map Record.id :=
      (shuffled.map Record.id).mem_iff
    by_cases known : id ∈ records.map Record.id
    · obtain ⟨record, listed, rfl⟩ := List.mem_map.mp known
      obtain ⟨vertex, found, same⟩ := means.found record listed
      obtain ⟨counterpart, reached, alike⟩ := shows.found record (shuffled.mem_iff.mpr listed)
      rw [found, reached, Option.map_some, Option.map_some, same, alike]
    · rw [means.absent id known, shows.absent id (mt named.mp known)]
  size := by
    rw [means.size, shows.size, shuffled.length_eq]
  idsOfType := by
    intro label
    rw [means.idsOfType, shows.idsOfType]
    exact ((shuffled.filter _).map Record.id).symm
  hasLink := by
    intro source edge target
    rw [Bool.eq_iff_iff, means.hasLink, shows.hasLink]
    simp only [(shuffled.map Record.id).mem_iff, shuffled.mem_iff]

theorem brokenEntries_perm (shuffled : others.Perm records) :
    (brokenEntries others).Perm (brokenEntries records) := by
  unfold brokenEntries
  simp only [(shuffled.map Record.id).mem_iff]
  exact shuffled.flatMap_right _

theorem Accounts.sameCounts {report other : LoadReport} (accounts : Accounts records report)
    (counts : Accounts others other) (shuffled : others.Perm records) : SameCounts report other where
  instances := by
    rw [accounts.instances, counts.instances, shuffled.length_eq]
  links := by
    have total := accounts.total
    have same := counts.total
    rw [counts.broken, (brokenEntries_perm shuffled).length_eq, ← accounts.broken,
      (shuffled.flatMap_right Record.targets).length_eq] at same
    omega
  broken := by
    rw [accounts.broken, counts.broken]
    exact (brokenEntries_perm shuffled).symm

/-- A load does what the records say, and their order does not matter. -/
structure Faithful (records : List Record) : Prop where
  rejected : ∀ reason, ofRecords records = .error reason ↔
    ∃ record, FirstRepeat records record ∧ reason = .duplicateId record.id
  fails : (∃ reason, ofRecords records = .error reason) ↔ ¬ (records.map Record.id).Nodup
  accepted : (records.map Record.id).Nodup → ∃ store report,
    ofRecords records = .ok (store, report) ∧ Means records store ∧ Accounts records report
  shuffled : ∀ others, others.Perm records →
    (∃ reason second, ofRecords records = .error reason ∧ ofRecords others = .error second) ∨
    ∃ store report other second, ofRecords records = .ok (store, report) ∧
      ofRecords others = .ok (other, second) ∧ SameGraph store other ∧ SameCounts report second

theorem faithful_of_length_le (bound : records.length ≤ capacity) : Faithful records where
  rejected _ := ofRecords_eq_error_iff bound
  fails := exists_error_iff bound
  accepted := ofRecords_of_nodup bound
  shuffled := by
    intro others shuffled
    have fits : others.length ≤ capacity := shuffled.length_eq ▸ bound
    have alike : (others.map Record.id).Nodup ↔ (records.map Record.id).Nodup :=
      (shuffled.map Record.id).nodup_iff
    by_cases distinct : (records.map Record.id).Nodup
    · obtain ⟨store, report, loaded, means, accounts⟩ := ofRecords_of_nodup bound distinct
      obtain ⟨other, second, filled, shows, counts⟩ :=
        ofRecords_of_nodup fits (alike.mpr distinct)
      exact Or.inr ⟨store, report, other, second, loaded, filled, means.sameGraph shows shuffled,
        accounts.sameCounts counts shuffled⟩
    · obtain ⟨reason, failed⟩ := (exists_error_iff bound).mpr distinct
      obtain ⟨second, rejected⟩ := (exists_error_iff fits).mpr (mt alike.mp distinct)
      exact Or.inl ⟨reason, second, failed, rejected⟩

/-- Records with a link to a later record, one to itself, one that is given from both sides and one
to nobody; an entry and a label are repeated. -/
def acquaintances : List Record :=
  [{ id := "ada", typeLabels := .many ["person", "guest", "person"],
     links := [("knows", ["bob", "ada", "bob"]), ("likes", ["eve"])] },
   { id := "bob", typeLabels := .one "person", value := some (.boolean true),
     links := [("knows", ["ada"])] }]

theorem faithful_acquaintances : acquaintances.length ≤ capacity ∧ Faithful acquaintances :=
  ⟨by decide, faithful_of_length_le (by decide)⟩

end Store

end LinkAtlas
