import LinkAtlas.Command.Run
import LinkAtlas.Files.Tree
import LinkAtlas.Proofs.Cuts
import LinkAtlas.Proofs.LinkSpec
import LinkAtlas.Proofs.Loading
import LinkAtlas.Proofs.PathText
import LinkAtlas.Proofs.RecordText

/-!
# Queries with edits

A request for a forest may ask for instances and links to be taken out first. It is carried out
exactly if its path compiles, the instances are there and are named once each, and the links are
written as links are. What is printed then is the forest of the whole dataset without what was
taken out, so the order in which the options are given does not show.
-/

namespace LinkAtlas

/-- A forest as it is printed: every format but the tree is ended by a line feed. -/
def Format.printed (format : Format) (store : Store) (forest : List Projection) : String :=
  if format = .tree then format.present store forest else format.present store forest ++ "\n"

namespace Command

/-! ## The edits of a command -/

variable {store after : Store}

theorem bind_eq_ok_iff {α β ε : Type} {first : Except ε α} {later : α → Except ε β}
    {result : β} : (first >>= later) = .ok result ↔
      ∃ between, first = .ok between ∧ later between = .ok result := by
  cases first with
  | error reason => simp [bind, Except.bind]
  | ok value => simp [bind, Except.bind]

theorem mapError_eq_ok_iff {α ε δ : Type} {complain : ε → δ} {outcome : Except ε α} {result : α} :
    outcome.mapError complain = .ok result ↔ outcome = .ok result := by
  cases outcome <;> simp [Except.mapError]

theorem foldlM_mapError {σ α ε δ : Type} (complain : ε → δ) (step : σ → α → Except ε σ)
    (list : List α) (start : σ) :
    list.foldlM (fun state next => (step state next).mapError complain) start =
      (list.foldlM step start).mapError complain := by
  induction list generalizing start with
  | nil => rfl
  | cons next rest ih =>
      rw [List.foldlM_cons, List.foldlM_cons]
      cases step start next with
      | error reason => rfl
      | ok state => exact ih state

/-- Links are cut as they are written, and a text that is no link stops the command. -/
theorem foldlM_unlink_eq_ok_iff {unlink : List String} :
    unlink.foldlM
        (fun store text =>
          match LinkSpec.read? text with
          | some spec => Except.ok (store.unlink spec.source spec.edge spec.target).2
          | none => .error (CommandError.badLink text))
        store = .ok after ↔
      ∃ specs : List LinkSpec, unlink = specs.map LinkSpec.write ∧
        (∀ spec ∈ specs, spec.Proper) ∧ after = store.unlinkEach specs := by
  induction unlink generalizing store with
  | nil =>
      constructor
      · rintro ⟨⟩
        exact ⟨[], rfl, fun _ none => absurd none List.not_mem_nil, rfl⟩
      · rintro ⟨specs, same, -, rfl⟩
        rw [List.map_eq_nil_iff.mp same.symm]
        rfl
  | cons text rest ih =>
      rw [List.foldlM_cons]
      cases parted : LinkSpec.read? text with
      | none =>
          constructor
          · rintro ⟨⟩
          · rintro ⟨specs, same, proper, -⟩
            obtain ⟨spec, others, rfl, rfl, -⟩ := List.map_eq_cons_iff.mp same.symm
            have found := LinkSpec.read?_eq_some_iff.mpr ⟨proper spec List.mem_cons_self, rfl⟩
            cases parted.symm.trans found
      | some spec =>
          obtain ⟨first, rfl⟩ := LinkSpec.read?_eq_some_iff.mp parted
          refine ih.trans ?_
          constructor
          · rintro ⟨specs, rfl, proper, rfl⟩
            exact ⟨spec :: specs, rfl, List.forall_mem_cons.mpr ⟨first, proper⟩, rfl⟩
          · rintro ⟨specs, same, proper, rfl⟩
            obtain ⟨other, others, rfl, written, rfl⟩ := List.map_eq_cons_iff.mp same.symm
            obtain ⟨begins, later⟩ := List.forall_mem_cons.mp proper
            -- the text has been read, and a text is read in one way only
            have again := LinkSpec.read?_eq_some_iff.mpr ⟨begins, written.symm⟩
            cases parted.symm.trans again
            exact ⟨others, rfl, later, rfl⟩

theorem applyEdits_eq_ok_iff {remove unlink : List String} :
    applyEdits store remove unlink = .ok after ↔
      ∃ removed specs, store.removeAll remove = .ok removed ∧
        unlink = List.map LinkSpec.write specs ∧ (∀ spec ∈ specs, spec.Proper) ∧
        after = removed.unlinkEach specs := by
  unfold applyEdits
  rw [foldlM_mapError CommandError.graph Store.remove, bind_eq_ok_iff]
  constructor
  · rintro ⟨removed, succeeds, cut⟩
    obtain ⟨specs, written, proper, rfl⟩ := foldlM_unlink_eq_ok_iff.mp cut
    exact ⟨removed, specs, mapError_eq_ok_iff.mp succeeds, written, proper, rfl⟩
  · rintro ⟨removed, specs, succeeds, written, proper, rfl⟩
    refine ⟨removed, mapError_eq_ok_iff.mpr succeeds, ?_⟩
    exact foldlM_unlink_eq_ok_iff.mpr ⟨specs, written, proper, rfl⟩

/-- What a query with edits prints, and when. -/
theorem queryOutput_eq_ok_iff (sound : store.Sound) {format : Format} {path output : String}
    {remove unlink : List String} :
    queryOutput store format path remove unlink = .ok output ↔
      ∃ query forest specs, QueryPath.read path = .ok query ∧ store.query query = .ok forest ∧
        remove.Nodup ∧ (∀ id ∈ remove, store.Present id) ∧
        unlink = List.map LinkSpec.write specs ∧ (∀ spec ∈ specs, spec.Proper) ∧
        output = format.printed store (store.cutDown remove specs forest) := by
  simp only [queryOutput, bind_eq_ok_iff, mapError_eq_ok_iff, applyEdits_eq_ok_iff]
  constructor
  · rintro ⟨query, reads, _, ⟨removed, specs, succeeds, written, proper, rfl⟩, roots, left, shown⟩
    obtain ⟨once, present⟩ := sound.of_removeAll succeeds
    obtain ⟨_, again, cut, looks⟩ := sound.query_edited once present specs query
    cases succeeds.symm.trans again
    rw [looks roots left] at shown
    rw [cut] at left
    cases asked : store.query query with
    | error reason =>
        rw [asked] at left
        cases left
    | ok forest =>
        rw [asked] at left
        cases left
        exact ⟨query, forest, specs, reads, asked, once, present, written, proper,
          (Except.ok.inj shown).symm⟩
  · rintro ⟨query, forest, specs, reads, asked, once, present, written, proper, rfl⟩
    obtain ⟨removed, succeeds, cut, looks⟩ := sound.query_edited once present specs query
    rw [asked] at cut
    refine ⟨query, reads, _, ⟨removed, specs, succeeds, written, proper, rfl⟩, _, cut, ?_⟩
    rw [looks _ cut]
    rfl

end Command

/-! ## Requests -/

namespace FileTree

/-- The settings that are in force: those in the file, or none at all. -/
def settings (tree : FileTree) (name : String) : Settings :=
  match tree.read name with
  | .ok text => (Settings.read? text).getD {}
  | .error _ => {}

/-- The files hold the dataset for a request. The request decides on its name and on the format,
and where it is silent the settings do. -/
structure Supplies (tree : FileTree) (settingsName : String) (data : Option String)
    (format : Option Format) (text : String) (chosen : Format) : Prop where
  dataset : ∃ name, (data <|> (tree.settings settingsName).dataFile) = some name ∧
    tree.read name = .ok text
  format : (format <|> (tree.settings settingsName).format).getD .tree = chosen

variable {tree : FileTree} {settingsName text : String} {data : Option String}
  {format : Option Format} {chosen : Format}

theorem readSettings_eq (tree : FileTree) (name : String) :
    Command.readSettings disk name tree = (tree.settings name, tree) := by
  have opened : disk.read name tree = (tree.read name, tree) := rfl
  unfold Command.readSettings settings
  simp only [bind, StateT.bind, opened]
  cases tree.read name <;> rfl

/-- A request on the dataset reads it, answers, and changes no file. -/
theorem onDataset_eq (supplies : tree.Supplies settingsName data format text chosen)
    {store : Store} {report : LoadReport} (loads : Store.load text = .ok (store, report))
    (command : Command) :
    command.onDataset disk settingsName data format tree =
      (command.datasetOutput store report chosen, tree) := by
  obtain ⟨name, named, found⟩ := supplies.dataset
  have opened : disk.read name tree = (tree.read name, tree) := rfl
  unfold Command.onDataset
  simp only [bind, StateT.bind, readSettings_eq, named, opened, found, loads, supplies.format]
  rfl

theorem fulfil_query (supplies : tree.Supplies settingsName data format text chosen) {store : Store}
    {report : LoadReport} (loads : Store.load text = .ok (store, report)) (path : String)
    (remove unlink : List String) :
    Request.fulfil disk settingsName (some (.run data format (.query path remove unlink))) tree =
      (Outcome.ofResult (Command.queryOutput store chosen path remove unlink), tree) := by
  unfold Request.fulfil
  simp only [bind, StateT.bind, onDataset_eq supplies loads]
  rfl

theorem fulfil_load (supplies : tree.Supplies settingsName data format text chosen) {store : Store}
    {report : LoadReport} (loads : Store.load text = .ok (store, report)) :
    Request.fulfil disk settingsName (some (.run data format .load)) tree =
      (.done (Command.loadOutput store report chosen), tree) := by
  unfold Request.fulfil
  simp only [bind, StateT.bind, onDataset_eq supplies loads]
  rfl

end FileTree

/-- What the options of a query have to be. -/
structure Acceptable (records : List Record) (path : String) (remove unlink : List String) :
    Prop where
  /-- the path can be read, and it compiles -/
  path : ∃ query tree, QueryPath.read path = .ok query ∧ QueryTree.compile query = .ok tree
  once : remove.Nodup
  known : ∀ id ∈ remove, id ∈ records.map Record.id
  /-- every link has three parts -/
  parted : ∀ text ∈ unlink, ∃ spec : LinkSpec, spec.Proper ∧ text = spec.write

/-- How requests for queries on one dataset end that differ in their options only. -/
structure HeedsOptions (records : List Record) (store : Store) (format : Format) (path : String)
    (answer : List String → List String → Outcome) : Prop where
  done_iff : ∀ remove unlink,
    (∃ output, answer remove unlink = .done output) ↔ Acceptable records path remove unlink
  /-- the options may be given in any order -/
  order : ∀ remove unlink permuted shuffled, remove.Perm permuted → unlink.Perm shuffled →
    (answer remove unlink).code = (answer permuted shuffled).code ∧
      (answer remove unlink).output = (answer permuted shuffled).output
  /-- what is printed is the forest of the whole dataset, cut down -/
  printed : ∀ remove unlink output, answer remove unlink = .done output →
    ∃ query forest specs, QueryPath.read path = .ok query ∧ store.query query = .ok forest ∧
      (∀ spec ∈ specs, LinkSpec.Proper spec) ∧ unlink = specs.map LinkSpec.write ∧
      output = format.printed store (store.cutDown remove specs forest)
  silent : ∀ remove unlink, (∀ output, answer remove unlink ≠ .done output) →
    (answer remove unlink).code = 1 ∧ (answer remove unlink).output = ""

theorem exists_specs {unlink : List String}
    (parted : ∀ text ∈ unlink, ∃ spec : LinkSpec, spec.Proper ∧ text = spec.write) :
    ∃ specs : List LinkSpec, unlink = specs.map LinkSpec.write ∧ ∀ spec ∈ specs, spec.Proper := by
  induction unlink with
  | nil => exact ⟨[], rfl, fun _ none => absurd none List.not_mem_nil⟩
  | cons text rest ih =>
      obtain ⟨spec, proper, rfl⟩ := parted text List.mem_cons_self
      obtain ⟨specs, rfl, others⟩ :=
        ih fun later member => parted later (List.mem_cons_of_mem _ member)
      exact ⟨spec :: specs, rfl, List.forall_mem_cons.mpr ⟨proper, others⟩⟩

/-- The same links in another order are written in another order. -/
theorem perm_of_map_write {specs others : List LinkSpec} (proper : ∀ spec ∈ specs, spec.Proper)
    (same : (specs.map LinkSpec.write).Perm (others.map LinkSpec.write))
    (fair : ∀ spec ∈ others, spec.Proper) : specs.Perm others := by
  have reread {list : List LinkSpec} (sane : ∀ spec ∈ list, spec.Proper) :
      (list.map LinkSpec.write).filterMap LinkSpec.read? = list := by
    rw [List.filterMap_map]
    refine (List.filterMap_congr fun spec member => ?_).trans List.filterMap_some
    exact LinkSpec.read?_eq_some_iff.mpr ⟨sane spec member, rfl⟩
  rw [← reread proper, ← reread fair]
  exact same.filterMap _

namespace Outcome

theorem ofResult_eq_done_iff {result : Except CommandError String} {output : String} :
    ofResult result = .done output ↔ result = .ok output := by
  cases result <;> simp [ofResult]

theorem silent_of_error {result : Except CommandError String}
    (fails : ∀ output, ofResult result ≠ .done output) :
    (ofResult result).code = 1 ∧ (ofResult result).output = "" := by
  cases result with
  | ok output => exact absurd rfl (fails output)
  | error reason => exact ⟨rfl, rfl⟩

end Outcome

theorem Acceptable.perm {records : List Record} {path : String}
    {remove unlink permuted shuffled : List String}
    (acceptable : Acceptable records path remove unlink) (same : remove.Perm permuted)
    (alike : unlink.Perm shuffled) : Acceptable records path permuted shuffled where
  path := acceptable.path
  once := same.nodup acceptable.once
  known id member := acceptable.known id (same.mem_iff.mpr member)
  parted text member := acceptable.parted text (alike.mem_iff.mpr member)

namespace Command

variable {records : List Record} {store : Store}

theorem exists_done_iff (sound : store.Sound)
    (named : ∀ id, store.Present id ↔ id ∈ records.map Record.id) {format : Format} {path : String}
    {remove unlink : List String} :
    (∃ output, queryOutput store format path remove unlink = .ok output) ↔
      Acceptable records path remove unlink := by
  constructor
  · rintro ⟨output, done⟩
    obtain ⟨query, forest, specs, reads, asked, once, present, rfl, proper, -⟩ :=
      (queryOutput_eq_ok_iff sound).mp done
    rw [Store.query_eq] at asked
    cases compiles : QueryTree.compile query with
    | error reason =>
        rw [compiles] at asked
        cases asked
    | ok tree =>
        refine ⟨⟨query, tree, reads, compiles⟩, once, fun id member =>
          (named id).mp (present id member), fun text member => ?_⟩
        obtain ⟨spec, listed, rfl⟩ := List.mem_map.mp member
        exact ⟨spec, proper spec listed, rfl⟩
  · intro acceptable
    obtain ⟨query, tree, reads, compiles⟩ := acceptable.path
    obtain ⟨specs, rfl, proper⟩ := exists_specs acceptable.parted
    have asked := store.query_eq query
    rw [compiles] at asked
    exact ⟨_, (queryOutput_eq_ok_iff sound).mpr ⟨query, _, specs, reads, asked, acceptable.once,
      fun id member => (named id).mpr (acceptable.known id member), rfl, proper, rfl⟩⟩

/-- Options in another order lead to the same output. -/
theorem queryOutput_perm (sound : store.Sound) {format : Format} {path output : String}
    {remove unlink permuted shuffled : List String} (same : remove.Perm permuted)
    (alike : unlink.Perm shuffled)
    (done : queryOutput store format path remove unlink = .ok output)
    {other : String} (again : queryOutput store format path permuted shuffled = .ok other) :
    output = other := by
  obtain ⟨query, forest, specs, reads, asked, -, -, rfl, proper, rfl⟩ :=
    (queryOutput_eq_ok_iff sound).mp done
  obtain ⟨_, _, others, rereads, asks, -, -, rfl, fair, rfl⟩ :=
    (queryOutput_eq_ok_iff sound).mp again
  cases reads.symm.trans rereads
  cases asked.symm.trans asks
  rw [store.cutDown_perm same (perm_of_map_write proper alike fair)]

theorem heedsOptions (sound : store.Sound)
    (named : ∀ id, store.Present id ↔ id ∈ records.map Record.id) (format : Format)
    (path : String) : HeedsOptions records store format path fun remove unlink =>
      Outcome.ofResult (queryOutput store format path remove unlink) where
  done_iff remove unlink := by
    simp only [Outcome.ofResult_eq_done_iff]
    exact exists_done_iff sound named
  order := by
    intro remove unlink permuted shuffled same alike
    have either : (∃ output, queryOutput store format path remove unlink = .ok output) ↔
        Acceptable records path remove unlink := exists_done_iff sound named
    have turned : (∃ output, queryOutput store format path permuted shuffled = .ok output) ↔
        Acceptable records path permuted shuffled := exists_done_iff sound named
    cases one : queryOutput store format path remove unlink with
    | ok output =>
        obtain ⟨other, again⟩ := turned.mpr ((either.mp ⟨output, one⟩).perm same alike)
        rw [again, queryOutput_perm sound same alike one again]
        exact ⟨rfl, rfl⟩
    | error reason =>
        cases two : queryOutput store format path permuted shuffled with
        | ok other =>
            obtain ⟨output, done⟩ :=
              either.mpr ((turned.mp ⟨other, two⟩).perm same.symm alike.symm)
            cases one.symm.trans done
        | error second => exact ⟨rfl, rfl⟩
  printed := by
    intro remove unlink output done
    obtain ⟨query, forest, specs, reads, asked, -, -, written, proper, shown⟩ :=
      (queryOutput_eq_ok_iff sound).mp (Outcome.ofResult_eq_done_iff.mp done)
    exact ⟨query, forest, specs, reads, asked, proper, written, shown⟩
  silent _ _ := Outcome.silent_of_error

end Command

/-- A dataset that loads has exactly the ids of its records, and its store is sound. -/
theorem Store.sound_of_ofRecords {records : List Record} {store : Store} {report : LoadReport}
    (bound : records.length ≤ capacity) (loaded : ofRecords records = .ok (store, report)) :
    store.Sound ∧ ∀ id, store.Present id ↔ id ∈ records.map Record.id := by
  obtain ⟨means, -⟩ := means_of_ofRecords bound loaded
  have sound := (Origin.loaded loaded).sound (means.size ▸ bound)
  refine ⟨sound, fun id => ?_⟩
  rw [sound.present_iff]
  constructor
  · rintro ⟨vertex, found⟩
    by_contra unknown
    cases found.symm.trans (means.absent id unknown)
  · intro known
    obtain ⟨record, listed, rfl⟩ := List.mem_map.mp known
    obtain ⟨vertex, found, -⟩ := means.found record listed
    exact ⟨vertex, found⟩

/-- On a dataset that loads, a request for a query is carried out exactly if its options are
acceptable. It prints the forest of the dataset without the instances and links that were to be
taken out, whatever the order in which they were given, or nothing; and it changes no file. -/
theorem FileTree.query_heeds_options {tree : FileTree} {settingsName text : String}
    {data : Option String} {format : Option Format} {chosen : Format}
    (supplies : tree.Supplies settingsName data format text chosen) {records : List Record}
    (reads : Record.readList text = .ok records) (bound : records.length ≤ Store.capacity)
    {store : Store} {report : LoadReport} (loaded : Store.ofRecords records = .ok (store, report))
    (path : String) :
    (HeedsOptions records store chosen path fun remove unlink =>
      (Request.fulfil disk settingsName (some (.run data format (.query path remove unlink)))
        tree).1) ∧
      ∀ remove unlink, (Request.fulfil disk settingsName
        (some (.run data format (.query path remove unlink))) tree).2 = tree := by
  obtain ⟨sound, named⟩ := Store.sound_of_ofRecords bound loaded
  have loads : Store.load text = .ok (store, report) := by
    rw [Store.load, reads]
    exact loaded
  simp only [fulfil_query supplies loads, implies_true, and_true]
  exact Command.heedsOptions sound named chosen path

/-- A host who knows two guests. -/
def soiree : List Record :=
  [{ id := "ada", typeLabels := .one "host", links := [("knows", ["bob", "eve"])] },
    { id := "bob", value := some (.text "late") }, { id := "eve" }]

def soireeText : String := (Json.array (soiree.map Record.toJson)).compact

def soireeTree : FileTree where
  root := .directory [("soiree.json", .file (some soireeText))]

/-- The path to the guests of the host. -/
def guests : String := (QueryPath.ofLabels ["host", "knows"]).toJson.compact

/-- The outcome of a request for the guests. -/
def soireeGuests (remove unlink : List String) : Outcome :=
  (Request.fulfil FileTree.disk "settings.toml"
    (some (.run (some "soiree.json") none (.query guests remove unlink))) soireeTree).1

/-- One of the guests leaves, and the link to the other one is named from its far end. Nobody leaves
twice. -/
theorem query_heeds_soiree :
    soireeTree.Supplies "settings.toml" (some "soiree.json") none soireeText .tree ∧
      Record.readList soireeText = .ok soiree ∧ soiree.length ≤ Store.capacity ∧
      (∃ store report, Store.ofRecords soiree = .ok (store, report) ∧
        HeedsOptions soiree store .tree guests soireeGuests) ∧
      (∃ output, soireeGuests ["bob"] ["eve:knows:ada"] = .done output) ∧
      (soireeGuests ["bob", "bob"] []).output = "" := by
  have supplies :
      soireeTree.Supplies "settings.toml" (some "soiree.json") none soireeText .tree :=
    ⟨⟨"soiree.json", rfl, rfl⟩, rfl⟩
  have reads : Record.readList soireeText = .ok soiree := by
    apply Record.readList_of_mem_texts _ _ List.mem_cons_self
    · unfold Ledger.Distinct
      decide
    · simp [soiree, Scalar.Exact]
  have bound : soiree.length ≤ Store.capacity := by decide
  obtain ⟨⟨store, report⟩, loaded⟩ : ∃ result, Store.ofRecords soiree = .ok result := ⟨_, rfl⟩
  have heeds : HeedsOptions soiree store .tree guests soireeGuests :=
    (FileTree.query_heeds_options supplies reads bound loaded _).1
  refine ⟨supplies, reads, bound, ⟨store, report, loaded, heeds⟩, ?_, ?_⟩
  · have asked : QueryPath.read guests = .ok (.ofLabels ["host", "knows"]) :=
      (QueryPath.read_of_mem_texts List.mem_cons_self).trans (if_pos (by decide))
    have parted : LinkSpec.read? "eve:knows:ada" = some ⟨"eve", "knows", "ada"⟩ := by decide
    exact (heeds.done_iff _ _).mpr
      { path := ⟨_, _, asked, rfl⟩
        once := List.nodup_singleton _
        known := by decide
        parted := List.forall_mem_singleton.mpr ⟨_, LinkSpec.read?_eq_some_iff.mp parted⟩ }
  · refine (heeds.silent _ _ fun output done => ?_).2
    exact absurd ((heeds.done_iff _ _).mp ⟨output, done⟩).once (by decide)

end LinkAtlas
