import LinkAtlas.Proofs.ByteOrder
import LinkAtlas.Proofs.EditedQueries
import LinkAtlas.Proofs.LabelIndex

/-!
# What a load tells

A load counts what the records say: each label that some record carries, in the order of bytes and
with the number of its carriers, and then, if there are any, the link entries that lead nowhere, in
the order in which the records have them.
-/

namespace LinkAtlas

namespace Store

variable {records : List Record} {store : Store} {report : LoadReport}

theorem load_eq {text : String} (reads : Record.readList text = .ok records) :
    load text = ofRecords records := by
  rw [load, reads]
  rfl

/-- How many records carry a label. A record that mentions it again counts once. -/
def carrierCount (records : List Record) (label : Label) : Nat :=
  records.countP fun record => label ∈ record.typeLabels.toList

theorem Means.length_ofType (means : Means records store) (label : Label) :
    (store.ofType label).length = carrierCount records label := by
  calc (store.ofType label).length
      = (store.idsOfType label).length := (List.length_map Instance.id).symm
    _ = (records.filter fun record => label ∈ record.typeLabels.toList).length := by
        rw [means.idsOfType, List.length_map]
    _ = carrierCount records label := List.countP_eq_length_filter.symm

theorem Means.mem_labels (means : Means records store) (sound : store.Sound) {label : Label} :
    label ∈ store.labels ↔ ∃ record ∈ records, label ∈ record.typeLabels.toList := by
  rw [sound.mem_labels]
  constructor
  · rintro ⟨vertex, seated, carries⟩
    have listed := sound.mem_idsOfType.mpr ⟨vertex, seated, rfl, carries⟩
    rw [means.idsOfType] at listed
    obtain ⟨record, kept, -⟩ := List.mem_map.mp listed
    obtain ⟨inside, mentions⟩ := List.mem_filter.mp kept
    exact ⟨record, inside, of_decide_eq_true mentions⟩
  · rintro ⟨record, inside, mentions⟩
    have listed : record.id ∈ store.idsOfType label := by
      rw [means.idsOfType]
      exact List.mem_map_of_mem (List.mem_filter.mpr ⟨inside, decide_eq_true mentions⟩)
    obtain ⟨vertex, seated, -, carries⟩ := sound.mem_idsOfType.mp listed
    exact ⟨vertex, seated, carries⟩

theorem brokenEntries_eq_nil_iff : brokenEntries records = [] ↔
    ∀ record ∈ records, ∀ target ∈ record.targets, target ∈ records.map Record.id := by
  simp only [brokenEntries, Record.targets, List.flatMap_eq_nil_iff, List.map_eq_nil_iff,
    List.filter_eq_nil_iff, List.mem_flatMap, decide_eq_true_eq, not_not]
  constructor
  · rintro named record inside target ⟨group, entered, listed⟩
    exact named record inside group entered target listed
  · intro named record inside group entered target listed
    exact named record inside target ⟨group, entered, listed⟩

end Store

namespace Report

open Store (brokenEntries carrierCount)

/-- What the first line of a summary counts, the labels it lists and what it says of broken links,
from the records alone. -/
structure Summary (records : List Record) (links : Nat) (labels : List Label)
    (broken : List String) : Prop where
  /-- every link entry is either carried out or broken -/
  total : links + (brokenEntries records).length = (records.flatMap Record.targets).length
  ordered : labels.Pairwise fun first second => Text.bytes first < Text.bytes second
  carried : ∀ label, label ∈ labels ↔ ∃ record ∈ records, label ∈ record.typeLabels.toList
  counted : ∀ label ∈ labels, 0 < carrierCount records label
  silent : (∀ record ∈ records, ∀ target ∈ record.targets, target ∈ records.map Record.id) →
    broken = []
  told : (∃ record ∈ records, ∃ target ∈ record.targets, target ∉ records.map Record.id) →
    broken = ("Broken links (" ++ toString (brokenEntries records).length ++ "):") ::
      (brokenEntries records).map fun entry =>
        "  " ++ entry.source ++ " -[" ++ entry.edge ++ "]-> " ++ entry.target

/-- The text of a summary. -/
def summaryText (records : List Record) (links : Nat) (labels : List Label)
    (broken : List String) : String :=
  ofLines (("Loaded " ++ toString records.length ++ " instances and " ++ toString links ++
    " links") :: ((labels.map fun label =>
      "  " ++ label ++ ": " ++ toString (carrierCount records label)) ++ broken))

variable {records : List Record} {store : Store} {report : LoadReport}

theorem labelLines_eq (means : Store.Means records store) : labelLines store =
    (Text.sort store.labels).map fun label =>
      "  " ++ label ++ ": " ++ toString (carrierCount records label) := by
  simp only [labelLines, means.length_ofType]

theorem summary (sound : store.Sound) (means : Store.Means records store)
    (accounts : Store.Accounts records report) :
    Summary records report.links (Text.sort store.labels) (brokenLines report.broken) where
  total := accounts.broken ▸ accounts.total
  ordered := Text.pairwise_bytes_sort sound.types_neat.distinct
  carried _ := Text.mem_sort.trans (means.mem_labels sound)
  counted label listed := by
    obtain ⟨record, inside, mentions⟩ := (means.mem_labels sound).mp (Text.mem_sort.mp listed)
    exact List.countP_pos_iff.mpr ⟨record, inside, decide_eq_true mentions⟩
  silent named := by
    rw [accounts.broken, Store.brokenEntries_eq_nil_iff.mpr named]
    rfl
  told broken := by
    have some : brokenEntries records ≠ [] := by
      intro none
      obtain ⟨record, inside, target, listed, unknown⟩ := broken
      exact unknown (Store.brokenEntries_eq_nil_iff.mp none record inside target listed)
    rw [accounts.broken, brokenLines, if_neg (mt List.isEmpty_iff.mp some)]

end Report

/-- A load of a dataset prints a summary of its records in every format but one, and changes no
file. -/
theorem FileTree.load_prints_summary {tree : FileTree} {settingsName text : String}
    {data : Option String} {format : Option Format} {chosen : Format}
    (supplies : tree.Supplies settingsName data format text chosen) (shown : chosen ≠ .json)
    {records : List Record} (reads : Record.readList text = .ok records)
    (bound : records.length ≤ Store.capacity) (loads : ∃ result, Store.load text = .ok result) :
    ∃ links labels broken, Report.Summary records links labels broken ∧
      Request.fulfil disk settingsName (some (.run data format .load)) tree =
        (.done (Report.summaryText records links labels broken), tree) := by
  obtain ⟨⟨store, report⟩, loads⟩ := loads
  have loaded : Store.ofRecords records = .ok (store, report) := Store.load_eq reads ▸ loads
  obtain ⟨sound, -⟩ := Store.sound_of_ofRecords bound loaded
  obtain ⟨means, accounts⟩ := Store.means_of_ofRecords bound loaded
  refine ⟨_, _, _, Report.summary sound means accounts, ?_⟩
  rw [fulfil_load supplies loads, Command.loadOutput, if_neg shown, Report.loadLines,
    Report.labelLines_eq means, accounts.instances]
  rfl

/-- Two acquaintances, one of whom gives a label twice and names a stranger. -/
def acquaintancesText : String := (Json.array (Store.acquaintances.map Record.toJson)).compact

def acquaintancesTree : FileTree where
  root := .directory [("people.json", .file (some acquaintancesText))]

theorem load_prints_summary_acquaintances :
    acquaintancesTree.Supplies "settings.toml" (some "people.json") none acquaintancesText .tree ∧
      Record.readList acquaintancesText = .ok Store.acquaintances ∧
      Store.acquaintances.length ≤ Store.capacity ∧
      (∃ result, Store.load acquaintancesText = .ok result) ∧
      ∃ links labels broken, Report.Summary Store.acquaintances links labels broken ∧
        links = 4 ∧ broken.length = 2 := by
  have supplies : acquaintancesTree.Supplies "settings.toml" (some "people.json") none
      acquaintancesText .tree := ⟨⟨"people.json", rfl, rfl⟩, rfl⟩
  have reads : Record.readList acquaintancesText = .ok Store.acquaintances := by
    apply Record.readList_of_mem_texts _ _ List.mem_cons_self
    · unfold Ledger.Distinct
      decide
    · simp [Store.acquaintances, Scalar.Exact]
  have bound : Store.acquaintances.length ≤ Store.capacity := by decide
  have loads : ∃ result, Store.load acquaintancesText = .ok result := by
    rw [Store.load_eq reads]
    exact ⟨_, rfl⟩
  obtain ⟨links, labels, broken, summary, -⟩ :=
    FileTree.load_prints_summary supplies (by decide) reads bound loads
  refine ⟨supplies, reads, bound, loads, links, labels, broken, summary, ?_, ?_⟩
  · have total := summary.total
    have entries : (Store.acquaintances.flatMap Record.targets).length = 5 := rfl
    have one : (Store.brokenEntries Store.acquaintances).length = 1 := rfl
    omega
  · rw [summary.told (by decide)]
    rfl

end LinkAtlas
