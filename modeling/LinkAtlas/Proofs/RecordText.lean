import LinkAtlas.Proofs.JsonText
import LinkAtlas.Proofs.Ledger
import LinkAtlas.Proofs.NumberText
import LinkAtlas.Proofs.Revaluation
import LinkAtlas.Record.Json

/-!
# Records in a text

Records are read back from their text, one of their four fields after the other, except for values
that a text cannot hold. So a load from the text comes to the same store as a load of the records.

The reader rounds twice, and a number with many digits may come back as its neighbour. What is said
here is about records whose numbers come back as they were.
-/

namespace LinkAtlas

/-! ## Values -/

/-- The double is what its text is read as. -/
def Double.ReadsBack (x : Double) : Prop :=
  (Numeral.read? (Json.numberStyle.write x)).bind Numeral.toDouble? = some x

namespace Scalar

/-- What a text can hold of a value. -/
def lasting? : Scalar → Option Scalar
  | number x => if x.isFinite then some (number x) else none
  | value => some value

/-- A number comes back from its text, if a text can hold it. -/
def Exact (value : Scalar) : Prop := ∀ x, value = number x → x.isFinite = true → x.ReadsBack

variable {value : Scalar}

theorem legible_ofScalar (value : Scalar) : (Json.ofScalar value).Legible := by
  cases value with
  | boolean value => trivial
  | text value => trivial
  | number x =>
      rw [Json.ofScalar, Json.ofDouble]
      split
      · rename_i finite
        obtain ⟨numeral, read, -⟩ := NumberStyle.read?_write finite
        exact Option.isSome_of_eq_some read
      · trivial

theorem optionOfJson?_ofScalar (exact : value.Exact) :
    optionOfJson? (Json.ofScalar value) = some value.lasting? := by
  cases value with
  | boolean value => rfl
  | text value => rfl
  | number x =>
      rw [Json.ofScalar, Json.ofDouble, lasting?]
      split
      · rename_i finite
        exact congrArg (fun read => (read.map number).map some) (exact x rfl finite)
      · rfl

end Scalar

/-! ## Labels and links -/

namespace Json

theorem itemsLegible_iff {items : List Json} :
    ItemsLegible items ↔ ∀ item ∈ items, item.Legible := by
  induction items with
  | nil => simp [ItemsLegible]
  | cons first rest ih => simp [ItemsLegible, ih]

theorem membersLegible_iff {members : List (String × Json)} :
    MembersLegible members ↔ ∀ member ∈ members, member.2.Legible := by
  induction members with
  | nil => simp [MembersLegible]
  | cons first rest ih => simp [MembersLegible, ih]

theorem legible_ofTexts (texts : List String) : (ofTexts texts).Legible := by
  apply itemsLegible_iff.mpr
  intro item listed
  obtain ⟨text, -, rfl⟩ := List.mem_map.mp listed
  trivial

theorem asTexts?_ofTexts (texts : List String) : (ofTexts texts).asTexts? = some texts := by
  have back : (texts.map Json.text).mapM asText? = some (texts.map id) :=
    mapM_map_eq_some fun _ _ => rfl
  rw [List.map_id] at back
  exact back

end Json

namespace LabelList

theorem legible_toJson (labels : LabelList) : labels.toJson.Legible := by
  cases labels with
  | one label => trivial
  | many labels => exact Json.legible_ofTexts labels

theorem ofJson?_toJson (labels : LabelList) : ofJson? labels.toJson = some labels := by
  cases labels with
  | one label => rfl
  | many labels => exact congrArg (Option.map many) (Json.asTexts?_ofTexts labels)

end LabelList

namespace Record

variable {record : Record} {records : List Record}

/-- The links of a record as members of an object. -/
def linkMembers (links : Ledger Label (List InstanceId)) : List (String × Json) :=
  links.map fun group => (group.1, Json.ofTexts group.2)

/-- Groups are entered one behind the other. -/
theorem foldlM_insert {held links : Ledger Label (List InstanceId)}
    (distinct : Ledger.Distinct (held ++ links)) :
    (linkMembers links).foldlM
      (fun (links : Ledger Label (List InstanceId)) (member : String × Json) =>
        member.2.asTexts?.map fun targets => links.insert member.1 targets) held =
      some (held ++ links) := by
  induction links generalizing held with
  | nil => exact congrArg some (List.append_nil held).symm
  | cons group rest ih =>
      have whole : held ++ group :: rest = held ++ [group] ++ rest := by simp
      have fresh : group.1 ∉ held.keys := by
        have keys := distinct
        rw [Ledger.Distinct, Ledger.keys_append] at keys
        exact fun before => (List.nodup_append'.mp keys).2.2 before List.mem_cons_self
      rw [whole] at distinct
      rw [linkMembers, List.map_cons, List.foldlM_cons, Json.asTexts?_ofTexts, Option.map_some,
        Ledger.insert_of_absent fresh, whole]
      exact ih distinct

theorem linksOfJson?_linkMembers {links : Ledger Label (List InstanceId)}
    (distinct : links.Distinct) : linksOfJson? (.object (linkMembers links)) = some links := by
  have alone : Ledger.Distinct ([] ++ links) := distinct
  exact foldlM_insert alone

/-- The members of the object that a record is written as. -/
def members (record : Record) : List (String × Json) :=
  [("id", .text record.id), ("typeLabels", record.typeLabels.toJson)] ++
    (match record.value with
      | some value => [("value", Json.ofScalar value)]
      | none => []) ++
    (if record.links.isEmpty then [] else [("links", .object (linkMembers record.links))])

/-- Every field is found under its name, unless it was left out. -/
theorem field?_members (record : Record) :
    Json.field? record.members ["id"] = some (some (.text record.id)) ∧
      Json.field? record.members ["typeLabels", "nodeTypes"] =
        some (some record.typeLabels.toJson) ∧
      Json.field? record.members ["value", "primitiveValue"] =
        some (record.value.map Json.ofScalar) ∧
      Json.field? record.members ["links"] =
        some (if record.links.isEmpty then none
          else some (.object (linkMembers record.links))) := by
  obtain ⟨id, labels, value, links⟩ := record
  cases value <;> cases links <;> simp [members, Json.field?]

/-- What the fields hold is the record, and what was left out is as if it had been there. -/
theorem ofFields?_toJson (distinct : record.links.Distinct)
    (exact : ∀ value, record.value = some value → value.Exact) :
    ofFields? (some (.text record.id)) (some record.typeLabels.toJson)
        (record.value.map Json.ofScalar)
        (if record.links.isEmpty then none else some (.object (linkMembers record.links))) =
      some (record.revalue Scalar.lasting?) := by
  obtain ⟨id, labels, value, links⟩ := record
  have labelled := labels.ofJson?_toJson
  have linked := linksOfJson?_linkMembers distinct
  cases value with
  | none => cases links <;> simp [ofFields?, Json.asText?, revalue, labelled, linked]
  | some value =>
      have valued := Scalar.optionOfJson?_ofScalar (exact value rfl)
      cases links <;> simp [ofFields?, Json.asText?, revalue, labelled, linked, valued]

theorem ofJson?_toJson (distinct : record.links.Distinct)
    (exact : ∀ value, record.value = some value → value.Exact) :
    ofJson? record.toJson = some (record.revalue Scalar.lasting?) := by
  obtain ⟨id, labels, value, links⟩ := record.field?_members
  have object : record.toJson = .object record.members := rfl
  rw [object, ofJson?, id, labels, value, links]
  exact ofFields?_toJson distinct exact

theorem legible_toJson (record : Record) : record.toJson.Legible := by
  have object : record.toJson = .object record.members := rfl
  rw [object]
  apply Json.membersLegible_iff.mpr
  intro member listed
  obtain ⟨id, labels, value, links⟩ := record
  rcases List.mem_append.mp listed with front | linked
  · rcases List.mem_append.mp front with always | valued
    · rcases List.mem_cons.mp always with rfl | labelled
      · trivial
      · rw [List.mem_singleton.mp labelled]
        exact labels.legible_toJson
    · cases value with
      | none => cases valued
      | some value =>
          rw [List.mem_singleton.mp valued]
          exact value.legible_ofScalar
  · cases links with
    | nil => cases linked
    | cons group rest =>
        rw [List.mem_singleton.mp linked]
        apply Json.membersLegible_iff.mpr
        intro entry inside
        obtain ⟨group, -, rfl⟩ := List.mem_map.mp inside
        exact Json.legible_ofTexts group.2

theorem readList_of_mem_texts (distinct : ∀ record ∈ records, record.links.Distinct)
    (exact : ∀ record ∈ records, ∀ value, record.value = some value → value.Exact) {text : String}
    (written : text ∈ (Json.array (records.map toJson)).texts) :
    readList text = .ok (records.map (revalue Scalar.lasting?)) := by
  have legible : (Json.array (records.map toJson)).Legible := by
    apply Json.itemsLegible_iff.mpr
    intro item listed
    obtain ⟨record, -, rfl⟩ := List.mem_map.mp listed
    exact record.legible_toJson
  have back : (records.map toJson).mapM ofJson? = some (records.map (revalue Scalar.lasting?)) :=
    Json.mapM_map_eq_some fun record member =>
      ofJson?_toJson (distinct record member) (exact record member)
  rw [readList, Json.read?_of_mem_texts legible written, Option.bind_some, listOfJson?, back]

/-- Records are read back from their text, except for values that a text cannot hold, and a load
from the text comes to the store that a load of the records comes to, up to such values, with the
same report or the same error. -/
theorem survive_text (distinct : ∀ record ∈ records, record.links.Distinct)
    (exact : ∀ record ∈ records, ∀ value, record.value = some value → value.Exact) :
    ∀ text ∈ (Json.array (records.map toJson)).texts,
      readList text = .ok (records.map (revalue Scalar.lasting?)) ∧
        Store.load text = (Store.ofRecords records).map fun result =>
          (result.1.revalue Scalar.lasting?, result.2) := by
  intro text written
  have read := readList_of_mem_texts distinct exact written
  refine ⟨read, ?_⟩
  rw [Store.load, read]
  exact Store.ofRecords_revalue records

/-- Records with and without values, one of which is not a number, and with labels and links in
every shape. -/
def curiosities : List Record :=
  [{ id := "\"ada\"", typeLabels := .one "é\n",
     value := some (.number ⟨0x3FF8000000000000⟩),
     links := [("knows", ["bob", "nobody"]), ("likes", [])] },
   { id := "bob", typeLabels := .many ["host", "host"],
     value := some (.number ⟨0x7FF8000000000001⟩) },
   { id := "", value := some (.text "null") }]

theorem survive_text_curiosities :
    (∀ record ∈ curiosities, record.links.Distinct) ∧
      (∀ record ∈ curiosities, ∀ value, record.value = some value → value.Exact) ∧
      (curiosities.map (revalue Scalar.lasting?)).map value =
        [some (.number ⟨0x3FF8000000000000⟩), none, some (.text "null")] ∧
      readList (Json.array (curiosities.map toJson)).compact =
        .ok (curiosities.map (revalue Scalar.lasting?)) ∧
      ∃ store report, Store.ofRecords curiosities = .ok (store, report) ∧
        Store.load (Json.array (curiosities.map toJson)).compact =
          .ok (store.revalue Scalar.lasting?, report) := by
  have distinct : ∀ record ∈ curiosities, record.links.Distinct := by
    unfold Ledger.Distinct
    decide
  have reads : Double.ReadsBack ⟨0x3FF8000000000000⟩ := by
    unfold Double.ReadsBack
    decide +kernel
  have exact : ∀ record ∈ curiosities, ∀ value, record.value = some value → value.Exact := by
    simp only [curiosities, List.forall_mem_cons]
    refine ⟨?_, ?_, ?_, fun _ none => absurd none List.not_mem_nil⟩
    · rintro _ ⟨⟩ _ ⟨⟩ _
      exact reads
    · rintro _ ⟨⟩ _ ⟨⟩ finite
      exact absurd finite (by decide)
    · rintro _ ⟨⟩ _ ⟨⟩
  obtain ⟨back, loads⟩ := survive_text distinct exact _ List.mem_cons_self
  obtain ⟨⟨store, report⟩, loaded⟩ : ∃ result, Store.ofRecords curiosities = .ok result := ⟨_, rfl⟩
  rw [loaded] at loads
  exact ⟨distinct, exact, by decide, back, store, report, loaded, loads⟩

end Record

end LinkAtlas
