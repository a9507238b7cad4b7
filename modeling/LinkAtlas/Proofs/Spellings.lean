import LinkAtlas.Proofs.JsonPieces
import LinkAtlas.Proofs.RecordText
import Mathlib.Data.List.Perm.Basic

/-!
# Spellings of a record

A record can be written down in many ways: its members in any order, with either name of a field,
with members that mean nothing, as an object or as an array. All that is read of an object is what it
says about each of the four fields. So two texts of a record are read alike if they say the same, and
a field about which something is said twice makes the text one of no record.
-/

namespace LinkAtlas

namespace Record

open Json (Piece ObjectOf ArrayOf)

/-! ## Fields -/

/-- A field of a record: the names that it goes by, and what says as much as leaving it out. -/
structure Field where
  names : List String
  default : Option Json

def idField : Field := ⟨["id"], none⟩

def labelsField : Field := ⟨["typeLabels", "nodeTypes"], some (.array [])⟩

def valueField : Field := ⟨["value", "primitiveValue"], some .null⟩

def linksField : Field := ⟨["links"], some (.object [])⟩

/-- The fields in the order in which an array gives them. -/
def fields : List Field := [idField, labelsField, valueField, linksField]

namespace Field

variable {field : Field} {members others : List (Option String × Json)}

/-- The values that an object gives to a field. -/
def held (field : Field) (members : List (Option String × Json)) : List Json :=
  (members.filter fun member => member.1.any field.names.contains).map Prod.snd

/-- What an object says about a field, as long as it does not say it twice. -/
def content? (field : Field) (members : List (Option String × Json)) : Option (Option Json) :=
  match field.held members with
  | [] => some field.default
  | [value] => some (some value)
  | _ => none

theorem held_append (field : Field) (members others : List (Option String × Json)) :
    field.held (members ++ others) = field.held members ++ field.held others := by
  rw [held, List.filter_append, List.map_append]
  rfl

theorem held_cons (field : Field) (member : Option String × Json)
    (members : List (Option String × Json)) :
    field.held (member :: members) =
      (if member.1.any field.names.contains then [member.2] else []) ++ field.held members := by
  rw [held, List.filter_cons]
  split <;> rfl

/-- The order of the members does not matter. -/
theorem content?_perm (same : members.Perm others) :
    field.content? members = field.content? others := by
  have values : (field.held members).Perm (field.held others) := (same.filter _).map _
  unfold content?
  generalize field.held members = first, field.held others = second at values
  match first, second with
  | [], _ => rw [List.nil_perm.mp values]
  | [value], _ => rw [List.singleton_perm.mp values]
  | _ :: _ :: _, [] => exact absurd values.length_eq (by simp)
  | _ :: _ :: _, [_] => exact absurd values.length_eq (by simp)
  | _ :: _ :: _, _ :: _ :: _ => rfl

theorem content?_eq_none (twice : 2 ≤ (field.held members).length) :
    field.content? members = none := by
  unfold content?
  match field.held members, twice with
  | _ :: _ :: _, _ => rfl

section Insert

variable {before after : List (Option String × Json)} {name : String}

theorem held_insert (field : Field) (before after : List (Option String × Json)) (name : String)
    (value : Json) :
    field.held (before ++ (some name, value) :: after) =
      field.held before ++ (if name ∈ field.names then [value] else []) ++ field.held after := by
  rw [held_append, held_cons, Option.any_some, List.append_assoc]
  simp only [List.contains_iff_mem]

/-- A member with another name says nothing about the field. -/
theorem content?_insert_foreign (foreign : name ∉ field.names) (value : Json) :
    field.content? (before ++ (some name, value) :: after) = field.content? (before ++ after) := by
  unfold content?
  rw [held_insert, if_neg foreign, List.append_nil, held_append]

/-- A member is all that is said about the field if the others do not mention it. -/
theorem content?_insert_alone (belongs : name ∈ field.names)
    (alone : field.held (before ++ after) = []) (value : Json) :
    field.content? (before ++ (some name, value) :: after) = some (some value) := by
  rw [held_append, List.append_eq_nil_iff] at alone
  unfold content?
  rw [held_insert, if_pos belongs, alone.1, alone.2]
  rfl

end Insert

theorem content?_named (field : Field) (named : List (String × Json)) :
    field.content? (named.map fun member => (some member.1, member.2)) =
      (Json.field? named field.names).map fun content => content.or field.default := by
  have values : field.held (named.map fun member => (some member.1, member.2)) =
      (named.filter fun member => field.names.contains member.1).map Prod.snd := by
    rw [held, List.filter_map, List.map_map]
    rfl
  unfold content? Json.field?
  rw [values]
  generalize named.filter (fun member => field.names.contains member.1) = kept
  rcases kept with _ | ⟨⟨_, value⟩, _ | ⟨_, _⟩⟩ <;> rfl

end Field

/-! ## What is read of an object -/

theorem ofFields?_or (id typeLabels value links : Option Json) :
    ofFields? (id.or idField.default) (typeLabels.or labelsField.default)
        (value.or valueField.default) (links.or linksField.default) =
      ofFields? id typeLabels value links := by
  cases id <;> cases typeLabels <;> cases value <;> cases links <;> rfl

theorem exists_named {members : List (Option String × Json)}
    (readable : ∀ member ∈ members, member.1 ≠ none) :
    ∃ named : List (String × Json),
      members = named.map fun member => (some member.1, member.2) := by
  induction members with
  | nil => exact ⟨[], rfl⟩
  | cons member rest ih =>
      obtain ⟨here, others⟩ := List.forall_mem_cons.mp readable
      obtain ⟨named, rfl⟩ := ih others
      obtain ⟨name, value⟩ := member
      obtain ⟨name, rfl⟩ := Option.ne_none_iff_exists'.mp here
      exact ⟨(name, value) :: named, rfl⟩

theorem ofMembers_of_none {members : List (Option String × Json)} {member : Option String × Json}
    (listed : member ∈ members) (nameless : member.1 = none) :
    Json.ofMembers members = .unreadable := by
  have failed : members.mapM (fun member => member.1.map fun name => (name, member.2)) = none := by
    induction members with
    | nil => cases listed
    | cons first rest ih =>
        rw [List.mapM_cons]
        rcases List.mem_cons.mp listed with rfl | later
        · rw [nameless]
          rfl
        · rw [ih later]
          cases first.1 <;> rfl
  rw [Json.ofMembers, failed]

/-- What is read of an object is what it says about its fields. -/
theorem ofJson?_ofMembers (members : List (Option String × Json)) :
    ofJson? (Json.ofMembers members) =
      if ∀ member ∈ members, member.1 ≠ none then do
        ofFields? (← idField.content? members) (← labelsField.content? members)
          (← valueField.content? members) (← linksField.content? members)
      else none := by
  split
  · rename_i readable
    obtain ⟨named, rfl⟩ := exists_named readable
    simp only [Field.content?_named, Json.ofMembers_of_named, ofJson?, Option.bind_eq_bind,
      Option.bind_map, Function.comp_def, ofFields?_or]
    rfl
  · rename_i unreadable
    push Not at unreadable
    obtain ⟨member, listed, nameless⟩ := unreadable
    rw [ofMembers_of_none listed nameless]
    rfl

theorem ofJson?_array {values : List Json} (few : values.length ≤ fields.length) :
    ofJson? (.array values) =
      ofFields? (values[0]?.or idField.default) (values[1]?.or labelsField.default)
        (values[2]?.or valueField.default) (values[3]?.or linksField.default) := by
  rw [ofFields?_or]
  exact if_pos few

variable {members others : List (Option String × Json)}

/-- Objects that say the same about every field are read alike. -/
theorem ofJson?_congr
    (readable : (∀ member ∈ members, member.1 ≠ none) ↔ ∀ member ∈ others, member.1 ≠ none)
    (same : ∀ field ∈ fields, field.content? members = field.content? others) :
    ofJson? (Json.ofMembers members) = ofJson? (Json.ofMembers others) := by
  simp only [fields, List.forall_mem_cons] at same
  obtain ⟨id, labels, value, links, -⟩ := same
  simp only [ofJson?_ofMembers, readable, id, labels, value, links]

theorem ofJson?_of_twice {field : Field} (listed : field ∈ fields)
    (twice : field.content? members = none) : ofJson? (Json.ofMembers members) = none := by
  rw [ofJson?_ofMembers]
  split
  · simp only [fields, List.mem_cons, List.not_mem_nil, or_false] at listed
    rcases listed with rfl | rfl | rfl | rfl
    · rw [twice]
      rfl
    · rw [twice]
      cases idField.content? members <;> rfl
    · rw [twice]
      cases idField.content? members <;> cases labelsField.content? members <;> rfl
    · rw [twice]
      cases idField.content? members <;> cases labelsField.content? members <;>
        cases valueField.content? members <;> rfl
  · rfl

/-- No name belongs to two fields. -/
theorem contains_names : ∀ field ∈ fields, ∀ name ∈ field.names, ∀ spelling ∈ field.names,
    ∀ other ∈ fields, other.names.contains name = other.names.contains spelling := by
  simp only [fields, List.forall_mem_cons]
  decide

/-! ## What pieces say -/

variable {pieces : List Piece}

theorem members_unique (one : List.Forall₂ Piece.Spells pieces members)
    (two : List.Forall₂ Piece.Spells pieces others) : members = others :=
  List.right_unique_forall₂' (fun _ _ _ first second => first.unique second) one two

/-- The texts that are given for a field, under any of its names. -/
def Field.texts (field : Field) (pieces : List Piece) : List String :=
  (pieces.filter fun piece => field.names.any fun name => piece.Named name).map Piece.value

/-- What pieces give for a field is read as what they stand for gives for it. -/
theorem Field.read_texts (field : Field) (spelled : List.Forall₂ Piece.Spells pieces members) :
    List.Forall₂ (fun text value => Json.read? text = some value) (field.texts pieces)
      (field.held members) := by
  induction spelled with
  | nil => exact .nil
  | @cons piece member pieces members spells others ih =>
      have belongs : (field.names.any fun name => piece.Named name) =
          member.1.any field.names.contains := by
        rw [Bool.eq_iff_iff]
        simp only [List.any_eq_true, decide_eq_true_eq, spells.named_iff, Option.any_eq_true,
          List.contains_iff_mem]
        exact ⟨fun ⟨name, listed, same⟩ => ⟨name, same, listed⟩,
          fun ⟨name, same, listed⟩ => ⟨name, listed, same⟩⟩
      unfold Field.texts Field.held at ih ⊢
      rw [List.filter_cons, List.filter_cons, belongs]
      split
      · exact .cons spells.value ih
      · exact ih

theorem Field.length_held (field : Field) (spelled : List.Forall₂ Piece.Spells pieces members) :
    (field.held members).length = (field.texts pieces).length :=
  (field.read_texts spelled).length_eq.symm

/-! ## Other spellings -/

/-- One change in the way an object is written that leaves the record as it is. -/
inductive Respelled : List Piece → List Piece → Prop where
  | reordered {pieces others : List Piece} (same : pieces.Perm others) : Respelled pieces others
  /-- another name of the same field -/
  | renamed (before after : List Piece) {piece other : Piece} {field : Field}
      (listed : field ∈ fields) {name spelling : String} (one : name ∈ field.names)
      (two : spelling ∈ field.names) (named : piece.Named name) (renamed : other.Named spelling)
      (same : piece.value = other.value) :
      Respelled (before ++ piece :: after) (before ++ other :: after)
  /-- a member that belongs to no field, with any value -/
  | unknown (before after : List Piece) {piece : Piece} {name : String} (named : piece.Named name)
      (unknown : ∀ field ∈ fields, name ∉ field.names) {value : Json}
      (read : Json.read? piece.value = some value) :
      Respelled (before ++ after) (before ++ piece :: after)
  /-- a value that was left out -/
  | null (before after : List Piece) {piece : Piece} {name : String} (named : piece.Named name)
      (belongs : name ∈ valueField.names) (null : Json.read? piece.value = some .null)
      (absent : valueField.texts (before ++ after) = []) :
      Respelled (before ++ after) (before ++ piece :: after)

/-- Pieces that are read alike, unless both are no pieces of an object. -/
def SaySame (one two : List Piece) : Prop :=
  ((∃ members, List.Forall₂ Piece.Spells one members) ↔
      ∃ members, List.Forall₂ Piece.Spells two members) ∧
    ∀ members others, List.Forall₂ Piece.Spells one members →
      List.Forall₂ Piece.Spells two others →
      ofJson? (Json.ofMembers members) = ofJson? (Json.ofMembers others)

namespace SaySame

variable {one two three : List Piece}

theorem refl (one : List Piece) : SaySame one one :=
  ⟨Iff.rfl, fun _ _ first second => by rw [members_unique first second]⟩

theorem symm (same : SaySame one two) : SaySame two one :=
  ⟨same.1.symm, fun _ _ first second => (same.2 _ _ second first).symm⟩

theorem trans (same : SaySame one two) (alike : SaySame two three) : SaySame one three := by
  refine ⟨same.1.trans alike.1, fun members others first last => ?_⟩
  obtain ⟨between, middle⟩ := same.1.mp ⟨_, first⟩
  exact (same.2 _ _ first middle).trans (alike.2 _ _ middle last)

end SaySame

theorem readable_insert {before after : List (Option String × Json)}
    {member : Option String × Json} (named : member.1 ≠ none) :
    (∀ other ∈ before ++ member :: after, other.1 ≠ none) ↔
      ∀ other ∈ before ++ after, other.1 ≠ none := by
  simp only [List.forall_mem_append, List.forall_mem_cons, named, ne_eq, not_false_eq_true,
    true_and]

namespace SaySame

variable {before after : List Piece} {piece other : Piece}

theorem reordered {one two : List Piece} (same : one.Perm two) : SaySame one two := by
  have moved {first second : List Piece} (same : first.Perm second) :
      (∃ members, List.Forall₂ Piece.Spells first members) →
        ∃ members, List.Forall₂ Piece.Spells second members := by
    rintro ⟨members, spelled⟩
    obtain ⟨others, moved, -⟩ := List.perm_comp_forall₂ same.symm spelled
    exact ⟨others, moved⟩
  refine ⟨⟨moved same, moved same.symm⟩, ?_⟩
  intro members others first second
  obtain ⟨between, spelled, alike⟩ := List.perm_comp_forall₂ same second
  rw [members_unique first spelled]
  refine ofJson?_congr ?_ fun field _ => Field.content?_perm alike
  exact forall_congr' fun member => by rw [alike.mem_iff]

/-- Two members in the same place that say the same about every field. -/
theorem replaced {name spelling : String} (named : piece.Named name)
    (renamed : other.Named spelling) (same : piece.value = other.value)
    (alike : ∀ field ∈ fields, field.names.contains name = field.names.contains spelling) :
    SaySame (before ++ piece :: after) (before ++ other :: after) := by
  have instead {first second : Piece} {word : String} (written : second.Named word)
      (kept : first.value = second.value) :
      (∃ members, List.Forall₂ Piece.Spells (before ++ first :: after) members) →
        ∃ members, List.Forall₂ Piece.Spells (before ++ second :: after) members := by
    rintro ⟨members, spelled⟩
    obtain ⟨front, back, -, begins, ends⟩ := Piece.spells_append_iff.mp spelled
    obtain ⟨member, rest, spells, others, -⟩ := List.forall₂_cons_left_iff.mp ends
    exact ⟨front ++ (some word, member.2) :: rest,
      List.rel_append begins (.cons ⟨written, kept ▸ spells.value⟩ others)⟩
  refine ⟨⟨instead renamed same, instead named same.symm⟩, ?_⟩
  intro members others first second
  obtain ⟨front, back, rfl, begins, ends⟩ := Piece.spells_append_iff.mp first
  obtain ⟨member, rest, spells, behind, rfl⟩ := List.forall₂_cons_left_iff.mp ends
  obtain ⟨front', back', rfl, begins', ends'⟩ := Piece.spells_append_iff.mp second
  obtain ⟨member', rest', spells', behind', rfl⟩ := List.forall₂_cons_left_iff.mp ends'
  obtain rfl := members_unique begins begins'
  obtain rfl := members_unique behind behind'
  have one := spells.named_iff.mp named
  have two := spells'.named_iff.mp renamed
  have value : member.2 = member'.2 := by
    have read := spells'.value
    rw [← same, spells.value] at read
    exact Option.some.inj read
  refine ofJson?_congr ?_ fun field listed => ?_
  · rw [readable_insert (one ▸ Option.some_ne_none _),
      readable_insert (two ▸ Option.some_ne_none _)]
  · unfold Field.content?
    rw [Field.held_append, Field.held_append, Field.held_cons, Field.held_cons, one, two, value,
      Option.any_some, Option.any_some, alike field listed]

/-- One more member that says nothing new. -/
theorem inserted {member : Option String × Json} (spells : piece.Spells member)
    (named : member.1 ≠ none)
    (same : ∀ first second, List.Forall₂ Piece.Spells (before ++ after) (first ++ second) →
      ∀ field ∈ fields,
        field.content? (first ++ second) = field.content? (first ++ member :: second)) :
    SaySame (before ++ after) (before ++ piece :: after) := by
  constructor
  · constructor
    · rintro ⟨members, spelled⟩
      obtain ⟨front, back, rfl, begins, ends⟩ := Piece.spells_append_iff.mp spelled
      exact ⟨_, List.rel_append begins (.cons spells ends)⟩
    · rintro ⟨members, spelled⟩
      obtain ⟨front, back, rfl, begins, ends⟩ := Piece.spells_append_iff.mp spelled
      obtain ⟨-, rest, -, others, rfl⟩ := List.forall₂_cons_left_iff.mp ends
      exact ⟨_, List.rel_append begins others⟩
  · intro members others first second
    obtain ⟨front, back, rfl, begins, ends⟩ := Piece.spells_append_iff.mp first
    have longer := members_unique second (List.rel_append begins (.cons spells ends))
    rw [longer]
    exact ofJson?_congr (readable_insert named).symm (same front back first)

end SaySame

/-- A change of the spelling is a change of nothing else. -/
theorem Respelled.saySame {one two : List Piece} (respelled : Respelled one two) :
    SaySame one two := by
  cases respelled with
  | reordered same => exact .reordered same
  | renamed before after listed owns belongs named renamed same =>
      exact .replaced named renamed same
        fun field member => contains_names _ listed _ owns _ belongs field member
  | @unknown before after piece name named unknown value read =>
      have spells : piece.Spells (some name, value) := ⟨named, read⟩
      exact .inserted spells (Option.some_ne_none _) fun _ _ _ field listed =>
        (Field.content?_insert_foreign (unknown field listed) value).symm
  | @null before after piece name named belongs null absent =>
      have spells : piece.Spells (some name, .null) := ⟨named, null⟩
      refine .inserted spells (Option.some_ne_none _) fun first second spelled field listed => ?_
      have foreign (apart : ∀ name ∈ valueField.names, name ∉ field.names) :
          field.content? (first ++ second) =
            field.content? (first ++ (some name, .null) :: second) :=
        (Field.content?_insert_foreign (apart name belongs) _).symm
      simp only [fields, List.mem_cons, List.not_mem_nil, or_false] at listed
      rcases listed with rfl | rfl | rfl | rfl
      · exact foreign (by decide)
      · exact foreign (by decide)
      · have none := valueField.length_held spelled
        rw [absent, List.length_nil, List.length_eq_zero_iff] at none
        rw [Field.content?_insert_alone belongs none, Field.content?, none]
        rfl
      · exact foreign (by decide)

theorem saySame_of_eqvGen {one two : List Piece} (respelled : Relation.EqvGen Respelled one two) :
    SaySame one two := by
  induction respelled with
  | rel one two step => exact step.saySame
  | refl one => exact .refl one
  | symm one two _ ih => exact ih.symm
  | trans one two three _ _ first second => exact first.trans second

end Record

end LinkAtlas
