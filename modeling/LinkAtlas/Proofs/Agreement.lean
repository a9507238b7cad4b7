import LinkAtlas.Proofs.Spellings

/-!
# Spellings that agree

However an object is respelled, the same record is read from it, and so it is from an array with the
same contents. A field that is given twice makes it the text of no record. A kind of link that is
given twice keeps its first place and its last list.
-/

namespace LinkAtlas

namespace Record

open Json (Piece ObjectOf ArrayOf)

variable {pieces : List Piece} {members : List (Option String × Json)}

/-! ## Arrays -/

/-- An array that gives for every field what an object gives for it. A field that is missing, from
the object or at the end of the array, is given by its default. -/
structure SameContents (pieces : List Piece) (items : List String) : Prop where
  named : ∀ piece ∈ pieces, ∃ name, piece.Named name
  few : items.length ≤ fields.length
  same : ∀ (place : Nat) (field : Field), fields[place]? = some field →
    ∃ given : Option String, field.texts pieces = given.toList ∧
      (given.bind Json.read?).or field.default =
        (items[place]?.bind Json.read?).or field.default

theorem Field.content?_of_texts {field : Field} {given : Option String}
    (spelled : List.Forall₂ Piece.Spells pieces members)
    (same : field.texts pieces = given.toList) :
    field.content? members = some ((given.bind Json.read?).or field.default) := by
  have values := field.read_texts spelled
  rw [same] at values
  unfold Field.content?
  cases given with
  | none =>
      rw [Option.toList_none] at values
      rw [List.forall₂_nil_left_iff.mp values]
      rfl
  | some text =>
      rw [Option.toList_some] at values
      obtain ⟨value, rest, read, last, held⟩ := List.forall₂_cons_left_iff.mp values
      rw [List.forall₂_nil_left_iff.mp last] at held
      rw [held, Option.bind_some, read]
      rfl

theorem getElem?_values {items : List String} {values : List Json}
    (read : List.Forall₂ (fun item value => Json.read? item = some value) items values)
    (place : Nat) : values[place]? = items[place]?.bind Json.read? := by
  induction read generalizing place with
  | nil => rfl
  | cons first others ih =>
      cases place with
      | zero => simp [first]
      | succ place => simpa using ih place

theorem readable_of_named (named : ∀ piece ∈ pieces, ∃ name, piece.Named name)
    (spelled : List.Forall₂ Piece.Spells pieces members) :
    ∀ member ∈ members, member.1 ≠ none := by
  induction spelled with
  | nil => exact nofun
  | cons spells others ih =>
      obtain ⟨⟨name, written⟩, rest⟩ := List.forall_mem_cons.mp named
      refine List.forall_mem_cons.mpr ⟨?_, ih rest⟩
      rw [spells.named_iff.mp written]
      exact Option.some_ne_none name

theorem ofJson?_of_sameContents {items : List String} {values : List Json}
    (same : SameContents pieces items) (spelled : List.Forall₂ Piece.Spells pieces members)
    (read : List.Forall₂ (fun item value => Json.read? item = some value) items values) :
    ofJson? (.array values) = ofJson? (Json.ofMembers members) := by
  have few : values.length ≤ fields.length := read.length_eq ▸ same.few
  have content (place : Nat) (field : Field) (listed : fields[place]? = some field) :
      field.content? members = some (values[place]?.or field.default) := by
    obtain ⟨given, texts, alike⟩ := same.same place field listed
    rw [Field.content?_of_texts spelled texts, alike, getElem?_values read]
  have readable := readable_of_named same.named spelled
  rw [ofJson?_array few, ofJson?_ofMembers, if_pos readable, content 0 idField rfl,
    content 1 labelsField rfl, content 2 valueField rfl, content 3 linksField rfl]
  rfl

/-! ## Links -/

/-- Groups of targets where a kind of link that is given several times keeps its first place and its
last list. -/
def lastLists (entries : List (Label × List InstanceId)) : Ledger Label (List InstanceId) :=
  (entries.map Prod.fst).eraseDups.map fun edge =>
    (edge, (Ledger.get? entries.reverse edge).getD [])

theorem keys_lastLists (entries : List (Label × List InstanceId)) :
    (lastLists entries).keys = (entries.map Prod.fst).eraseDups := by
  rw [lastLists, Ledger.keys, List.map_map]
  exact List.map_id _

theorem distinct_lastLists (entries : List (Label × List InstanceId)) :
    (lastLists entries).Distinct := by
  rw [Ledger.Distinct, keys_lastLists, ← Roster.toList_ofList_eq_eraseDups]
  exact (Roster.ofList _).nodup

theorem eraseDups_kinds_concat (entries : List (Label × List InstanceId))
    (last : Label × List InstanceId) :
    ((entries ++ [last]).map Prod.fst).eraseDups =
      if last.1 ∈ (lastLists entries).keys then (entries.map Prod.fst).eraseDups
      else (entries.map Prod.fst).eraseDups ++ [last.1] := by
  rw [keys_lastLists, List.map_append, List.map_singleton]
  simp only [← Roster.toList_ofList_eq_eraseDups]
  rw [Roster.ofList_concat, Roster.toList_add]
  rfl

/-- One more entry changes the list of its kind of link, or comes last. -/
theorem lastLists_concat (entries : List (Label × List InstanceId))
    (last : Label × List InstanceId) :
    lastLists (entries ++ [last]) = (lastLists entries).insert last.1 last.2 := by
  have later (edge : Label) : (Ledger.get? (entries ++ [last]).reverse edge).getD [] =
      if last.1 = edge then last.2 else (Ledger.get? entries.reverse edge).getD [] := by
    rw [List.reverse_concat, Ledger.get?_cons]
    split <;> rfl
  have keys := eraseDups_kinds_concat entries last
  by_cases present : last.1 ∈ (lastLists entries).keys
  · rw [if_pos present] at keys
    rw [Ledger.insert, Ledger.alter_of_present (distinct_lastLists entries) present, lastLists,
      lastLists, keys, Ledger.thin, List.filterMap_map, ← List.filterMap_eq_map]
    refine List.filterMap_congr fun edge _ => ?_
    dsimp only [Function.comp_apply]
    rw [later]
    by_cases same : last.1 = edge
    · rw [if_pos same, if_pos same.symm]
      rfl
    · rw [if_neg same, if_neg (Ne.symm same)]
      rfl
  · rw [if_neg present] at keys
    rw [Ledger.insert_of_absent present, lastLists, lastLists, keys, List.map_append,
      List.map_singleton, later, if_pos rfl]
    congr 1
    refine List.map_congr_left fun edge listed => ?_
    rw [← keys_lastLists] at listed
    have other : last.1 ≠ edge := fun same => present (same ▸ listed)
    rw [later, if_neg other]

example : lastLists [("knows", ["bob"]), ("likes", []), ("knows", ["cy"])] =
    [("knows", ["cy"]), ("likes", [])] := by decide

theorem linksOfJson?_of_entries (entries : List (Label × List InstanceId)) :
    linksOfJson? (.object (linkMembers entries)) = some (lastLists entries) := by
  change linksOfMembers? (linkMembers entries) = _
  induction entries using List.reverseRecOn with
  | nil => rfl
  | append_singleton entries last ih =>
      unfold linksOfMembers? linkMembers at ih ⊢
      rw [List.map_append, List.foldlM_append, ih, lastLists_concat]
      simp [Json.asTexts?_ofTexts]

theorem ofFields?_eq_bind (id typeLabels value links : Option Json) :
    ofFields? id typeLabels value links = (id.bind Json.asText?).bind fun id =>
      (typeLabels.elim (some (.many [])) LabelList.ofJson?).bind fun typeLabels =>
        (value.elim (some none) Scalar.optionOfJson?).bind fun value =>
          (links.elim (some []) linksOfJson?).bind fun links =>
            some ⟨id, typeLabels, value, links⟩ := by
  cases id <;> cases typeLabels <;> cases value <;> cases links <;> rfl

/-- The links are read by themselves. -/
theorem ofFields?_of_entries (id typeLabels value : Option Json)
    (entries : List (Label × List InstanceId)) :
    ofFields? id typeLabels value (some (.object (linkMembers entries))) =
      (ofFields? id typeLabels value (some (.object []))).map fun record =>
        { record with links := lastLists entries } := by
  have none : linksOfJson? (.object []) = some [] := rfl
  simp only [ofFields?_eq_bind, Option.elim_some, linksOfJson?_of_entries, none,
    Option.bind_some, Option.map_bind, Function.comp_def, Option.map_some]

/-- An object whose members are the lists of targets of kinds of links. -/
def LinksOf (entries : List (Label × List InstanceId)) (text : String) : Prop :=
  ∃ pieces, ObjectOf pieces text ∧ List.Forall₂
    (fun piece entry => piece.Spells (some entry.1, Json.ofTexts entry.2)) pieces entries

theorem read?_of_linksOf {entries : List (Label × List InstanceId)} {text : String}
    (written : LinksOf entries text) :
    Json.read? text = some (.object (linkMembers entries)) := by
  obtain ⟨pieces, object, spelled⟩ := written
  rw [Json.read?_of_objectOf object (List.forall₂_map_right_iff.mpr spelled)]
  have named := Json.ofMembers_of_named (linkMembers entries)
  rw [linkMembers, List.map_map] at named
  exact congrArg some named

/-- What is read of an object that gives its links once. -/
theorem ofJson?_of_links {before after : List (Option String × Json)}
    (alone : linksField.held (before ++ after) = []) (value : Json) :
    ofJson? (Json.ofMembers (before ++ (some "links", value) :: after)) =
      if ∀ member ∈ before ++ after, member.1 ≠ none then do
        ofFields? (← idField.content? (before ++ after)) (← labelsField.content? (before ++ after))
          (← valueField.content? (before ++ after)) (some value)
      else none := by
  have readable : (∀ other ∈ before ++ (some "links", value) :: after, other.1 ≠ none) ↔
      ∀ other ∈ before ++ after, other.1 ≠ none := readable_insert (Option.some_ne_none _)
  have id : "links" ∉ idField.names := by decide
  have labels : "links" ∉ labelsField.names := by decide
  have scalar : "links" ∉ valueField.names := by decide
  have links : "links" ∈ linksField.names := by decide
  rw [ofJson?_ofMembers, Field.content?_insert_foreign id, Field.content?_insert_foreign labels,
    Field.content?_insert_foreign scalar, Field.content?_insert_alone links alone]
  simp only [readable]
  rfl

/-- The lists of targets decide the links of the record, and nothing else about it. -/
theorem ofJson?_of_entries (before after : List (Option String × Json))
    (entries : List (Label × List InstanceId)) :
    ofJson? (Json.ofMembers
        (before ++ (some "links", .object (linkMembers entries)) :: after)) =
      (ofJson? (Json.ofMembers (before ++ (some "links", .object []) :: after))).map fun record =>
        { record with links := lastLists entries } := by
  by_cases alone : linksField.held (before ++ after) = []
  · rw [ofJson?_of_links alone, ofJson?_of_links alone]
    split
    · simp only [ofFields?_of_entries, Option.bind_eq_bind, Option.map_bind, Function.comp_def]
    · rfl
  · have rejected (value : Json) :
        ofJson? (Json.ofMembers (before ++ (some "links", value) :: after)) = none := by
      have listed : linksField ∈ fields := by simp [fields]
      have links : "links" ∈ linksField.names := by decide
      apply ofJson?_of_twice listed
      apply Field.content?_eq_none
      have filled := List.length_pos_iff.mpr alone
      rw [Field.held_append, List.length_append] at filled
      rw [Field.held_insert, if_pos links, List.length_append, List.length_append,
        List.length_singleton]
      omega
    rw [rejected, rejected]
    rfl

/-! ## Texts -/

variable {text : String}

theorem read_of_read? {json : Json} (given : Json.read? text = some json) :
    read text = (ofJson? json).elim (.error .malformed) .ok := by
  rw [read, given, Option.bind_some]
  cases ofJson? json <;> rfl

/-- All spellings of the record that a text in pieces stands for agree. -/
structure Agrees (pieces : List Piece) (text : String) : Prop where
  writable : ∀ {others : List Piece}, Relation.EqvGen Respelled pieces others →
    ∃ other, ObjectOf others other
  respelled : ∀ {others : List Piece} {other : String},
    Relation.EqvGen Respelled pieces others → ObjectOf others other → read other = read text
  listed : ∀ {items : List String} {other : String},
    SameContents pieces items → ArrayOf items other → read other = read text
  twice : ∀ field ∈ fields, 2 ≤ (field.texts pieces).length → read text = .error .malformed
  /-- compared with the same text without any links in it -/
  linked : ∀ {before after : List Piece} {piece bare : Piece} {other : String}
    {entries : List (Label × List InstanceId)},
    pieces = before ++ piece :: after → piece.Named "links" → LinksOf entries piece.value →
    bare.Named "links" → LinksOf [] bare.value → ObjectOf (before ++ bare :: after) other →
    read text = (read other).map fun record => { record with links := lastLists entries }

theorem agrees (written : ObjectOf pieces text) : Agrees pieces text := by
  obtain ⟨members, spelled⟩ := written.spelled
  have given := read_of_read? (Json.read?_of_objectOf written spelled)
  refine ⟨?_, ?_, ?_, ?_, ?_⟩
  · intro others changes
    exact ⟨_, (saySame_of_eqvGen changes).1.mp written.spelled, Json.enclosed_bare _ _ _⟩
  · intro others other changes object
    obtain ⟨values, again⟩ := object.spelled
    rw [given, read_of_read? (Json.read?_of_objectOf object again),
      (saySame_of_eqvGen changes).2 _ _ spelled again]
  · intro items other same array
    obtain ⟨values, again⟩ := array.spelled
    rw [given, read_of_read? (Json.read?_of_arrayOf array again),
      ofJson?_of_sameContents same spelled again]
  · intro field listed twice
    rw [← field.length_held spelled] at twice
    rw [given, ofJson?_of_twice listed (Field.content?_eq_none twice)]
    rfl
  · rintro before after piece bare other entries rfl named links renamed empty object
    obtain ⟨front, back, rfl, begins, ends⟩ := Piece.spells_append_iff.mp spelled
    obtain ⟨member, rest, spells, behind, rfl⟩ := List.forall₂_cons_left_iff.mp ends
    have one : member = (some "links", .object (linkMembers entries)) :=
      spells.unique ⟨named, read?_of_linksOf links⟩
    have two : bare.Spells (some "links", .object []) := ⟨renamed, read?_of_linksOf empty⟩
    have again := Json.read?_of_objectOf object (List.rel_append begins (.cons two behind))
    rw [given, one, ofJson?_of_entries, read_of_read? again]
    cases ofJson? (Json.ofMembers (front ++ (some "links", .object []) :: rest)) <;> rfl

/-- Every text that begins with a brace and can be read is an object in pieces, and all spellings of
the record agree. -/
theorem spellings_agree (given : (Json.read? text).isSome = true)
    (begins : (text.toList.dropWhile Json.isBlank).head? = some '\x7b') :
    (∃ pieces, ObjectOf pieces text) ∧ ∀ pieces, ObjectOf pieces text → Agrees pieces text := by
  obtain ⟨json, read⟩ := Option.isSome_iff_exists.mp given
  exact ⟨Json.exists_objectOf read begins, fun _ written => agrees written⟩

def ada : List Piece := [⟨"\"id\"", "\"ada\""⟩, ⟨"\"typeLabels\"", "\"host\""⟩]

/-- The same under another name of a field, in another order, and with a member that belongs to no
field and holds a number out of the range of doubles. -/
def adaAgain : List Piece :=
  [⟨"\"nodeTypes\"", "\"host\""⟩, ⟨"\"note\"", "[[1e999]]"⟩, ⟨"\"id\"", "\"ada\""⟩]

def adaText : String := "\x7b\"id\":\"ada\",\"typeLabels\":\"host\"\x7d"

theorem objectOf_ada : ObjectOf ada adaText := by
  have quoted {text : String} {value : String}
      (tokens : Json.tokens? text.toList = some [.text (some value)]) :
      Json.read? text = some (.text value) := by
    rw [Json.read?, tokens]
    rfl
  have id : Piece.Spells ⟨"\"id\"", "\"ada\""⟩ (some "id", .text "ada") :=
    ⟨by decide +kernel, quoted (by decide +kernel)⟩
  have labels : Piece.Spells ⟨"\"typeLabels\"", "\"host\""⟩ (some "typeLabels", .text "host") :=
    ⟨by decide +kernel, quoted (by decide +kernel)⟩
  have bare : ("".push '\x7b' ++ ",".intercalate (ada.map Piece.text)).push '\x7d' = adaText := by
    decide +kernel
  exact ⟨⟨_, .cons id (.cons labels .nil)⟩, bare ▸ Json.enclosed_bare _ _ _⟩

theorem respelled_ada : Relation.EqvGen Respelled ada adaAgain := by
  have listed : labelsField ∈ fields := by simp [fields]
  have one : "typeLabels" ∈ labelsField.names := by decide
  have two : "nodeTypes" ∈ labelsField.names := by decide
  have renamed : Respelled ada [⟨"\"id\"", "\"ada\""⟩, ⟨"\"nodeTypes\"", "\"host\""⟩] :=
    .renamed [_] [] listed one two (by decide +kernel) (by decide +kernel) rfl
  have reordered : Respelled [⟨"\"id\"", "\"ada\""⟩, ⟨"\"nodeTypes\"", "\"host\""⟩]
      [⟨"\"nodeTypes\"", "\"host\""⟩, ⟨"\"id\"", "\"ada\""⟩] := .reordered (.swap _ _ _)
  obtain ⟨value, read⟩ := Option.isSome_iff_exists.mp
    (by decide +kernel : (Json.read? "[[1e999]]").isSome = true)
  have note : Piece.Named ⟨"\"note\"", "[[1e999]]"⟩ "note" := by decide +kernel
  have unknown : ∀ field ∈ fields, "note" ∉ field.names := by
    simp only [fields, List.forall_mem_cons]
    decide
  have inserted : Respelled [⟨"\"nodeTypes\"", "\"host\""⟩, ⟨"\"id\"", "\"ada\""⟩] adaAgain :=
    .unknown [_] [_] note unknown read
  exact .trans _ _ _ (.rel _ _ renamed) (.trans _ _ _ (.rel _ _ reordered) (.rel _ _ inserted))

theorem spellings_agree_ada :
    (Json.read? adaText).isSome = true ∧
      (adaText.toList.dropWhile Json.isBlank).head? = some '\x7b' ∧
      ObjectOf ada adaText ∧ Relation.EqvGen Respelled ada adaAgain ∧
      ∃ other, ObjectOf adaAgain other ∧
        read other = .ok { id := "ada", typeLabels := .one "host" } := by
  have given : (Json.read? adaText).isSome = true := by decide +kernel
  have begins : (adaText.toList.dropWhile Json.isBlank).head? = some '\x7b' := by decide +kernel
  have agree := (spellings_agree given begins).2 ada objectOf_ada
  obtain ⟨other, written⟩ := agree.writable respelled_ada
  have here : read adaText = .ok { id := "ada", typeLabels := .one "host" } := by decide +kernel
  exact ⟨given, begins, objectOf_ada, respelled_ada, other, written,
    (agree.respelled respelled_ada written).trans here⟩

end Record

end LinkAtlas
