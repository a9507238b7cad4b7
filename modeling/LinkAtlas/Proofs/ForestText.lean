import LinkAtlas.Format
import LinkAtlas.Proofs.Depths
import LinkAtlas.Proofs.NumberText
import LinkAtlas.Proofs.Provenance
import LinkAtlas.Proofs.RecordText
import LinkAtlas.Proofs.Refinement

/-!
# Forests as JSON

The JSON text of a forest tells everything about it but where its nodes were copied from. The text
is read back as the JSON value that was printed, in either layout, and from this value every field
of every node can be told, provided that all numbers are finite: the others have no text.
-/

namespace LinkAtlas

namespace Scalar

/-! ## Values -/

/-- If the value is a number, it is one that has a text. -/
def Finite (value : Scalar) : Prop := ∀ x, value = number x → x.isFinite = true

variable {value other : Scalar}

/-- The JSON value tells what kind of value it is and which one. -/
theorem ofScalar_inj (finite : value.Finite) (alike : other.Finite) :
    Json.ofScalar value = Json.ofScalar other ↔ value = other := by
  refine ⟨fun same => ?_, congrArg _⟩
  have written {x : Double} (finite : (number x).Finite) :
      Json.ofScalar (number x) = .number (Json.numberStyle.write x) := if_pos (finite x rfl)
  cases value with
  | boolean value =>
      cases other with
      | boolean other =>
          cases same
          rfl
      | number y =>
          rw [written alike] at same
          cases same
      | text other => cases same
  | number x =>
      rw [written finite] at same
      cases other with
      | boolean other => cases same
      | number y =>
          rw [written alike, Json.number.injEq] at same
          rw [NumberStyle.eq_of_write_eq (finite x rfl) (alike y rfl) same]
      | text other => cases same
  | text value =>
      cases other with
      | boolean other => cases same
      | number y =>
          rw [written alike] at same
          cases same
      | text other =>
          cases same
          rfl

end Scalar

/-! ## Texts -/

namespace Json

variable {json other : Json}

theorem compact_inj (legible : json.Legible) (alike : other.Legible) :
    json.compact = other.compact ↔ json = other := by
  refine ⟨fun same => ?_, congrArg _⟩
  have read := read?_of_mem_texts legible (List.mem_cons_self : json.compact ∈ json.texts)
  have again := read?_of_mem_texts alike (List.mem_cons_self : other.compact ∈ other.texts)
  exact Option.some.inj (read.symm.trans ((congrArg read? same).trans again))

theorem pretty_inj (legible : json.Legible) (alike : other.Legible) :
    json.pretty = other.pretty ↔ json = other := by
  refine ⟨fun same => ?_, congrArg _⟩
  have read := read?_of_mem_texts legible (.tail _ (.head _) : json.pretty ∈ json.texts)
  have again := read?_of_mem_texts alike (.tail _ (.head _) : other.pretty ∈ other.texts)
  exact Option.some.inj (read.symm.trans ((congrArg read? same).trans again))

theorem ofTexts_injective : Function.Injective ofTexts := by
  intro texts others same
  have read := congrArg asTexts? same
  rwa [asTexts?_ofTexts, asTexts?_ofTexts, Option.some.injEq] at read

end Json

namespace Projection

/-! ## Induction over children -/

theorem induction_children {motive : Projection → Prop}
    (parent : ∀ node, (∀ child ∈ node.allChildren, motive child) → motive node)
    (node : Projection) : motive node := by
  induction deep : node.depth using Nat.strong_induction_on generalizing node with
  | _ depth ih =>
      refine parent node fun child listed => ih child.depth ?_ child rfl
      exact deep ▸ (node.depth_le_iff _).mp le_rfl child listed

theorem mem_allChildren_iff {parent child : Projection} :
    child ∈ parent.allChildren ↔ ∃ entry ∈ parent.links, child ∈ entry.2 := List.mem_flatMap

/-! ## The JSON value of a projection -/

theorem toJsonList_eq_map (group : List Projection) : toJsonList group = group.map toJson := by
  induction group with
  | nil => rfl
  | cons first rest ih => rw [toJsonList, ih, List.map_cons]

theorem groupsToJson_eq_map (links : List (Label × List Projection)) :
    groupsToJson links = links.map fun entry => (entry.1, .array (entry.2.map toJson)) := by
  induction links with
  | nil => rfl
  | cons entry rest ih => rw [groupsToJson, ih, toJsonList_eq_map, List.map_cons]

def valueMember (value : Option Scalar) : List (String × Json) :=
  (value.toList.map Json.ofScalar).map fun value => ("value", value)

def linksMember (links : List (Label × List Projection)) : List (String × Json) :=
  if links.isEmpty then [] else [("links", .object (groupsToJson links))]

theorem toJson_eq (node : Projection) :
    node.toJson = .object
      ([("edge_type", .text node.edgeType), ("id", .text node.id),
        ("labels", Json.ofTexts node.labels)] ++
          valueMember node.value ++ linksMember node.links) := by
  obtain ⟨edgeType, id, labels, value, source, links⟩ := node
  cases value <;> cases links <;> rfl

theorem legible_toJson (node : Projection) : node.toJson.Legible := by
  induction node using induction_children with
  | parent node ih =>
      rw [toJson_eq]
      refine Json.membersLegible_iff.mpr ?_
      have own : ∀ member ∈ valueMember node.value, member.2.Legible := by
        simp only [valueMember, List.forall_mem_map]
        exact fun value _ => value.legible_ofScalar
      have below : ∀ member ∈ linksMember node.links, member.2.Legible := by
        unfold linksMember
        split
        · exact List.forall_mem_nil _
        · rw [List.forall_mem_singleton, groupsToJson_eq_map]
          refine Json.membersLegible_iff.mpr (List.forall_mem_map.mpr fun entry entered => ?_)
          refine Json.itemsLegible_iff.mpr (List.forall_mem_map.mpr fun child listed => ?_)
          exact ih child (mem_allChildren_iff.mpr ⟨entry, entered, listed⟩)
      simp only [List.forall_mem_append, List.forall_mem_cons]
      exact ⟨⟨⟨trivial, trivial, Json.legible_ofTexts _, List.forall_mem_nil _⟩, own⟩, below⟩

theorem toJson_eq_iff (node other : Projection) :
    node.toJson = other.toJson ↔
      node.edgeType = other.edgeType ∧ node.id = other.id ∧ node.labels = other.labels ∧
        node.value.map Json.ofScalar = other.value.map Json.ofScalar ∧
          groupsToJson node.links = groupsToJson other.links := by
  obtain ⟨edgeType, id, labels, value, source, links⟩ := node
  obtain ⟨edgeType', id', labels', value', source', links'⟩ := other
  cases value <;> cases value' <;> cases links <;> cases links' <;>
    simp [toJson_eq, valueMember, linksMember, Json.ofTexts_injective.eq_iff, groupsToJson]

theorem sketch_eq_iff (node other : Projection) :
    node.sketch = other.sketch ↔
      node.edgeType = other.edgeType ∧ node.id = other.id ∧ node.labels = other.labels ∧
        node.value = other.value ∧ sketchGroups node.links = sketchGroups other.links := by
  cases node
  cases other
  rw [sketch, sketch, Sketch.mk.injEq]

/-! ## What JSON tells -/

/-- If it has a value, this is no number without a text. -/
def Finite (node : Projection) : Prop := ∀ value, node.value = some value → value.Finite

/-- No value in a forest is a number without a text. -/
def AllFinite (roots : List Projection) : Prop :=
  ∀ root ∈ roots, ∀ node, Within node root → node.Finite

theorem map_ofScalar_inj {node other : Projection} (finite : node.Finite) (alike : other.Finite) :
    node.value.map Json.ofScalar = other.value.map Json.ofScalar ↔ node.value = other.value := by
  cases held : node.value with
  | none => cases other.value <;> simp
  | some value =>
      cases opposite : other.value with
      | none => simp
      | some value' =>
          rw [Option.map_some, Option.map_some, Option.some.injEq, Option.some.injEq]
          exact Scalar.ofScalar_inj (finite value held) (alike value' opposite)

/-- Two functions that tell the same apart do so for lists. -/
theorem map_eq_map_iff {α β γ : Type} {f : α → β} {g : α → γ} {first second : List α}
    (alike : ∀ one ∈ first, ∀ other ∈ second, f one = f other ↔ g one = g other) :
    first.map f = second.map f ↔ first.map g = second.map g := by
  induction first generalizing second with
  | nil => cases second <;> simp
  | cons one rest ih =>
      cases second with
      | nil => exact iff_of_false (List.cons_ne_nil _ _) (List.cons_ne_nil _ _)
      | cons other later =>
          simp only [List.map_cons, List.cons.injEq]
          refine and_congr (alike one List.mem_cons_self other List.mem_cons_self) (ih ?_)
          exact fun one listed other present =>
            alike one (List.mem_cons_of_mem _ listed) other (List.mem_cons_of_mem _ present)

/-- The JSON value tells what the sketch tells. -/
theorem toJson_inj {node other : Projection} (finite : ∀ inner, Within inner node → inner.Finite)
    (alike : ∀ inner, Within inner other → inner.Finite) :
    node.toJson = other.toJson ↔ node.sketch = other.sketch := by
  induction node using induction_children generalizing other with
  | parent node ih =>
      rw [toJson_eq_iff, sketch_eq_iff, map_ofScalar_inj (finite _ .here) (alike _ .here),
        groupsToJson_eq_map, groupsToJson_eq_map, sketchGroups_eq_map, sketchGroups_eq_map]
      have groups : node.links.map (fun entry => (entry.1, Json.array (entry.2.map toJson))) =
          other.links.map (fun entry => (entry.1, Json.array (entry.2.map toJson))) ↔
            node.links.map (fun entry => (entry.1, entry.2.map sketch)) =
              other.links.map fun entry => (entry.1, entry.2.map sketch) := by
        refine map_eq_map_iff fun one entered two present => ?_
        rw [Prod.mk.injEq, Prod.mk.injEq, Json.array.injEq]
        refine and_congr_right' (map_eq_map_iff fun child listed opposite standing => ?_)
        exact ih child (mem_allChildren_iff.mpr ⟨one, entered, listed⟩)
          (fun inner within => finite inner (.under entered listed within))
          fun inner within => alike inner (.under present standing within)
      rw [groups]

theorem legible_toJsonList (roots : List Projection) : (Json.array (toJsonList roots)).Legible := by
  refine Json.itemsLegible_iff.mpr fun item listed => ?_
  rw [toJsonList_eq_map] at listed
  obtain ⟨root, -, rfl⟩ := List.mem_map.mp listed
  exact root.legible_toJson

/-- The JSON texts of two forests whose numbers are finite are equal, in either layout, if and only
if the forests differ in nothing but where their nodes were copied from. -/
theorem json_tells_forest {first second : List Projection} (finite : AllFinite first)
    (alike : AllFinite second) (store other : Store) :
    ((Json.array (toJsonList first)).compact = (Json.array (toJsonList second)).compact ↔
        first.map sketch = second.map sketch) ∧
      (Format.json.present store first = Format.json.present other second ↔
        (Json.array (toJsonList first)).compact = (Json.array (toJsonList second)).compact) := by
  have compact := Json.compact_inj (legible_toJsonList first) (legible_toJsonList second)
  have pretty := Json.pretty_inj (legible_toJsonList first) (legible_toJsonList second)
  refine ⟨?_, pretty.trans compact.symm⟩
  rw [compact, Json.array.injEq, toJsonList_eq_map, toJsonList_eq_map]
  exact map_eq_map_iff fun root listed opposite standing =>
    toJson_inj (finite root listed) (alike opposite standing)

/-- A node with a number as its value and a child below. -/
def measured (number : Double) (source : Handle) : Projection where
  edgeType := "reading"
  id := "r1"
  labels := ["reading", "\"quoted\""]
  value := some (.number number)
  source := source
  links := [("by", [⟨"by", "null", [], none, source, []⟩]), ("after", [])]

theorem allFinite_measured {number : Double} (finite : number.isFinite = true) (source : Handle) :
    AllFinite [measured number source] := by
  rw [AllFinite, List.forall_mem_singleton]
  rintro node within value held x rfl
  cases within with
  | here =>
      cases held
      exact finite
  | under entered listed within =>
      rcases List.mem_pair.mp entered with same | same <;> cases same
      · cases List.mem_singleton.mp listed
        cases within with
        | here => cases held
        | under entered => cases entered
      · cases listed

/-- The sources do not show, but the sign of a zero does. -/
theorem json_tells_forest_measured :
    AllFinite [measured ⟨0⟩ ⟨0, 0⟩] ∧ AllFinite [measured ⟨0⟩ ⟨7, 1⟩] ∧
      AllFinite [measured ⟨0x8000000000000000⟩ ⟨0, 0⟩] ∧
      (Json.array (toJsonList [measured ⟨0⟩ ⟨0, 0⟩])).compact =
        (Json.array (toJsonList [measured ⟨0⟩ ⟨7, 1⟩])).compact ∧
      Format.json.present .empty [measured ⟨0⟩ ⟨0, 0⟩] ≠
        Format.json.present .empty [measured ⟨0x8000000000000000⟩ ⟨0, 0⟩] := by
  have one := allFinite_measured (rfl : (⟨0⟩ : Double).isFinite = true) ⟨0, 0⟩
  have moved := allFinite_measured (rfl : (⟨0⟩ : Double).isFinite = true) ⟨7, 1⟩
  have negative :=
    allFinite_measured (rfl : (⟨0x8000000000000000⟩ : Double).isFinite = true) ⟨0, 0⟩
  obtain ⟨alike, -⟩ := json_tells_forest one moved .empty .empty
  obtain ⟨apart, layouts⟩ := json_tells_forest one negative .empty .empty
  refine ⟨one, moved, negative, alike.mpr rfl, fun same => ?_⟩
  have sketches := apart.mp (layouts.mp same)
  cases sketches

end Projection

end LinkAtlas
