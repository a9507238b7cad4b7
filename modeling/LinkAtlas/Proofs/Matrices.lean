import LinkAtlas.Proofs.ForestText
import LinkAtlas.Proofs.Tally

/-!
# Matrices

The matrix of a projection can be computed from its JSON value: it keeps the values and the places
of the nodes, and says which of them are leaves, but no more. So two projections have equal matrices
if and only if they agree in that.
-/

namespace LinkAtlas

/-! ## Matrices computed from JSON -/

namespace Json

/-- The member with a name, if the value is an object that has one. -/
def member? (json : Json) (name : String) : Option Json :=
  match json with
  | object members => Ledger.get? members name
  | _ => none

/-- The own value of the node that the value is about. -/
def ownValue (json : Json) : Json := (json.member? "value").getD null

mutual

/-- The matrix computed from the JSON value of a projection. Without links it is the own value, with
them a row with the own value in front of the matrices of the children. -/
def matrixOf : Json → Json
  | object members =>
      match childrenIn members with
      | none => ownValue (object members)
      | some children => array (ownValue (object members) :: children)
  | json => json

/-- The matrices of the children, if there is a member for the links. -/
def childrenIn : List (String × Json) → Option (List Json)
  | [] => none
  | (name, value) :: rest => if name = "links" then some (linkMatrices value) else childrenIn rest

def linkMatrices : Json → List Json
  | object groups => groupMatrices groups
  | _ => []

/-- The groups follow each other, and so do the children of a group. -/
def groupMatrices : List (String × Json) → List Json
  | [] => []
  | (_, group) :: rest => itemMatrices group ++ groupMatrices rest

def itemMatrices : Json → List Json
  | array items => matricesOf items
  | _ => []

def matricesOf : List Json → List Json
  | [] => []
  | item :: rest => item.matrixOf :: matricesOf rest

end

theorem childrenIn_eq (members : List (String × Json)) :
    childrenIn members = ((object members).member? "links").map linkMatrices := by
  induction members with
  | nil => rfl
  | cons member rest ih =>
      obtain ⟨name, value⟩ := member
      rw [childrenIn, ih]
      unfold member?
      dsimp only [Ledger.get?]
      split <;> rfl

theorem matricesOf_eq_map (items : List Json) : matricesOf items = items.map matrixOf := by
  induction items with
  | nil => rfl
  | cons item rest ih => rw [matricesOf, ih, List.map_cons]

theorem groupMatrices_eq_flatMap (groups : List (String × Json)) :
    groupMatrices groups = groups.flatMap fun group => itemMatrices group.2 := by
  induction groups with
  | nil => rfl
  | cons group rest ih => rw [groupMatrices, ih, List.flatMap_cons]

/-! ## Scalars -/

/-- A value without parts. -/
def isScalar : Json → Bool
  | null => true
  | boolean _ => true
  | number _ => true
  | text _ => true
  | _ => false

mutual

/-- The number of scalars in a value. -/
def scalarCount : Json → Nat
  | array items => countItems items
  | object members => countMembers members
  | unreadable => 0
  | _ => 1

def countItems : List Json → Nat
  | [] => 0
  | item :: rest => item.scalarCount + countItems rest

def countMembers : List (String × Json) → Nat
  | [] => 0
  | (_, value) :: rest => value.scalarCount + countMembers rest

end

theorem countItems_eq_sum (items : List Json) : countItems items = (items.map scalarCount).sum := by
  induction items with
  | nil => rfl
  | cons item rest ih => rw [countItems, ih, List.map_cons, List.sum_cons]

theorem scalarCount_of_isScalar {json : Json} (scalar : json.isScalar = true) :
    json.scalarCount = 1 := by
  cases json <;> first | rfl | cases scalar

end Json

/-! ## Outlines -/

/-- A tree that says one thing about every node. -/
structure Outline (α : Type) where
  told : α
  children : List (Outline α)

namespace Projection

section

variable {α : Type}

mutual

/-- What is told about the nodes, without the kinds of links. -/
def outline (tell : Projection → α) : Projection → Outline α
  | ⟨edgeType, id, labels, value, source, links⟩ =>
      ⟨tell ⟨edgeType, id, labels, value, source, links⟩, outlineOfGroups tell links⟩

def outlineOfGroups (tell : Projection → α) : List (Label × List Projection) → List (Outline α)
  | [] => []
  | (_, group) :: rest => outlineOfAll tell group ++ outlineOfGroups tell rest

def outlineOfAll (tell : Projection → α) : List Projection → List (Outline α)
  | [] => []
  | child :: rest => child.outline tell :: outlineOfAll tell rest

end

theorem outlineOfAll_eq_map (tell : Projection → α) (group : List Projection) :
    outlineOfAll tell group = group.map (outline tell) := by
  induction group with
  | nil => rfl
  | cons child rest ih => rw [outlineOfAll, ih, List.map_cons]

theorem outline_eq (tell : Projection → α) (node : Projection) :
    node.outline tell = ⟨tell node, node.allChildren.map (outline tell)⟩ := by
  have groups (links : List (Label × List Projection)) :
      outlineOfGroups tell links = (links.flatMap Prod.snd).map (outline tell) := by
    induction links with
    | nil => rfl
    | cons entry rest ih =>
        rw [outlineOfGroups, ih, outlineOfAll_eq_map, List.flatMap_cons, List.map_append]
  cases node
  rw [outline, groups]
  rfl

end

/-- A value is written alike in a matrix and in an object. -/
theorem cell_eq_ofScalar (value : Scalar) : cell value = Json.ofScalar value := by
  cases value with
  | boolean value => rfl
  | text value => rfl
  | number x =>
      rw [cell, Json.ofScalar, Json.spelling?, Json.ofDouble]
      split <;> rfl

theorem isScalar_cell (value : Scalar) : (cell value).isScalar = true := by
  cases value with
  | boolean value => rfl
  | text value => rfl
  | number x =>
      rw [cell]
      cases Json.spelling? x <;> rfl

/-- The value of a node as JSON has it. -/
def scalar (node : Projection) : Json := ownValue node.value

theorem isScalar_scalar (node : Projection) : node.scalar.isScalar = true := by
  obtain ⟨edgeType, id, labels, value, source, links⟩ := node
  cases value with
  | none => rfl
  | some value => exact isScalar_cell value

/-! ## The matrix of a projection -/

theorem matrices_eq_map (group : List Projection) : matrices group = group.map matrix := by
  induction group with
  | nil => rfl
  | cons child rest ih => rw [matrices, ih, List.map_cons]

theorem matrixOfGroups_eq_map (links : List (Label × List Projection)) :
    matrixOfGroups links = (links.flatMap Prod.snd).map matrix := by
  induction links with
  | nil => rfl
  | cons entry rest ih =>
      rw [matrixOfGroups, ih, matrices_eq_map, List.flatMap_cons, List.map_append]

theorem matrix_eq (node : Projection) :
    node.matrix =
      if node.isLeaf then node.scalar else .array (node.scalar :: node.allChildren.map matrix) := by
  obtain ⟨edgeType, id, labels, value, source, links⟩ := node
  cases links with
  | nil => rfl
  | cons entry rest =>
      rw [matrix, matrixOfGroups_eq_map]
      rfl

theorem allChildren_of_isLeaf {node : Projection} (leaf : node.isLeaf = true) :
    node.allChildren = [] := by
  rw [allChildren, List.isEmpty_iff.mp leaf, List.flatMap_nil]

theorem nodeCount_eq (node : Projection) :
    node.nodeCount = 1 + (node.allChildren.map nodeCount).sum := by
  have groups (links : List (Label × List Projection)) :
      countGroups links = ((links.flatMap Prod.snd).map nodeCount).sum := by
    induction links with
    | nil => rfl
    | cons entry rest ih =>
        rw [countGroups, ih, countAll_eq_sum, List.flatMap_cons, List.map_append, List.sum_append]
  cases node
  rw [nodeCount, groups]
  rfl

/-- A matrix has a scalar for every node. -/
theorem scalarCount_matrix (node : Projection) : node.matrix.scalarCount = node.nodeCount := by
  induction node using induction_children with
  | parent node ih =>
      have own := Json.scalarCount_of_isScalar node.isScalar_scalar
      rw [matrix_eq, nodeCount_eq]
      split
      · rename_i leaf
        rw [own, allChildren_of_isLeaf leaf, List.map_nil, List.sum_nil, Nat.add_zero]
      · rw [Json.scalarCount, Json.countItems, own, Json.countItems_eq_sum, List.map_map]
        exact congrArg (fun counts => 1 + counts.sum) (List.map_congr_left ih)

/-! ## The members of a projection -/

theorem member?_links (node : Projection) :
    node.toJson.member? "links" =
      if node.isLeaf then none else some (.object (groupsToJson node.links)) := by
  obtain ⟨edgeType, id, labels, value, source, links⟩ := node
  cases value <;> cases links <;> rfl

theorem ownValue_toJson (node : Projection) : node.toJson.ownValue = node.scalar := by
  obtain ⟨edgeType, id, labels, value, source, links⟩ := node
  cases value with
  | none => cases links <;> rfl
  | some value =>
      have same := cell_eq_ofScalar value
      cases links <;> exact same.symm

theorem linkMatrices_groupsToJson (node : Projection) :
    Json.linkMatrices (.object (groupsToJson node.links)) =
      node.allChildren.map fun child => child.toJson.matrixOf := by
  rw [Json.linkMatrices, Json.groupMatrices_eq_flatMap, groupsToJson_eq_map, allChildren,
    List.flatMap_map, List.map_flatMap]
  refine List.flatMap_congr fun entry _ => ?_
  rw [Json.itemMatrices, Json.matricesOf_eq_map, List.map_map]
  rfl

/-- The matrix is the one computed from the JSON value. -/
theorem matrixOf_toJson (node : Projection) : node.toJson.matrixOf = node.matrix := by
  induction node using induction_children with
  | parent node ih =>
      have links := node.member?_links
      have own := node.ownValue_toJson
      rw [toJson_eq] at links own ⊢
      rw [Json.matrixOf, Json.childrenIn_eq, links, own, matrix_eq]
      cases node.isLeaf with
      | true => rfl
      | false =>
          have children := node.linkMatrices_groupsToJson
          rw [List.map_congr_left ih] at children
          exact congrArg (fun row => Json.array (node.scalar :: row)) children

/-! ## Equal matrices -/

theorem map_pair_eq_iff {α β γ : Type} {f : α → β} {g : α → γ} {first second : List α} :
    (first.map fun x => (f x, g x)) = (second.map fun x => (f x, g x)) ↔
      first.map f = second.map f ∧ first.map g = second.map g := by
  rw [← List.zip_map', ← List.zip_map']
  constructor
  · intro same
    have fronts := congrArg (List.map Prod.fst) same
    have backs := congrArg (List.map Prod.snd) same
    rw [List.map_fst_zip (by simp), List.map_fst_zip (by simp)] at fronts
    rw [List.map_snd_zip (by simp), List.map_snd_zip (by simp)] at backs
    exact ⟨fronts, backs⟩
  · rintro ⟨fronts, backs⟩
    rw [fronts, backs]

theorem scalar_ne_array (node : Projection) (row : List Json) : node.scalar ≠ .array row := by
  intro same
  have scalar := node.isScalar_scalar
  rw [same] at scalar
  cases scalar

/-- Matrices are equal if and only if the nodes have the same values at the same places and the same
of them are leaves. -/
theorem matrix_eq_iff (node other : Projection) :
    node.matrix = other.matrix ↔
      node.outline scalar = other.outline scalar ∧ node.outline isLeaf = other.outline isLeaf := by
  induction node using induction_children generalizing other with
  | parent node ih =>
      have children : node.allChildren.map matrix = other.allChildren.map matrix ↔
          (node.allChildren.map (outline scalar) = other.allChildren.map (outline scalar) ∧
            node.allChildren.map (outline isLeaf) = other.allChildren.map (outline isLeaf)) := by
        rw [← map_pair_eq_iff]
        refine map_eq_map_iff fun child listed opposite _ => ?_
        rw [Prod.mk.injEq]
        exact ih child listed opposite
      rw [matrix_eq, matrix_eq other, outline_eq, outline_eq, outline_eq, outline_eq,
        Outline.mk.injEq, Outline.mk.injEq]
      cases leaf : node.isLeaf with
      | true =>
          cases opposite : other.isLeaf with
          | true =>
              rw [allChildren_of_isLeaf leaf, allChildren_of_isLeaf opposite]
              exact ⟨fun same => ⟨⟨same, rfl⟩, rfl, rfl⟩, fun same => same.1.1⟩
          | false =>
              refine iff_of_false (scalar_ne_array _ _) fun same => ?_
              cases same.2.1
      | false =>
          cases opposite : other.isLeaf with
          | true =>
              refine iff_of_false (scalar_ne_array _ _).symm fun same => ?_
              cases same.2.1
          | false =>
              simp only [Bool.false_eq_true, if_false, Json.array.injEq, List.cons.injEq, true_and]
              rw [children, and_assoc]

/-- A group without children makes a row of a node all the same. -/
example : matrix ⟨"reading", "r1", [], none, default, [("after", [])]⟩ = .array [.null] := rfl

/-! ## Both views -/

/-- What the matrix of a projection has to do with its JSON value. -/
structure MatrixAgrees (node : Projection) : Prop where
  /-- the matrix is the one computed from the JSON value -/
  computed : node.toJson.matrixOf = node.matrix
  /-- the JSON value may have been printed and read back before -/
  read : ∀ text ∈ node.toJson.texts, (Json.read? text).map Json.matrixOf = some node.matrix
  /-- without a member for the links there is one scalar -/
  single : node.toJson.member? "links" = none → node.matrix.isScalar = true
  /-- with such a member there is a row, even if it leads to no children -/
  row : node.toJson.member? "links" ≠ none → ∃ items, node.matrix = .array items
  /-- there is a scalar for every node -/
  counted : node.matrix.scalarCount = node.nodeCount
  /-- equal matrices stand for the same values at the same places and for the same leaves -/
  told : ∀ other : Projection, node.matrix = other.matrix ↔
    node.outline scalar = other.outline scalar ∧ node.outline isLeaf = other.outline isLeaf

/-- The matrix of a projection agrees with its JSON value. -/
theorem matrix_agrees (node : Projection) : node.MatrixAgrees where
  computed := node.matrixOf_toJson
  read := by
    intro text written
    rw [Json.read?_of_mem_texts node.legible_toJson written, Option.map_some, matrixOf_toJson]
  single := by
    intro none
    rw [member?_links] at none
    split at none
    · rename_i leaf
      rw [matrix_eq, if_pos leaf]
      exact node.isScalar_scalar
    · cases none
  row := by
    intro some
    rw [member?_links] at some
    split at some
    · exact absurd rfl some
    · rename_i inner
      exact ⟨_, node.matrix_eq.trans (if_neg inner)⟩
  counted := node.scalarCount_matrix
  told := node.matrix_eq_iff

end Projection

end LinkAtlas
