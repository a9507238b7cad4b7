import LinkAtlas.Proofs.Provenance
import LinkAtlas.Proofs.Walks
import Mathlib.Data.List.Forall2

/-!
# Branches are independent

What a survey copies for one child of the tree does not depend on the other children. So the
projection for the children of two lists is the merge of the projections for each of them, and
siblings with different labels may change places: the forest stays the same up to the order of its
groups, which equality does not see.
-/

namespace LinkAtlas

/-- Of a second list only the members that are new are added. -/
theorem Roster.toList_ofList_append {α : Type} [DecidableEq α] (first second : List α) :
    (Roster.ofList (first ++ second)).toList =
      (Roster.ofList first).toList ++
        (Roster.ofList second).toList.filter fun member => member ∉ first := by
  have fresh : second.removeAll first = second.filter fun member => member ∉ first :=
    List.filter_congr fun member _ => by simp
  rw [toList_ofList_eq_eraseDups, List.eraseDups_append, fresh, ← toList_ofList_eq_eraseDups,
    ← toList_ofList_eq_eraseDups, ← keep_ofList]
  rfl

namespace Projection

/-- A projection is made of two others of the same instance: every group of it is the group of the
first and then that of the second, and the groups that only the second has come last. -/
structure Merges (first second whole : Projection) : Prop where
  left : whole = { first with links := whole.links }
  right : whole = { second with links := whole.links }
  children : ∀ edge, whole.children edge = first.children edge ++ second.children edge
  groups : whole.groups.keys =
    first.groups.keys ++ second.groups.keys.filter fun edge => edge ∉ first.groups.keys

/-! ## Agreement -/

/-- The value can be compared: it is not the number that equals no number. -/
def Comparable (node : Projection) : Prop :=
  ∀ number, node.value = some (.number number) → number.isNaN = false

theorem valuesAgree_self {node : Projection} (comparable : node.Comparable) :
    valuesAgree node.value node.value = true := by
  cases held : node.value with
  | none => rfl
  | some value =>
      cases value with
      | boolean value => exact beq_self_eq_true value
      | number value => exact Double.agrees_self_iff.mpr (comparable value held)
      | text value => exact beq_self_eq_true value

theorem allAgree_iff {first second : List Projection} :
    allAgree first second = true ↔
      List.Forall₂ (fun child other => child.agrees other = true) first second := by
  induction first generalizing second with
  | nil =>
      cases second with
      | nil => simp [allAgree]
      | cons other others => simp [allAgree]
  | cons child rest ih =>
      cases second with
      | nil => simp [allAgree]
      | cons other others => simp [allAgree, ih]

/-- Two projections are equal, whichever of them is asked. -/
def Same (first second : Projection) : Prop :=
  first.agrees second = true ∧ second.agrees first = true

theorem allAgree_of_same {first second : List Projection} (same : List.Forall₂ Same first second) :
    allAgree first second = true ∧ allAgree second first = true :=
  ⟨allAgree_iff.mpr (same.imp fun _ _ => And.left),
    allAgree_iff.mpr (same.flip.imp fun _ _ => And.right)⟩

theorem groupsAgree_iff {links : List (Label × List Projection)}
    {others : Ledger Label (List Projection)} :
    groupsAgree links others = true ↔ ∀ entry ∈ links,
      ∃ counterpart, others.get? entry.1 = some counterpart ∧
        allAgree entry.2 counterpart = true := by
  induction links with
  | nil => simp [groupsAgree]
  | cons entry rest ih =>
      obtain ⟨edge, group⟩ := entry
      rw [groupsAgree, Bool.and_eq_true, ih, List.forall_mem_cons]
      refine and_congr_left fun _ => ?_
      cases others.get? edge <;> simp

/-- Copies of one instance agree if what was found for them agrees label by label. -/
theorem agrees_copy {label : Label} {vertex : Instance} {labels others : List Label}
    {found sought : Label → List Projection} (occur : ∀ edge, edge ∈ labels ↔ edge ∈ others)
    (alike : ∀ edge, allAgree (found edge) (sought edge) = true)
    (own : valuesAgree vertex.value vertex.value = true) :
    (copy label vertex (gather labels found)).agrees
      (copy label vertex (gather others sought)) = true := by
  have empty (edge : Label) : found edge = [] ↔ sought edge = [] := by
    rw [← List.length_eq_zero_iff, (allAgree_iff.mp (alike edge)).length_eq,
      List.length_eq_zero_iff]
  have kinds : (gather labels found).keys.Perm (gather others sought).keys := by
    refine (List.perm_ext_iff_of_nodup (distinct_gather _ _) (distinct_gather _ _)).mpr
      fun edge => ?_
    rw [mem_keys_gather, mem_keys_gather, occur, ne_eq, ne_eq, empty]
  have size : (gather labels found).length = (gather others sought).length := by
    simpa [Ledger.keys] using kinds.length_eq
  have groups : groupsAgree (gather labels found) (gather others sought) = true := by
    refine groupsAgree_iff.mpr fun entry entered => ?_
    have listed : entry.1 ∈ (gather labels found).keys := Ledger.mem_keys_of_mem entered
    obtain ⟨member, filled⟩ := mem_keys_gather.mp (kinds.mem_iff.mp listed)
    exact ⟨sought entry.1, get?_gather_of_mem member filled,
      eq_of_mem_gather entered ▸ alike entry.1⟩
  unfold copy ofInstance
  simp only [agrees, Projection.groups, own, size, groups, beq_self_eq_true, Bool.and_self]

theorem same_copy {label : Label} {vertex : Instance} {labels others : List Label}
    {found sought : Label → List Projection} (occur : ∀ edge, edge ∈ labels ↔ edge ∈ others)
    (alike : ∀ edge, List.Forall₂ Same (found edge) (sought edge))
    (comparable : (copy label vertex (gather labels found)).Comparable) :
    Same (copy label vertex (gather labels found)) (copy label vertex (gather others sought)) := by
  have own : valuesAgree vertex.value vertex.value = true := valuesAgree_self comparable
  exact ⟨agrees_copy occur (fun edge => (allAgree_of_same (alike edge)).1) own,
    agrees_copy (fun edge => (occur edge).symm) (fun edge => (allAgree_of_same (alike edge)).2) own⟩

end Projection

namespace QueryTree

/-- Siblings have changed places, but those with the same label follow each other as before. -/
structure Shuffled (first second : List QueryTree) : Prop where
  perm : first.Perm second
  order : ∀ label, (first.filter fun tree => tree.label = label) =
    second.filter fun tree => tree.label = label

theorem Shuffled.refl (trees : List QueryTree) : Shuffled trees trees := ⟨.refl _, fun _ => rfl⟩

/-- Two neighbours with different labels may change places. -/
theorem Shuffled.swap {first second : QueryTree} (apart : first.label ≠ second.label)
    (rest : List QueryTree) : Shuffled (first :: second :: rest) (second :: first :: rest) where
  perm := .swap _ _ _
  order := by
    intro label
    rcases eq_or_ne first.label label with one | one
    · have two : second.label ≠ label := fun same => apart (one.trans same.symm)
      simp [one, two]
    · simp [List.filter_cons, one]

/-- A tree in which siblings have changed places, at any depths. -/
inductive Rearranged : QueryTree → QueryTree → Prop where
  | node {label : Label} {children inner others : List QueryTree}
      (below : List.Forall₂ Rearranged children inner) (beside : Shuffled inner others) :
      Rearranged ⟨label, children⟩ ⟨label, others⟩

theorem Rearranged.label_eq {tree other : QueryTree} (rearranged : Rearranged tree other) :
    tree.label = other.label := by
  cases rearranged
  rfl

theorem labels_of_below {children inner : List QueryTree}
    (below : List.Forall₂ Rearranged children inner) :
    children.map QueryTree.label = inner.map QueryTree.label := by
  induction below with
  | nil => rfl
  | cons first rest ih => rw [List.map_cons, List.map_cons, first.label_eq, ih]

theorem traceAll_cons (store : Store) (tree : QueryTree) (rest : List QueryTree) (vertex : Instance)
    (edge : Label) :
    traceAll store (tree :: rest) vertex edge =
      (if tree.label = edge then (store.reach vertex edge).map (tree.trace store) else []) ++
        traceAll store rest vertex edge := rfl

theorem traceAll_of_shuffled (store : Store) {first second : List QueryTree}
    (shuffled : Shuffled first second) : traceAll store first = traceAll store second := by
  funext vertex edge
  rw [traceAll_eq_flatMap, traceAll_eq_flatMap, shuffled.order]

variable {store : Store}

/-- The copies for the children of a tree stand below the copy for the tree. -/
theorem within_trace {tree : QueryTree} {vertex : Instance} {edge : Label}
    {child node : Projection} (listed : child ∈ traceAll store tree.children vertex edge)
    (within : node.Within child) : node.Within (tree.trace store vertex) := by
  have occurs : edge ∈ tree.children.map QueryTree.label := by
    refine of_not_not fun missing => ?_
    rw [traceAll, unfoldAll_of_not_mem missing] at listed
    exact List.not_mem_nil listed
  have entered := Ledger.mem_of_get? (get?_gather_of_mem occurs (List.ne_nil_of_mem listed))
  rw [trace_eq]
  exact .under entered listed within

mutual

/-- The copies along a tree and along a rearranged one are equal. -/
theorem same_trace : ∀ (tree other : QueryTree), Rearranged tree other → ∀ vertex : Instance,
    (∀ node, Projection.Within node (tree.trace store vertex) → node.Comparable) →
    Projection.Same (tree.trace store vertex) (other.trace store vertex)
  | ⟨label, children⟩, ⟨_, others⟩, .node below beside, vertex, comparable => by
      have occur (edge : Label) :
          edge ∈ children.map QueryTree.label ↔ edge ∈ others.map QueryTree.label := by
        rw [labels_of_below below]
        exact (beside.perm.map QueryTree.label).mem_iff
      have own := comparable _ .here
      rw [trace_eq] at own
      rw [trace_eq, trace_eq]
      refine Projection.same_copy occur (fun edge => ?_) own
      rw [← traceAll_of_shuffled store beside]
      exact same_traceAll children _ below vertex edge fun child listed node within =>
        comparable node (within_trace listed within)

theorem same_traceAll : ∀ (children inner : List QueryTree),
    List.Forall₂ Rearranged children inner → ∀ (vertex : Instance) (edge : Label),
    (∀ child ∈ traceAll store children vertex edge, ∀ node, Projection.Within node child →
      node.Comparable) →
    List.Forall₂ Projection.Same (traceAll store children vertex edge)
      (traceAll store inner vertex edge)
  | [], _, .nil, vertex, edge, comparable => .nil
  | child :: rest, other :: others, .cons first later, vertex, edge, comparable => by
      rw [traceAll_cons] at comparable
      have behind := same_traceAll rest others later vertex edge fun copied listed =>
        comparable copied (List.mem_append_right _ listed)
      have ahead := same_trace child other first
      rw [traceAll_cons, traceAll_cons, ← first.label_eq]
      refine List.rel_append ?_ behind
      split
      · rename_i begins
        rw [List.forall₂_map_left_iff, List.forall₂_map_right_iff, List.forall₂_same]
        intro next reached
        refine ahead next (comparable _ (List.mem_append_left _ ?_))
        rw [if_pos begins]
        exact List.mem_map_of_mem reached
      · exact .nil

end

/-- The forests of a tree and of a rearranged one are equal. -/
theorem same_survey (store : Store) {tree other : QueryTree} (rearranged : Rearranged tree other)
    (comparable : ∀ root ∈ (tree.survey store).1, ∀ node, Projection.Within node root →
      node.Comparable) :
    List.Forall₂ Projection.Same (tree.survey store).1 (other.survey store).1 := by
  rw [survey_eq_map] at comparable
  rw [survey_eq_map, survey_eq_map, ← rearranged.label_eq, List.forall₂_map_left_iff,
    List.forall₂_map_right_iff, List.forall₂_same]
  intro vertex listed
  exact same_trace tree other rearranged vertex (comparable _ (List.mem_map_of_mem listed))

/-! ## Merging -/

theorem children_trace (store : Store) (tree : QueryTree) (vertex : Instance) (edge : Label) :
    (tree.trace store vertex).children edge = traceAll store tree.children vertex edge := by
  rw [trace_eq]
  exact getD_get?_gather unfoldAll_of_not_mem

/-- There is a group for every label among the children along which something is reached. -/
theorem keys_groups_trace (store : Store) (tree : QueryTree) (vertex : Instance) :
    (tree.trace store vertex).groups.keys =
      (Roster.ofList ((tree.children.map QueryTree.label).filter fun edge =>
        !(store.reach vertex edge).isEmpty)).toList := by
  rw [trace_eq, ← Roster.keep_ofList]
  refine (keys_gather _ _).trans (List.filter_congr fun edge member => ?_)
  have occurs : edge ∈ tree.children.map QueryTree.label := Roster.mem_ofList.mp member
  refine congrArg Bool.not ?_
  rw [Bool.eq_iff_iff, List.isEmpty_iff, List.isEmpty_iff]
  exact unfoldAll_eq_nil_iff occurs

/-- The projection for the children of two lists is the merge of those for each list. -/
theorem merges_trace (store : Store) (vertex : Instance) (label : Label)
    (first second : List QueryTree) :
    Projection.Merges ((QueryTree.mk label first).trace store vertex)
      ((QueryTree.mk label second).trace store vertex)
      ((QueryTree.mk label (first ++ second)).trace store vertex) where
  left := by
    rw [trace_eq, trace_eq]
    rfl
  right := by
    rw [trace_eq, trace_eq]
    rfl
  children := by
    intro edge
    simp only [children_trace, traceAll_eq_flatMap, List.filter_append, List.flatMap_append]
  groups := by
    simp only [keys_groups_trace, List.map_append, List.filter_append,
      Roster.toList_ofList_append]
    refine congrArg _ (List.filter_congr fun edge _ => ?_)
    exact decide_eq_decide.mpr (not_congr Roster.mem_ofList.symm)

/-- Branches do not depend on each other: the projection for the children of two lists is the merge
of those for each list, and the forests of two trees that differ in the order of siblings with
different labels are equal, unless a value in them cannot be compared. -/
theorem branches_independent (store : Store) :
    (∀ (vertex : Instance) (label : Label) (first second : List QueryTree) (depth : Nat)
      (tally : Tally),
      Projection.Merges ((QueryTree.mk label first).project store vertex depth tally).1
        ((QueryTree.mk label second).project store vertex depth tally).1
        ((QueryTree.mk label (first ++ second)).project store vertex depth tally).1) ∧
    ∀ tree other : QueryTree, Rearranged tree other →
      (∀ root ∈ (tree.survey store).1, ∀ node, Projection.Within node root → node.Comparable) →
      Projection.allAgree (tree.survey store).1 (other.survey store).1 = true ∧
        Projection.allAgree (other.survey store).1 (tree.survey store).1 = true := by
  constructor
  · intro vertex label first second depth tally
    simp only [project_eq_trace]
    exact merges_trace store vertex label first second
  · intro tree other rearranged comparable
    exact Projection.allAgree_of_same (same_survey store rearranged comparable)

/-- In a sound store whose instances have values that can be compared, so have all copies. -/
theorem comparable_of_survey {store : Store} (sound : store.Sound) (tree : QueryTree)
    (values : ∀ vertex ∈ store.instances, ∀ number, vertex.value = some (.number number) →
      number.isNaN = false) :
    ∀ root ∈ (tree.survey store).1, ∀ node, Projection.Within node root → node.Comparable := by
  intro root listed node within number held
  rw [survey_eq_map] at listed
  obtain ⟨vertex, carries, traced⟩ := List.mem_map.mp listed
  obtain ⟨original, live, -, -, valued⟩ :=
    sound.copied_of_within within (sound.live_of_mem_ofType carries) traced.symm
  have inside := sound.mem_instances_iff.mpr ((sound.handle_eq live).symm ▸ live)
  exact values original inside number (valued.trans held)

theorem branches_independent_returning :
    ∃ tree other : QueryTree, Rearranged tree other ∧ tree ≠ other ∧
      (∀ root ∈ (tree.survey (Store.empty.run Store.returning)).1, ∀ node,
        Projection.Within node root → node.Comparable) ∧
      Projection.allAgree (tree.survey (Store.empty.run Store.returning)).1
        (other.survey (Store.empty.run Store.returning)).1 = true ∧
      Projection.allAgree (other.survey (Store.empty.run Store.returning)).1
        (tree.survey (Store.empty.run Store.returning)).1 = true := by
  have leaves (label : Label) : Rearranged (leaf label) (leaf label) := .node .nil (.refl _)
  have inner : Rearranged ⟨"knows", [leaf "knows", leaf "likes"]⟩
      ⟨"knows", [leaf "likes", leaf "knows"]⟩ :=
    .node (.cons (leaves _) (.cons (leaves _) .nil)) (.swap (by decide) _)
  have rearranged : Rearranged
      ⟨"person", [⟨"knows", [leaf "knows", leaf "likes"]⟩, leaf "likes"]⟩
      ⟨"person", [leaf "likes", ⟨"knows", [leaf "likes", leaf "knows"]⟩]⟩ :=
    .node (.cons inner (.cons (leaves _) .nil)) (.swap (by decide) _)
  have sound := Store.Origin.empty.sound_run Store.fits_returning
  have comparable := comparable_of_survey sound
    ⟨"person", [⟨"knows", [leaf "knows", leaf "likes"]⟩, leaf "likes"]⟩ fun vertex inside => by
      have two : (Store.empty.run Store.returning).instances = [Store.host, Store.guest] := by
        decide
      rw [two] at inside
      rcases List.mem_pair.mp inside with rfl | rfl
      · exact fun _ held => nomatch held
      · exact fun _ held => nomatch held
  exact ⟨_, _, rearranged, by decide, comparable,
    (branches_independent _).2 _ _ rearranged comparable⟩

end QueryTree

end LinkAtlas
