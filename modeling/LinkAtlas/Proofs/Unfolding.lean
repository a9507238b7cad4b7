import LinkAtlas.Projection.Survey
import LinkAtlas.Proofs.Groups

/-!
# Unfolding along a tree

A survey adds one child after the other to a projection. What comes out can be said at once: a
vertex is copied, and for every label among the children of the tree, in the order in which the
labels first occur, there is one group with the copies of all that is reached over this kind of
link, unless nothing is.

The unfolding is stated for any kind of vertex and of copy.
-/

namespace LinkAtlas

namespace Ledger

variable {κ α : Type} [DecidableEq κ]

/-- Of two changes in a row, the second sees what the first has made. -/
theorem alter_alter (key : κ) (first : Option α → α) (second : Option α → Option α)
    (ledger : Ledger κ α) :
    (ledger.alter key fun present => some (first present)).alter key second =
      ledger.alter key fun present => second (some (first present)) := by
  induction ledger with
  | nil =>
      simp [alter]
  | cons entry rest ih =>
      obtain ⟨label, held⟩ := entry
      simp only [alter]
      rcases eq_or_ne label key with same | same
      · rw [if_pos same, if_pos same]
        simp only [alter]
        exact if_pos same
      · rw [if_neg same, if_neg same]
        simp only [alter]
        rw [if_neg same, ih]

end Ledger

/-! ## Groups in the order of their labels -/

section Gather

variable {π : Type}

/-- The groups of what was found, for each label at the place where it first occurs. A label under
which nothing was found has no group. -/
def gather (labels : List Label) (found : Label → List π) : Ledger Label (List π) :=
  (Roster.ofList labels).toList.filterMap fun label =>
    if (found label).isEmpty then none else some (label, found label)

theorem keys_gather (labels : List Label) (found : Label → List π) :
    (gather labels found).keys =
      (Roster.ofList labels).toList.filter fun label => !(found label).isEmpty := by
  unfold gather
  induction (Roster.ofList labels).toList with
  | nil => rfl
  | cons label rest ih =>
      cases sought : found label with
      | nil => simpa [sought] using ih
      | cons first others => simpa [sought] using ih

theorem distinct_gather (labels : List Label) (found : Label → List π) :
    (gather labels found).Distinct := by
  rw [Ledger.Distinct, keys_gather]
  exact (Roster.ofList labels).nodup.filter _

theorem mem_keys_gather {labels : List Label} {found : Label → List π} {label : Label} :
    label ∈ (gather labels found).keys ↔ label ∈ labels ∧ found label ≠ [] := by
  rw [keys_gather, List.mem_filter, ← Roster.mem_iff, Roster.mem_ofList]
  simp

theorem eq_of_mem_gather {labels : List Label} {found : Label → List π} {edge : Label}
    {group : List π} (entered : (edge, group) ∈ gather labels found) : group = found edge := by
  obtain ⟨label, -, held⟩ := List.mem_filterMap.mp entered
  split at held
  · cases held
  · cases held
    rfl

theorem get?_gather_of_mem {labels : List Label} {found : Label → List π} {label : Label}
    (entered : label ∈ labels) (filled : found label ≠ []) :
    (gather labels found).get? label = some (found label) := by
  refine Ledger.get?_of_mem (distinct_gather labels found) (List.mem_filterMap.mpr ⟨label, ?_, ?_⟩)
  · exact Roster.mem_ofList.mpr entered
  · simp [filled]

/-- What a group holds, as long as nothing is found under labels that do not occur. -/
theorem getD_get?_gather {labels : List Label} {found : Label → List π} {label : Label}
    (outside : label ∉ labels → found label = []) :
    ((gather labels found).get? label).getD [] = found label := by
  by_cases held : label ∈ labels ∧ found label ≠ []
  · rw [get?_gather_of_mem held.1 held.2]
    rfl
  · rw [Ledger.get?_eq_none_iff.mpr fun entered => held (mem_keys_gather.mp entered)]
    by_cases entered : label ∈ labels
    · exact (not_not.mp fun filled => held ⟨entered, filled⟩).symm
    · exact (outside entered).symm

theorem map_gather {ρ : Type} (change : π → ρ) (labels : List Label) (found : Label → List π) :
    (gather labels found).map (fun group => (group.1, group.2.map change)) =
      gather labels fun label => (found label).map change := by
  rw [gather, List.map_filterMap]
  refine List.filterMap_congr fun label _ => ?_
  rcases eq_or_ne (found label) [] with none | none
  · simp [none]
  · simp [none]

/-- One more label, under which nothing was found. -/
theorem gather_concat_of_nil {labels : List Label} {found : Label → List π} {label : Label}
    (outside : label ∉ labels → found label = []) :
    gather (labels ++ [label]) found = gather labels found := by
  unfold gather
  rw [Roster.ofList_concat]
  by_cases entered : label ∈ Roster.ofList labels
  · rw [Roster.add_of_mem entered]
  · have nothing := outside fun member => entered (Roster.mem_ofList.mpr member)
    rw [Roster.toList_add_of_not_mem entered, List.filterMap_append]
    simp [nothing]

/-- One more label, under which something was found: it goes to the group of the label if this has
one, and is a new group otherwise. -/
theorem gather_concat_of_ne_nil {labels : List Label} {found : Label → List π} {label : Label}
    {extra : List π} (filled : extra ≠ []) (inside : label ∈ labels → found label ≠ [])
    (outside : label ∉ labels → found label = []) :
    gather (labels ++ [label]) (fun edge => found edge ++ if label = edge then extra else []) =
      (gather labels found).alter label fun present => some (present.getD [] ++ extra) := by
  by_cases entered : label ∈ labels
  · have listed : label ∈ Roster.ofList labels := Roster.mem_ofList.mpr entered
    have present : label ∈ (gather labels found).keys :=
      mem_keys_gather.mpr ⟨entered, inside entered⟩
    rw [Ledger.alter_of_present (distinct_gather labels found) present]
    unfold gather Ledger.thin
    rw [Roster.ofList_concat, Roster.add_of_mem listed, List.filterMap_filterMap]
    refine List.filterMap_congr fun edge _ => ?_
    rcases eq_or_ne label edge with same | same
    · subst same
      simp [inside entered]
    · cases sought : found edge with
      | nil => simp [same, sought]
      | cons first others => simp [same, Ne.symm same, sought]
  · have absent : label ∉ (gather labels found).keys := fun member =>
      entered (mem_keys_gather.mp member).1
    have unlisted : label ∉ Roster.ofList labels := fun member =>
      entered (Roster.mem_ofList.mp member)
    rw [Ledger.alter_of_absent absent]
    rw [gather, Roster.ofList_concat, Roster.toList_add_of_not_mem unlisted, List.filterMap_append]
    refine congrArg₂ (· ++ ·) (List.filterMap_congr fun edge member => ?_) ?_
    · have other : label ≠ edge := fun same => unlisted (same ▸ member)
      simp [other]
    · simp [outside entered, filled]

end Gather

namespace QueryTree

section Unfold

variable {ν π : Type}

mutual

/-- The copy of a vertex with the copies of all that is reached from it along the children of a
tree, where `reach` gives what one kind of link leads to. -/
def unfold (copy : Label → ν → List (Label × List π) → π) (reach : ν → Label → List ν) :
    QueryTree → ν → π
  | ⟨label, children⟩, vertex =>
      copy label vertex (gather (children.map QueryTree.label)
        (unfoldAll copy reach children vertex))

/-- The copies of what one kind of link leads to, for each tree that begins with this kind. -/
def unfoldAll (copy : Label → ν → List (Label × List π) → π) (reach : ν → Label → List ν) :
    List QueryTree → ν → Label → List π
  | [], _, _ => []
  | tree :: rest, vertex, edge =>
      (if tree.label = edge then (reach vertex edge).map (unfold copy reach tree) else []) ++
        unfoldAll copy reach rest vertex edge

end

variable {copy : Label → ν → List (Label × List π) → π} {reach : ν → Label → List ν}

theorem unfold_eq (tree : QueryTree) (vertex : ν) :
    tree.unfold copy reach vertex =
      copy tree.label vertex (gather (tree.children.map QueryTree.label)
        (unfoldAll copy reach tree.children vertex)) := by
  cases tree
  rfl

theorem unfoldAll_eq_flatMap (trees : List QueryTree) (vertex : ν) (edge : Label) :
    unfoldAll copy reach trees vertex edge =
      (trees.filter fun tree => tree.label = edge).flatMap fun tree =>
        (reach vertex edge).map (tree.unfold copy reach) := by
  induction trees with
  | nil => rfl
  | cons tree rest ih =>
      rw [unfoldAll, ih]
      rcases eq_or_ne tree.label edge with same | same
      · simp [same]
      · simp [same]

theorem unfoldAll_concat (trees : List QueryTree) (last : QueryTree) (vertex : ν) (edge : Label) :
    unfoldAll copy reach (trees ++ [last]) vertex edge =
      unfoldAll copy reach trees vertex edge ++
        if last.label = edge then (reach vertex last.label).map (last.unfold copy reach)
        else [] := by
  rw [unfoldAll_eq_flatMap, unfoldAll_eq_flatMap, List.filter_append, List.flatMap_append]
  rcases eq_or_ne last.label edge with same | same
  · simp [same]
  · simp [same]

/-- Under a label that occurs, nothing is found exactly if nothing is reached. -/
theorem unfoldAll_eq_nil_iff {trees : List QueryTree} {vertex : ν} {edge : Label}
    (occurs : edge ∈ trees.map QueryTree.label) :
    unfoldAll copy reach trees vertex edge = [] ↔ reach vertex edge = [] := by
  rw [unfoldAll_eq_flatMap, List.flatMap_eq_nil_iff]
  constructor
  · intro none
    obtain ⟨tree, member, same⟩ := List.mem_map.mp occurs
    exact List.map_eq_nil_iff.mp (none tree (List.mem_filter.mpr ⟨member, by simp [same]⟩))
  · intro none tree _
    rw [none]
    rfl

theorem unfoldAll_of_not_mem {trees : List QueryTree} {vertex : ν} {edge : Label}
    (missing : edge ∉ trees.map QueryTree.label) :
    unfoldAll copy reach trees vertex edge = [] := by
  rw [unfoldAll_eq_flatMap, List.flatMap_eq_nil_iff]
  intro tree member
  obtain ⟨inside, same⟩ := List.mem_filter.mp member
  exact absurd (List.mem_map.mpr ⟨tree, inside, of_decide_eq_true same⟩) missing

section Map

variable {μ ρ : Type} {copied : Label → μ → List (Label × List ρ) → ρ}
  {reached : μ → Label → List μ} {place : ν → μ} {change : π → ρ} (live : ν → Prop)

mutual

/-- Unfoldings of two graphs correspond if every step of theirs does. -/
theorem map_unfold
    (copies : ∀ label vertex links, live vertex → change (copy label vertex links) =
      copied label (place vertex) (links.map fun group => (group.1, group.2.map change)))
    (steps : ∀ vertex edge, live vertex →
      (∀ next ∈ reach vertex edge, live next) ∧
        (reach vertex edge).map place = reached (place vertex) edge) :
    ∀ (tree : QueryTree) (vertex : ν), live vertex →
      change (tree.unfold copy reach vertex) = tree.unfold copied reached (place vertex)
  | ⟨label, children⟩, vertex, alive => by
      have below : (fun edge => (unfoldAll copy reach children vertex edge).map change) =
          unfoldAll copied reached children (place vertex) :=
        funext fun edge => map_unfoldAll copies steps children vertex edge alive
      rw [unfold, unfold, copies _ _ _ alive, map_gather, below]

theorem map_unfoldAll
    (copies : ∀ label vertex links, live vertex → change (copy label vertex links) =
      copied label (place vertex) (links.map fun group => (group.1, group.2.map change)))
    (steps : ∀ vertex edge, live vertex →
      (∀ next ∈ reach vertex edge, live next) ∧
        (reach vertex edge).map place = reached (place vertex) edge) :
    ∀ (trees : List QueryTree) (vertex : ν) (edge : Label), live vertex →
      (unfoldAll copy reach trees vertex edge).map change =
        unfoldAll copied reached trees (place vertex) edge
  | [], _, _, _ => rfl
  | tree :: rest, vertex, edge, alive => by
      obtain ⟨onward, same⟩ := steps vertex edge alive
      have first : ((reach vertex edge).map (tree.unfold copy reach)).map change =
          (reached (place vertex) edge).map (tree.unfold copied reached) := by
        rw [← same, List.map_map, List.map_map]
        exact List.map_congr_left fun next member =>
          map_unfold copies steps tree next (onward next member)
      rw [unfoldAll, unfoldAll, List.map_append, map_unfoldAll copies steps rest vertex edge alive]
      rcases eq_or_ne tree.label edge with begins | begins
      · rw [if_pos begins, if_pos begins, first]
      · rw [if_neg begins, if_neg begins]
        rfl

end

end Map

end Unfold

end QueryTree

/-! ## The survey unfolds -/

namespace Store

/-- The instances that one kind of link leads to. -/
def reach (store : Store) (vertex : Instance) (edge : Label) : List Instance :=
  (vertex.targets edge).toList.filterMap store.resolve

end Store

namespace Projection

def copy (label : Label) (vertex : Instance) (links : List (Label × List Projection)) :
    Projection :=
  { ofInstance label vertex with links := links }

/-- Children of one kind that arrive one after the other are appended to their group. -/
theorem foldl_addChild {label : Label} {children : List Projection} (filled : children ≠ [])
    (alike : ∀ child ∈ children, child.edgeType = label) (parent : Projection) :
    children.foldl addChild parent =
      { parent with
        links := parent.groups.alter label fun present => some (present.getD [] ++ children) } := by
  induction children generalizing parent with
  | nil => exact absurd rfl filled
  | cons child rest ih =>
      have first := alike child List.mem_cons_self
      cases rest with
      | nil =>
          rw [← first]
          rfl
      | cons second others =>
          rw [List.foldl_cons, ih (List.cons_ne_nil _ _)
            fun later member => alike later (List.mem_cons_of_mem _ member)]
          simp only [addChild, groups, first, Ledger.alter_alter, Option.getD_some,
            List.append_assoc, List.singleton_append]

end Projection

namespace QueryTree

/-- The projection of an instance, said at once. -/
def trace (store : Store) : QueryTree → Instance → Projection :=
  unfold Projection.copy store.reach

def traceAll (store : Store) : List QueryTree → Instance → Label → List Projection :=
  unfoldAll Projection.copy store.reach

theorem trace_eq (store : Store) (tree : QueryTree) (vertex : Instance) :
    tree.trace store vertex =
      Projection.copy tree.label vertex
        (gather (tree.children.map QueryTree.label) (traceAll store tree.children vertex)) :=
  unfold_eq tree vertex

theorem traceAll_eq_flatMap (store : Store) (trees : List QueryTree) (vertex : Instance)
    (edge : Label) :
    traceAll store trees vertex edge =
      (trees.filter fun tree => tree.label = edge).flatMap fun tree =>
        (store.reach vertex edge).map (tree.trace store) :=
  unfoldAll_eq_flatMap trees vertex edge

theorem edgeType_trace (store : Store) (tree : QueryTree) (vertex : Instance) :
    (tree.trace store vertex).edgeType = tree.label := by
  rw [trace_eq]
  rfl

theorem source_trace (store : Store) (tree : QueryTree) (vertex : Instance) :
    (tree.trace store vertex).source = vertex.handle := by
  rw [trace_eq]
  rfl

/-- The survey of one child of the tree adds the copies of what is reached. -/
theorem foldl_project (store : Store) {child : QueryTree} (depth : Nat)
    (once : ∀ vertex depth tally,
      (child.project store vertex depth tally).1 = child.trace store vertex)
    (targets : List Handle) (projection : Projection) (tally : Tally) :
    (targets.foldl
      (fun (projection, tally) target =>
        match store.resolve target with
        | none => (projection, tally)
        | some linked =>
            let (reached, counted) := project store child linked (depth + 1) tally.follow
            (projection.addChild reached, counted))
      (projection, tally)).1 =
      ((targets.filterMap store.resolve).map (child.trace store)).foldl Projection.addChild
        projection := by
  induction targets generalizing projection tally with
  | nil => rfl
  | cons target rest ih =>
      rw [List.foldl_cons]
      cases found : store.resolve target with
      | none =>
          rw [List.filterMap_cons, found]
          exact ih projection tally
      | some linked =>
          rw [List.filterMap_cons, found, List.map_cons, List.foldl_cons, ← once]
          exact ih _ _

/-- Adding the copies of what one more child reaches makes the groups of one more child. -/
theorem foldl_addChild_trace (store : Store) (done : List QueryTree) (child : QueryTree)
    (vertex : Instance) (projection : Projection)
    (before : projection.links =
      gather (done.map QueryTree.label) (traceAll store done vertex)) :
    ((store.reach vertex child.label).map (child.trace store)).foldl Projection.addChild
        projection =
      { projection with
        links := gather ((done ++ [child]).map QueryTree.label)
          (traceAll store (done ++ [child]) vertex) } := by
  have later : traceAll store (done ++ [child]) vertex = fun edge =>
      traceAll store done vertex edge ++
        if child.label = edge then (store.reach vertex child.label).map (child.trace store)
        else [] :=
    funext fun edge => unfoldAll_concat done child vertex edge
  have outside : child.label ∉ done.map QueryTree.label →
      traceAll store done vertex child.label = [] := unfoldAll_of_not_mem
  rw [List.map_append, List.map_singleton, later]
  cases reached : store.reach vertex child.label with
  | nil =>
      have same : (fun edge => traceAll store done vertex edge ++
          if child.label = edge then ([] : List Instance).map (child.trace store) else []) =
          traceAll store done vertex := by
        funext edge
        simp
      rw [same, gather_concat_of_nil outside, ← before]
      cases projection
      rfl
  | cons first others =>
      have filled : (first :: others).map (child.trace store) ≠ [] := List.cons_ne_nil _ _
      have inside : child.label ∈ done.map QueryTree.label →
          traceAll store done vertex child.label ≠ [] := by
        intro occurs none
        rw [(unfoldAll_eq_nil_iff occurs).mp none] at reached
        cases reached
      rw [gather_concat_of_ne_nil filled inside outside, ← before]
      refine Projection.foldl_addChild filled (fun copied member => ?_) projection
      obtain ⟨linked, -, rfl⟩ := List.mem_map.mp member
      exact edgeType_trace store child linked

mutual

theorem project_eq_trace (store : Store) :
    ∀ (tree : QueryTree) (vertex : Instance) (depth : Nat) (tally : Tally),
      (tree.project store vertex depth tally).1 = tree.trace store vertex
  | ⟨label, children⟩, vertex, depth, tally => by
      have whole := projectChildren_eq_trace store children [] vertex depth
        (Projection.ofInstance label vertex) (tally.visit depth) rfl
      exact whole

/-- The children that are still to come go on from the groups of those that are done. -/
theorem projectChildren_eq_trace (store : Store) :
    ∀ (rest done : List QueryTree) (vertex : Instance) (depth : Nat) (projection : Projection)
      (tally : Tally),
      projection.links = gather (done.map QueryTree.label) (traceAll store done vertex) →
      (projectChildren store rest vertex depth projection tally).1 =
        { projection with
          links := gather ((done ++ rest).map QueryTree.label)
            (traceAll store (done ++ rest) vertex) }
  | [], done, vertex, depth, projection, tally, before => by
      rw [projectChildren, List.append_nil, ← before]
      cases projection
      rfl
  | child :: rest, done, vertex, depth, projection, tally, before => by
      have once := project_eq_trace store child
      have grown := foldl_project store depth once (vertex.targets child.label).toList projection
        tally
      have reached : (vertex.targets child.label).toList.filterMap store.resolve =
          store.reach vertex child.label := rfl
      rw [reached, foldl_addChild_trace store done child vertex projection before] at grown
      rw [projectChildren]
      refine (projectChildren_eq_trace store rest (done ++ [child]) vertex depth _ _
        (congrArg Projection.links grown)).trans ?_
      rw [grown, List.append_assoc]
      rfl

end

theorem projectAll_eq_map (store : Store) (tree : QueryTree) (vertices : List Instance)
    (tally : Tally) :
    (tree.projectAll store vertices tally).1 = vertices.map (tree.trace store) := by
  induction vertices generalizing tally with
  | nil => rfl
  | cons vertex rest ih =>
      rw [List.map_cons, ← ih, ← project_eq_trace]
      rfl

theorem survey_eq_map (store : Store) (tree : QueryTree) :
    (tree.survey store).1 = (store.ofType tree.label).map (tree.trace store) :=
  projectAll_eq_map store tree _ {}

end QueryTree

/-- The forest of a path holds one unfolding for every carrier of the label of the roots. -/
theorem Store.query_eq (store : Store) (path : QueryPath) :
    store.query path = (QueryTree.compile path).map fun tree =>
      (store.ofType tree.label).map (tree.trace store) := by
  unfold query survey
  cases QueryTree.compile path with
  | error reason => rfl
  | ok tree => exact congrArg Except.ok (tree.survey_eq_map store)

end LinkAtlas
