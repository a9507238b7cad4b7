import LinkAtlas.Proofs.Reversal
import LinkAtlas.Proofs.Walks
import Mathlib.Data.List.Chain
import Mathlib.Order.Bounds.Basic

/-!
# How deep a projection goes

A projection goes down as far as some way down the tree can be walked in the store. So it is never
deeper than the tree, and it is as deep as the tree exactly if one of the longest ways down the tree
can be walked to its end. A way that breaks off in the store does not keep its neighbours from going
on, not even those with the same labels.
-/

namespace LinkAtlas

/-! ## Depths and ways down -/

section Ways

variable {α : Type}

/-- The nodes that one meets on a way down from `node`, without `node` itself; `children` tells what
stands directly below a node. -/
def WayDown (children : α → List α) (node : α) (way : List α) : Prop :=
  (node :: way).IsChain fun parent child => child ∈ children parent

variable {children : α → List α}

theorem wayDown_nil (node : α) : WayDown children node [] := List.isChain_singleton node

theorem wayDown_cons {node child : α} {way : List α} :
    WayDown children node (child :: way) ↔ child ∈ children node ∧ WayDown children child way :=
  List.isChain_cons_cons

/-- What is bounded like a depth is the length of a longest way down. -/
theorem isGreatest_of_bounds {depth : α → Nat}
    (bounds : ∀ node bound, depth node ≤ bound ↔ ∀ child ∈ children node, depth child < bound)
    (node : α) :
    IsGreatest {length | ∃ way, WayDown children node way ∧ way.length = length} (depth node) := by
  constructor
  · generalize reached : depth node = total
    induction total generalizing node with
    | zero => exact ⟨[], wayDown_nil node, rfl⟩
    | succ less ih =>
        -- a depth beyond `less` is due to a child that `less` does not bound
        have beyond : ¬ ∀ child ∈ children node, depth child < less := fun all => by
          have bounded := (bounds node less).mpr all
          omega
        push Not at beyond
        obtain ⟨child, listed, deep⟩ := beyond
        have below := (bounds node (less + 1)).mp (Nat.le_of_eq reached) child listed
        obtain ⟨way, down, long⟩ := ih child (by omega)
        exact ⟨child :: way, wayDown_cons.mpr ⟨listed, down⟩, congrArg Nat.succ long⟩
  · rintro length ⟨way, down, rfl⟩
    induction way generalizing node with
    | nil => exact Nat.zero_le _
    | cons child rest ih =>
        obtain ⟨listed, onward⟩ := wayDown_cons.mp down
        have below := (bounds node (depth node)).mp (Nat.le_refl _) child listed
        exact Nat.lt_of_le_of_lt (ih child onward) below

end Ways

namespace Projection

theorem depthBelow_le_iff {group : List Projection} {bound : Nat} :
    depthBelow group ≤ bound ↔ ∀ child ∈ group, child.depth < bound := by
  induction group with
  | nil => simp [depthBelow]
  | cons child rest ih => rw [depthBelow, Nat.max_le, ih, List.forall_mem_cons, Nat.succ_le_iff]

theorem depthOfGroups_le_iff {links : List (Label × List Projection)} {bound : Nat} :
    depthOfGroups links ≤ bound ↔ ∀ child ∈ links.flatMap Prod.snd, child.depth < bound := by
  induction links with
  | nil => simp [depthOfGroups]
  | cons entry rest ih =>
      rw [depthOfGroups, Nat.max_le, depthBelow_le_iff, ih, List.flatMap_cons,
        List.forall_mem_append]

theorem depth_le_iff (projection : Projection) (bound : Nat) :
    projection.depth ≤ bound ↔ ∀ child ∈ projection.allChildren, child.depth < bound := by
  cases projection
  exact depthOfGroups_le_iff

end Projection

namespace QueryTree

theorem depthBelow_le_iff {children : List QueryTree} {bound : Nat} :
    depthBelow children ≤ bound ↔ ∀ child ∈ children, child.depth < bound := by
  induction children with
  | nil => simp [depthBelow]
  | cons child rest ih => rw [depthBelow, Nat.max_le, ih, List.forall_mem_cons, Nat.succ_le_iff]

theorem depth_le_iff (tree : QueryTree) (bound : Nat) :
    tree.depth ≤ bound ↔ ∀ child ∈ tree.children, child.depth < bound := by
  cases tree
  exact depthBelow_le_iff

/-! ## Ways down a projection are walks -/

/-- The children of a projection are copies of what is reached along the children of the tree. -/
theorem mem_allChildren_trace {store : Store} {tree : QueryTree} {vertex : Instance}
    {copy : Projection} :
    copy ∈ (tree.trace store vertex).allChildren ↔
      ∃ child ∈ tree.children, ∃ next ∈ store.reach vertex child.label,
        child.trace store next = copy := by
  have held : (tree.trace store vertex).allChildren =
      (Roster.ofList (tree.children.map QueryTree.label)).toList.flatMap
        (traceAll store tree.children vertex) := by
    rw [trace_eq]
    exact flatMap_gather _ _
  rw [held, List.mem_flatMap]
  constructor
  · rintro ⟨edge, -, found⟩
    rw [traceAll_eq_flatMap, List.mem_flatMap] at found
    obtain ⟨child, chosen, copied⟩ := found
    obtain ⟨listed, same⟩ := List.mem_filter.mp chosen
    obtain ⟨next, reached, made⟩ := List.mem_map.mp copied
    exact ⟨child, listed, next, (of_decide_eq_true same) ▸ reached, made⟩
  · rintro ⟨child, listed, next, reached, made⟩
    refine ⟨child.label, Roster.mem_ofList.mpr (List.mem_map_of_mem listed), ?_⟩
    rw [traceAll_eq_flatMap, List.mem_flatMap]
    exact ⟨child, List.mem_filter.mpr ⟨listed, decide_eq_true rfl⟩,
      List.mem_map.mpr ⟨next, reached, made⟩⟩

end QueryTree

namespace Store

theorem mem_reach {store : Store} {vertex next : Instance} {edge : Label} :
    next ∈ store.reach vertex edge ↔
      ∃ target ∈ vertex.targets edge, store.resolve target = some next :=
  List.mem_filterMap

/-- From an instance links of these kinds can be followed one after the other. -/
def CanWalk (store : Store) (vertex : Instance) (labels : List Label) : Prop :=
  ∃ handles last, store.Walk vertex labels handles last

theorem canWalk_nil (store : Store) (vertex : Instance) : store.CanWalk vertex [] :=
  ⟨[], vertex, .here vertex⟩

theorem canWalk_cons {store : Store} {vertex : Instance} {edge : Label} {labels : List Label} :
    store.CanWalk vertex (edge :: labels) ↔
      ∃ next ∈ store.reach vertex edge, store.CanWalk next labels := by
  constructor
  · rintro ⟨_, last, walk⟩
    cases walk with
    | step linked live onward => exact ⟨_, mem_reach.mpr ⟨_, linked, live⟩, _, last, onward⟩
  · rintro ⟨next, reached, handles, last, onward⟩
    obtain ⟨target, linked, live⟩ := mem_reach.mp reached
    exact ⟨target :: handles, last, .step linked live onward⟩

end Store

namespace QueryTree

/-- A way down a projection belongs to a way down the tree that can be walked: its nodes have the
labels of this way. -/
theorem wayDown_trace {store : Store} {tree : QueryTree} {vertex : Instance}
    {nodes : List Projection}
    (down : WayDown Projection.allChildren (tree.trace store vertex) nodes) :
    ∃ way, WayDown QueryTree.children tree way ∧ way.map label = nodes.map Projection.edgeType ∧
      store.CanWalk vertex (way.map label) := by
  induction nodes generalizing tree vertex with
  | nil => exact ⟨[], wayDown_nil tree, rfl, store.canWalk_nil vertex⟩
  | cons node rest ih =>
      obtain ⟨listed, onward⟩ := wayDown_cons.mp down
      obtain ⟨child, member, next, reached, rfl⟩ := mem_allChildren_trace.mp listed
      obtain ⟨way, deeper, spelled, walked⟩ := ih onward
      refine ⟨child :: way, wayDown_cons.mpr ⟨member, deeper⟩, ?_, ?_⟩
      · rw [List.map_cons, List.map_cons, spelled, edgeType_trace]
      · exact Store.canWalk_cons.mpr ⟨next, reached, walked⟩

/-- A way down the tree that can be walked has its nodes in the projection. -/
theorem exists_wayDown_trace {store : Store} {tree : QueryTree} {vertex : Instance}
    {way : List QueryTree} (down : WayDown QueryTree.children tree way)
    (walked : store.CanWalk vertex (way.map label)) :
    ∃ nodes, WayDown Projection.allChildren (tree.trace store vertex) nodes ∧
      nodes.map Projection.edgeType = way.map label := by
  induction way generalizing tree vertex with
  | nil => exact ⟨[], wayDown_nil _, rfl⟩
  | cons child rest ih =>
      obtain ⟨member, deeper⟩ := wayDown_cons.mp down
      obtain ⟨next, reached, onward⟩ := Store.canWalk_cons.mp walked
      obtain ⟨nodes, below, spelled⟩ := ih deeper onward
      refine ⟨child.trace store next :: nodes, wayDown_cons.mpr ⟨?_, below⟩, ?_⟩
      · exact mem_allChildren_trace.mpr ⟨child, member, next, reached, rfl⟩
      · rw [List.map_cons, List.map_cons, spelled, edgeType_trace]

/-! ## The whole forest -/

/-- What the depth of a root says of the walks from its instance. -/
structure Fathoms (store : Store) (tree : QueryTree) (vertex : Instance) (root : Projection) :
    Prop where
  /-- the root is a copy of an instance that is there -/
  source : store.resolve root.source = some vertex ∧ root.id = vertex.id
  /-- the depth is how far some way down the tree can be walked from this instance -/
  deepest : IsGreatest {length | ∃ way, WayDown QueryTree.children tree way ∧
    way.length = length ∧ store.CanWalk vertex (way.map label)} root.depth
  le : root.depth ≤ tree.depth
  eq_iff : root.depth = tree.depth ↔ ∃ way, WayDown QueryTree.children tree way ∧
    way.length = tree.depth ∧ store.CanWalk vertex (way.map label)
  /-- the kinds of link on a way down the projection are the labels of a way down the tree -/
  spelled : root.edgeType = tree.label ∧
    ∀ nodes, WayDown Projection.allChildren root nodes →
      ∃ way, WayDown QueryTree.children tree way ∧
        nodes.map Projection.edgeType = way.map label

theorem isGreatest_depth_trace (store : Store) (tree : QueryTree) (vertex : Instance) :
    IsGreatest {length | ∃ way, WayDown QueryTree.children tree way ∧
      way.length = length ∧ store.CanWalk vertex (way.map label)}
      (tree.trace store vertex).depth := by
  have lengths {nodes : List Projection} {way : List QueryTree}
      (spelled : nodes.map Projection.edgeType = way.map label) : way.length = nodes.length := by
    have counted := congrArg List.length spelled
    rw [List.length_map, List.length_map] at counted
    exact counted.symm
  obtain ⟨⟨nodes, down, long⟩, bound⟩ :=
    isGreatest_of_bounds Projection.depth_le_iff (tree.trace store vertex)
  constructor
  · obtain ⟨way, deeper, spelled, walked⟩ := wayDown_trace down
    exact ⟨way, deeper, (lengths spelled.symm).trans long, walked⟩
  · rintro length ⟨way, deeper, rfl, walked⟩
    obtain ⟨nodes, below, spelled⟩ := exists_wayDown_trace deeper walked
    exact bound ⟨nodes, below, (lengths spelled).symm⟩

theorem fathoms_trace {store : Store} (tree : QueryTree) {vertex : Instance}
    (live : store.resolve vertex.handle = some vertex) :
    tree.Fathoms store vertex (tree.trace store vertex) := by
  have deepest := isGreatest_depth_trace store tree vertex
  have longest := (isGreatest_of_bounds depth_le_iff tree).2
  obtain ⟨way, down, long, walked⟩ := deepest.1
  have le : (tree.trace store vertex).depth ≤ tree.depth := long ▸ longest ⟨way, down, rfl⟩
  refine ⟨⟨?_, ?_⟩, deepest, le, ⟨?_, ?_⟩, edgeType_trace store tree vertex, ?_⟩
  · rw [source_trace, live]
  · rw [trace_eq]
    rfl
  · intro equal
    exact ⟨way, down, long.trans equal, walked⟩
  · rintro ⟨other, deeper, whole, onward⟩
    exact Nat.le_antisymm le (deepest.2 ⟨other, deeper, whole, onward⟩)
  · intro nodes below
    obtain ⟨other, deeper, spelled, -⟩ := wayDown_trace below
    exact ⟨other, deeper, spelled.symm⟩

/-- Whatever has been done to a store that began empty or was loaded, a query that compiles has a
root for every carrier of its first label, and the root goes down as far as some way down the tree
can be walked from there. -/
theorem fathoms_of_run {start : Store} (origin : Store.Origin start) {edits : List Edit}
    (fits : start.Fits edits) {path : QueryPath} {tree : QueryTree}
    (compiles : compile path = .ok tree) :
    ∃ forest, (start.run edits).query path = .ok forest ∧
      List.Forall₂ (fun vertex root => tree.Fathoms (start.run edits) vertex root)
        ((start.run edits).ofType tree.label) forest := by
  have sound := origin.sound_run fits
  refine ⟨((start.run edits).ofType tree.label).map (tree.trace (start.run edits)), ?_, ?_⟩
  · rw [Store.query_eq, compiles]
    rfl
  · rw [List.forall₂_map_right_iff]
    exact List.forall₂_same.mpr fun vertex listed =>
      tree.fathoms_trace (sound.live_of_mem_ofType listed)

/-- A path with a long branch over a kind of link that nobody has, and a shorter way behind it. -/
def detour : QueryPath :=
  ⟨[.hop "person", .branch [.hop "likes", .hop "knows", .hop "knows"], .hop "knows", .hop "knows"]⟩

def detourTree : QueryTree :=
  ⟨"person", [⟨"likes", [⟨"knows", [.leaf "knows"]⟩]⟩, ⟨"knows", [.leaf "knows"]⟩]⟩

theorem fathoms_returning :
    Store.empty.Fits Store.returning ∧ compile detour = .ok detourTree ∧ detourTree.depth = 3 ∧
      ∃ forest, (Store.empty.run Store.returning).query detour = .ok forest ∧
        List.Forall₂ (fun vertex root =>
          detourTree.Fathoms (Store.empty.run Store.returning) vertex root)
          ((Store.empty.run Store.returning).ofType "person") forest ∧
        forest.map Projection.depth = [2, 2] := by
  have compiles : compile detour = .ok detourTree := rfl
  obtain ⟨forest, asked, fathomed⟩ := fathoms_of_run .empty Store.fits_returning compiles
  refine ⟨Store.fits_returning, compiles, rfl, forest, asked, fathomed, ?_⟩
  have depths : ((Store.empty.run Store.returning).query detour).map (·.map Projection.depth) =
      .ok [2, 2] := by decide +kernel
  rw [asked] at depths
  exact Except.ok.inj depths

end QueryTree

end LinkAtlas
