import LinkAtlas.Proofs.Occupancy
import LinkAtlas.Proofs.Walks
import Mathlib.Algebra.BigOperators.Group.List.Basic
import Mathlib.Data.Set.Card

/-!
# The tally of a survey

A survey keeps its tally while it goes along, node by node and link by link. At the end the tally
says what could be read off the forest: how many nodes it has, how many of them are not roots, and
how deep it is. And a root has as many nodes as there are walks from its instance along the tree.
-/

namespace LinkAtlas

/-! ## One more child -/

namespace Projection

theorem countAll_eq_sum (children : List Projection) :
    countAll children = (children.map nodeCount).sum := by
  induction children with
  | nil => rfl
  | cons child rest ih => rw [countAll, ih, List.map_cons, List.sum_cons]

theorem countAll_concat (children : List Projection) (child : Projection) :
    countAll (children ++ [child]) = countAll children + child.nodeCount := by
  simp [countAll_eq_sum]

theorem depthBelow_concat (children : List Projection) (child : Projection) :
    depthBelow (children ++ [child]) = max (depthBelow children) (child.depth + 1) := by
  induction children with
  | nil => exact Nat.max_comm _ _
  | cons first rest ih => rw [List.cons_append, depthBelow, depthBelow, ih, Nat.max_assoc]

theorem countGroups_alter (groups : Ledger Label (List Projection)) (edge : Label)
    (child : Projection) :
    countGroups (groups.alter edge fun present => some (present.getD [] ++ [child])) =
      countGroups groups + child.nodeCount := by
  induction groups with
  | nil => simp [Ledger.alter, countGroups, countAll]
  | cons entry rest ih =>
      obtain ⟨first, group⟩ := entry
      rw [Ledger.alter]
      rcases eq_or_ne first edge with same | same
      · rw [if_pos same]
        simp only [Option.getD_some, countGroups, countAll_concat]
        omega
      · rw [if_neg same, countGroups, ih, countGroups, Nat.add_assoc]

theorem depthOfGroups_alter (groups : Ledger Label (List Projection)) (edge : Label)
    (child : Projection) :
    depthOfGroups (groups.alter edge fun present => some (present.getD [] ++ [child])) =
      max (depthOfGroups groups) (child.depth + 1) := by
  induction groups with
  | nil => simp [Ledger.alter, depthOfGroups, depthBelow]
  | cons entry rest ih =>
      obtain ⟨first, group⟩ := entry
      rw [Ledger.alter]
      rcases eq_or_ne first edge with same | same
      · rw [if_pos same]
        simp only [Option.getD_some, depthOfGroups, depthBelow_concat]
        omega
      · rw [if_neg same, depthOfGroups, ih, depthOfGroups, Nat.max_assoc]

theorem nodeCount_addChild (parent child : Projection) :
    (parent.addChild child).nodeCount = parent.nodeCount + child.nodeCount := by
  have grown := countGroups_alter parent.groups child.edgeType child
  cases parent
  rw [addChild, nodeCount, nodeCount, grown, Nat.add_assoc]
  rfl

theorem depth_addChild (parent child : Projection) :
    (parent.addChild child).depth = max parent.depth (child.depth + 1) := by
  have grown := depthOfGroups_alter parent.groups child.edgeType child
  cases parent
  rw [addChild, depth, depth, grown]
  rfl

theorem nodeCount_pos (projection : Projection) : 0 < projection.nodeCount := by
  cases projection
  rw [nodeCount]
  omega

end Projection

/-! ## What is counted -/

namespace Tally

/-- The tally when the nodes of a projection, whose root is at some depth, have been counted. The
link that led to the root is not counted with them. -/
def count (tally : Tally) (depth : Nat) (projection : Projection) : Tally :=
  { tally with
    nodes := tally.nodes + projection.nodeCount
    edges := tally.edges + (projection.nodeCount - 1)
    deepest := max tally.deepest (depth + projection.depth) }

theorem count_ofInstance (tally : Tally) (depth : Nat) (label : Label) (vertex : Instance) :
    tally.count depth (.ofInstance label vertex) = tally.visit depth := rfl

/-- A child is counted with the link that leads to it. -/
theorem count_addChild (tally : Tally) (depth : Nat) (parent child : Projection) :
    tally.count depth (parent.addChild child) =
      (tally.count depth parent).follow.count (depth + 1) child := by
  have one := parent.nodeCount_pos
  have other := child.nodeCount_pos
  simp only [count, follow, Projection.nodeCount_addChild, Projection.depth_addChild,
    Tally.mk.injEq, true_and]
  omega

/-- Several roots. -/
theorem foldl_count (roots : List Projection) (tally : Tally) :
    (roots.foldl (fun tally root => tally.count 0 root) tally).nodes =
        tally.nodes + (roots.map Projection.nodeCount).sum ∧
      (roots.foldl (fun tally root => tally.count 0 root) tally).edges + roots.length =
        tally.edges + (roots.map Projection.nodeCount).sum ∧
      (roots.foldl (fun tally root => tally.count 0 root) tally).deepest =
        (roots.map Projection.depth).foldl max tally.deepest := by
  induction roots generalizing tally with
  | nil => exact ⟨rfl, rfl, rfl⟩
  | cons root rest ih =>
      have one := root.nodeCount_pos
      obtain ⟨nodes, edges, deepest⟩ := ih (tally.count 0 root)
      simp only [List.foldl_cons, List.map_cons, List.sum_cons, List.length_cons]
      have first : (tally.count 0 root).nodes = tally.nodes + root.nodeCount := rfl
      have links : (tally.count 0 root).edges = tally.edges + (root.nodeCount - 1) := rfl
      have bottom : (tally.count 0 root).deepest = max tally.deepest root.depth := by
        rw [count, Nat.zero_add]
      exact ⟨by omega, by omega, by rw [deepest, bottom]⟩

end Tally

namespace QueryTree

/-- A child that is surveyed as it should be leaves the tally so. -/
theorem foldl_tally (store : Store) {child : QueryTree} (depth : Nat)
    (once : ∀ vertex depth tally, (child.project store vertex depth tally).2 =
      tally.count depth (child.project store vertex depth tally).1)
    {targets : List Handle} {projection grown : Projection} {tally counted : Tally}
    (surveyed : targets.foldl
      (fun (projection, tally) target =>
        match store.resolve target with
        | none => (projection, tally)
        | some linked =>
            let (reached, counted) := project store child linked (depth + 1) tally.follow
            (projection.addChild reached, counted))
      (projection, tally.count depth projection) = (grown, counted)) :
    counted = tally.count depth grown := by
  induction targets generalizing projection with
  | nil =>
      cases surveyed
      rfl
  | cons target rest ih =>
      rw [List.foldl_cons] at surveyed
      cases live : store.resolve target with
      | none =>
          rw [live] at surveyed
          exact ih surveyed
      | some linked =>
          rw [live] at surveyed
          dsimp only at surveyed
          rw [once, ← Tally.count_addChild] at surveyed
          exact ih surveyed

mutual

/-- A projection comes with its tally. -/
theorem project_tally (store : Store) :
    ∀ (tree : QueryTree) (vertex : Instance) (depth : Nat) (tally : Tally),
      (tree.project store vertex depth tally).2 =
        tally.count depth (tree.project store vertex depth tally).1
  | ⟨label, children⟩, vertex, depth, tally => by
      rw [project, ← Tally.count_ofInstance tally depth label vertex]
      exact projectChildren_tally store children vertex depth _ tally

theorem projectChildren_tally (store : Store) :
    ∀ (trees : List QueryTree) (vertex : Instance) (depth : Nat) (projection : Projection)
      (tally : Tally),
      (projectChildren store trees vertex depth projection (tally.count depth projection)).2 =
        tally.count depth
          (projectChildren store trees vertex depth projection (tally.count depth projection)).1
  | [], _, _, _, _ => rfl
  | child :: rest, vertex, depth, projection, tally => by
      rw [projectChildren]
      split
      rename_i grown counted surveyed
      have so_far : counted = tally.count depth grown :=
        foldl_tally store depth (project_tally store child) surveyed
      rw [so_far]
      exact projectChildren_tally store rest vertex depth grown tally

end

theorem projectAll_tally (store : Store) (tree : QueryTree) (vertices : List Instance)
    (tally : Tally) :
    (tree.projectAll store vertices tally).2 =
      (tree.projectAll store vertices tally).1.foldl (fun tally root => tally.count 0 root)
        tally := by
  induction vertices generalizing tally with
  | nil => rfl
  | cons vertex rest ih =>
      simp only [projectAll, List.foldl_cons]
      rw [ih, project_tally]

end QueryTree

/-! ## Walks from an instance -/

namespace Store

variable {store : Store}

/-- The walks along links of given kinds, each as the handles that it leads to in turn. -/
def walks (store : Store) : List Label → Instance → List (List Handle)
  | [], _ => [[]]
  | edge :: labels, vertex =>
      (vertex.targets edge).toList.flatMap fun target =>
        match store.resolve target with
        | some next => (walks store labels next).map (target :: ·)
        | none => []

theorem mem_walks {labels : List Label} {vertex : Instance} {handles : List Handle} :
    handles ∈ store.walks labels vertex ↔ ∃ last, store.Walk vertex labels handles last := by
  induction labels generalizing vertex handles with
  | nil =>
      rw [walks, List.mem_singleton]
      constructor
      · rintro rfl
        exact ⟨vertex, .here vertex⟩
      · rintro ⟨last, walk⟩
        cases walk
        rfl
  | cons edge labels ih =>
      rw [walks, List.mem_flatMap]
      constructor
      · rintro ⟨target, linked, member⟩
        cases live : store.resolve target with
        | none =>
            rw [live] at member
            cases member
        | some next =>
            rw [live] at member
            obtain ⟨rest, onward, rfl⟩ := List.mem_map.mp member
            obtain ⟨last, walk⟩ := ih.mp onward
            exact ⟨last, .step linked live walk⟩
      · rintro ⟨last, walk⟩
        cases walk with
        | @step _ next _ _ target _ rest linked live onward =>
            refine ⟨target, linked, ?_⟩
            rw [live]
            exact List.mem_map_of_mem (ih.mpr ⟨last, onward⟩)

theorem nodup_walks (store : Store) (labels : List Label) (vertex : Instance) :
    (store.walks labels vertex).Nodup := by
  induction labels generalizing vertex with
  | nil => exact List.nodup_singleton _
  | cons edge labels ih =>
      rw [walks, List.nodup_flatMap]
      have heads {target : Handle} {handles : List Handle} (member : handles ∈
          match store.resolve target with
          | some next => (walks store labels next).map (target :: ·)
          | none => []) : handles.head? = some target := by
        cases live : store.resolve target with
        | none =>
            rw [live] at member
            cases member
        | some next =>
            rw [live] at member
            obtain ⟨rest, -, rfl⟩ := List.mem_map.mp member
            rfl
      refine ⟨fun target _ => ?_, (vertex.targets edge).nodup.imp fun different => ?_⟩
      · cases store.resolve target with
        | none => exact List.nodup_nil
        | some next => exact (ih next).map fun _ _ same => (List.cons.inj same).2
      · intro handles one other
        exact different (Option.some.inj ((heads one).symm.trans (heads other)))

theorem length_walks_cons (store : Store) (edge : Label) (labels : List Label)
    (vertex : Instance) :
    (store.walks (edge :: labels) vertex).length =
      ((store.reach vertex edge).map fun next => (store.walks labels next).length).sum := by
  rw [walks, reach, List.length_flatMap]
  induction (vertex.targets edge).toList with
  | nil => rfl
  | cons target rest ih =>
      rw [List.map_cons, List.sum_cons, ih, List.filterMap_cons]
      cases store.resolve target with
      | none => exact Nat.zero_add _
      | some next => simp

/-- The walks are finitely many, and the list of them has each of them once. -/
theorem ncard_walks (store : Store) (labels : List Label) (vertex : Instance) :
    {handles | ∃ last, store.Walk vertex labels handles last}.Finite ∧
      {handles | ∃ last, store.Walk vertex labels handles last}.ncard =
        (store.walks labels vertex).length := by
  have same : {handles | ∃ last, store.Walk vertex labels handles last} =
      ((store.walks labels vertex).toFinset : Set (List Handle)) := by
    ext handles
    rw [Finset.mem_coe, List.mem_toFinset, mem_walks]
    rfl
  rw [same, Set.ncard_coe_finset, List.toFinset_card_of_nodup (store.nodup_walks labels vertex)]
  exact ⟨Finset.finite_toSet _, rfl⟩

end Store

/-! ## Walks along a tree -/

namespace QueryTree

mutual

/-- The addresses of the parts of a tree, from the top and from left to right. -/
def addresses : QueryTree → List (List Nat)
  | ⟨_, children⟩ => [] :: addressesFrom 0 children

/-- The addresses in trees that are numbered from some number on. -/
def addressesFrom (number : Nat) : List QueryTree → List (List Nat)
  | [] => []
  | tree :: rest => tree.addresses.map (number :: ·) ++ addressesFrom (number + 1) rest

end

theorem addressesFrom_eq (number : Nat) (trees : List QueryTree) :
    addressesFrom number trees =
      (trees.zipIdx number).flatMap fun entry => entry.1.addresses.map (entry.2 :: ·) := by
  induction trees generalizing number with
  | nil => rfl
  | cons tree rest ih => rw [addressesFrom, ih, List.zipIdx_cons, List.flatMap_cons]

theorem addresses_eq (tree : QueryTree) :
    tree.addresses =
      [] :: tree.children.zipIdx.flatMap fun entry => entry.1.addresses.map (entry.2 :: ·) := by
  cases tree
  rw [addresses, addressesFrom_eq]

theorem mem_addresses {tree : QueryTree} {address : List Nat} :
    address ∈ tree.addresses ↔ (tree.part? address).isSome := by
  induction address generalizing tree with
  | nil =>
      rw [addresses_eq]
      exact iff_of_true List.mem_cons_self rfl
  | cons number rest ih =>
      rw [addresses_eq, List.mem_cons, or_iff_right (List.cons_ne_nil _ _), List.mem_flatMap, part?]
      constructor
      · rintro ⟨⟨child, place⟩, entered, member⟩
        obtain ⟨below, inside, same⟩ := List.mem_map.mp member
        obtain ⟨rfl, rfl⟩ := List.cons.inj same
        rw [List.mem_zipIdx_iff_getElem?.mp entered]
        exact ih.mp inside
      · intro found
        cases numbered : tree.children[number]? with
        | none =>
            rw [numbered] at found
            cases found
        | some child =>
            rw [numbered] at found
            exact ⟨(child, number), List.mem_zipIdx_iff_getElem?.mpr numbered,
              List.mem_map_of_mem (ih.mpr found)⟩

mutual

theorem nodup_addresses : ∀ tree : QueryTree, tree.addresses.Nodup
  | ⟨_, children⟩ => by
      rw [addresses]
      refine List.nodup_cons.mpr ⟨fun member => ?_, nodup_addressesFrom children 0⟩
      rw [addressesFrom_eq] at member
      simp at member

theorem nodup_addressesFrom : ∀ (trees : List QueryTree) (number : Nat),
    (addressesFrom number trees).Nodup
  | [], _ => List.nodup_nil
  | tree :: rest, number => by
      rw [addressesFrom]
      refine List.nodup_append'.mpr ⟨(nodup_addresses tree).map fun _ _ same =>
        (List.cons.inj same).2, nodup_addressesFrom rest (number + 1), ?_⟩
      intro address first later
      obtain ⟨below, -, rfl⟩ := List.mem_map.mp first
      rw [addressesFrom_eq, List.mem_flatMap] at later
      obtain ⟨⟨other, place⟩, entered, member⟩ := later
      obtain ⟨_, -, same⟩ := List.mem_map.mp member
      have behind := List.le_snd_of_mem_zipIdx entered
      have here : place = number := (List.cons.inj same).1
      omega

end

/-- The walks from an instance to each part of a tree, all counted together. -/
def visits (store : Store) (tree : QueryTree) (vertex : Instance) : Nat :=
  (tree.addresses.map fun address => (store.walks (tree.spelling address) vertex).length).sum

/-- From an instance the children of the tree are visited in turn. -/
theorem visits_eq (store : Store) (tree : QueryTree) (vertex : Instance) :
    tree.visits store vertex =
      1 + (tree.children.map fun child =>
        ((store.reach vertex child.label).map (child.visits store)).sum).sum := by
  have below (entry : QueryTree × Nat) (entered : entry ∈ tree.children.zipIdx) :
      ((entry.1.addresses.map (entry.2 :: ·)).map fun address =>
          (store.walks (tree.spelling address) vertex).length).sum =
        ((store.reach vertex entry.1.label).map (entry.1.visits store)).sum := by
    have numbered := List.mem_zipIdx_iff_getElem?.mp entered
    calc ((entry.1.addresses.map (entry.2 :: ·)).map fun address =>
          (store.walks (tree.spelling address) vertex).length).sum
        = (entry.1.addresses.map fun address => ((store.reach vertex entry.1.label).map
            fun next => (store.walks (entry.1.spelling address) next).length).sum).sum := by
          rw [List.map_map]
          refine congrArg List.sum (List.map_congr_left fun address _ => ?_)
          rw [← Store.length_walks_cons, Function.comp_apply, spelling, numbered]
      _ = ((store.reach vertex entry.1.label).map (entry.1.visits store)).sum :=
          Multiset.sum_map_sum_map (entry.1.addresses : Multiset (List Nat))
            (store.reach vertex entry.1.label : Multiset Instance)
  have children : tree.children.map (fun child =>
        ((store.reach vertex child.label).map (child.visits store)).sum) =
      tree.children.zipIdx.map fun entry =>
        ((store.reach vertex entry.1.label).map (entry.1.visits store)).sum := by
    conv_lhs => rw [← List.zipIdx_map_fst 0 tree.children, List.map_map]
    rfl
  rw [visits, addresses_eq, List.map_cons, List.sum_cons, children, List.map_flatMap,
    List.flatMap_def, List.sum_flatten, List.map_map]
  exact congrArg (1 + List.sum ·) (List.map_congr_left below)

end QueryTree

namespace Projection

theorem nodeCount_foldl_addChild (children : List Projection) (parent : Projection) :
    (children.foldl addChild parent).nodeCount =
      parent.nodeCount + (children.map nodeCount).sum := by
  induction children generalizing parent with
  | nil => rfl
  | cons child rest ih =>
      rw [List.foldl_cons, ih, nodeCount_addChild, List.map_cons, List.sum_cons, Nat.add_assoc]

end Projection

namespace QueryTree

mutual

/-- A projection has one node for every visit. -/
theorem nodeCount_trace (store : Store) :
    ∀ (tree : QueryTree) (vertex : Instance),
      (tree.trace store vertex).nodeCount = tree.visits store vertex
  | ⟨label, children⟩, vertex => by
      rw [← project_eq_trace store _ vertex 0 {}, visits_eq]
      exact nodeCount_projectChildren store children vertex 0 (.ofInstance label vertex) _

theorem nodeCount_projectChildren (store : Store) :
    ∀ (trees : List QueryTree) (vertex : Instance) (depth : Nat) (projection : Projection)
      (tally : Tally),
      (projectChildren store trees vertex depth projection tally).1.nodeCount =
        projection.nodeCount + (trees.map fun child =>
          ((store.reach vertex child.label).map (child.visits store)).sum).sum
  | [], _, _, _, _ => rfl
  | child :: rest, vertex, depth, projection, tally => by
      have grown := foldl_project store depth (project_eq_trace store child)
        (vertex.targets child.label).toList projection tally
      have copies : (store.reach vertex child.label).map
            (fun next => (child.trace store next).nodeCount) =
          (store.reach vertex child.label).map (child.visits store) :=
        List.map_congr_left fun next _ => nodeCount_trace store child next
      rw [projectChildren]
      refine (nodeCount_projectChildren store rest vertex depth _ _).trans ?_
      rw [List.map_cons, List.sum_cons, ← Nat.add_assoc, ← copies]
      refine congrArg (· + _) ((congrArg Projection.nodeCount grown).trans ?_)
      rw [Projection.nodeCount_foldl_addChild, List.map_map]
      rfl

end

end QueryTree

/-! ## The whole forest -/

/-- The carriers of a label are the instances that have it, each of them once. -/
theorem Store.Sound.ofType_perm {store : Store} (sound : store.Sound) (label : Label) :
    (store.ofType label).Perm (store.instances.filter (·.hasLabel label)) := by
  have apart : store.instances.Nodup := List.Nodup.of_map _ sound.nodup_instances_ids
  refine (List.perm_ext_iff_of_nodup (sound.nodup_ofType label) (apart.filter _)).mpr
    fun vertex => ?_
  rw [List.mem_filter, sound.mem_instances_iff, sound.mem_ofType, Instance.hasLabel,
    decide_eq_true_eq]

namespace QueryTree

/-- What the tally of a survey says of the forest, and how many nodes the forest has. -/
structure TalliesUp (store : Store) (tree : QueryTree) : Prop where
  roots : (tree.survey store).2.roots =
    store.instances.countP fun vertex => vertex.hasLabel tree.label
  nodes : (tree.survey store).2.nodes = ((tree.survey store).1.map Projection.nodeCount).sum
  /-- all nodes but the roots were reached over a link -/
  edges : (tree.survey store).2.edges + (tree.survey store).2.roots = (tree.survey store).2.nodes
  deepest : (tree.survey store).2.deepest =
    ((tree.survey store).1.map Projection.depth).max?.getD 0
  /-- the nodes of the tree are told by their addresses -/
  addresses : tree.addresses.Nodup ∧
    ∀ address, address ∈ tree.addresses ↔ (tree.part? address).isSome
  finite : ∀ (vertex : Instance) (labels : List Label),
    {handles | ∃ last, store.Walk vertex labels handles last}.Finite
  /-- a root has a node for every walk along the way to any node of the tree -/
  walks : List.Forall₂
    (fun vertex root => root.source = vertex.handle ∧
      root.nodeCount = (tree.addresses.map fun address =>
        {handles | ∃ last, store.Walk vertex (tree.spelling address) handles last}.ncard).sum)
    (store.ofType tree.label) (tree.survey store).1

theorem tally_survey (store : Store) (tree : QueryTree) :
    (tree.survey store).2 =
      { (tree.survey store).1.foldl (fun tally root => Tally.count tally 0 root) {} with
        roots := (tree.survey store).1.length } :=
  congrArg (fun tally : Tally => { tally with roots := (tree.survey store).1.length })
    (projectAll_tally store tree (store.ofType tree.label) {})

theorem talliesUp {store : Store} (sound : store.Sound) (tree : QueryTree) :
    tree.TalliesUp store where
  roots := by
    rw [tally_survey, survey_eq_map, List.length_map, (sound.ofType_perm tree.label).length_eq,
      List.countP_eq_length_filter]
  nodes := by
    rw [tally_survey]
    exact (Tally.foldl_count _ {}).1.trans (Nat.zero_add _)
  edges := by
    obtain ⟨nodes, edges, -⟩ := Tally.foldl_count (tree.survey store).1 {}
    rw [tally_survey]
    exact edges.trans nodes.symm
  deepest := by
    rw [tally_survey]
    refine (Tally.foldl_count _ {}).2.2.trans ?_
    cases (tree.survey store).1 with
    | nil => rfl
    | cons root rest =>
        rw [List.map_cons, List.max?_cons', List.foldl_cons, Option.getD_some]
        exact congrArg (fun start => (rest.map Projection.depth).foldl max start) (Nat.zero_max _)
  addresses := ⟨nodup_addresses tree, fun _ => mem_addresses⟩
  finite := fun vertex labels => (store.ncard_walks labels vertex).1
  walks := by
    rw [survey_eq_map, List.forall₂_map_right_iff]
    refine List.forall₂_same.mpr fun vertex _ => ⟨source_trace store tree vertex, ?_⟩
    rw [nodeCount_trace, visits]
    exact congrArg List.sum (List.map_congr_left fun address _ =>
      (store.ncard_walks (tree.spelling address) vertex).2.symm)

/-- Whatever has been done to a store that began empty or was loaded, the tally of a survey counts
its forest, and the forest counts walks. -/
theorem talliesUp_of_run {start : Store} (origin : Store.Origin start) {edits : List Edit}
    (fits : start.Fits edits) (tree : QueryTree) : tree.TalliesUp (start.run edits) :=
  talliesUp (origin.sound_run fits) tree

theorem talliesUp_returning :
    Store.empty.Fits Store.returning ∧
      (QueryTree.mk "person" [.leaf "knows", ⟨"knows", [.leaf "knows"]⟩]).TalliesUp
        (Store.empty.run Store.returning) :=
  ⟨Store.fits_returning, talliesUp_of_run .empty Store.fits_returning _⟩

end QueryTree

end LinkAtlas
