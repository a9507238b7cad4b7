import LinkAtlas.Proofs.LinkIntegrity
import LinkAtlas.Proofs.Renaming
import Mathlib.Data.List.ProdSigma
import Mathlib.Data.Set.Function

/-!
# Surveys enumerate walks

A survey copies an instance once for every walk that leads to it along the tree. A walk follows
links of the store whose kinds are the labels on the way to a node of the tree; every node of the
forest stands for one such pair of a walk and a node of the tree, and every pair has its node.
-/

namespace LinkAtlas

namespace Store

/-- A way along links of given kinds; `handles` are the instances that it leads to in turn. -/
inductive Walk (store : Store) : Instance → List Label → List Handle → Instance → Prop where
  | here (vertex : Instance) : Walk store vertex [] [] vertex
  | step {vertex next last : Instance} {edge : Label} {target : Handle} {labels : List Label}
      {handles : List Handle} (linked : target ∈ vertex.targets edge)
      (live : store.resolve target = some next) (onward : Walk store next labels handles last) :
      Walk store vertex (edge :: labels) (target :: handles) last

end Store

namespace Projection

/-- The node at a position, which says at each node which group and which place in it to take. -/
def node? : Projection → List (Label × Nat) → Option Projection
  | node, [] => some node
  | node, (edge, place) :: rest => (node.children edge)[place]?.bind fun child => child.node? rest

end Projection

namespace QueryTree

/-- The part of a tree at an address, which says at each node which child to take. -/
def part? : QueryTree → List Nat → Option QueryTree
  | tree, [] => some tree
  | tree, number :: rest => tree.children[number]?.bind fun child => child.part? rest

/-- The labels on the way to an address. -/
def spelling : QueryTree → List Nat → List Label
  | _, [] => []
  | tree, number :: rest =>
      match tree.children[number]? with
      | some child => child.label :: child.spelling rest
      | none => []

/-- The projection of an instance along a tree. -/
def image (store : Store) (tree : QueryTree) (vertex : Instance) : Projection :=
  (tree.project store vertex 0 {}).1

theorem image_eq_trace (store : Store) (tree : QueryTree) (vertex : Instance) :
    tree.image store vertex = tree.trace store vertex :=
  project_eq_trace store tree vertex 0 {}

/-! ## One node -/

/-- What is copied for a node of the tree at an instance: the instance itself, then for every kind
of link, in the order of the tree and below it in the order of the links, what is linked to. -/
structure Faithful (store : Store) (tree : QueryTree) (vertex : Instance) : Prop where
  /-- neither the depth nor the tally makes a difference -/
  image : ∀ depth tally, (tree.project store vertex depth tally).1 = tree.image store vertex
  edgeType : (tree.image store vertex).edgeType = tree.label
  id : (tree.image store vertex).id = vertex.id
  labels : (tree.image store vertex).labels = vertex.labels.toList
  value : (tree.image store vertex).value = vertex.value
  source : (tree.image store vertex).source = vertex.handle
  children : ∀ edge, ∃ linked : List Instance,
    (vertex.targets edge).toList.map store.resolve = linked.map some ∧
      (tree.image store vertex).children edge =
        (tree.children.filter fun child => child.label = edge).flatMap fun child =>
          linked.map (child.image store)
  groups : (tree.image store vertex).groups.keys =
    (Roster.ofList ((tree.children.map QueryTree.label).filter fun edge =>
      !(vertex.targets edge).isEmpty)).toList

theorem children_image (store : Store) (tree : QueryTree) (vertex : Instance) (edge : Label) :
    (tree.image store vertex).children edge =
      (tree.children.filter fun child => child.label = edge).flatMap fun child =>
        (store.reach vertex edge).map (child.image store) := by
  have images : (fun child : QueryTree => (store.reach vertex edge).map (child.image store)) =
      fun child => (store.reach vertex edge).map (child.trace store) := by
    funext child
    exact List.map_congr_left fun next _ => image_eq_trace store child next
  rw [image_eq_trace, trace_eq, images]
  refine (getD_get?_gather fun missing => ?_).trans (traceAll_eq_flatMap store _ vertex edge)
  exact unfoldAll_of_not_mem missing

theorem keys_groups_image {store : Store} (sound : store.Sound) (tree : QueryTree)
    {vertex : Instance} (live : store.resolve vertex.handle = some vertex) :
    (tree.image store vertex).groups.keys =
      (Roster.ofList ((tree.children.map QueryTree.label).filter fun edge =>
        !(vertex.targets edge).isEmpty)).toList := by
  rw [image_eq_trace, trace_eq, ← Roster.keep_ofList]
  refine (keys_gather _ _).trans (List.filter_congr fun edge member => ?_)
  have occurs : edge ∈ tree.children.map QueryTree.label := Roster.mem_ofList.mp member
  refine congrArg Bool.not ?_
  rw [Roster.isEmpty, Bool.eq_iff_iff, List.isEmpty_iff, List.isEmpty_iff,
    ← sound.reach_eq_nil_iff live]
  exact unfoldAll_eq_nil_iff occurs

theorem faithful {store : Store} (sound : store.Sound) (tree : QueryTree) {vertex : Instance}
    (live : store.resolve vertex.handle = some vertex) : tree.Faithful store vertex where
  image := by
    intro depth tally
    rw [image_eq_trace, project_eq_trace]
  edgeType := by
    rw [image_eq_trace, edgeType_trace]
  id := by
    rw [image_eq_trace, trace_eq]
    rfl
  labels := by
    rw [image_eq_trace, trace_eq]
    rfl
  value := by
    rw [image_eq_trace, trace_eq]
    rfl
  source := by
    rw [image_eq_trace, source_trace]
  children := fun edge =>
    ⟨store.reach vertex edge, sound.map_resolve_targets live edge,
      children_image store tree vertex edge⟩
  groups := keys_groups_image sound tree live

/-! ## Where a child comes from -/

/-- The numbers of the children with a label. -/
def numbers (tree : QueryTree) (edge : Label) : List Nat :=
  (tree.children.zipIdx.filter fun entry => entry.1.label = edge).map Prod.snd

/-- For each place in a group, the number of the child of the tree and the handle of the instance
that are copied there. -/
def origins (tree : QueryTree) (vertex : Instance) (edge : Label) : List (Nat × Handle) :=
  tree.numbers edge ×ˢ (vertex.targets edge).toList

theorem mem_numbers {tree : QueryTree} {edge : Label} {number : Nat} :
    number ∈ tree.numbers edge ↔
      ∃ child, tree.children[number]? = some child ∧ child.label = edge := by
  rw [numbers, List.mem_map]
  constructor
  · rintro ⟨⟨child, place⟩, member, rfl⟩
    obtain ⟨entered, same⟩ := List.mem_filter.mp member
    exact ⟨child, List.mem_zipIdx_iff_getElem?.mp entered, of_decide_eq_true same⟩
  · rintro ⟨child, found, same⟩
    refine ⟨(child, number), List.mem_filter.mpr ⟨?_, decide_eq_true same⟩, rfl⟩
    exact List.mem_zipIdx_iff_getElem?.mpr found

theorem nodup_numbers (tree : QueryTree) (edge : Label) : (tree.numbers edge).Nodup := by
  have all : (tree.children.zipIdx.map Prod.snd).Nodup := by
    rw [List.zipIdx_map_snd]
    exact List.nodup_range'
  exact all.sublist (List.filter_sublist.map _)

theorem nodup_origins (tree : QueryTree) (vertex : Instance) (edge : Label) :
    (tree.origins vertex edge).Nodup :=
  (tree.nodup_numbers edge).product (vertex.targets edge).nodup

theorem mem_origins {tree : QueryTree} {vertex : Instance} {edge : Label} {number : Nat}
    {target : Handle} :
    (number, target) ∈ tree.origins vertex edge ↔
      (∃ child, tree.children[number]? = some child ∧ child.label = edge) ∧
        target ∈ vertex.targets edge := by
  rw [origins, List.mem_product, mem_numbers]
  rfl

/-- The copy that an origin stands for. -/
def reached (store : Store) (tree : QueryTree) (origin : Nat × Handle) : Option Projection :=
  tree.children[origin.1]?.bind fun child => (store.resolve origin.2).map (child.image store)

theorem map_reached_origins {store : Store} (sound : store.Sound) (tree : QueryTree)
    {vertex : Instance} (live : store.resolve vertex.handle = some vertex) (edge : Label) :
    (tree.origins vertex edge).map (tree.reached store) =
      ((tree.image store vertex).children edge).map some := by
  have onward (child : QueryTree) :
      (vertex.targets edge).toList.map
          (fun target => (store.resolve target).map (child.image store)) =
        ((store.reach vertex edge).map (child.image store)).map some := by
    have same := congrArg (List.map (Option.map (child.image store)))
      (sound.map_resolve_targets live edge)
    rw [List.map_map, List.map_map] at same
    rw [List.map_map]
    exact same
  have children : tree.children.filter (fun child => child.label = edge) =
      (tree.children.zipIdx.filter fun entry => entry.1.label = edge).map Prod.fst := by
    have whole := List.zipIdx_map_fst 0 tree.children
    conv_lhs => rw [← whole]
    exact List.filter_map
  calc (tree.origins vertex edge).map (tree.reached store)
      = (tree.children.zipIdx.filter fun entry => entry.1.label = edge).flatMap
          fun entry => (vertex.targets edge).toList.map fun target =>
            tree.reached store (entry.2, target) := by
        unfold origins numbers
        simp only [SProd.sprod, List.product, List.map_flatMap, List.flatMap_map, List.map_map,
          Function.comp_def]
    _ = (tree.children.zipIdx.filter fun entry => entry.1.label = edge).flatMap
          fun entry => ((store.reach vertex edge).map (entry.1.image store)).map some := by
        refine List.flatMap_congr fun entry member => ?_
        have found := List.mem_zipIdx_iff_getElem?.mp (List.mem_filter.mp member).1
        rw [← onward entry.1]
        unfold reached
        simp only [found, Option.bind_some]
    _ = ((tree.image store vertex).children edge).map some := by
        rw [children_image, children, List.map_flatMap, List.flatMap_map]

/-- What stands at a place of a group is the copy that its origin stands for. -/
theorem getElem?_children_image {store : Store} (sound : store.Sound) (tree : QueryTree)
    {vertex : Instance} (live : store.resolve vertex.handle = some vertex) (edge : Label)
    (place : Nat) :
    ((tree.image store vertex).children edge)[place]?.map some =
      (tree.origins vertex edge)[place]?.map (tree.reached store) := by
  have same := congrArg (fun copies => copies[place]?) (map_reached_origins sound tree live edge)
  rw [List.getElem?_map, List.getElem?_map] at same
  exact same.symm

/-! ## Positions, addresses and walks -/

/-- The position of a node of a projection, the address of the part of the tree that it was made
for, and the walk that led to the instance copied there. -/
inductive Leads (store : Store) :
    QueryTree → Instance → List (Label × Nat) → List Nat → List Handle → QueryTree → Instance → Prop
    where
  | here (tree : QueryTree) (vertex : Instance) : Leads store tree vertex [] [] [] tree vertex
  | step {tree child part : QueryTree} {vertex next last : Instance} {edge : Label}
      {place number : Nat} {target : Handle} {position : List (Label × Nat)} {address : List Nat}
      {handles : List Handle} (origin : (tree.origins vertex edge)[place]? = some (number, target))
      (found : tree.children[number]? = some child) (live : store.resolve target = some next)
      (onward : Leads store child next position address handles part last) :
      Leads store tree vertex ((edge, place) :: position) (number :: address) (target :: handles)
        part last

/-- The address and the walk of a position. -/
def itinerary (store : Store) : QueryTree → Instance → List (Label × Nat) → List Nat × List Handle
  | _, _, [] => ([], [])
  | tree, vertex, (edge, place) :: rest =>
      match (tree.origins vertex edge)[place]? with
      | none => ([], [])
      | some (number, target) =>
          match tree.children[number]?, store.resolve target with
          | some child, some next =>
              let (address, handles) := itinerary store child next rest
              (number :: address, target :: handles)
          | _, _ => ([], [])

namespace Leads

variable {store : Store} {tree part : QueryTree} {vertex last : Instance}
  {position : List (Label × Nat)} {address : List Nat} {handles : List Handle}

/-- A child of the tree is asked for by its label. -/
theorem label_of_origin {edge : Label} {place number : Nat} {target : Handle} {child : QueryTree}
    (origin : (tree.origins vertex edge)[place]? = some (number, target))
    (found : tree.children[number]? = some child) :
    child.label = edge ∧ target ∈ vertex.targets edge := by
  obtain ⟨⟨other, here, same⟩, linked⟩ := mem_origins.mp (List.mem_of_getElem? origin)
  rw [found] at here
  cases here
  exact ⟨same, linked⟩

theorem itinerary_eq (leads : Leads store tree vertex position address handles part last) :
    itinerary store tree vertex position = (address, handles) := by
  induction leads with
  | here => rfl
  | step origin found live onward ih =>
      simp only [itinerary, origin, found, live, ih]

theorem part?_eq (leads : Leads store tree vertex position address handles part last) :
    tree.part? address = some part := by
  induction leads with
  | here => rfl
  | step origin found live onward ih =>
      rw [part?, found]
      exact ih

theorem spelling_eq (leads : Leads store tree vertex position address handles part last) :
    tree.spelling address = position.map Prod.fst := by
  induction leads with
  | here => rfl
  | step origin found live onward ih =>
      obtain ⟨same, -⟩ := label_of_origin origin found
      simp only [spelling, found, ih, same, List.map_cons]

theorem walk (leads : Leads store tree vertex position address handles part last) :
    store.Walk vertex (tree.spelling address) handles last := by
  induction leads with
  | here tree vertex => exact .here vertex
  | step origin found live onward ih =>
      obtain ⟨same, linked⟩ := label_of_origin origin found
      simp only [spelling, found]
      exact .step (same ▸ linked) live ih

theorem live_last (sound : store.Sound)
    (leads : Leads store tree vertex position address handles part last)
    (alive : store.resolve vertex.handle = some vertex) :
    store.resolve last.handle = some last := by
  induction leads with
  | here => exact alive
  | step origin found live onward ih => exact ih ((sound.handle_eq live).symm ▸ live)

theorem node?_eq (sound : store.Sound)
    (leads : Leads store tree vertex position address handles part last)
    (alive : store.resolve vertex.handle = some vertex) :
    (tree.image store vertex).node? position = some (part.image store last) := by
  induction leads with
  | here => rfl
  | @step tree child part vertex next last edge place number target _ _ _ origin found live onward
      ih =>
      have copied := getElem?_children_image sound tree alive edge place
      have made : tree.reached store (number, target) = some (child.image store next) := by
        rw [reached, found, live]
        rfl
      rw [origin, Option.map_some, made] at copied
      obtain ⟨node, here, same⟩ := Option.map_eq_some_iff.mp copied
      rw [Projection.node?, here, Option.some.inj same]
      exact ih ((sound.handle_eq live).symm ▸ live)

/-- Address and walk together have one position only. -/
theorem position_unique {other : List (Label × Nat)} {lastPart : QueryTree} {lastVertex : Instance}
    (first : Leads store tree vertex position address handles part last)
    (second : Leads store tree vertex other address handles lastPart lastVertex) :
    position = other := by
  induction first generalizing other with
  | here =>
      cases second
      rfl
  | @step tree child part vertex next last edge place _ _ _ _ _ origin found live onward ih =>
      cases second with
      | @step _ _ _ _ _ _ kind spot _ _ _ _ _ start present alive later =>
          obtain ⟨same, -⟩ := label_of_origin origin found
          obtain ⟨again, -⟩ := label_of_origin start found
          have equal : edge = kind := same.symm.trans again
          subst equal
          rw [found] at present
          rw [live] at alive
          cases present
          cases alive
          have inside : place < (tree.origins vertex edge).length :=
            (List.getElem?_eq_some_iff.mp origin).1
          have there : place = spot :=
            (List.getElem?_inj inside (nodup_origins tree vertex edge)).mp (origin.trans start.symm)
          rw [there, ih later]

end Leads

/-- Every node of a projection was made for a part of the tree at the end of a walk. -/
theorem leads_of_node? {store : Store} (sound : store.Sound) {tree : QueryTree} {vertex : Instance}
    (alive : store.resolve vertex.handle = some vertex) {position : List (Label × Nat)}
    {node : Projection} (found : (tree.image store vertex).node? position = some node) :
    ∃ address handles part last, Leads store tree vertex position address handles part last := by
  induction position generalizing tree vertex with
  | nil => exact ⟨[], [], tree, vertex, .here tree vertex⟩
  | cons step rest ih =>
      obtain ⟨edge, place⟩ := step
      rw [Projection.node?, Option.bind_eq_some_iff] at found
      obtain ⟨below, here, onward⟩ := found
      have copied := getElem?_children_image sound tree alive edge place
      rw [here] at copied
      obtain ⟨⟨number, target⟩, origin, made⟩ := Option.map_eq_some_iff.mp copied.symm
      unfold reached at made
      obtain ⟨child, numbered, copies⟩ := Option.bind_eq_some_iff.mp made
      obtain ⟨next, live, same⟩ := Option.map_eq_some_iff.mp copies
      rw [← same] at onward
      obtain ⟨address, handles, part, last, leads⟩ :=
        ih ((sound.handle_eq live).symm ▸ live) onward
      exact ⟨_, _, part, last, .step origin numbered live leads⟩

/-- Every walk that spells the way to a part of the tree has a node. -/
theorem leads_of_walk {store : Store} {tree part : QueryTree} {vertex last : Instance}
    {address : List Nat} {handles : List Handle} (found : tree.part? address = some part)
    (walk : store.Walk vertex (tree.spelling address) handles last) :
    ∃ position, Leads store tree vertex position address handles part last := by
  induction address generalizing tree vertex handles with
  | nil =>
      cases found
      cases walk
      exact ⟨[], .here _ _⟩
  | cons number rest ih =>
      rw [part?, Option.bind_eq_some_iff] at found
      obtain ⟨child, numbered, onward⟩ := found
      simp only [spelling, numbered] at walk
      cases walk with
      | @step _ next _ _ target _ _ linked live later =>
          obtain ⟨position, leads⟩ := ih onward later
          have listed : (number, target) ∈ tree.origins vertex child.label :=
            mem_origins.mpr ⟨⟨child, numbered, rfl⟩, linked⟩
          obtain ⟨place, origin⟩ := List.getElem?_of_mem listed
          exact ⟨(child.label, place) :: position, .step origin numbered live leads⟩

/-! ## The whole forest -/

/-- A node of the tree with a walk that spells the way to it. -/
def Visits (store : Store) (tree : QueryTree) (vertex : Instance) (pair : List Nat × List Handle)
    (part : QueryTree) (last : Instance) : Prop :=
  tree.part? pair.1 = some part ∧ store.Walk vertex (tree.spelling pair.1) pair.2 last

/-- Positions and visits correspond one to one. -/
theorem bijOn_itinerary {store : Store} (sound : store.Sound) (tree : QueryTree) {vertex : Instance}
    (alive : store.resolve vertex.handle = some vertex) :
    Set.BijOn (itinerary store tree vertex)
      {position | ((tree.image store vertex).node? position).isSome}
      {pair | ∃ part last, Visits store tree vertex pair part last} := by
  refine ⟨?_, ?_, ?_⟩
  · intro position valid
    obtain ⟨node, found⟩ := Option.isSome_iff_exists.mp valid
    obtain ⟨address, handles, part, last, leads⟩ := leads_of_node? sound alive found
    refine ⟨part, last, ?_⟩
    rw [leads.itinerary_eq]
    exact ⟨leads.part?_eq, leads.walk⟩
  · intro first one second two same
    obtain ⟨_, found⟩ := Option.isSome_iff_exists.mp one
    obtain ⟨_, reached⟩ := Option.isSome_iff_exists.mp two
    obtain ⟨address, handles, _, _, here⟩ := leads_of_node? sound alive found
    obtain ⟨others, steps, _, _, there⟩ := leads_of_node? sound alive reached
    rw [here.itinerary_eq, there.itinerary_eq] at same
    cases same
    exact here.position_unique there
  · rintro ⟨address, handles⟩ ⟨part, last, found, walk⟩
    obtain ⟨position, leads⟩ := leads_of_walk found walk
    refine ⟨position, ?_, leads.itinerary_eq⟩
    have made := leads.node?_eq sound alive
    exact Option.isSome_iff_exists.mpr ⟨_, made⟩

/-- The node at a position is the copy that its visit asks for. -/
theorem node_eq_image {store : Store} (sound : store.Sound) {tree : QueryTree} {vertex : Instance}
    (alive : store.resolve vertex.handle = some vertex) {position : List (Label × Nat)}
    {node : Projection} (found : (tree.image store vertex).node? position = some node) :
    ∃ part last, Visits store tree vertex (tree.itinerary store vertex position) part last ∧
      tree.spelling (tree.itinerary store vertex position).1 = position.map Prod.fst ∧
      store.resolve last.handle = some last ∧ node = part.image store last := by
  obtain ⟨address, handles, part, last, leads⟩ := leads_of_node? sound alive found
  have made := leads.node?_eq sound alive
  rw [found] at made
  rw [leads.itinerary_eq]
  exact ⟨part, last, ⟨leads.part?_eq, leads.walk⟩, leads.spelling_eq, leads.live_last sound alive,
    Option.some.inj made⟩

/-- What a survey along a tree gives. -/
structure Enumerates (store : Store) (tree : QueryTree) : Prop where
  roots : (tree.survey store).1 = (store.ofType tree.label).map (tree.image store)
  ids : (tree.survey store).1.map Projection.id = store.idsOfType tree.label
  /-- every copy that is made, for whatever part of the tree, is faithful -/
  faithful : ∀ (part : QueryTree) (vertex : Instance),
    store.resolve vertex.handle = some vertex → part.Faithful store vertex
  /-- the nodes below a root and the walks from it correspond one to one -/
  walks : ∀ vertex ∈ store.ofType tree.label,
    Set.BijOn (tree.itinerary store vertex)
      {position | ((tree.image store vertex).node? position).isSome}
      {pair | ∃ part last, Visits store tree vertex pair part last}
  /-- and a node is the copy made for the end of its walk -/
  ends : ∀ vertex ∈ store.ofType tree.label, ∀ position node,
    (tree.image store vertex).node? position = some node →
    ∃ part last, Visits store tree vertex (tree.itinerary store vertex position) part last ∧
      tree.spelling (tree.itinerary store vertex position).1 = position.map Prod.fst ∧
      store.resolve last.handle = some last ∧ node = part.image store last

theorem survey_eq_map_image (store : Store) (tree : QueryTree) :
    (tree.survey store).1 = (store.ofType tree.label).map (tree.image store) := by
  rw [survey_eq_map]
  exact List.map_congr_left fun vertex _ => (image_eq_trace store tree vertex).symm

theorem enumerates {store : Store} (sound : store.Sound) (tree : QueryTree) :
    tree.Enumerates store where
  roots := survey_eq_map_image store tree
  ids := by
    rw [survey_eq_map_image, List.map_map]
    refine List.map_congr_left fun vertex listed => ?_
    exact (faithful sound tree (sound.live_of_mem_ofType listed)).id
  faithful := fun part vertex live => part.faithful sound live
  walks := fun vertex listed => bijOn_itinerary sound tree (sound.live_of_mem_ofType listed)
  ends := fun vertex listed position node found =>
    node_eq_image sound (sound.live_of_mem_ofType listed) found

/-- Whatever has been done to a store that began empty or was loaded, a survey enumerates the walks
along its tree. -/
theorem enumerates_of_run {start : Store} (origin : Store.Origin start) {edits : List Edit}
    (fits : start.Fits edits) (tree : QueryTree) : tree.Enumerates (start.run edits) :=
  enumerates (origin.sound_run fits) tree

theorem enumerates_returning :
    Store.empty.Fits Store.returning ∧
      (QueryTree.mk "person" [.leaf "knows", ⟨"knows", [.leaf "knows"]⟩]).Enumerates
        (Store.empty.run Store.returning) :=
  ⟨Store.fits_returning, enumerates_of_run .empty Store.fits_returning _⟩

end QueryTree

end LinkAtlas
