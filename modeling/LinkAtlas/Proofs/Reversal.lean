import LinkAtlas.Proofs.LinkIntegrity
import Mathlib.Algebra.BigOperators.Group.List.Basic
import Mathlib.Algebra.GroupWithZero.Nat

/-!
# Reading a path backwards

Links are seen from both ends and none of them is kept twice, so the ways from one instance to
another along kinds of links are as many as the ways back along the same kinds in reverse. A survey
along a path of hops copies an instance once for each way to it; hence a path may be read from
either end.
-/

namespace LinkAtlas

section Counting

variable {α : Type} [DecidableEq α]

theorem sum_count_cons (head : α) (rest second : List α) :
    (second.map fun member => (head :: rest).count member).sum =
      second.count head + (second.map fun member => rest.count member).sum := by
  induction second with
  | nil => rfl
  | cons first others ih =>
      rw [List.map_cons, List.sum_cons, ih, List.map_cons, List.sum_cons]
      rcases eq_or_ne first head with same | same
      · rw [same, List.count_cons_self, List.count_cons_self]
        omega
      · rw [List.count_cons_of_ne same.symm, List.count_cons_of_ne same]
        omega

/-- The pairs of equal members of two lists, counted from the one list and from the other. -/
theorem sum_count_comm (first second : List α) :
    (first.map fun member => second.count member).sum =
      (second.map fun member => first.count member).sum := by
  induction first with
  | nil => simp
  | cons head rest ih => rw [List.map_cons, List.sum_cons, ih, sum_count_cons]

end Counting

namespace Projection

/-- The nodes at a depth, from left to right. -/
def layer : Nat → Projection → List Projection
  | 0, node => [node]
  | depth + 1, node => node.allChildren.flatMap (layer depth)

end Projection

namespace QueryTree

/-- The tree of a path of hops. -/
def line : Label → List Label → QueryTree
  | label, [] => leaf label
  | label, edge :: edges => ⟨label, [line edge edges]⟩

theorem label_line (label : Label) (edges : List Label) : (line label edges).label = label := by
  cases edges <;> rfl

theorem attach_hops (label : Label) (edges : List Label) :
    attach (leaf label) (edges.map .hop) = .ok (line label edges) := by
  induction edges generalizing label with
  | nil => rfl
  | cons edge rest ih =>
      rw [List.map_cons, attach, attachStep, ih]
      rfl

theorem compile_ofLabels (label : Label) (edges : List Label) :
    compile (.ofLabels (label :: edges)) = .ok (line label edges) :=
  attach_hops label edges

end QueryTree

namespace Store

variable {store : Store}

/-- Where one gets along links of these kinds, once for each way. -/
def landings (store : Store) : List Label → Instance → List Instance
  | [], vertex => [vertex]
  | edge :: edges, vertex => (store.reach vertex edge).flatMap (landings store edges)

theorem landings_concat (store : Store) (edges : List Label) (edge : Label) (vertex : Instance) :
    store.landings (edges ++ [edge]) vertex =
      (store.landings edges vertex).flatMap fun last => store.reach last edge := by
  induction edges generalizing vertex with
  | nil => simp [landings]
  | cons first rest ih =>
      rw [List.cons_append, landings, landings, List.flatMap_assoc]
      exact List.flatMap_congr fun next _ => ih next

namespace Sound

theorem live_of_mem_landings (sound : store.Sound) {edges : List Label} {vertex last : Instance}
    (live : store.resolve vertex.handle = some vertex)
    (landed : last ∈ store.landings edges vertex) : store.resolve last.handle = some last := by
  induction edges generalizing vertex with
  | nil => exact List.mem_singleton.mp landed ▸ live
  | cons edge rest ih =>
      obtain ⟨next, linked, onward⟩ := List.mem_flatMap.mp landed
      exact ih (sound.live_of_mem_reach linked) onward

/-- One step may be taken back, and both ways it may be taken in one way only. -/
theorem count_reach_comm (sound : store.Sound) {one two : Instance}
    (first : store.resolve one.handle = some one) (second : store.resolve two.handle = some two)
    (edge : Label) : (store.reach one edge).count two = (store.reach two edge).count one := by
  rw [(sound.nodup_reach first edge).count, (sound.nodup_reach second edge).count]
  simp only [sound.mem_reach_iff second, sound.mem_reach_iff first,
    sound.mem_targets_comm first second edge]

/-- There are as many ways back as there are ways. -/
theorem count_landings_reverse (sound : store.Sound) {one two : Instance}
    (first : store.resolve one.handle = some one) (second : store.resolve two.handle = some two)
    (edges : List Label) :
    (store.landings edges one).count two = (store.landings edges.reverse two).count one := by
  induction edges generalizing one with
  | nil =>
      rcases eq_or_ne one two with same | same
      · rw [same]
        rfl
      · simp [landings, same, same.symm]
  | cons edge rest ih =>
      calc (store.landings (edge :: rest) one).count two
          = ((store.reach one edge).map fun next => (store.landings rest next).count two).sum := by
            rw [landings, List.count_flatMap]
            rfl
        _ = ((store.reach one edge).map fun next =>
              (store.landings rest.reverse two).count next).sum := by
            refine congrArg List.sum (List.map_congr_left fun next linked => ?_)
            exact ih (sound.live_of_mem_reach linked)
        _ = ((store.landings rest.reverse two).map fun last =>
              (store.reach one edge).count last).sum := sum_count_comm _ _
        _ = ((store.landings rest.reverse two).map fun last =>
              (store.reach last edge).count one).sum := by
            refine congrArg List.sum (List.map_congr_left fun last landed => ?_)
            exact sound.count_reach_comm first (sound.live_of_mem_landings second landed) edge
        _ = (store.landings (edge :: rest).reverse two).count one := by
            rw [List.reverse_cons, landings_concat, List.count_flatMap]
            rfl

/-- A carrier of a label is listed once among the carriers. -/
theorem filter_ofType (sound : store.Sound) {vertex : Instance}
    (live : store.resolve vertex.handle = some vertex) {label : Label}
    (carried : label ∈ vertex.labels) :
    ((store.ofType label).filter fun bearer => bearer.handle = vertex.handle) = [vertex] := by
  have listed : vertex ∈ store.ofType label := sound.mem_ofType.mpr ⟨live, carried⟩
  refine List.perm_singleton.mp ((List.perm_ext_iff_of_nodup ((sound.nodup_ofType label).filter _)
    (List.nodup_singleton vertex)).mpr fun bearer => ?_)
  rw [List.mem_filter, List.mem_singleton, decide_eq_true_eq]
  constructor
  · rintro ⟨member, same⟩
    exact eq_of_handle_eq (sound.live_of_mem_ofType member) live same
  · rintro rfl
    exact ⟨listed, rfl⟩

end Sound

end Store

/-- All groups together hold what was found under the labels. -/
theorem flatMap_gather {π : Type} (labels : List Label) (found : Label → List π) :
    (gather labels found).flatMap Prod.snd = (Roster.ofList labels).toList.flatMap found := by
  unfold gather
  induction (Roster.ofList labels).toList with
  | nil => rfl
  | cons label rest ih =>
      cases sought : found label with
      | nil => simpa [sought] using ih
      | cons first others => simpa [sought] using ih

namespace QueryTree

theorem allChildren_trace_line (store : Store) (label edge : Label) (edges : List Label)
    (vertex : Instance) :
    ((line label (edge :: edges)).trace store vertex).allChildren =
      (store.reach vertex edge).map ((line edge edges).trace store) := by
  rw [trace_eq]
  refine (flatMap_gather _ _).trans ?_
  rw [line, List.map_singleton, label_line]
  refine (List.flatMap_singleton _ _).trans ?_
  rw [traceAll_eq_flatMap]
  simp [label_line]

/-- The last nodes along a path of hops are copies of where one gets along it. -/
theorem layer_trace_line (store : Store) (label : Label) (edges : List Label) (vertex : Instance) :
    (((line label edges).trace store vertex).layer edges.length).map Projection.source =
      (store.landings edges vertex).map Instance.handle := by
  induction edges generalizing label vertex with
  | nil => simp [Projection.layer, Store.landings, source_trace]
  | cons edge rest ih =>
      rw [List.length_cons, Projection.layer, allChildren_trace_line, Store.landings,
        List.flatMap_map, List.map_flatMap, List.map_flatMap]
      exact List.flatMap_congr fun next _ => ih edge next

end QueryTree

namespace Store

variable {store : Store}

/-- At the end of a path of hops an instance is copied once for every way to it. -/
theorem Sound.countP_layer (sound : store.Sound) {one two : Instance}
    (first : store.resolve one.handle = some one) (second : store.resolve two.handle = some two)
    (label : Label) (edges : List Label) :
    (((QueryTree.line label edges).trace store one).layer edges.length).countP
        (fun node => node.source = two.handle) =
      (store.landings edges one).count two := by
  have sources := congrArg (List.countP fun handle => handle = two.handle)
    (QueryTree.layer_trace_line store label edges one)
  rw [List.countP_map, List.countP_map] at sources
  refine sources.trans (List.countP_congr fun last landed => ?_)
  have alive := sound.live_of_mem_landings first landed
  rw [Function.comp_apply, decide_eq_true_eq, beq_iff_eq]
  exact ⟨eq_of_handle_eq alive second, congrArg Instance.handle⟩

/-- In a forest the projection of an instance that carries the label of the roots. -/
theorem Sound.query_ofLabels (sound : store.Sound) {vertex : Instance}
    (live : store.resolve vertex.handle = some vertex) {label : Label}
    (carried : label ∈ vertex.labels) (edges : List Label) :
    ∃ forest, store.query (.ofLabels (label :: edges)) = .ok forest ∧
      (forest.filter fun root => root.source = vertex.handle) =
        [(QueryTree.line label edges).trace store vertex] := by
  refine ⟨_, by rw [query_eq, QueryTree.compile_ofLabels]; rfl, ?_⟩
  rw [List.filter_map]
  simp only [Function.comp_def, QueryTree.source_trace, QueryTree.label_line,
    sound.filter_ofType live carried, List.map_singleton]

/-- In every state of a run a path of hops may be read from either end: an instance is copied at
the end of the path below another one as often as this one below it along the path back. -/
theorem readable_backwards_of_run {start : Store} (origin : Origin start) {edits : List Edit}
    (fits : start.Fits edits) {one two : Instance} (first : one ∈ (start.run edits).instances)
    (second : two ∈ (start.run edits).instances) {role part : Label} (carried : role ∈ one.labels)
    (borne : part ∈ two.labels) (edges : List Label) :
    ∃ forest thicket root stem,
      (start.run edits).query (.ofLabels (role :: edges)) = .ok forest ∧
      (forest.filter fun node => node.source = one.handle) = [root] ∧
      (start.run edits).query (.ofLabels (part :: edges.reverse)) = .ok thicket ∧
      (thicket.filter fun node => node.source = two.handle) = [stem] ∧
      (root.layer edges.length).countP (fun node => node.source = two.handle) =
        (stem.layer edges.length).countP (fun node => node.source = one.handle) := by
  have sound := origin.sound_run fits
  have here := sound.mem_instances_iff.mp first
  have there := sound.mem_instances_iff.mp second
  obtain ⟨forest, asked, root⟩ := sound.query_ofLabels here carried edges
  obtain ⟨thicket, answered, stem⟩ := sound.query_ofLabels there borne edges.reverse
  refine ⟨forest, thicket, _, _, asked, root, answered, stem, ?_⟩
  have back := sound.countP_layer there here part edges.reverse
  rw [List.length_reverse] at back
  rw [sound.countP_layer here there, back]
  exact sound.count_landings_reverse here there edges

theorem readable_backwards_returning :
    host ∈ (empty.run returning).instances ∧ guest ∈ (empty.run returning).instances ∧
      ("person" : Label) ∈ host.labels ∧ ("guest" : Label) ∈ guest.labels ∧
      ∃ forest thicket root stem,
        (empty.run returning).query (.ofLabels ["person", "knows", "knows"]) = .ok forest ∧
        (forest.filter fun node => node.source = host.handle) = [root] ∧
        (empty.run returning).query (.ofLabels ["guest", "knows", "knows"]) = .ok thicket ∧
        (thicket.filter fun node => node.source = guest.handle) = [stem] ∧
        (root.layer 2).countP (fun node => node.source = guest.handle) =
          (stem.layer 2).countP (fun node => node.source = host.handle) := by
  have present : host ∈ (empty.run returning).instances ∧
      guest ∈ (empty.run returning).instances := by decide
  have carried : ("person" : Label) ∈ host.labels ∧ ("guest" : Label) ∈ guest.labels := by decide
  exact ⟨present.1, present.2, carried.1, carried.2,
    readable_backwards_of_run .empty fits_returning present.1 present.2 carried.1 carried.2
      ["knows", "knows"]⟩

end Store

end LinkAtlas
