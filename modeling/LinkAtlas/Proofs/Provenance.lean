import LinkAtlas.Projection.Rendering
import LinkAtlas.Proofs.Handles
import LinkAtlas.Proofs.Unfolding

/-!
# Where projections come from

Every node of a forest names the instance that it was copied from. However the store is edited
afterwards, the name leads to that instance until it is removed and to nobody from then on, also if
its slot or its id is taken again. So a rendering shows the own id of a node as its source, or a
dash.
-/

namespace LinkAtlas

namespace Projection

/-! ## Nodes at any depth -/

/-- The node is the root of the projection or stands somewhere below it. -/
inductive Within (node : Projection) : Projection → Prop where
  | here : Within node node
  | under {parent child : Projection} {edge : Label} {group : List Projection}
      (entered : (edge, group) ∈ parent.links) (listed : child ∈ group)
      (within : Within node child) : Within node parent

/-! ## Rendering without a store -/

/-- The line of a node with a given last column. -/
def lineWith (column : String) (level : Nat) (id : InstanceId) (labels : List Label)
    (value : Option Scalar) : String :=
  indent level ++ "- id: " ++ id ++ ", type: [" ++ String.intercalate ", " labels ++
    "], value: " ++ (value.map Scalar.display).getD "" ++ ", source: " ++ column

mutual

/-- The lines of a subtree when the ids alone tell what stands in the last column. -/
def linesWith (column : InstanceId → String) (level : Nat) : Projection → List String
  | ⟨_, id, labels, value, _, links⟩ =>
      lineWith (column id) level id labels value :: linesOfGroupsWith column level links

def linesOfGroupsWith (column : InstanceId → String) (level : Nat) :
    List (Label × List Projection) → List String
  | [] => []
  | (edge, group) :: rest =>
      groupLine level edge :: (linesOfAllWith column (level + 2) group ++
        linesOfGroupsWith column level rest)

def linesOfAllWith (column : InstanceId → String) (level : Nat) : List Projection → List String
  | [] => []
  | projection :: rest => projection.linesWith column level ++ linesOfAllWith column level rest

end

def renderWith (column : InstanceId → String) (roots : List Projection) : String :=
  String.join ((linesOfAllWith column 0 roots).map (· ++ "\n"))

section Columns

variable {store : Store} {column : InstanceId → String}

mutual

theorem lines_eq_linesWith (level : Nat) : ∀ root : Projection,
    (∀ node, Within node root → sourceColumn store node.source = column node.id) →
      root.lines store level = root.linesWith column level
  | ⟨edgeType, id, labels, value, source, links⟩, agrees => by
      have own : sourceColumn store source = column id := agrees _ .here
      have below := linesOfGroups_eq_linesOfGroupsWith level links
        fun edge group entered child listed node within =>
          agrees node (.under entered listed within)
      rw [lines, linesWith, below, nodeLine, own]
      rfl

theorem linesOfGroups_eq_linesOfGroupsWith (level : Nat) :
    ∀ links : List (Label × List Projection),
      (∀ edge group, (edge, group) ∈ links → ∀ child ∈ group, ∀ node, Within node child →
        sourceColumn store node.source = column node.id) →
      linesOfGroups store level links = linesOfGroupsWith column level links
  | [], _ => rfl
  | (edge, group) :: rest, agrees => by
      have first := linesOfAll_eq_linesOfAllWith (level + 2) group
        (agrees edge group List.mem_cons_self)
      have later := linesOfGroups_eq_linesOfGroupsWith level rest
        fun edge group entered => agrees edge group (List.mem_cons_of_mem _ entered)
      rw [linesOfGroups, linesOfGroupsWith, first, later]

theorem linesOfAll_eq_linesOfAllWith (level : Nat) : ∀ group : List Projection,
    (∀ child ∈ group, ∀ node, Within node child →
      sourceColumn store node.source = column node.id) →
    linesOfAll store level group = linesOfAllWith column level group
  | [], _ => rfl
  | child :: rest, agrees => by
      have first := lines_eq_linesWith level child (agrees child List.mem_cons_self)
      have later := linesOfAll_eq_linesOfAllWith level rest
        fun child listed => agrees child (List.mem_cons_of_mem _ listed)
      rw [linesOfAll, linesOfAllWith, first, later]

end

/-- A rendering depends on the store only by the sources of its nodes. -/
theorem render_eq_renderWith {roots : List Projection}
    (agrees : ∀ root ∈ roots, ∀ node, Within node root →
      sourceColumn store node.source = column node.id) :
    render store roots = renderWith column roots := by
  rw [render, renderWith, linesOfAll_eq_linesOfAllWith 0 roots agrees]

end Columns

end Projection

/-! ## Copies of instances -/

namespace Store

variable {store : Store}

/-- The node is a copy of an instance that is present. -/
def CopiedFrom (store : Store) (node : Projection) (vertex : Instance) : Prop :=
  store.resolve node.source = some vertex ∧ vertex.id = node.id ∧
    vertex.labels.toList = node.labels ∧ vertex.value = node.value

/-- All nodes of the projection of an instance are copies of instances. -/
theorem Sound.copied_of_within (sound : store.Sound) {node root : Projection}
    (within : node.Within root) {tree : QueryTree} {vertex : Instance}
    (live : store.resolve vertex.handle = some vertex) (traced : root = tree.trace store vertex) :
    ∃ original, store.CopiedFrom node original := by
  induction within generalizing tree vertex with
  | here =>
      rw [traced, QueryTree.trace_eq]
      exact ⟨vertex, live, rfl, rfl, rfl⟩
  | under entered listed within ih =>
      rw [traced, QueryTree.trace_eq] at entered
      rw [eq_of_mem_gather entered, QueryTree.traceAll_eq_flatMap] at listed
      obtain ⟨next, -, inside⟩ := List.mem_flatMap.mp listed
      obtain ⟨other, reached, same⟩ := List.mem_map.mp inside
      exact ih (sound.live_of_mem_reach reached) same.symm

theorem Sound.copied_of_query (sound : store.Sound) {path : QueryPath} {forest : List Projection}
    (asked : store.query path = .ok forest) {root node : Projection} (listed : root ∈ forest)
    (within : node.Within root) : ∃ original, store.CopiedFrom node original := by
  rw [query_eq] at asked
  cases compiled : QueryTree.compile path with
  | error reason =>
      rw [compiled] at asked
      cases asked
  | ok tree =>
      rw [compiled] at asked
      cases asked
      obtain ⟨vertex, carries, same⟩ := List.mem_map.mp listed
      exact sound.copied_of_within within (sound.live_of_mem_ofType carries) same.symm

/-! ## Removals -/

/-- Whether an edit takes an instance out of the store. -/
def evicts (store : Store) : Edit → Bool
  | .remove id => (store.find? id).isSome
  | _ => false

/-- How many instances a run takes out of the store. -/
def removals : Store → List Edit → Nat
  | _, [] => 0
  | store, edit :: rest => (store.evicts edit).toNat + removals (store.perform edit).2 rest

theorem vacates_le_evicts (store : Store) (index : UInt32) (edit : Edit) :
    (store.vacates index edit).toNat ≤ (store.evicts edit).toNat := by
  cases edit with
  | remove id =>
      simp only [vacates, evicts]
      cases store.find? id with
      | none => exact Nat.le_refl 0
      | some leaver => exact Bool.toNat_le _
  | add | addLabel | removeLabel | link | unlink | unlinkAll => exact Nat.le_refl 0

/-- A slot is left by nobody but those who leave the store. -/
theorem departures_le_removals (index : UInt32) (store : Store) (edits : List Edit) :
    departures index store edits ≤ removals store edits := by
  induction edits generalizing store with
  | nil => exact Nat.le_refl 0
  | cons edit rest ih => exact Nat.add_le_add (vacates_le_evicts store index edit) (ih _)

/-! ## Later -/

/-- What a later store says about the sources of a forest that was copied from an earlier one, after
a run of edits. An id that is removed by the run belonged to the original at first, so the
first removal is that of the original. -/
structure Attests (earlier : Store) (edits : List Edit) (forest : List Projection) : Prop where
  copied : ∀ root ∈ forest, ∀ node : Projection, node.Within root →
    ∃ original, earlier.CopiedFrom node original
  present : ∀ root ∈ forest, ∀ node : Projection, node.Within root → .remove node.id ∉ edits →
    ∃ vertex, (earlier.run edits).resolve node.source = some vertex ∧
      vertex.handle = node.source ∧ vertex.id = node.id ∧ vertex.value = node.value
  gone : ∀ root ∈ forest, ∀ node : Projection, node.Within root → .remove node.id ∈ edits →
    (earlier.run edits).resolve node.source = none
  /-- the last column of a node shows its own id or a dash -/
  rendered : Projection.render (earlier.run edits) forest =
    Projection.renderWith (fun id => if .remove id ∈ edits then "-" else id) forest

theorem Sound.attests (sound : store.Sound) {path : QueryPath} {forest : List Projection}
    (asked : store.query path = .ok forest) {edits : List Edit} (fits : store.Fits edits)
    (few : removals store edits < capacity) : store.Attests edits forest := by
  have copied (root : Projection) (listed : root ∈ forest) (node : Projection)
      (within : node.Within root) := sound.copied_of_query asked listed within
  have present (root : Projection) (listed : root ∈ forest) (node : Projection)
      (within : node.Within root) (stays : .remove node.id ∉ edits) :
      ∃ vertex, (store.run edits).resolve node.source = some vertex ∧
        vertex.handle = node.source ∧ vertex.id = node.id ∧ vertex.value = node.value := by
    obtain ⟨original, live, named, -, valued⟩ := copied root listed node within
    obtain ⟨vertex, held, called, worth⟩ := sound.resolve_run live (named ▸ stays) fits
    exact ⟨vertex, held, (sound.run fits).handle_eq held, called.trans named, worth.trans valued⟩
  have gone (root : Projection) (listed : root ∈ forest) (node : Projection)
      (within : node.Within root) (removed : .remove node.id ∈ edits) :
      (store.run edits).resolve node.source = none := by
    obtain ⟨original, live, named, -⟩ := copied root listed node within
    have left := sound.departures_pos live (named ▸ removed) fits
    have below := Nat.lt_of_le_of_lt (departures_le_removals node.source.index store edits) few
    refine sound.resolve_of_departures (generation_of_live live) fits ?_
    rw [Nat.mod_eq_of_lt below]
    exact Nat.ne_of_gt left
  refine ⟨copied, present, gone, Projection.render_eq_renderWith fun root listed node within => ?_⟩
  by_cases removed : .remove node.id ∈ edits
  · rw [Projection.sourceColumn, gone root listed node within removed, if_pos removed]
  · obtain ⟨vertex, held, -, named, -⟩ := present root listed node within removed
    rw [Projection.sourceColumn, held, if_neg removed]
    exact named

/-- Whenever a forest is asked for in a run, each of its nodes names its original and nobody else,
as long as fewer than `Store.capacity` instances have been removed since. -/
theorem attests_of_run {start : Store} (origin : Origin start) {before after : List Edit}
    (fits : start.Fits (before ++ after)) {path : QueryPath} {forest : List Projection}
    (asked : (start.run before).query path = .ok forest)
    (few : removals (start.run before) after < capacity) :
    (start.run before).Attests after forest :=
  (origin.sound_run (fits.of_prefix (List.prefix_append before after))).attests asked
    fits.of_append few

/-- A run that ends with a link from a host to a guest. -/
def meeting : List Edit :=
  [.add "ada" ["host"] none, .add "bob" ["guest"] (some (.boolean true)),
    .link "ada" "knows" "bob"]

/-- The guest leaves, and somebody takes its id and its slot. -/
def parting : List Edit := [.remove "bob", .add "bob" ["guest"] none]

/-- What was copied from the host and the guest. -/
def photograph : Projection where
  edgeType := "host"
  id := "ada"
  labels := ["host"]
  value := none
  source := ⟨0, 0⟩
  links := [("knows", [{
    edgeType := "knows"
    id := "bob"
    labels := ["guest"]
    value := some (.boolean true)
    source := ⟨1, 0⟩
    links := [] }])]

theorem attests_photograph :
    empty.Fits (meeting ++ parting) ∧
      (empty.run meeting).query (.ofLabels ["host", "knows"]) = .ok [photograph] ∧
      removals (empty.run meeting) parting < capacity ∧
      ((empty.run meeting).run parting).find? "bob" =
        some { handle := ⟨1, 1⟩, id := "bob", labels := .ofList ["guest"], value := none } ∧
      (empty.run meeting).Attests parting [photograph] := by
  have fits : empty.Fits (meeting ++ parting) := fits_of_length_le (by decide)
  have asked : (empty.run meeting).query (.ofLabels ["host", "knows"]) = .ok [photograph] := rfl
  have few : removals (empty.run meeting) parting < capacity := by decide
  exact ⟨fits, asked, few, by decide, attests_of_run .empty fits asked few⟩

end Store

end LinkAtlas
