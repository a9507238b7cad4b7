import LinkAtlas.Proofs.NumberText
import LinkAtlas.Proofs.Provenance
import LinkAtlas.Proofs.Tally

/-!
# Indented trees

A rendering has one line for each node and one for each group of children. The free text on a line
may be anything but a line feed, so all that can be relied on is how far in the line stands and how
it begins. That is enough: two forests that are rendered alike have the same groups at every node,
with as many children in each.
-/

namespace LinkAtlas

namespace Projection

/-! ## Shapes -/

/-- The kinds of link at a node in their order, each with what is below its children. -/
inductive Shape where
  | node (groups : List (Label × List Shape))

mutual

/-- What is left of a projection without all that its nodes say. -/
def shape : Projection → Shape
  | ⟨_, _, _, _, _, links⟩ => .node (shapesOfGroups links)

def shapesOfGroups : List (Label × List Projection) → List (Label × List Shape)
  | [] => []
  | (edge, group) :: rest => (edge, shapes group) :: shapesOfGroups rest

def shapes : List Projection → List Shape
  | [] => []
  | child :: rest => child.shape :: shapes rest

end

mutual

/-- The number of groups in a subtree. -/
def groupCount : Projection → Nat
  | ⟨_, _, _, _, _, links⟩ => groupCountOf links

def groupCountOf : List (Label × List Projection) → Nat
  | [] => 0
  | (_, group) :: rest => 1 + groupCountOfAll group + groupCountOf rest

def groupCountOfAll : List Projection → Nat
  | [] => 0
  | child :: rest => child.groupCount + groupCountOfAll rest

end

/-! ## Rows -/

/-- What counts of a line: how far in it stands, and the kind of link if it is that of a group. -/
structure Row where
  depth : Nat
  edge : Option Label

namespace Row

/-- The row of a line. Only the line of a group begins with a letter behind its blanks. -/
def ofLine (line : String) : Row :=
  let blanks := line.toList.takeWhile (· == ' ')
  match line.toList.dropWhile (· == ' ') with
  | 'L' :: rest => ⟨blanks.length / 2, some (String.ofList (rest.drop 5))⟩
  | _ => ⟨blanks.length / 2, none⟩

theorem toList_indent (level : Nat) : (indent level).toList = List.replicate (2 * level) ' ' :=
  String.toList_ofList

/-- Behind the blanks of an indented line comes its first character that is none. -/
theorem span_blanks (count : Nat) {first : Char} (other : first ≠ ' ') (rest : List Char) :
    (List.replicate count ' ' ++ first :: rest).takeWhile (· == ' ') = List.replicate count ' ' ∧
      (List.replicate count ' ' ++ first :: rest).dropWhile (· == ' ') = first :: rest := by
  have blank : ∀ character ∈ List.replicate count ' ', (character == ' ') = true := by
    intro character listed
    exact beq_iff_eq.mpr (List.eq_of_mem_replicate listed)
  constructor
  · rw [List.takeWhile_append_of_pos blank, List.takeWhile_cons_of_neg (by simpa using other),
      List.append_nil]
  · rw [List.dropWhile_append_of_pos blank, List.dropWhile_cons_of_neg (by simpa using other)]

theorem ofLine_lineWith (column : String) (level : Nat) (id : InstanceId) (labels : List Label)
    (value : Option Scalar) : ofLine (lineWith column level id labels value) = ⟨level, none⟩ := by
  obtain ⟨rest, begins⟩ : ∃ rest, (lineWith column level id labels value).toList =
      List.replicate (2 * level) ' ' ++ '-' :: rest := by
    simp only [lineWith, String.toList_append, toList_indent, List.append_assoc]
    exact ⟨_, rfl⟩
  obtain ⟨blanks, behind⟩ := span_blanks (2 * level) (by decide : '-' ≠ ' ') rest
  simp only [ofLine, begins, blanks, behind, List.length_replicate,
    Nat.mul_div_cancel_left _ two_pos]
  rfl

theorem ofLine_groupLine (level : Nat) (edge : Label) :
    ofLine (groupLine level edge) = ⟨level + 1, some edge⟩ := by
  have begins : (groupLine level edge).toList =
      List.replicate (2 * (level + 1)) ' ' ++ 'L' :: ("ink: ".toList ++ edge.toList) := by
    have deeper : List.replicate (2 * (level + 1)) ' ' =
        List.replicate (2 * level) ' ' ++ [' ', ' '] :=
      List.replicate_append_replicate.symm
    simp only [groupLine, String.toList_append, toList_indent, deeper, List.append_assoc]
    rfl
  obtain ⟨blanks, behind⟩ :=
    span_blanks (2 * (level + 1)) (by decide : 'L' ≠ ' ') ("ink: ".toList ++ edge.toList)
  have kind : ("ink: ".toList ++ edge.toList).drop 5 = edge.toList := rfl
  simp only [ofLine, begins, blanks, behind, kind, List.length_replicate, String.ofList_toList,
    Nat.mul_div_cancel_left _ two_pos]

end Row

mutual

/-- The rows of a shape whose node stands `level` steps in. -/
def Shape.rows (level : Nat) : Shape → List Row
  | .node groups => ⟨level, none⟩ :: rowsOfGroups level groups

def rowsOfGroups (level : Nat) : List (Label × List Shape) → List Row
  | [] => []
  | (edge, group) :: rest =>
      ⟨level + 1, some edge⟩ :: (rowsOfAll (level + 2) group ++ rowsOfGroups level rest)

def rowsOfAll (level : Nat) : List Shape → List Row
  | [] => []
  | shape :: rest => shape.rows level ++ rowsOfAll level rest

end

section Lines

variable (store : Store)

mutual

theorem rows_lines (level : Nat) : ∀ root : Projection,
    (root.lines store level).map Row.ofLine = root.shape.rows level
  | ⟨_, id, labels, value, source, links⟩ => by
      have own : Row.ofLine (nodeLine store level id labels value source) = ⟨level, none⟩ :=
        Row.ofLine_lineWith (sourceColumn store source) level id labels value
      rw [lines, List.map_cons, own, rows_linesOfGroups, shape, Shape.rows]

theorem rows_linesOfGroups (level : Nat) : ∀ links : List (Label × List Projection),
    (linesOfGroups store level links).map Row.ofLine = rowsOfGroups level (shapesOfGroups links)
  | [] => rfl
  | (edge, group) :: rest => by
      rw [linesOfGroups, List.map_cons, List.map_append, Row.ofLine_groupLine, rows_linesOfAll,
        rows_linesOfGroups, shapesOfGroups, rowsOfGroups]

theorem rows_linesOfAll (level : Nat) : ∀ group : List Projection,
    (linesOfAll store level group).map Row.ofLine = rowsOfAll level (shapes group)
  | [] => rfl
  | child :: rest => by
      rw [linesOfAll, List.map_append, rows_lines, rows_linesOfAll, shapes, rowsOfAll]

end

mutual

theorem length_lines (level : Nat) : ∀ root : Projection,
    (root.lines store level).length = root.nodeCount + root.groupCount
  | ⟨_, _, _, _, _, links⟩ => by
      rw [lines, List.length_cons, length_linesOfGroups, nodeCount, groupCount]
      omega

theorem length_linesOfGroups (level : Nat) : ∀ links : List (Label × List Projection),
    (linesOfGroups store level links).length = countGroups links + groupCountOf links
  | [] => rfl
  | (edge, group) :: rest => by
      rw [linesOfGroups, List.length_cons, List.length_append, length_linesOfAll,
        length_linesOfGroups, countGroups, groupCountOf]
      omega

theorem length_linesOfAll (level : Nat) : ∀ group : List Projection,
    (linesOfAll store level group).length = countAll group + groupCountOfAll group
  | [] => rfl
  | child :: rest => by
      rw [linesOfAll, List.length_append, length_lines, length_linesOfAll, countAll,
        groupCountOfAll]
      omega

end

end Lines

/-! ## Where a subtree ends -/

/-- What follows, if anything, stands less than `depth` steps in. -/
def Ends (depth : Nat) (rows : List Row) : Prop := ∀ row, rows.head? = some row → row.depth < depth

theorem Ends.mono {depth deeper : Nat} {rows : List Row} (ends : Ends depth rows)
    (le : depth ≤ deeper) : Ends deeper rows := fun row first => (ends row first).trans_le le

/-- Behind one of several siblings comes another one or what follows them all. -/
theorem ends_rowsOfAll {level : Nat} {rest : List Row} (ends : Ends level rest)
    (group : List Shape) : Ends (level + 1) (rowsOfAll level group ++ rest) := by
  cases group with
  | nil => exact ends.mono level.le_succ
  | cons first others =>
      intro row head
      cases first with
      | node groups =>
          cases head
          exact level.lt_succ_self

/-- Behind one of several groups comes another one or what follows them all. -/
theorem ends_rowsOfGroups {level : Nat} {rest : List Row} (ends : Ends (level + 1) rest)
    (groups : List (Label × List Shape)) : Ends (level + 2) (rowsOfGroups level groups ++ rest) := by
  cases groups with
  | nil => exact ends.mono (level + 1).le_succ
  | cons first others =>
      intro row head
      cases head
      exact (level + 1).lt_succ_self

/-! Rows are read from the front, and a subtree goes on as long as they stand further in than its
node. So whatever follows two subtrees, they are told apart by their rows. -/

mutual

theorem rows_inj (level : Nat) {rest tail : List Row} (ends : Ends (level + 1) rest)
    (stops : Ends (level + 1) tail) : ∀ shape other : Shape,
    shape.rows level ++ rest = other.rows level ++ tail → shape = other ∧ rest = tail
  | .node groups, .node others, same => by
      rw [Shape.rows, Shape.rows, List.cons_append, List.cons_append] at same
      obtain ⟨rfl, rfl⟩ := rowsOfGroups_inj level ends stops groups others (List.cons.inj same).2
      exact ⟨rfl, rfl⟩

theorem rowsOfGroups_inj (level : Nat) {rest tail : List Row} (ends : Ends (level + 1) rest)
    (stops : Ends (level + 1) tail) : ∀ groups others : List (Label × List Shape),
    rowsOfGroups level groups ++ rest = rowsOfGroups level others ++ tail →
      groups = others ∧ rest = tail
  | [], [], same => ⟨rfl, same⟩
  | [], (edge, group) :: others, same => by
      have inside := ends ⟨level + 1, some edge⟩ (congrArg List.head? same)
      exact absurd inside (lt_irrefl _)
  | (edge, group) :: groups, [], same => by
      have inside := stops ⟨level + 1, some edge⟩ (congrArg List.head? same).symm
      exact absurd inside (lt_irrefl _)
  | (edge, group) :: groups, (kind, members) :: others, same => by
      simp only [rowsOfGroups, List.cons_append, List.append_assoc, List.cons.injEq, Row.mk.injEq,
        Option.some.injEq, true_and] at same
      obtain ⟨rfl, below⟩ := same
      obtain ⟨rfl, later⟩ := rowsOfAll_inj (level + 2) (ends_rowsOfGroups ends groups)
        (ends_rowsOfGroups stops others) group members below
      obtain ⟨rfl, rfl⟩ := rowsOfGroups_inj level ends stops groups others later
      exact ⟨rfl, rfl⟩

theorem rowsOfAll_inj (level : Nat) {rest tail : List Row} (ends : Ends level rest)
    (stops : Ends level tail) : ∀ group others : List Shape,
    rowsOfAll level group ++ rest = rowsOfAll level others ++ tail → group = others ∧ rest = tail
  | [], [], same => ⟨rfl, same⟩
  | [], .node groups :: others, same => by
      have inside := ends ⟨level, none⟩ (congrArg List.head? same)
      exact absurd inside (lt_irrefl _)
  | .node groups :: group, [], same => by
      have inside := stops ⟨level, none⟩ (congrArg List.head? same).symm
      exact absurd inside (lt_irrefl _)
  | first :: group, second :: others, same => by
      simp only [rowsOfAll, List.append_assoc] at same
      obtain ⟨rfl, later⟩ := rows_inj level (ends_rowsOfAll ends group)
        (ends_rowsOfAll stops others) first second same
      obtain ⟨rfl, rfl⟩ := rowsOfAll_inj level ends stops group others later
      exact ⟨rfl, rfl⟩

end

end Projection

/-! ## Texts on one line -/

/-- Nothing in the text ends a line. -/
def OneLine (text : List Char) : Prop := '\n' ∉ text

instance : DecidablePred OneLine := fun text => inferInstanceAs (Decidable ('\n' ∉ text))

namespace OneLine

theorem append {first second : List Char} (one : OneLine first) (two : OneLine second) :
    OneLine (first ++ second) := fun listed => (List.mem_append.mp listed).elim one two

theorem of_isDigit {digits : List Char} (all : ∀ digit ∈ digits, digit.isDigit = true) :
    OneLine digits := fun listed => absurd (all _ listed) (by decide)

theorem intercalate {separator : String} (one : OneLine separator.toList) {texts : List String}
    (all : ∀ text ∈ texts, OneLine text.toList) :
    OneLine (String.intercalate separator texts).toList := by
  induction texts with
  | nil =>
      rw [String.intercalate_nil]
      exact List.not_mem_nil
  | cons first rest ih =>
      obtain ⟨own, others⟩ := List.forall_mem_cons.mp all
      cases rest with
      | nil =>
          rw [String.intercalate_singleton]
          exact own
      | cons second later =>
          rw [String.intercalate_cons_cons, String.toList_append, String.toList_append]
          exact (own.append one).append (ih others)

end OneLine

namespace Scalar

theorem oneLine_positional {digits : List Char} (all : ∀ digit ∈ digits, digit.isDigit = true)
    (point : Int) : OneLine (plainNumber.positional digits point) := by
  have zeros (count : Nat) : OneLine (List.replicate count '0') :=
    .of_isDigit Numeral.isDigit_of_mem_zeros
  have first (place : Nat) : OneLine (digits.take place) :=
    .of_isDigit fun digit listed => all digit (List.mem_of_mem_take listed)
  have later (place : Nat) : OneLine (digits.drop place) :=
    .of_isDigit fun digit listed => all digit (List.mem_of_mem_drop listed)
  have mark : OneLine ['.'] := by decide
  unfold NumberStyle.positional
  split
  · have start : OneLine ['0', '.'] := by decide
    exact start.append ((zeros _).append (.of_isDigit all))
  · dsimp only
    split
    · exact ((first _).append (zeros _)).append List.not_mem_nil
    · exact (first _).append (mark.append (later _))

theorem oneLine_write (x : Double) : OneLine (plainNumber.write x) := by
  have digits : OneLine (plainNumber.magnitude x) := by
    unfold NumberStyle.magnitude
    split
    · decide
    · exact oneLine_positional Numeral.isDigit_of_mem_toDigits _
  unfold NumberStyle.write
  split
  · decide
  · split
    · split <;> decide
    · split
      · have sign : OneLine ['-'] := by decide
        exact sign.append digits
      · exact digits

/-- A value is shown on one line if its text is written on one. -/
theorem oneLine_display {value : Scalar}
    (plain : ∀ text, value = .text text → OneLine text.toList) : OneLine value.display.toList := by
  cases value with
  | boolean value => cases value <;> decide
  | number x =>
      rw [display, String.toList_ofList]
      exact oneLine_write x
  | text value => exact plain value rfl

end Scalar

namespace Projection

/-- No id, label, kind of link or text of the node has a line feed in it. -/
structure Plain (node : Projection) : Prop where
  id : OneLine node.id.toList
  labels : ∀ label ∈ node.labels, OneLine label.toList
  value : ∀ text, node.value = some (.text text) → OneLine text.toList
  edges : ∀ group ∈ node.links, OneLine group.1.toList

/-- All nodes of a forest are plain. -/
def AllPlain (forest : List Projection) : Prop :=
  ∀ root ∈ forest, ∀ node, Within node root → node.Plain

end Projection

/-- No id in the store has a line feed in it. -/
def Store.PlainIds (store : Store) : Prop :=
  ∀ handle vertex, store.resolve handle = some vertex → OneLine vertex.id.toList

namespace Projection

theorem oneLine_indent (level : Nat) : OneLine (indent level).toList := by
  rw [Row.toList_indent]
  intro listed
  cases List.eq_of_mem_replicate listed

theorem oneLine_sourceColumn {store : Store} (plain : store.PlainIds) (source : Handle) :
    OneLine (sourceColumn store source).toList := by
  unfold sourceColumn
  cases found : store.resolve source with
  | none => decide
  | some vertex => exact plain source vertex found

theorem oneLine_lineWith {column : String} (own : OneLine column.toList) {node : Projection}
    (plain : node.Plain) (level : Nat) :
    OneLine (lineWith column level node.id node.labels node.value).toList := by
  have value : OneLine ((node.value.map Scalar.display).getD "").toList := by
    cases held : node.value with
    | none => decide
    | some value =>
        exact Scalar.oneLine_display fun text same => plain.value text (held.trans (same ▸ rfl))
  have labels : OneLine (String.intercalate ", " node.labels).toList :=
    OneLine.intercalate (by decide) plain.labels
  simp only [lineWith, String.toList_append]
  refine OneLine.append (OneLine.append (OneLine.append (OneLine.append (OneLine.append
    (OneLine.append (OneLine.append (OneLine.append (oneLine_indent level) ?_) plain.id) ?_)
      labels) ?_) value) ?_) own
  all_goals decide

theorem oneLine_groupLine {edge : Label} (plain : OneLine edge.toList) (level : Nat) :
    OneLine (groupLine level edge).toList := by
  simp only [groupLine, String.toList_append]
  exact ((oneLine_indent level).append (by decide)).append plain

mutual

theorem oneLine_lines {store : Store} (ids : store.PlainIds) (level : Nat) : ∀ root : Projection,
    (∀ node, Within node root → node.Plain) → ∀ line ∈ root.lines store level, OneLine line.toList
  | ⟨edgeType, id, labels, value, source, links⟩, plain => by
      have below := oneLine_linesOfGroups ids level links (plain _ .here).edges
        fun edge group entered child listed node within =>
          plain node (.under entered listed within)
      rw [lines]
      refine List.forall_mem_cons.mpr ⟨?_, below⟩
      exact oneLine_lineWith (oneLine_sourceColumn ids source) (plain _ .here) level

theorem oneLine_linesOfGroups {store : Store} (ids : store.PlainIds) (level : Nat) :
    ∀ links : List (Label × List Projection), (∀ group ∈ links, OneLine group.1.toList) →
      (∀ edge group, (edge, group) ∈ links → AllPlain group) →
      ∀ line ∈ linesOfGroups store level links, OneLine line.toList
  | [], _, _ => fun _ none => absurd none List.not_mem_nil
  | (edge, group) :: rest, edges, plain => by
      have first := oneLine_linesOfAll ids (level + 2) group (plain edge group List.mem_cons_self)
      have later := oneLine_linesOfGroups ids level rest
        (fun other entered => edges other (List.mem_cons_of_mem _ entered))
        fun kind others entered => plain kind others (List.mem_cons_of_mem _ entered)
      rw [linesOfGroups]
      refine List.forall_mem_cons.mpr ⟨?_, List.forall_mem_append.mpr ⟨first, later⟩⟩
      exact oneLine_groupLine (edges (edge, group) List.mem_cons_self) level

theorem oneLine_linesOfAll {store : Store} (ids : store.PlainIds) (level : Nat) :
    ∀ group : List Projection, AllPlain group →
      ∀ line ∈ linesOfAll store level group, OneLine line.toList
  | [], _ => fun _ none => absurd none List.not_mem_nil
  | child :: rest, plain => by
      have first := oneLine_lines ids level child (plain child List.mem_cons_self)
      have later := oneLine_linesOfAll ids level rest fun other listed =>
        plain other (List.mem_cons_of_mem _ listed)
      rw [linesOfAll]
      exact List.forall_mem_append.mpr ⟨first, later⟩

end

/-! ## Renderings -/

/-- A text of ended lines, split where lines end, gives the lines back and nothing behind them. -/
theorem splitOn_join {lines : List String} (all : ∀ line ∈ lines, OneLine line.toList) :
    (String.join (lines.map (· ++ "\n"))).toList.splitOn '\n' =
      lines.map String.toList ++ [[]] := by
  induction lines with
  | nil => rfl
  | cons first rest ih =>
      obtain ⟨own, others⟩ := List.forall_mem_cons.mp all
      rw [List.map_cons, String.join_cons, String.toList_append, String.toList_append,
        List.append_assoc]
      exact (List.splitOn_append_cons_self_of_not_mem own _).trans (congrArg _ (ih others))

theorem splitOn_render {store : Store} (ids : store.PlainIds) {forest : List Projection}
    (plain : AllPlain forest) : (render store forest).toList.splitOn '\n' =
      (linesOfAll store 0 forest).map String.toList ++ [[]] :=
  splitOn_join (oneLine_linesOfAll ids 0 forest plain)

theorem groupCountOfAll_eq_sum (group : List Projection) :
    groupCountOfAll group = (group.map groupCount).sum := by
  induction group with
  | nil => rfl
  | cons child rest ih => rw [groupCountOfAll, ih, List.map_cons, List.sum_cons]

/-- A forest has a line for each of its nodes and groups. If two forests are rendered alike, each
with a store of its own, then they have as many roots, and every node has the same groups in the
same order with as many children in each. -/
theorem render_tells_shape {store other : Store} {forest counterpart : List Projection}
    (ids : store.PlainIds) (plain : AllPlain forest) :
    (∃ lines, (render store forest).toList.splitOn '\n' = lines ++ [[]] ∧
      lines.length = (forest.map nodeCount).sum + (forest.map groupCount).sum) ∧
    (other.PlainIds → AllPlain counterpart → render store forest = render other counterpart →
      shapes forest = shapes counterpart) := by
  constructor
  · refine ⟨_, splitOn_render ids plain, ?_⟩
    rw [List.length_map, length_linesOfAll, countAll_eq_sum, groupCountOfAll_eq_sum]
  · intro foreign alike same
    have texts := splitOn_render foreign alike
    rw [← same, splitOn_render ids plain] at texts
    have lines : linesOfAll store 0 forest = linesOfAll other 0 counterpart :=
      List.map_injective_iff.mpr (fun _ _ => String.toList_inj.mp) (List.append_cancel_right texts)
    have rows := congrArg (List.map Row.ofLine) lines
    rw [rows_linesOfAll, rows_linesOfAll] at rows
    have ends : Ends 0 [] := fun row head => by cases head
    exact (rowsOfAll_inj 0 ends ends _ _ (congrArg (· ++ []) rows)).1

/-- A person without or with a group of acquaintances. -/
def person (id : InstanceId) (links : List (Label × List Projection)) : Projection where
  edgeType := "person"
  id := id
  labels := ["person", "- id: Link: x"]
  value := some (.text "    - id: eve")
  source := ⟨0, 0⟩
  links := links

/-- Eve stands beside bob. -/
def besides : List Projection := [person "ada" [("knows", [person "bob" [], person "eve" []])]]

/-- Eve stands below bob. -/
def beneath : List Projection :=
  [person "ada" [("knows", [person "bob" [("knows", [person "eve" []])]])]]

theorem allPlain_nil : AllPlain [] := fun _ listed => absurd listed List.not_mem_nil

theorem allPlain_person {id : InstanceId} {links : List (Label × List Projection)}
    (plain : OneLine id.toList) (edges : ∀ group ∈ links, OneLine group.1.toList)
    (below : ∀ group ∈ links, AllPlain group.2) {rest : List Projection} (others : AllPlain rest) :
    AllPlain (person id links :: rest) := by
  have labels : ∀ label ∈ ["person", "- id: Link: x"], OneLine label.toList := by decide
  have value : OneLine "    - id: eve".toList := by decide
  intro root listed node within
  rcases List.mem_cons.mp listed with rfl | later
  · cases within with
    | here => exact ⟨plain, labels, fun text same => by cases same; exact value, edges⟩
    | under entered child within => exact below _ entered _ child _ within
  · exact others root later node within

/-- Values that look like lines of the tree do not mislead. -/
theorem render_tells_shape_besides :
    Store.empty.PlainIds ∧ AllPlain besides ∧ AllPlain beneath ∧
      ((render .empty besides).toList.splitOn '\n').length = 5 ∧
      render .empty besides ≠ render .empty beneath := by
  have ids : Store.empty.PlainIds := fun handle vertex found => by cases found
  have single {id : InstanceId} (plain : OneLine id.toList) {rest : List Projection}
      (others : AllPlain rest) : AllPlain (person id [] :: rest) :=
    allPlain_person plain (by simp) (by simp) others
  have flat : AllPlain besides :=
    allPlain_person (by decide) (List.forall_mem_singleton.mpr (by decide))
      (List.forall_mem_singleton.mpr
        (single (by decide) (single (by decide) allPlain_nil))) allPlain_nil
  have deep : AllPlain beneath :=
    allPlain_person (by decide) (List.forall_mem_singleton.mpr (by decide))
      (List.forall_mem_singleton.mpr
        (allPlain_person (by decide) (List.forall_mem_singleton.mpr (by decide))
          (List.forall_mem_singleton.mpr (single (by decide) allPlain_nil)) allPlain_nil))
      allPlain_nil
  obtain ⟨⟨lines, parted, count⟩, tells⟩ :=
    @render_tells_shape .empty .empty besides beneath ids flat
  refine ⟨ids, flat, deep, ?_, fun same => ?_⟩
  · rw [parted, List.length_append, count]
    rfl
  · cases tells ids deep same

end Projection

end LinkAtlas
