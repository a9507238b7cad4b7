import LinkAtlas.Files.Tree
import LinkAtlas.Proofs.Ledger
import LinkAtlas.Proofs.Routes

/-!
# Files that are written

A file that has been written is found under its name with its content, and it can be written again.
The tree after a write has all directories that it had before, so that a route that led to a
directory still does. Positions on such a route are told by the names taken on the way from the
root.
-/

namespace LinkAtlas

namespace FileNode

/-- The node at the end of some names, the last name first. -/
def under? (root : FileNode) : List String → Option FileNode
  | [] => some root
  | name :: above => (root.under? above).bind fun node => node.entries.get? name

theorem under?_append_singleton (root : FileNode) (names : List String) (name : String) :
    root.under? (names ++ [name]) =
      (root.entries.get? name).bind fun node => node.under? names := by
  induction names with
  | nil => simp [under?]
  | cons first rest ih =>
      rw [List.cons_append, under?, ih, Option.bind_assoc]
      rfl

def DirectoryAt (root : FileNode) (names : List String) : Prop :=
  ∃ entries, root.under? names = some (.directory entries)

/-- Every directory is still there as a directory. -/
def Keeps (before after : FileNode) : Prop :=
  ∀ names, before.DirectoryAt names → after.DirectoryAt names

theorem keeps_file (content : Option String) (after : FileNode) : Keeps (.file content) after := by
  rintro names ⟨entries, found⟩
  exfalso
  rcases List.eq_nil_or_concat names with rfl | ⟨front, last, rfl⟩
  · cases found
  · rw [List.concat_eq_append, under?_append_singleton] at found
    cases found

/-- A directory keeps its directories if one entry is replaced by a node that keeps them. -/
theorem keeps_insert {entries : Ledger String FileNode} {name : String} {planted : FileNode}
    (kept : ∀ node, entries.get? name = some node → Keeps node planted) :
    Keeps (.directory entries) (.directory (entries.insert name planted)) := by
  rintro names ⟨inner, found⟩
  rcases List.eq_nil_or_concat names with rfl | ⟨front, last, rfl⟩
  · exact ⟨_, rfl⟩
  · rw [List.concat_eq_append] at found ⊢
    rw [under?_append_singleton] at found
    obtain ⟨node, entered, deeper⟩ := Option.bind_eq_some_iff.mp found
    change entries.get? last = some node at entered
    rw [DirectoryAt, under?_append_singleton]
    change ∃ entries_1, ((entries.insert name planted).get? last).bind _ = _
    rw [Ledger.get?_insert]
    split
    · rename_i same
      subst same
      exact kept node entered front ⟨inner, deeper⟩
    · exact ⟨inner, found⟩

end FileNode

namespace FilePosition

open FileNode

variable {root : FileNode} {position : FilePosition}

/-- The position is one in the tree below `root`. -/
inductive Within (root : FileNode) : FilePosition → Prop where
  | top : Within root ⟨root, []⟩
  | inner {entries : Ledger String FileNode} {name : String} {node : FileNode}
      {above : List (String × Ledger String FileNode)}
      (around : Within root ⟨.directory entries, above⟩)
      (found : entries.get? name = some node) : Within root ⟨node, (name, entries) :: above⟩

/-- The names that were taken from the root, the last one first. -/
def names (position : FilePosition) : List String := position.above.map Prod.fst

theorem Within.under? (within : Within root position) :
    root.under? position.names = some position.node := by
  induction within with
  | top => rfl
  | @inner entries name node above around found ih =>
      change (root.under? (above.map Prod.fst)).bind _ = _
      rw [show root.under? (above.map Prod.fst) = _ from ih]
      exact found

theorem exists_entries {node : FileNode} (directory : node.isDirectory = true) :
    ∃ entries, node = .directory entries := by
  cases node with
  | directory entries => exact ⟨entries, rfl⟩
  | file content => cases directory
  | sink => cases directory

/-! ## Walking -/

theorem Within.up (within : Within root position) : Within root position.up := by
  cases within with
  | top => exact .top
  | inner around found => exact around

theorem names_up (position : FilePosition) : position.up.names = position.names.tail := by
  obtain ⟨node, _ | ⟨⟨name, entries⟩, above⟩⟩ := position <;> rfl

theorem enter_eq_ok_iff {name : String} {below : FilePosition} :
    position.enter name = .ok below ↔
      name.utf8ByteSize ≤ Route.longestStep ∧
        ∃ node, position.node.entries.get? name = some node ∧
          below = ⟨node, (name, position.node.entries) :: position.above⟩ := by
  unfold enter
  split
  · rename_i long
    constructor
    · rintro ⟨⟩
    · rintro ⟨short, -⟩
      omega
  · rename_i short
    cases found : position.node.entries.get? name with
    | none =>
        constructor
        · rintro ⟨⟩
        · rintro ⟨-, node, impossible, -⟩
          cases impossible
    | some node =>
        constructor
        · rintro ⟨⟩
          exact ⟨Nat.le_of_not_lt short, node, rfl, rfl⟩
        · rintro ⟨-, _, same, rfl⟩
          cases same
          rfl

theorem isDirectory_of_step {name : String} {next : FilePosition}
    (steps : position.step name = .ok next) : position.node.isDirectory = true := by
  unfold step at steps
  split at steps
  · cases steps
  · rename_i directory
    simpa using directory

theorem walk_cons_eq_ok_iff {name : String} {rest : List String} {last : FilePosition} :
    position.walk (name :: rest) = .ok last ↔
      ∃ next, position.step name = .ok next ∧ next.walk rest = .ok last := by
  rw [walk, List.foldlM_cons]
  cases position.step name with
  | error reason => simp [bind, Except.bind]
  | ok next => simp [bind, Except.bind, walk]

theorem walk_append_eq_ok_iff {front rest : List String} {last : FilePosition} :
    position.walk (front ++ rest) = .ok last ↔
      ∃ next, position.walk front = .ok next ∧ next.walk rest = .ok last := by
  rw [walk, List.foldlM_append]
  change position.walk front >>= _ = _ ↔ _
  cases position.walk front with
  | error reason => simp [bind, Except.bind]
  | ok next => simp [bind, Except.bind, walk]

theorem walk_concat {steps : List String} {between : FilePosition}
    (walks : position.walk steps = .ok between) (name : String) :
    position.walk (steps ++ [name]) = between.step name := by
  rw [walk, List.foldlM_append]
  change position.walk steps >>= _ = _
  rw [walks]
  exact bind_pure (between.step name)

/-- A route ends in a directory only if it begins in one. -/
theorem isDirectory_of_walk {steps : List String} {last : FilePosition}
    (walks : position.walk steps = .ok last) (directory : last.node.isDirectory = true) :
    position.node.isDirectory = true := by
  cases steps with
  | nil =>
      cases walks
      exact directory
  | cons name rest =>
      obtain ⟨next, stepped, -⟩ := walk_cons_eq_ok_iff.mp walks
      exact isDirectory_of_step stepped

theorem step_eq_enter (directory : position.node.isDirectory = true) {name : String}
    (stays : name ≠ ".") (goesUp : name ≠ "..") : position.step name = position.enter name := by
  rw [step, directory]
  simp [stays, goesUp]

/-- What a step in a directory does. -/
theorem step_eq_ok_iff (directory : position.node.isDirectory = true) {name : String}
    {next : FilePosition} :
    position.step name = .ok next ↔
      name = "." ∧ next = position ∨ name = ".." ∧ next = position.up ∨
        name ≠ "." ∧ name ≠ ".." ∧ position.enter name = .ok next := by
  by_cases stays : name = "."
  · simp [step, directory, stays, eq_comm]
  by_cases goesUp : name = ".."
  · simp [step, directory, goesUp, eq_comm]
  · simp [step_eq_enter directory stays goesUp, stays, goesUp]

theorem Within.enter (within : Within root position)
    (directory : position.node.isDirectory = true) {name : String} {below : FilePosition}
    (entered : position.enter name = .ok below) : Within root below := by
  obtain ⟨-, node, found, rfl⟩ := enter_eq_ok_iff.mp entered
  obtain ⟨node, above⟩ := position
  obtain ⟨entries, rfl⟩ := exists_entries directory
  exact .inner within found

theorem Within.step (within : Within root position) {name : String} {next : FilePosition}
    (stepped : position.step name = .ok next) : Within root next := by
  have directory := isDirectory_of_step stepped
  rcases (step_eq_ok_iff directory).mp stepped with ⟨-, rfl⟩ | ⟨-, rfl⟩ | ⟨-, -, entered⟩
  · exact within
  · exact within.up
  · exact within.enter directory entered

theorem Within.walk (within : Within root position) {steps : List String} {last : FilePosition}
    (walks : position.walk steps = .ok last) : Within root last := by
  induction steps generalizing position with
  | nil =>
      cases walks
      exact within
  | cons name rest ih =>
      obtain ⟨next, stepped, later⟩ := walk_cons_eq_ok_iff.mp walks
      exact ih (within.step stepped) later

/-! ## Walking in another tree -/

section Follow

variable {after : FileNode} {other : FilePosition}

/-- Positions that the same names lead to, in two trees. -/
structure Alike (root after : FileNode) (position other : FilePosition) : Prop where
  first : Within root position
  second : Within after other
  names : other.names = position.names

theorem Alike.isDirectory (kept : Keeps root after) (alike : Alike root after position other)
    (directory : position.node.isDirectory = true) : other.node.isDirectory = true := by
  obtain ⟨entries, isNode⟩ := exists_entries directory
  obtain ⟨inner, found⟩ := kept position.names ⟨entries, by rw [alike.first.under?, isNode]⟩
  rw [← alike.names, alike.second.under?] at found
  rw [Option.some.inj found]
  rfl

theorem Alike.step (kept : Keeps root after) (alike : Alike root after position other)
    {name : String} {next : FilePosition} (stepped : position.step name = .ok next)
    (directory : next.node.isDirectory = true) :
    ∃ goal, other.step name = .ok goal ∧ Alike root after next goal := by
  have begins := isDirectory_of_step stepped
  have opened := alike.isDirectory kept begins
  have within := alike.first.step stepped
  rcases (step_eq_ok_iff begins).mp stepped with
    ⟨stays, rfl⟩ | ⟨goesUp, rfl⟩ | ⟨stays, goesUp, entered⟩
  · exact ⟨other, (step_eq_ok_iff opened).mpr (Or.inl ⟨stays, rfl⟩), alike⟩
  · refine ⟨other.up, (step_eq_ok_iff opened).mpr (Or.inr (Or.inl ⟨goesUp, rfl⟩)), within,
      alike.second.up, ?_⟩
    rw [names_up, names_up, alike.names]
  · obtain ⟨short, node, found, rfl⟩ := enter_eq_ok_iff.mp entered
    obtain ⟨entries, isNode⟩ := exists_entries directory
    have below : root.under? (name :: position.names) = some (.directory entries) :=
      within.under?.trans (congrArg some isNode)
    obtain ⟨inner, there⟩ := kept _ ⟨entries, below⟩
    rw [← alike.names, FileNode.under?, alike.second.under?, Option.bind_some] at there
    have goal := enter_eq_ok_iff.mpr ⟨short, _, there, rfl⟩
    refine ⟨_, (step_eq_ok_iff opened).mpr (Or.inr (Or.inr ⟨stays, goesUp, goal⟩)), within,
      alike.second.enter opened goal, ?_⟩
    exact congrArg (name :: ·) alike.names

/-- A route to a directory leads there in every tree that keeps the directories. -/
theorem Alike.walk (kept : Keeps root after) (alike : Alike root after position other)
    {steps : List String} {last : FilePosition} (walks : position.walk steps = .ok last)
    (directory : last.node.isDirectory = true) :
    ∃ goal, other.walk steps = .ok goal ∧ Alike root after last goal := by
  induction steps generalizing position other with
  | nil =>
      cases walks
      exact ⟨other, rfl, alike⟩
  | cons name rest ih =>
      obtain ⟨next, stepped, later⟩ := walk_cons_eq_ok_iff.mp walks
      obtain ⟨between, follows, near⟩ :=
        alike.step kept stepped (isDirectory_of_walk later directory)
      obtain ⟨goal, ends, there⟩ := ih near later
      exact ⟨goal, walk_cons_eq_ok_iff.mpr ⟨between, follows, ends⟩, there⟩

end Follow

/-! ## Planting -/

/-- A node that is put in the place of another is found by the same names. -/
theorem Within.planted (within : Within root position) (planted : FileNode) :
    ∃ beside : FilePosition, beside.node = planted ∧ beside.names = position.names ∧
      Within { position with node := planted }.root beside := by
  induction within generalizing planted with
  | top => exact ⟨⟨planted, []⟩, rfl, rfl, .top⟩
  | @inner entries name node above around found ih =>
      -- the directory around has a new entry, and so it is put in its own place as well
      obtain ⟨⟨_, beside⟩, rfl, names, within⟩ := ih (.directory (entries.insert name planted))
      have entered : (entries.insert name planted).get? name = some planted := by
        rw [Ledger.get?_insert, if_pos rfl]
      exact ⟨⟨planted, (name, entries.insert name planted) :: beside⟩, rfl,
        congrArg (name :: ·) names, .inner within entered⟩

/-- A tree keeps its directories if a node is replaced by one that keeps them. -/
theorem Within.keeps (within : Within root position) {planted : FileNode}
    (kept : Keeps position.node planted) : Keeps root { position with node := planted }.root := by
  induction within generalizing planted with
  | top => exact kept
  | @inner entries name node above around found ih =>
      refine ih (keeps_insert fun present entered => ?_)
      cases found.symm.trans entered
      exact kept

end FilePosition

namespace FileTree

open FilePosition FileNode

variable {tree : FileTree} {name : String} {position : FilePosition} {last : String}

/-! ## Where a name leads -/

/-- A route that ends in a name is walked up to the directory in front of it. -/
theorem exists_of_approach {route : Route}
    (near : tree.approach route = .ok (position, some last)) :
    ∃ start steps, tree.start route = .ok start ∧ route.steps = steps ++ [last] ∧
      start.walk steps = .ok position ∧ position.node.isDirectory = true ∧
      last ≠ "." ∧ last ≠ ".." := by
  unfold approach at near
  cases starts : tree.start route with
  | error reason =>
      rw [starts] at near
      cases near
  | ok start =>
      cases walks : start.walk route.steps.dropLast with
      | error reason =>
          simp only [starts, walks, bind, Except.bind] at near
          cases near
      | ok between =>
          simp only [starts, walks, bind, Except.bind] at near
          split at near
          · cases near
          rename_i directory
          split at near
          · cases near
          · cases near
          · cases near
          · rename_i stays goesUp ends
            cases near
            have parted := (List.dropLast_append_getLast? last ends).symm
            exact ⟨start, _, rfl, parted, walks, by simpa using directory, stays, goesUp⟩

/-- The whole route leads to the entry. -/
theorem walk_of_approach {route : Route}
    (near : tree.approach route = .ok (position, some last)) :
    ∃ start, tree.start route = .ok start ∧ start.walk route.steps = position.enter last := by
  obtain ⟨start, steps, starts, parted, walks, directory, stays, goesUp⟩ := exists_of_approach near
  refine ⟨start, starts, ?_⟩
  rw [parted, walk_concat walks, step_eq_enter directory stays goesUp]

theorem approach_of {route : Route} {start : FilePosition} {steps : List String}
    (starts : tree.start route = .ok start) (parted : route.steps = steps ++ [last])
    (walks : start.walk steps = .ok position) (directory : position.node.isDirectory = true)
    (stays : last ≠ ".") (goesUp : last ≠ "..") :
    tree.approach route = .ok (position, some last) := by
  unfold approach
  simp only [starts, parted, List.dropLast_concat, List.getLast?_concat, walks, bind, Except.bind,
    directory, Bool.not_true, Bool.false_eq_true, if_false]

/-- The name means an entry of a directory that is there, by its last step. -/
inductive Leads (tree : FileTree) (name : String) : FilePosition → String → Prop where
  | intro {route : Route} {position : FilePosition} {last : String}
      (reads : Route.read name = .ok route) (flat : route.endsInSlash = false)
      (near : tree.approach route = .ok (position, some last)) : Leads tree name position last

theorem Leads.find (leads : Leads tree name position last) :
    tree.find name = (position.enter last).map FilePosition.node := by
  obtain ⟨reads, flat, near⟩ := leads
  obtain ⟨start, starts, whole⟩ := walk_of_approach near
  unfold FileTree.find
  simp only [reads, starts, whole, flat, bind, Except.bind, Bool.false_and]
  cases position.enter last <;> rfl

theorem within_start {route : Route} {start : FilePosition}
    (starts : tree.start route = .ok start) : Within tree.root start := by
  unfold FileTree.start at starts
  split at starts
  · cases starts
    exact .top
  · exact Within.walk .top starts

theorem Leads.within (leads : Leads tree name position last) : Within tree.root position := by
  obtain ⟨reads, flat, near⟩ := leads
  obtain ⟨start, steps, starts, -, walks, -⟩ := exists_of_approach near
  exact (within_start starts).walk walks

theorem Leads.isDirectory (leads : Leads tree name position last) :
    position.node.isDirectory = true := by
  obtain ⟨reads, flat, near⟩ := leads
  obtain ⟨_, _, _, _, _, directory, _⟩ := exists_of_approach near
  exact directory

/-- A name means the same entry in every tree that keeps the directories. -/
theorem Leads.follow (leads : Leads tree name position last) {root : FileNode}
    (kept : Keeps tree.root root) :
    ∃ goal, Leads { tree with root := root } name goal last ∧
      Alike tree.root root position goal := by
  obtain ⟨reads, flat, near⟩ := leads
  rename_i route
  obtain ⟨start, steps, starts, parted, walks, directory, stays, goesUp⟩ := exists_of_approach near
  have top : Alike tree.root root ⟨tree.root, []⟩ ⟨root, []⟩ := ⟨.top, .top, rfl⟩
  obtain ⟨first, begins, alike⟩ : ∃ first,
      FileTree.start { tree with root := root } route = .ok first ∧
        Alike tree.root root start first := by
    unfold FileTree.start at starts ⊢
    split
    · rw [if_pos ‹_›] at starts
      cases starts
      exact ⟨_, rfl, top⟩
    · rw [if_neg ‹_›] at starts
      exact top.walk kept starts (isDirectory_of_walk walks directory)
  obtain ⟨goal, follows, there⟩ := alike.walk kept walks directory
  refine ⟨goal, .intro reads flat ?_, there⟩
  exact approach_of begins parted follows (there.isDirectory kept directory) stays goesUp

/-- A file or nothing at all stands there, so that a file can be put there. -/
def Free (position : FilePosition) (last : String) : Prop :=
  position.enter last = .error .missing ∨
    ∃ content above, position.enter last = .ok ⟨.file content, above⟩

/-- The tree with a file at a place. -/
def planted (tree : FileTree) (position : FilePosition) (last content : String) : FileTree :=
  { tree with root := (position.insert last (.file (some content))).root }

theorem Leads.write (leads : Leads tree name position last) (free : Free position last)
    (content : String) : tree.write name content = .ok (tree.planted position last content) := by
  obtain ⟨reads, flat, near⟩ := leads
  unfold FileTree.write
  rcases free with entered | ⟨_, _, entered⟩
  · simp only [reads, near, flat, entered, bind, Except.bind]
    rfl
  · simp only [reads, near, flat, entered, bind, Except.bind]
    rfl

theorem Free.short (free : Free position last) : last.utf8ByteSize ≤ Route.longestStep := by
  rcases free with entered | ⟨content, above, entered⟩
  · unfold FilePosition.enter at entered
    split at entered
    · cases entered
    · exact Nat.le_of_not_lt ‹_›
  · exact (enter_eq_ok_iff.mp entered).1

/-- Where a file can be put no directory is lost. -/
theorem Free.keeps (free : Free position last) (node : FileNode)
    (found : position.node.entries.get? last = some node) (planted : FileNode) :
    Keeps node planted := by
  have entered := enter_eq_ok_iff.mpr ⟨free.short, node, found, rfl⟩
  rcases free with missing | ⟨content, above, held⟩
  · cases missing.symm.trans entered
  · cases held.symm.trans entered
    exact keeps_file content planted

/-- The file of the name is there with this content. -/
def Holds (tree : FileTree) (name content : String) : Prop :=
  ∃ position last above, Leads tree name position last ∧
    position.enter last = .ok ⟨.file (some content), above⟩

theorem Holds.find {content : String} (holds : Holds tree name content) :
    tree.find name = .ok (.file (some content)) := by
  obtain ⟨position, last, above, leads, entered⟩ := holds
  rw [leads.find, entered]
  rfl

/-- A file that has been put somewhere is there. -/
theorem Leads.holds (leads : Leads tree name position last) (free : Free position last)
    (content : String) : Holds (tree.planted position last content) name content := by
  have shape : FileNode.directory position.node.entries = position.node := by
    obtain ⟨entries, isNode⟩ := exists_entries leads.isDirectory
    rw [isNode]
    rfl
  have kept : Keeps position.node
      (.directory (position.node.entries.insert last (.file (some content)))) := by
    have inside := keeps_insert fun node found => free.keeps node found (.file (some content))
    rwa [shape] at inside
  obtain ⟨goal, there, alike⟩ := leads.follow (leads.within.keeps kept)
  obtain ⟨beside, node, names, within⟩ := leads.within.planted
    (.directory (position.node.entries.insert last (.file (some content))))
  have same : goal.node = beside.node := by
    have found := within.under?
    rw [names, ← alike.names, alike.second.under?] at found
    exact Option.some.inj found
  refine ⟨goal, last, _, there, enter_eq_ok_iff.mpr ⟨free.short, _, ?_, rfl⟩⟩
  rw [same, node]
  change Ledger.get? (position.node.entries.insert last _) last = _
  rw [Ledger.get?_insert, if_pos rfl]

/-- What is written goes to the place that the name means, unless a sink swallows it. -/
theorem exists_of_write {content : String} {after : FileTree}
    (wrote : tree.write name content = .ok after) :
    ∃ position last, Leads tree name position last ∧
      (tree.find name = .ok .sink ∧ after = tree ∨
        Free position last ∧ after = tree.planted position last content) := by
  unfold FileTree.write at wrote
  cases reads : Route.read name with
  | error reason =>
      simp only [reads, bind, Except.bind] at wrote
      cases wrote
  | ok route =>
      cases near : tree.approach route with
      | error reason =>
          simp only [reads, near, bind, Except.bind] at wrote
          cases wrote
      | ok approached =>
          obtain ⟨position, _ | last⟩ := approached
          · simp only [reads, near, bind, Except.bind] at wrote
            cases wrote
          · simp only [reads, near, bind, Except.bind] at wrote
            split at wrote
            · cases wrote
            rename_i flat
            have leads : Leads tree name position last := .intro reads (by simpa using flat) near
            refine ⟨position, last, leads, ?_⟩
            split at wrote
            · cases wrote
            · rename_i entered
              cases wrote
              exact Or.inl ⟨by rw [leads.find, entered]; rfl, rfl⟩
            · rename_i entered
              cases wrote
              exact Or.inr ⟨Or.inr ⟨_, _, entered⟩, rfl⟩
            · rename_i entered
              cases wrote
              exact Or.inr ⟨Or.inl entered, rfl⟩
            · cases wrote

/-! ## Saving -/

/-- Nothing can be made where something is. -/
theorem exists_error_of_isPresent (present : tree.isPresent name = true) :
    ∃ reason, tree.makeDirectory name = .error reason := by
  unfold FileTree.makeDirectory
  cases reads : Route.read name with
  | error reason => exact ⟨reason, rfl⟩
  | ok route =>
      cases near : tree.approach route with
      | error reason => exact ⟨reason, by simp only [near, bind, Except.bind]⟩
      | ok approached =>
          obtain ⟨position, _ | last⟩ := approached
          · exact ⟨.occupied, by simp only [near, bind, Except.bind]⟩
          · simp only [near, bind, Except.bind]
            split
            · exact ⟨_, rfl⟩
            · rename_i entered
              exfalso
              -- the last step of the route fails, and so nothing is found by the name
              obtain ⟨start, starts, whole⟩ := walk_of_approach near
              have absent : tree.find name = .error .missing := by
                unfold FileTree.find
                simp only [reads, starts, whole, entered, bind, Except.bind]
              rw [isPresent, absent] at present
              cases present
            · exact ⟨_, rfl⟩

/-- The nearest directory around an entry is there. -/
theorem Leads.near {near : String} {further : List String}
    (leads : Leads tree name position last) (begins : Route.directories name = near :: further) :
    tree.isDirectory near = true := by
  obtain ⟨reads, flat, approached⟩ := leads
  obtain ⟨around, behind, front, same, parted, more⟩ := Route.read_near reads begins
  obtain ⟨start, steps, starts, ends, walks, directory, -⟩ := exists_of_approach approached
  -- something of the route is left behind the directory, so the walk has passed through it
  obtain ⟨others, final, rfl⟩ := List.eq_nil_or_concat behind |>.resolve_left more
  rw [ends, List.concat_eq_append, ← List.append_assoc] at parted
  obtain ⟨rfl, -⟩ := List.append_inj' parted rfl
  obtain ⟨between, there, later⟩ := walk_append_eq_ok_iff.mp walks
  have opened := isDirectory_of_walk later directory
  have again : tree.start around = .ok start := by
    rw [← starts, FileTree.start, FileTree.start, same]
  have found : tree.find near = .ok between.node := by
    unfold FileTree.find
    simp only [front, again, there, opened, bind, Except.bind, Bool.not_true, Bool.and_false,
      Bool.false_eq_true, if_false]
  rw [FileTree.isDirectory, found]
  exact opened

/-- As the nearest directory is there, none is made. -/
theorem ensureDirectories_eq (leads : Leads tree name position last) :
    disk.ensureDirectories (Route.directories name) tree = (.ok (), tree) := by
  cases begins : Route.directories name with
  | nil => rfl
  | cons near further =>
      have directory := leads.near begins
      have present : tree.isPresent near = true := by
        unfold FileTree.isDirectory at directory
        unfold isPresent
        split at directory
        · rfl
        · cases directory
      obtain ⟨reason, stops⟩ := exists_error_of_isPresent present
      have made : disk.makeDirectory near tree = (.error reason, tree) := by
        have acts : disk.makeDirectory near tree =
          change (fun tree => tree.makeDirectory near) tree := rfl
        rw [acts, change, stops]
      have isThere : disk.isDirectory near tree = (true, tree) := by
        change (tree.isDirectory near, tree) = _
        rw [directory]
      have ensured : disk.ensureDirectory near tree = (.ok (), tree) := by
        unfold Disk.ensureDirectory
        simp only [bind, StateT.bind, made, isThere]
        rfl
      unfold Disk.ensureDirectories
      simp only [bind, StateT.bind, ensured]
      rfl

/-- A file is saved in two acts. -/
theorem save_eq_ok_iff {content : String} {after : FileTree} :
    disk.save name content tree = (.ok (), after) ↔
      ∃ between, disk.ensureDirectories (Route.directories name) tree = (.ok (), between) ∧
        between.write name content = .ok after := by
  unfold Disk.save
  rcases ensured : disk.ensureDirectories (Route.directories name) tree with
    ⟨reason | ⟨⟨⟩⟩, between⟩
  · simp only [bind, StateT.bind, ensured]
    constructor
    · rintro ⟨⟩
    · rintro ⟨_, ⟨⟩, -⟩
  · have acts : disk.write name content between =
        change (fun tree => tree.write name content) between := rfl
    simp only [bind, StateT.bind, ensured]
    change disk.write name content between = _ ↔ _
    rw [acts, change]
    constructor
    · intro wrote
      refine ⟨between, rfl, ?_⟩
      cases result : between.write name content with
      | error reason =>
          rw [result] at wrote
          cases wrote
      | ok written =>
          rw [result] at wrote
          cases wrote
          rfl
    · rintro ⟨_, ⟨⟩, wrote⟩
      rw [wrote]

/-- A file that is there is saved with any content. -/
theorem Holds.save {held : String} (holds : Holds tree name held) (content : String) :
    ∃ after, disk.save name content tree = (.ok (), after) ∧ Holds after name content := by
  obtain ⟨position, last, above, leads, entered⟩ := holds
  have free : Free position last := Or.inr ⟨_, above, entered⟩
  refine ⟨_, save_eq_ok_iff.mpr ⟨tree, ensureDirectories_eq leads, leads.write free content⟩, ?_⟩
  exact leads.holds free content

/-- There is no file of the name yet, and one that is saved is kept. -/
structure Usable (tree : FileTree) (name : String) : Prop where
  vacant : tree.isPresent name = false
  kept : ∃ content after, disk.save name content tree = (.ok (), after) ∧
    after.find name = .ok (.file (some content))

/-- Where one content can be saved, every other can. -/
theorem Usable.save (usable : Usable tree name) (content : String) :
    ∃ after, disk.save name content tree = (.ok (), after) ∧ Holds after name content := by
  obtain ⟨first, after, saved, found⟩ := usable.kept
  obtain ⟨between, ensured, wrote⟩ := save_eq_ok_iff.mp saved
  obtain ⟨position, last, leads, ⟨swallows, rfl⟩ | ⟨free, rfl⟩⟩ := exists_of_write wrote
  · cases swallows.symm.trans found
  · exact ⟨_, save_eq_ok_iff.mpr ⟨between, ensured, leads.write free content⟩,
      leads.holds free content⟩

end FileTree

end LinkAtlas
