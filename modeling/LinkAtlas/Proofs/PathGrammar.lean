import LinkAtlas.Query.Tree

/-!
# The grammar of paths

A path is well formed if it begins with a hop and none of its branches is empty, however deep. Such
a path compiles to its first hop with the forest of what follows below it. Every other path is
turned down for the first fault in textual order, and an empty branch is told by the position at
which it stands.
-/

namespace LinkAtlas

namespace PathStep

/-! ## Forests -/

mutual

/-- The trees that a list of steps stands for. -/
def forest : List PathStep → List QueryTree
  | [] => []
  | step :: rest => step.followedBy (forest rest)

/-- The trees of a step, where `behind` are those of the steps after it. They go under a hop and
beside a branch. -/
def followedBy : PathStep → List QueryTree → List QueryTree
  | hop label, behind => [⟨label, behind⟩]
  | branch inner, behind => forest inner ++ behind

end

@[simp] theorem forest_nil : forest [] = [] := rfl

@[simp] theorem forest_hop (label : Label) (rest : List PathStep) :
    forest (hop label :: rest) = [⟨label, forest rest⟩] := rfl

@[simp] theorem forest_branch (inner rest : List PathStep) :
    forest (branch inner :: rest) = forest inner ++ forest rest := rfl

mutual

/-- The labels of all hops, at any depth, in textual order. -/
def hops : List PathStep → List Label
  | [] => []
  | step :: rest => step.ownHops ++ hops rest

def ownHops : PathStep → List Label
  | hop label => [label]
  | branch inner => hops inner

end

/-! ## Positions -/

def label? : PathStep → Option Label
  | hop label => some label
  | branch _ => none

/-- The position after some steps that began at `start`: the last hop among them, if there is one.
Branches leave the position as it is. -/
def cursor (start : Label) (steps : List PathStep) : Label :=
  (steps.filterMap label?).getLast?.getD start

/-- The steps at an address, and the position at which they begin. Each number of the address tells
which step to enter, and that step has to be a branch. -/
def stepsAt? (start : Label) (steps : List PathStep) :
    List Nat → Option (Label × List PathStep)
  | [] => some (start, steps)
  | place :: address =>
      match steps[place]? with
      | some (branch inner) => stepsAt? (cursor start (steps.take place)) inner address
      | _ => none

/-- At this address there is a branch without steps, and it begins at the position `label`. -/
def EmptyAt (start : Label) (steps : List PathStep) (address : List Nat) (label : Label) : Prop :=
  address ≠ [] ∧ stepsAt? start steps address = some (label, [])

/-- Of two addresses the first one comes no later in the text: the order is that of words. -/
def NoLater : List Nat → List Nat → Prop
  | [], _ => True
  | _ :: _, [] => False
  | place :: deeper, next :: below => place < next ∨ place = next ∧ NoLater deeper below

/-- The first empty branch in textual order begins at the position `label`. -/
def FirstEmpty (start : Label) (steps : List PathStep) (label : Label) : Prop :=
  ∃ address, EmptyAt start steps address label ∧
    ∀ other position, EmptyAt start steps other position → NoLater address other

variable {start label : Label} {inner rest : List PathStep} {address : List Nat}

theorem cursor_hop (start label : Label) (steps : List PathStep) :
    cursor start (hop label :: steps) = cursor label steps := by
  simp [cursor, label?, List.getLast?_cons]

theorem cursor_branch (start : Label) (inner steps : List PathStep) :
    cursor start (branch inner :: steps) = cursor start steps := by
  simp [cursor, label?]

theorem not_emptyAt_nil : ¬ EmptyAt start [] address label := by
  rintro ⟨somewhere, found⟩
  cases address with
  | nil => exact somewhere rfl
  | cons place deeper => cases found

/-- Behind a hop everything stands one place further on and begins at the hop. -/
theorem emptyAt_hop {position : Label} :
    EmptyAt start (hop position :: rest) address label ↔
      ∃ place deeper, address = (place + 1) :: deeper ∧
        EmptyAt position rest (place :: deeper) label := by
  constructor
  · rintro ⟨somewhere, found⟩
    rcases address with _ | ⟨_ | place, deeper⟩
    · exact absurd rfl somewhere
    · cases found
    · refine ⟨place, deeper, rfl, List.cons_ne_nil _ _, ?_⟩
      simpa [stepsAt?, cursor_hop] using found
  · rintro ⟨place, deeper, rfl, -, found⟩
    refine ⟨List.cons_ne_nil _ _, ?_⟩
    simpa [stepsAt?, cursor_hop] using found

/-- What is empty is found inside a branch that is not empty itself, or behind it. -/
theorem emptyAt_branch (filled : inner ≠ []) :
    EmptyAt start (branch inner :: rest) address label ↔
      (∃ deeper, address = 0 :: deeper ∧ EmptyAt start inner deeper label) ∨
        ∃ place deeper, address = (place + 1) :: deeper ∧
          EmptyAt start rest (place :: deeper) label := by
  constructor
  · rintro ⟨somewhere, found⟩
    rcases address with _ | ⟨_ | place, deeper⟩
    · exact absurd rfl somewhere
    · refine Or.inl ⟨deeper, rfl, ?_, found⟩
      rintro rfl
      cases found
      exact filled rfl
    · refine Or.inr ⟨place, deeper, rfl, List.cons_ne_nil _ _, ?_⟩
      simpa [stepsAt?, cursor_branch] using found
  · rintro (⟨deeper, rfl, -, found⟩ | ⟨place, deeper, rfl, -, found⟩)
    · exact ⟨List.cons_ne_nil _ _, found⟩
    · refine ⟨List.cons_ne_nil _ _, ?_⟩
      simpa [stepsAt?, cursor_branch] using found

/-! ## The first empty branch -/

theorem noLater_cons_iff {place next : Nat} {deeper below : List Nat} :
    NoLater (place :: deeper) (next :: below) ↔
      place < next ∨ place = next ∧ NoLater deeper below := Iff.rfl

theorem NoLater.antisymm : ∀ {first second : List Nat},
    NoLater first second → NoLater second first → first = second
  | [], [], _, _ => rfl
  | _ :: _, _ :: _, before, after => by
      rw [noLater_cons_iff] at before after
      rcases before with less | ⟨rfl, deeper⟩
      · omega
      · rcases after with less | ⟨-, below⟩
        · omega
        · rw [deeper.antisymm below]

theorem FirstEmpty.unique {other : Label} (one : FirstEmpty start rest label)
    (two : FirstEmpty start rest other) : label = other := by
  obtain ⟨address, here, first⟩ := one
  obtain ⟨elsewhere, there, earliest⟩ := two
  have same : address = elsewhere :=
    (first _ _ there).antisymm (earliest _ _ here)
  have found := here.2
  rw [same, there.2] at found
  cases found
  rfl

/-- One place further on, the order of addresses is the same. -/
theorem NoLater.shift {place next : Nat} {deeper below : List Nat}
    (before : NoLater (place :: deeper) (next :: below)) :
    NoLater ((place + 1) :: deeper) ((next + 1) :: below) := by
  rw [noLater_cons_iff] at before ⊢
  exact before.imp Nat.succ_lt_succ fun ⟨same, later⟩ => ⟨congrArg (· + 1) same, later⟩

theorem FirstEmpty.hop {position : Label} (first : FirstEmpty position rest label) :
    FirstEmpty start (hop position :: rest) label := by
  obtain ⟨address, found, earliest⟩ := first
  obtain ⟨place, deeper, rfl⟩ := List.exists_cons_of_ne_nil found.1
  refine ⟨(place + 1) :: deeper, emptyAt_hop.mpr ⟨place, deeper, rfl, found⟩, ?_⟩
  intro other late empty
  obtain ⟨next, below, rfl, inside⟩ := emptyAt_hop.mp empty
  exact (earliest _ _ inside).shift

theorem firstEmpty_here : FirstEmpty start (branch [] :: rest) start := by
  refine ⟨[0], ⟨List.cons_ne_nil _ _, rfl⟩, ?_⟩
  rintro other late ⟨somewhere, -⟩
  obtain ⟨place, deeper, rfl⟩ := List.exists_cons_of_ne_nil somewhere
  rw [noLater_cons_iff]
  rcases Nat.eq_zero_or_pos place with here | later
  · exact Or.inr ⟨here.symm, trivial⟩
  · exact Or.inl later

theorem FirstEmpty.inside (filled : inner ≠ []) (first : FirstEmpty start inner label) :
    FirstEmpty start (branch inner :: rest) label := by
  obtain ⟨address, found, earliest⟩ := first
  refine ⟨0 :: address, (emptyAt_branch filled).mpr (Or.inl ⟨address, rfl, found⟩), ?_⟩
  intro other late empty
  rw [emptyAt_branch filled] at empty
  obtain ⟨deeper, rfl, within⟩ | ⟨place, deeper, rfl, -⟩ := empty
  · exact Or.inr ⟨rfl, earliest _ _ within⟩
  · exact Or.inl (Nat.succ_pos place)

theorem FirstEmpty.behind (filled : inner ≠ [])
    (none : ∀ address label, ¬ EmptyAt start inner address label)
    (first : FirstEmpty start rest label) : FirstEmpty start (branch inner :: rest) label := by
  obtain ⟨address, found, earliest⟩ := first
  obtain ⟨place, deeper, rfl⟩ := List.exists_cons_of_ne_nil found.1
  refine ⟨(place + 1) :: deeper,
    (emptyAt_branch filled).mpr (Or.inr ⟨place, deeper, rfl, found⟩), ?_⟩
  intro other late empty
  rw [emptyAt_branch filled] at empty
  obtain ⟨below, rfl, within⟩ | ⟨next, below, rfl, inside⟩ := empty
  · exact absurd within (none _ _)
  · exact (earliest _ _ inside).shift

end PathStep

namespace QueryTree

open PathStep

/-! ## Compiling -/

/-- What comes of growing a node by steps: their forest among the children of the node, or an error
for the first empty branch. -/
inductive Grown (node : QueryTree) (steps : List PathStep) : Except GraphError QueryTree → Prop where
  | whole (none : ∀ address label, ¬ EmptyAt node.label steps address label) :
      Grown node steps (.ok { node with children := node.children ++ forest steps })
  | faulty {label : Label} (first : FirstEmpty node.label steps label) :
      Grown node steps (.error (.emptyBranch label))

/-- After a hop the steps that follow grow the hop, and the hop joins the children of the node. -/
theorem Grown.hop {label : Label} {rest : List PathStep} {outcome : Except GraphError QueryTree}
    (below : Grown (leaf label) rest outcome) (node : QueryTree) :
    Grown node (.hop label :: rest) (outcome.map node.addChild) := by
  cases below with
  | whole none =>
      refine .whole fun address position empty => ?_
      obtain ⟨place, deeper, -, inside⟩ := emptyAt_hop.mp empty
      exact none _ _ inside
  | faulty first => exact .faulty first.hop

/-- After a branch the steps that follow grow the same node. -/
theorem Grown.branch {node : QueryTree} {inner rest : List PathStep} (filled : inner ≠ [])
    (none : ∀ address label, ¬ EmptyAt node.label inner address label)
    {outcome : Except GraphError QueryTree}
    (onward : Grown { node with children := node.children ++ forest inner } rest outcome) :
    Grown node (.branch inner :: rest) outcome := by
  cases onward with
  | whole later =>
      have whole : Grown node (.branch inner :: rest) _ := .whole fun address position empty => by
        rw [emptyAt_branch filled] at empty
        obtain ⟨deeper, -, within⟩ | ⟨place, deeper, -, inside⟩ := empty
        · exact none _ _ within
        · exact later _ _ inside
      rwa [forest_branch, ← List.append_assoc] at whole
  | faulty first => exact .faulty (first.behind filled none)

theorem grown_attach : ∀ (steps : List PathStep) (node : QueryTree),
    Grown node steps (attach node steps)
  | [], ⟨label, children⟩ => by
      have whole : Grown ⟨label, children⟩ [] _ := .whole fun _ _ => not_emptyAt_nil
      rw [forest_nil, List.append_nil] at whole
      exact whole
  | .hop label :: rest, node => by
      have below := (grown_attach rest (leaf label)).hop node
      rw [attach, attachStep]
      cases outcome : attach (leaf label) rest with
      | error reason => rwa [outcome] at below
      | ok child => rwa [outcome] at below
  | PathStep.branch [] :: rest, node => .faulty firstEmpty_here
  | PathStep.branch (first :: others) :: rest, node => by
      have filled : first :: others ≠ [] := List.cons_ne_nil _ _
      have within := grown_attach (first :: others) node
      rw [attach, attachStep]
      cases outcome : attach node (first :: others) with
      | error reason =>
          rw [outcome] at within
          cases within with
          | faulty found => exact .faulty (found.inside filled)
      | ok grown =>
          rw [outcome] at within
          cases within with
          | whole none =>
              exact .branch filled none (grown_attach rest _)

/-! ## The whole path -/

mutual

/-- The labels of a tree, those of a node before those below it. -/
def preorder : QueryTree → List Label
  | ⟨label, children⟩ => label :: preorderAll children

def preorderAll : List QueryTree → List Label
  | [] => []
  | tree :: rest => tree.preorder ++ preorderAll rest

end

theorem preorderAll_append (first second : List QueryTree) :
    preorderAll (first ++ second) = preorderAll first ++ preorderAll second := by
  induction first with
  | nil => rfl
  | cons tree rest ih => rw [List.cons_append, preorderAll, preorderAll, ih, List.append_assoc]

/-- A forest has the labels of its steps, each at its place in the text. -/
theorem preorderAll_forest : ∀ steps : List PathStep, preorderAll (forest steps) = hops steps
  | [] => rfl
  | .hop label :: rest => by
      rw [forest_hop, preorderAll, preorder, preorderAll_forest rest, preorderAll, List.append_nil,
        hops, ownHops, List.singleton_append]
  | PathStep.branch inner :: rest => by
      rw [forest_branch, preorderAll_append, preorderAll_forest inner, preorderAll_forest rest,
        hops, ownHops]

/-- What compiling a path comes to, by its first step. -/
inductive Compiled : List PathStep → Except GraphError QueryTree → Prop where
  | empty : Compiled [] (.error .emptyQuery)
  | rootless (inner rest : List PathStep) :
      Compiled (.branch inner :: rest) (.error .rootMissing)
  | rooted {root : Label} {rest : List PathStep} {outcome : Except GraphError QueryTree}
      (grown : Grown (leaf root) rest outcome) : Compiled (.hop root :: rest) outcome

theorem compiled (path : QueryPath) : Compiled path.steps (compile path) := by
  obtain ⟨steps⟩ := path
  match steps with
  | [] => exact .empty
  | PathStep.branch inner :: rest => exact .rootless inner rest
  | .hop root :: rest => exact .rooted (grown_attach rest (leaf root))

theorem compile_eq_ok_iff {path : QueryPath} {tree : QueryTree} :
    compile path = .ok tree ↔ ∃ root rest, path.steps = .hop root :: rest ∧
      (∀ address label, ¬ EmptyAt root rest address label) ∧ tree = ⟨root, forest rest⟩ := by
  have outcome := compiled path
  generalize compile path = answer, path.steps = steps at outcome ⊢
  constructor
  · rintro rfl
    cases outcome with
    | rooted grown =>
        cases grown with
        | whole none => exact ⟨_, _, rfl, none, rfl⟩
  · rintro ⟨root, rest, rfl, none, rfl⟩
    cases outcome with
    | rooted grown =>
        cases grown with
        | whole => rfl
        | faulty first =>
            obtain ⟨address, empty, -⟩ := first
            exact absurd empty (none _ _)

theorem compile_eq_emptyBranch_iff {path : QueryPath} {label : Label} :
    compile path = .error (.emptyBranch label) ↔
      ∃ root rest, path.steps = .hop root :: rest ∧ FirstEmpty root rest label := by
  have outcome := compiled path
  generalize compile path = answer, path.steps = steps at outcome ⊢
  constructor
  · rintro rfl
    cases outcome with
    | rooted grown =>
        cases grown with
        | faulty first => exact ⟨_, _, rfl, first⟩
  · rintro ⟨root, rest, rfl, first⟩
    cases outcome with
    | rooted grown =>
        cases grown with
        | whole none =>
            obtain ⟨address, empty, -⟩ := first
            exact absurd empty (none _ _)
        | faulty other => rw [other.unique first]

/-- Where there are empty branches, one of them is the first. -/
theorem exists_emptyBranch_iff {path : QueryPath} :
    (∃ label, compile path = .error (.emptyBranch label)) ↔
      ∃ root rest, path.steps = .hop root :: rest ∧
        ∃ address label, EmptyAt root rest address label := by
  constructor
  · rintro ⟨label, failed⟩
    obtain ⟨root, rest, begins, address, empty, -⟩ := compile_eq_emptyBranch_iff.mp failed
    exact ⟨root, rest, begins, address, label, empty⟩
  · rintro ⟨root, rest, begins, address, label, empty⟩
    have outcome := compiled path
    rw [begins] at outcome
    generalize compile path = answer at outcome ⊢
    cases outcome with
    | rooted grown =>
        cases grown with
        | whole none => exact absurd empty (none _ _)
        | faulty first => exact ⟨_, rfl⟩

theorem preorder_of_compile {path : QueryPath} {tree : QueryTree}
    (compiles : compile path = .ok tree) : tree.preorder = hops path.steps := by
  obtain ⟨root, rest, begins, -, rfl⟩ := compile_eq_ok_iff.mp compiles
  rw [begins, preorder, preorderAll_forest, hops, ownHops, List.singleton_append]

/-- A path compiles exactly if it begins with a hop and has no empty branch. Its tree is the first
hop with the forest of the rest below it, so no hop is lost; and of the faults that a path may have
the first one in the text is told. -/
theorem compile_follows_grammar (path : QueryPath) :
    (compile path = .error .emptyQuery ↔ path.steps = []) ∧
      (compile path = .error .rootMissing ↔
        ∃ inner rest, path.steps = .branch inner :: rest) ∧
      ((∃ label, compile path = .error (.emptyBranch label)) ↔
        ∃ root rest, path.steps = .hop root :: rest ∧
          ∃ address label, EmptyAt root rest address label) ∧
      (∀ label, compile path = .error (.emptyBranch label) ↔
        ∃ root rest, path.steps = .hop root :: rest ∧ FirstEmpty root rest label) ∧
      (∀ tree, compile path = .ok tree ↔
        ∃ root rest, path.steps = .hop root :: rest ∧
          (∀ address label, ¬ EmptyAt root rest address label) ∧ tree = ⟨root, forest rest⟩) ∧
      ∀ tree, compile path = .ok tree → tree.preorder = hops path.steps := by
  have beginning : (compile path = .error .emptyQuery ↔ path.steps = []) ∧
      (compile path = .error .rootMissing ↔
        ∃ inner rest, path.steps = .branch inner :: rest) := by
    have outcome := compiled path
    generalize compile path = answer, path.steps = steps at outcome ⊢
    cases outcome with
    | empty | rootless => simp
    | rooted grown => cases grown <;> simp
  exact ⟨beginning.1, beginning.2, exists_emptyBranch_iff, fun _ => compile_eq_emptyBranch_iff,
    fun _ => compile_eq_ok_iff, fun _ => preorder_of_compile⟩

/-- A path with branches in branches and a hop after them. -/
def winding : QueryPath :=
  ⟨[.hop "person", .branch [.branch [.hop "knows", .hop "name"], .hop "likes"], .hop "name"]⟩

/-- A path with two empty branches, the deeper of which comes first. -/
def gaping : QueryPath :=
  ⟨[.hop "person", .branch [.branch [.hop "likes"], .hop "knows", .branch []], .branch []]⟩

theorem compile_follows_grammar_winding :
    compile winding = .ok ⟨"person",
        [⟨"knows", [⟨"name", []⟩]⟩, ⟨"likes", []⟩, ⟨"name", []⟩]⟩ ∧
      preorder ⟨"person", [⟨"knows", [⟨"name", []⟩]⟩, ⟨"likes", []⟩, ⟨"name", []⟩]⟩ =
        hops winding.steps ∧
      ∃ root rest, gaping.steps = .hop root :: rest ∧ FirstEmpty root rest "knows" := by
  have compiles : compile winding = .ok ⟨"person",
      [⟨"knows", [⟨"name", []⟩]⟩, ⟨"likes", []⟩, ⟨"name", []⟩]⟩ := rfl
  obtain ⟨-, -, -, -, -, labels⟩ := compile_follows_grammar winding
  obtain ⟨-, -, -, faults, -⟩ := compile_follows_grammar gaping
  exact ⟨compiles, labels _ compiles, (faults "knows").mp rfl⟩

end QueryTree

end LinkAtlas
