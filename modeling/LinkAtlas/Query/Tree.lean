import LinkAtlas.Error
import LinkAtlas.Query.Path

/-!
# Query trees

A path is compiled into a tree before it meets a store. The root of the tree has the label of the
roots, every other node the kind of link that leads to it, and the children of a node are what
follows it, in the order of the path.
-/

namespace LinkAtlas

structure QueryTree where
  label : Label
  children : List QueryTree
deriving Inhabited

namespace QueryTree

mutual

/-- Whether two trees are the same. -/
def same : QueryTree → QueryTree → Bool
  | ⟨first, children⟩, ⟨second, others⟩ => first == second && allSame children others

def allSame : List QueryTree → List QueryTree → Bool
  | [], [] => true
  | first :: rest, second :: tail => first.same second && allSame rest tail
  | _, _ => false

end

mutual

theorem same_iff : ∀ first second : QueryTree, first.same second = true ↔ first = second
  | ⟨first, children⟩, ⟨second, others⟩ => by simp [same, allSame_iff children others]

theorem allSame_iff : ∀ first second : List QueryTree,
    allSame first second = true ↔ first = second
  | [], [] => by simp [allSame]
  | first :: rest, second :: tail => by
      simp [allSame, same_iff first second, allSame_iff rest tail]
  | [], second :: tail => by simp [allSame]
  | first :: rest, [] => by simp [allSame]

end

instance : DecidableEq QueryTree := fun first second =>
  decidable_of_iff (first.same second = true) (same_iff first second)

def leaf (label : Label) : QueryTree := ⟨label, []⟩

def isLeaf (tree : QueryTree) : Bool := tree.children.isEmpty

def addChild (tree child : QueryTree) : QueryTree :=
  { tree with children := tree.children ++ [child] }

mutual

/-- Grows `node` by the steps that follow it. -/
def attach (node : QueryTree) : List PathStep → Except GraphError QueryTree
  | [] => .ok node
  | step :: rest => attachStep node step fun grown => attach grown rest

/-- Grows `node` by one step, where `behind` attaches the steps that come after it. After a hop
these hang under the hop, after a branch under `node` again. -/
def attachStep (node : QueryTree) :
    PathStep → (QueryTree → Except GraphError QueryTree) → Except GraphError QueryTree
  | .hop label, behind => do
      let child ← behind (leaf label)
      .ok (node.addChild child)
  | .branch steps, behind =>
      if steps.isEmpty then .error (.emptyBranch node.label)
      else do
        let grown ← attach node steps
        behind grown

end

/-- The tree of a path, which has to begin with a hop and to have no empty branch. -/
def compile (path : QueryPath) : Except GraphError QueryTree :=
  match path.steps with
  | [] => .error .emptyQuery
  | .branch _ :: _ => .error .rootMissing
  | .hop label :: rest => attach (leaf label) rest

mutual

/-- The number of hops on the longest way down. -/
def depth : QueryTree → Nat
  | ⟨_, children⟩ => depthBelow children

/-- The depth of a node with these children. -/
def depthBelow : List QueryTree → Nat
  | [] => 0
  | child :: rest => max (child.depth + 1) (depthBelow rest)

end

end QueryTree

end LinkAtlas
