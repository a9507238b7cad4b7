import LinkAtlas.Projection.Basic
import LinkAtlas.Query.Tree
import LinkAtlas.Store.Basic

/-!
# Surveys

A survey unfolds the store along a query tree. It descends in the tree and not in the graph, so a
cycle of links is followed only as far as the tree goes. A tally is kept of what it does.
-/

namespace LinkAtlas

/-- What a survey did. -/
structure Tally where
  roots : Nat := 0
  nodes : Nat := 0
  edges : Nat := 0
  deepest : Nat := 0
deriving DecidableEq, Inhabited

namespace Tally

/-- Counts a node at some depth. -/
def visit (tally : Tally) (depth : Nat) : Tally :=
  { tally with nodes := tally.nodes + 1, deepest := max tally.deepest depth }

def follow (tally : Tally) : Tally := { tally with edges := tally.edges + 1 }

end Tally

namespace QueryTree

mutual

/-- The projection of an instance along a tree. -/
def project (store : Store) : QueryTree → Instance → Nat → Tally → Projection × Tally
  | ⟨label, children⟩, vertex, depth, tally =>
      projectChildren store children vertex depth (Projection.ofInstance label vertex)
        (tally.visit depth)

/-- Adds to `projection` what the instance reaches along each tree in turn, in the order of its
links. -/
def projectChildren (store : Store) :
    List QueryTree → Instance → Nat → Projection → Tally → Projection × Tally
  | [], _, _, projection, tally => (projection, tally)
  | child :: rest, vertex, depth, projection, tally =>
      let (grown, counted) := (vertex.targets child.label).toList.foldl
        (fun (projection, tally) target =>
          match store.resolve target with
          | none => (projection, tally)
          | some linked =>
              let (reached, counted) := project store child linked (depth + 1) tally.follow
              (projection.addChild reached, counted))
        (projection, tally)
      projectChildren store rest vertex depth grown counted

end

/-- Surveys the instances of a list one after the other. -/
def projectAll (store : Store) (tree : QueryTree) :
    List Instance → Tally → List Projection × Tally
  | [], tally => ([], tally)
  | vertex :: rest, tally =>
      let (root, counted) := tree.project store vertex 0 tally
      let (roots, total) := projectAll store tree rest counted
      (root :: roots, total)

/-- The projections of all carriers of the label at the root of the tree, and the tally. -/
def survey (tree : QueryTree) (store : Store) : List Projection × Tally :=
  let (roots, tally) := tree.projectAll store (store.ofType tree.label) {}
  (roots, { tally with roots := roots.length })

end QueryTree

namespace Store

/-- The forest of a path, with the tally of its survey. -/
def survey (store : Store) (path : QueryPath) : Except GraphError (List Projection × Tally) :=
  (QueryTree.compile path).map fun tree => tree.survey store

/-- The forest of a path. -/
def query (store : Store) (path : QueryPath) : Except GraphError (List Projection) :=
  (store.survey path).map Prod.fst

end Store

end LinkAtlas
