import LinkAtlas.Query.Tree
import Mathlib.Logic.Relation

/-!
# Brackets in paths

Every tree has a path, in which each child of a node is a branch of its own. The same tree has other
paths: the last of some branches needs no brackets, and a branch that begins with a branch may be
split in two. Such changes show neither in the tree that a path compiles to nor, if the path is
faulty, in the fault that is told, wherever in the path they are made.
-/

namespace LinkAtlas

namespace PathStep

/-- One change of brackets, at any depth. -/
inductive Rebracketed : List PathStep → List PathStep → Prop where
  /-- a branch behind which nothing comes loses its brackets -/
  | trailing {front steps : List PathStep} (begun : front ≠ []) (filled : steps ≠ []) :
      Rebracketed (front ++ [branch steps]) (front ++ steps)
  /-- a branch that begins with a branch becomes two branches -/
  | leading (front back : List PathStep) {first rest : List PathStep} (filled : first ≠ [])
      (more : rest ≠ []) :
      Rebracketed (front ++ branch (branch first :: rest) :: back)
        (front ++ branch first :: branch rest :: back)
  /-- the change is made inside a branch -/
  | inside (front back : List PathStep) {inner other : List PathStep}
      (changed : Rebracketed inner other) :
      Rebracketed (front ++ branch inner :: back) (front ++ branch other :: back)

theorem Rebracketed.ne_nil {before after : List PathStep} (changed : Rebracketed before after) :
    before ≠ [] ∧ after ≠ [] := by
  cases changed with
  | trailing begun filled => simp [filled]
  | leading front back filled more => simp
  | inside front back changed => simp

end PathStep

namespace QueryTree

open PathStep

/-! ## Growing by branches -/

theorem attach_branch {inner : List PathStep} (filled : inner ≠ []) (node : QueryTree)
    (rest : List PathStep) :
    attach node (.branch inner :: rest) =
      (attach node inner).bind fun grown => attach grown rest := by
  have some : ¬ inner.isEmpty = true := fun empty => filled (List.isEmpty_iff.mp empty)
  rw [attach, attachStep, if_neg some]
  rfl

/-- A branch alone grows the node as its steps do. -/
theorem attach_branch_alone {inner : List PathStep} (filled : inner ≠ []) (node : QueryTree) :
    attach node [.branch inner] = attach node inner := by
  rw [attach_branch filled]
  cases attach node inner <;> rfl

/-- What begins with a branch grows the node twice, and the second time from where it stood. -/
theorem attach_branch_split {first rest : List PathStep} (filled : first ≠ []) (more : rest ≠ [])
    (back : List PathStep) (node : QueryTree) :
    attach node (.branch (.branch first :: rest) :: back) =
      attach node (.branch first :: .branch rest :: back) := by
  rw [attach_branch (List.cons_ne_nil _ _), attach_branch filled, attach_branch filled]
  cases attach node first with
  | error reason => rfl
  | ok grown => exact (attach_branch more grown back).symm

/-- Steps that grow every node alike do so behind other steps too, which may have moved on to
another node. -/
theorem attach_append_congr {steps others : List PathStep}
    (alike : ∀ node, attach node steps = attach node others) (front : List PathStep)
    (node : QueryTree) : attach node (front ++ steps) = attach node (front ++ others) := by
  induction front generalizing node with
  | nil => exact alike node
  | cons step rest ih => rw [List.cons_append, List.cons_append, attach, attach, funext ih]

theorem attach_rebracketed {before after : List PathStep} (changed : Rebracketed before after)
    (node : QueryTree) : attach node before = attach node after := by
  induction changed generalizing node with
  | trailing begun filled => exact attach_append_congr (attach_branch_alone filled) _ node
  | leading front back filled more =>
      exact attach_append_congr (attach_branch_split filled more back) front node
  | inside front back changed ih =>
      refine attach_append_congr (fun node => ?_) front node
      rw [attach_branch changed.ne_nil.1, attach_branch changed.ne_nil.2, ih]

/-! ## Compiling -/

theorem compile_append_congr {front steps others : List PathStep} (begun : front ≠ [])
    (alike : ∀ node, attach node steps = attach node others) :
    compile ⟨front ++ steps⟩ = compile ⟨front ++ others⟩ := by
  cases front with
  | nil => exact absurd rfl begun
  | cons first rest =>
      cases first with
      | branch inner => rfl
      | hop label => exact attach_append_congr alike rest (leaf label)

/-- A change further on needs no hop in front of it: without one both paths have no root. -/
theorem compile_branch_congr {front inner other back behind : List PathStep}
    (alike : ∀ node, attach node (.branch inner :: back) = attach node (.branch other :: behind)) :
    compile ⟨front ++ .branch inner :: back⟩ = compile ⟨front ++ .branch other :: behind⟩ := by
  by_cases begun : front = []
  · rw [begun]
    rfl
  · exact compile_append_congr begun alike

theorem compile_rebracketed {before after : List PathStep} (changed : Rebracketed before after) :
    compile ⟨before⟩ = compile ⟨after⟩ := by
  cases changed with
  | trailing begun filled => exact compile_append_congr begun (attach_branch_alone filled)
  | leading front back filled more =>
      exact compile_branch_congr (attach_branch_split filled more back)
  | inside front back changed =>
      refine compile_branch_congr fun node => ?_
      exact attach_rebracketed (.inside [] back changed) node

theorem compile_of_eqvGen {before after : List PathStep}
    (changed : Relation.EqvGen Rebracketed before after) : compile ⟨before⟩ = compile ⟨after⟩ := by
  induction changed with
  | rel before after once => exact compile_rebracketed once
  | refl => rfl
  | symm before after _ ih => exact ih.symm
  | trans before between after _ _ first second => exact first.trans second

/-! ## The path of a tree -/

mutual

/-- The label of a tree, behind which every child is a branch. -/
def steps : QueryTree → List PathStep
  | ⟨label, children⟩ => .hop label :: branches children

def branches : List QueryTree → List PathStep
  | [] => []
  | child :: rest => .branch child.steps :: branches rest

end

def path (tree : QueryTree) : QueryPath := ⟨tree.steps⟩

mutual

/-- The steps of a tree add this tree to the children of a node. -/
theorem attach_steps : ∀ (tree node : QueryTree), attach node tree.steps = .ok (node.addChild tree)
  | ⟨label, children⟩, node => by
      rw [steps, attach, attachStep, attach_branches children (leaf label)]
      rfl

theorem attach_branches : ∀ (trees : List QueryTree) (node : QueryTree),
    attach node (branches trees) = .ok { node with children := node.children ++ trees }
  | [], ⟨label, children⟩ => by
      rw [branches, attach, List.append_nil]
  | tree :: rest, node => by
      have filled : tree.steps ≠ [] := by
        cases tree
        exact List.cons_ne_nil _ _
      rw [branches, attach_branch filled, attach_steps tree node]
      refine (attach_branches rest (node.addChild tree)).trans ?_
      rw [addChild, List.append_assoc]
      rfl

end

theorem compile_path (tree : QueryTree) : compile tree.path = .ok tree := by
  obtain ⟨label, children⟩ := tree
  exact attach_branches children (leaf label)

/-- Every tree is compiled from its path; and a path whose last branch loses its brackets, or that
comes of another one by any number of such changes in any place, compiles to the same tree or is
turned down for the same fault. -/
theorem brackets_immaterial :
    (∀ tree : QueryTree, compile tree.path = .ok tree) ∧
      (∀ front steps : List PathStep, front ≠ [] → steps ≠ [] →
        compile ⟨front ++ [.branch steps]⟩ = compile ⟨front ++ steps⟩) ∧
      ∀ path other : QueryPath, Relation.EqvGen Rebracketed path.steps other.steps →
        compile path = compile other := by
  refine ⟨compile_path, fun front steps begun filled => ?_, fun path other changed => ?_⟩
  · exact compile_rebracketed (.trailing begun filled)
  · exact compile_of_eqvGen changed

/-- A path that is faulty behind a branch which begins with a branch. -/
def bracketed : QueryPath :=
  ⟨[.hop "person", .branch [.branch [.hop "name", .branch [.hop "nick"]], .hop "likes", .branch []],
    .hop "knows"]⟩

/-- The same path with other brackets. -/
def unbracketed : QueryPath :=
  ⟨[.hop "person", .branch [.hop "name", .hop "nick"], .branch [.hop "likes", .branch []],
    .hop "knows"]⟩

theorem brackets_immaterial_bracketed :
    compile (path ⟨"person", [⟨"name", [leaf "nick"]⟩, leaf "name"]⟩) =
        .ok ⟨"person", [⟨"name", [leaf "nick"]⟩, leaf "name"]⟩ ∧
      compile ⟨[.hop "person"] ++ [.branch [.hop "knows", .branch []]]⟩ =
        compile ⟨[.hop "person"] ++ [.hop "knows", .branch []]⟩ ∧
      Relation.EqvGen Rebracketed bracketed.steps unbracketed.steps ∧
      compile bracketed = compile unbracketed ∧
      compile unbracketed = .error (.emptyBranch "likes") := by
  obtain ⟨expressible, trailing, alike⟩ := brackets_immaterial
  have some (step : PathStep) (rest : List PathStep) : step :: rest ≠ [] := List.cons_ne_nil _ _
  have split : Rebracketed bracketed.steps
      [.hop "person", .branch [.hop "name", .branch [.hop "nick"]],
        .branch [.hop "likes", .branch []], .hop "knows"] :=
    .leading [.hop "person"] [.hop "knows"] (some _ _) (some _ _)
  have within : Rebracketed [.hop "name", .branch [.hop "nick"]] [.hop "name", .hop "nick"] :=
    .trailing (some (.hop "name") []) (some _ _)
  have changed : Relation.EqvGen Rebracketed bracketed.steps unbracketed.steps :=
    .trans _ _ _ (.rel _ _ split) (.rel _ _ (.inside [.hop "person"] _ within))
  exact ⟨expressible _, trailing _ _ (some _ _) (some _ _), changed, alike _ _ changed, rfl⟩

end QueryTree

end LinkAtlas
