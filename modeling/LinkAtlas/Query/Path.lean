import LinkAtlas.Scalar

/-!
# Query paths

A path says which links to follow. A hop moves on along one kind of link; a branch is a path of its
own that starts at the present position and leaves it as it is for what comes after.
-/

namespace LinkAtlas

inductive PathStep where
  | hop (label : Label)
  | branch (steps : List PathStep)
deriving Inhabited

namespace PathStep

mutual

/-- Whether two steps are the same. -/
def same : PathStep → PathStep → Bool
  | hop first, hop second => first == second
  | branch first, branch second => allSame first second
  | _, _ => false

def allSame : List PathStep → List PathStep → Bool
  | [], [] => true
  | first :: rest, second :: tail => first.same second && allSame rest tail
  | _, _ => false

end

mutual

theorem same_iff : ∀ first second : PathStep, first.same second = true ↔ first = second
  | hop first, hop second => by simp [same]
  | branch first, branch second => by simp [same, allSame_iff first second]
  | hop first, branch second => by simp [same]
  | branch first, hop second => by simp [same]

theorem allSame_iff : ∀ first second : List PathStep, allSame first second = true ↔ first = second
  | [], [] => by simp [allSame]
  | first :: rest, second :: tail => by
      simp [allSame, same_iff first second, allSame_iff rest tail]
  | [], second :: tail => by simp [allSame]
  | first :: rest, [] => by simp [allSame]

end

instance : DecidableEq PathStep := fun first second =>
  decidable_of_iff (first.same second = true) (same_iff first second)

/-- A branch of hops. -/
def chain (labels : List Label) : PathStep := branch (labels.map hop)

end PathStep

/-- The steps in textual order; the first one names the label of the roots. -/
structure QueryPath where
  steps : List PathStep := []
deriving Inhabited, DecidableEq

namespace QueryPath

def isEmpty (path : QueryPath) : Bool := path.steps.isEmpty

/-- The path whose roots are the carriers of `label`. -/
def root (label : Label) : QueryPath := ⟨[.hop label]⟩

/-- A path of hops. -/
def ofLabels (labels : List Label) : QueryPath := ⟨labels.map .hop⟩

def andThen (path : QueryPath) (step : PathStep) : QueryPath := ⟨path.steps ++ [step]⟩

end QueryPath

end LinkAtlas
