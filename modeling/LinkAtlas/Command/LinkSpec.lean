/-!
# Link specifications

A link on the command line is written `source:edge:target`. The first two colons part it, and the
target may hold further ones.
-/

namespace LinkAtlas

/-- A link by the ids of its ends. -/
structure LinkSpec where
  source : String
  edge : String
  target : String
deriving DecidableEq

namespace LinkSpec

/-- The text in front of the first colon and the text behind it. -/
def cut? (text : List Char) : Option (List Char × List Char) :=
  match text.dropWhile (· != ':') with
  | [] => none
  | _ :: rest => some (text.takeWhile (· != ':'), rest)

/-- The three parts of a specification, none of which may be empty. -/
def read? (text : String) : Option LinkSpec := do
  let (source, afterSource) ← cut? text.toList
  let (edge, target) ← cut? afterSource
  if source.isEmpty || edge.isEmpty || target.isEmpty then none
  else some ⟨String.ofList source, String.ofList edge, String.ofList target⟩

def write (spec : LinkSpec) : String := spec.source ++ ":" ++ spec.edge ++ ":" ++ spec.target

end LinkSpec

end LinkAtlas
