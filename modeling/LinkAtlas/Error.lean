import LinkAtlas.Scalar

/-!
# Errors

Why a request to the store is turned down, and what the user is told.
-/

namespace LinkAtlas

inductive GraphError where
  /-- an instance with this id is present -/
  | duplicateId (id : InstanceId)
  /-- no instance with this id is present -/
  | unknownInstance (id : InstanceId)
  | emptyQuery
  /-- the path begins with a branch, so that nothing names the root -/
  | rootMissing
  /-- a branch without steps, at a position that was reached through this label -/
  | emptyBranch (after : Label)
  /-- a task failed while it held the store for writing -/
  | poisoned
  /-- a text that does not follow its grammar -/
  | malformed
deriving DecidableEq

namespace GraphError

def message : GraphError → String
  | duplicateId id => "Instance already exists: " ++ id
  | unknownInstance id => "Instance not found: " ++ id
  | emptyQuery => "Query path is empty"
  | rootMissing => "Invalid query path: path must start with a root type label"
  | emptyBranch after => "Invalid query path: empty branch after '" ++ after ++ "'"
  | poisoned => "Lock error: poisoned lock: another task failed inside"
  | malformed => "Serialization error"

end GraphError

end LinkAtlas
