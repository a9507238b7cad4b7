import LinkAtlas.Record.Basic
import LinkAtlas.Store.Edit

/-!
# Loading records

A store is filled from records in two passes: first the instances, then the links, so that a record
may name one that comes later. A link to an id that no record has is reported and left out.
-/

namespace LinkAtlas

/-- A link as a record asks for it. -/
structure LinkEntry where
  source : InstanceId
  edge : Label
  target : InstanceId
deriving DecidableEq

structure LoadReport where
  instances : Nat := 0
  /-- the link entries that were carried out, repeated ones included -/
  links : Nat := 0
  /-- the entries whose target is not there -/
  broken : List LinkEntry := []
deriving DecidableEq, Inhabited

namespace Record

/-- The link entries of a record in the order of its groups and their targets. -/
def entries (record : Record) : List LinkEntry :=
  record.links.flatMap fun group => group.2.map fun target => ⟨record.id, group.1, target⟩

end Record

namespace Store

/-- Brings in the instances of the records and counts them. A repeated id ends the load. -/
def bringAll : Store → LoadReport → List Record → Except GraphError (Store × LoadReport)
  | store, report, [] => .ok (store, report)
  | store, report, record :: rest => do
      let (_, after) ← store.add record.id record.typeLabels.toList record.value
      bringAll after { report with instances := report.instances + 1 } rest

/-- Carries out link entries and reports on them. -/
def linkAll : Store → LoadReport → List LinkEntry → Except GraphError (Store × LoadReport)
  | store, report, [] => .ok (store, report)
  | store, report, entry :: rest =>
      if (store.find? entry.target).isNone then
        linkAll store { report with broken := report.broken ++ [entry] } rest
      else do
        let linked ← store.link entry.source entry.edge entry.target
        linkAll linked { report with links := report.links + 1 } rest

/-- The store that a list of records describes, and the report on it. -/
def ofRecords (records : List Record) : Except GraphError (Store × LoadReport) := do
  let (populated, report) ← bringAll empty {} records
  linkAll populated report (records.flatMap Record.entries)

end Store

end LinkAtlas
