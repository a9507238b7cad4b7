import LinkAtlas.Json.Printer
import LinkAtlas.Json.Reader
import LinkAtlas.Record.Load

/-!
# Records as JSON

A record is an object, or an array of its four fields of which those behind the id may be missing at
the end. Two fields have a second spelling. In an object the order of the members does not matter,
unknown members are passed over whatever they hold, and a field given twice is an error.
-/

namespace LinkAtlas

namespace Scalar

def ofJson? : Json → Option Scalar
  | .boolean value => some (.boolean value)
  | .number spelling => ((Numeral.read? spelling).bind Numeral.toDouble?).map .number
  | .text value => some (.text value)
  | _ => none

/-- A value that may be absent, which is written as null. -/
def optionOfJson? : Json → Option (Option Scalar)
  | .null => some none
  | json => (ofJson? json).map some

/-- The scalar that a text stands for. -/
def read (text : String) : Except GraphError Scalar :=
  match (Json.read? text).bind ofJson? with
  | some value => .ok value
  | none => .error .malformed

end Scalar

namespace Json

def asText? : Json → Option String
  | .text value => some value
  | _ => none

/-- An array of strings. -/
def asTexts? : Json → Option (List String)
  | .array items => items.mapM asText?
  | _ => none

/-- What a field of an object holds, and `some none` if the object lacks it. A field that occurs
twice, be it under two of its names, is an error. -/
def field? (members : List (String × Json)) (names : List String) : Option (Option Json) :=
  match members.filter fun member => names.contains member.1 with
  | [] => some none
  | [(_, value)] => some (some value)
  | _ => none

end Json

namespace LabelList

def toJson : LabelList → Json
  | one label => .text label
  | many labels => Json.ofTexts labels

def ofJson? : Json → Option LabelList
  | .text label => some (one label)
  | json => json.asTexts?.map many

end LabelList

namespace Record

/-- Groups of targets. Of a kind of link that occurs twice the first place and the last list
hold. -/
def linksOfMembers? (members : List (String × Json)) : Option (Ledger Label (List InstanceId)) :=
  members.foldlM
    (fun (links : Ledger Label (List InstanceId)) (member : String × Json) =>
      member.2.asTexts?.map fun targets => links.insert member.1 targets)
    []

def linksOfJson? : Json → Option (Ledger Label (List InstanceId))
  | .object members => linksOfMembers? members
  | _ => none

/-- A record from what its fields hold, where only the id has to be there. -/
def ofFields? (id typeLabels value links : Option Json) : Option Record := do
  let id ← (← id).asText?
  let typeLabels ← match typeLabels with
    | some json => LabelList.ofJson? json
    | none => some (.many [])
  let value ← match value with
    | some json => Scalar.optionOfJson? json
    | none => some none
  let links ← match links with
    | some json => linksOfJson? json
    | none => some []
  some { id := id, typeLabels := typeLabels, value := value, links := links }

def ofJson? : Json → Option Record
  | .object members => do
      let id ← Json.field? members ["id"]
      let typeLabels ← Json.field? members ["typeLabels", "nodeTypes"]
      let value ← Json.field? members ["value", "primitiveValue"]
      let links ← Json.field? members ["links"]
      ofFields? id typeLabels value links
  | .array items =>
      if items.length ≤ 4 then ofFields? items[0]? items[1]? items[2]? items[3]? else none
  | _ => none

/-- A value that is absent and links that are none have no member. -/
def toJson (record : Record) : Json :=
  .object ([("id", .text record.id), ("typeLabels", record.typeLabels.toJson)] ++
    (match record.value with
      | some value => [("value", Json.ofScalar value)]
      | none => []) ++
    (if record.links.isEmpty then []
      else [("links", .object (record.links.map fun group => (group.1, Json.ofTexts group.2)))]))

/-- The record that a text stands for. -/
def read (text : String) : Except GraphError Record :=
  match (Json.read? text).bind ofJson? with
  | some record => .ok record
  | none => .error .malformed

def listOfJson? : Json → Option (List Record)
  | .array items => items.mapM ofJson?
  | _ => none

/-- The records that a text stands for. -/
def readList (text : String) : Except GraphError (List Record) :=
  match (Json.read? text).bind listOfJson? with
  | some records => .ok records
  | none => .error .malformed

end Record

namespace LoadReport

def toJson (report : LoadReport) : Json :=
  .object [("instances", .ofNat report.instances), ("links", .ofNat report.links),
    ("broken_links", .array (report.broken.map fun entry =>
      .object [("from", .text entry.source), ("edge_type", .text entry.edge),
        ("to", .text entry.target)]))]

end LoadReport

namespace Store

/-- The store that a text of records describes, and the report on it. -/
def load (text : String) : Except GraphError (Store × LoadReport) := do
  let records ← Record.readList text
  ofRecords records

end Store

end LinkAtlas
