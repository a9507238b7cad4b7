import LinkAtlas.Record.Json
import LinkAtlas.Text.Order

/-!
# Reports for the user

What the commands tell about a load and about a single instance, line by line.
-/

namespace LinkAtlas

namespace Report

/-- The labels that are carried, in order, each with the number of its carriers. -/
def labelLines (store : Store) : List String :=
  (Text.sort store.labels).map fun label =>
    "  " ++ label ++ ": " ++ toString (store.ofType label).length

/-- The links that lead nowhere, if there are any, with their number in front. -/
def brokenLines (broken : List LinkEntry) : List String :=
  if broken.isEmpty then []
  else
    ("Broken links (" ++ toString broken.length ++ "):") :: broken.map fun entry =>
      "  " ++ entry.source ++ " -[" ++ entry.edge ++ "]-> " ++ entry.target

/-- What a load produced. -/
def loadLines (store : Store) (report : LoadReport) : List String :=
  ("Loaded " ++ toString report.instances ++ " instances and " ++ toString report.links ++
    " links") :: (labelLines store ++ brokenLines report.broken)

/-- The links of an instance by kind, each with the ids at its other ends. -/
def linkLines (store : Store) (vertex : Instance) : List String :=
  vertex.links.map fun group =>
    let ids := (group.2.toList.filterMap store.resolve).map Instance.id
    "    " ++ group.1 ++ " -> " ++ String.intercalate ", " ids

/-- One instance with its labels, its value and its links. -/
def instanceLines (store : Store) (vertex : Instance) : List String :=
  ["Instance: " ++ vertex.id, "  Types: " ++ String.intercalate ", " vertex.labels.toList] ++
    (match vertex.value with
      | some value => ["  Value: " ++ value.display]
      | none => []) ++
    (if vertex.degree > 0 then "  Links:" :: linkLines store vertex else [])

/-- Lines as a text, in which each is ended by a line feed. -/
def ofLines (lines : List String) : String := String.join (lines.map (· ++ "\n"))

end Report

end LinkAtlas
