import LinkAtlas.Ledger

/-!
# TOML documents

A document is a tree of tables. A table may grow as long as it has not been spelled out in full: one
that came up only on the way to another can still get a header of its own, one made by dotted keys
can get further dotted keys, and an inline table can get neither.
-/

namespace LinkAtlas

namespace Toml

/-- How a table came about. -/
inductive Origin where
  /-- by a header of its own -/
  | header
  /-- on the way to the header of another table -/
  | passage
  /-- by dotted keys -/
  | dotted
deriving DecidableEq

/-- What stands under a key. Of values other than texts and tables little is kept. -/
inductive Item where
  | text (value : String)
  /-- a number, a boolean or a date -/
  | plain
  | array (isEmpty : Bool)
  /-- an inline table, or a part of one that was made by dotted keys -/
  | inline (dotted : Bool) (entries : List (String × Item))
  | table (origin : Origin) (entries : List (String × Item))
  /-- an array of tables, the last one in front -/
  | tables (last : List (String × Item)) (earlier : List (List (String × Item)))
deriving Inhabited

/-- An array or a table with nothing in it. -/
def Item.isVoid : Item → Bool
  | array isEmpty => isEmpty
  | inline _ entries => entries.isEmpty
  | table _ entries => entries.isEmpty
  | _ => false

abbrev Entries := List (String × Item)

namespace Entries

def get? (entries : Entries) (key : String) : Option Item := Ledger.get? entries key

def set (entries : Entries) (key : String) (item : Item) : Entries :=
  Ledger.insert entries key item

/-- Enters an item under a key that is still free. -/
def enter (entries : Entries) (key : String) (item : Item) : Option Entries :=
  match entries.get? key with
  | none => some (entries ++ [(key, item)])
  | some _ => none

/-- Enters an item of an inline table under the key at the end of a dotted path. -/
def enterInline (entries : Entries) (key : String) (item : Item) : List String → Option Entries
  | [] => entries.enter key item
  | first :: rest =>
      match entries.get? first with
      | none =>
          (enterInline [] key item rest).map fun inner => entries.set first (.inline true inner)
      | some (.inline true inner) =>
          (enterInline inner key item rest).map fun inner => entries.set first (.inline true inner)
      | some _ => none

/-- Enters an item under the key at the end of a dotted path. The table that receives it has to be
made by dotted keys, unless the path is empty. -/
def enterDotted (entries : Entries) (key : String) (item : Item) : List String → Option Entries
  | [] => entries.enter key item
  | first :: rest =>
      match entries.get? first with
      | none =>
          (enterDotted [] key item rest).map fun inner => entries.set first (.table .dotted inner)
      | some (.table .dotted inner) =>
          (enterDotted inner key item rest).map fun inner =>
            entries.set first (.table .dotted inner)
      | some (.table .passage inner) =>
          if rest.isEmpty then none
          else (enterDotted inner key item rest).map fun inner =>
            entries.set first (.table .passage inner)
      | some (.tables last earlier) =>
          if rest.isEmpty then none
          else (enterDotted last key item rest).map fun last =>
            entries.set first (.tables last earlier)
      | some _ => none

/-- Changes the table under a header. Of an array of tables the last one is meant. -/
def within (change : Entries → Option Entries) (entries : Entries) : List String → Option Entries
  | [] => change entries
  | first :: rest =>
      match entries.get? first with
      | some (.table origin inner) =>
          (within change inner rest).map fun inner => entries.set first (.table origin inner)
      | some (.tables last earlier) =>
          (within change last rest).map fun last => entries.set first (.tables last earlier)
      | _ => none

/-- Finds or makes the tables on the way to a header and changes the innermost. -/
def passing (change : Entries → Option Entries) (entries : Entries) : List String → Option Entries
  | [] => change entries
  | first :: rest =>
      match entries.get? first with
      | none =>
          (passing change [] rest).map fun inner => entries.set first (.table .passage inner)
      | some (.table origin inner) =>
          (passing change inner rest).map fun inner => entries.set first (.table origin inner)
      | some (.tables last earlier) =>
          (passing change last rest).map fun last => entries.set first (.tables last earlier)
      | some _ => none

/-- Opens the table of a header that is not an array. -/
def openTable (entries : Entries) (way : List String) (key : String) : Option Entries :=
  entries.passing
    (fun inner =>
      match inner.get? key with
      | none => some (inner.set key (.table .header []))
      | some (.table .passage present) => some (inner.set key (.table .header present))
      | some _ => none)
    way

/-- Adds a table to the array of a header. -/
def openElement (entries : Entries) (way : List String) (key : String) : Option Entries :=
  entries.passing
    (fun inner =>
      match inner.get? key with
      | none => some (inner.set key (.tables [] []))
      | some (.tables last earlier) => some (inner.set key (.tables [] (last :: earlier)))
      | some _ => none)
    way

end Entries

end Toml

end LinkAtlas
