import LinkAtlas.Format
import LinkAtlas.Toml.Reader

/-!
# Settings

What the command line remembers: the dataset that is read and the format of the output when the user
does not say. The settings are kept as a TOML document; keys it holds beyond these are passed over.
-/

namespace LinkAtlas

structure Settings where
  dataFile : Option String := none
  format : Option Format := none
deriving DecidableEq, Inhabited

/-- Why a setting is turned down. -/
inductive SettingsError where
  | unknownKey (key : String)
  /-- a value in lower case that names no format -/
  | unknownFormat (lowered : String)
deriving DecidableEq

namespace Settings

def keys : List String := ["data_file", "format"]

def get? (settings : Settings) (key : String) : Option String :=
  if key = "data_file" then settings.dataFile
  else if key = "format" then settings.format.map Format.name
  else none

def set (settings : Settings) (key value : String) : Except SettingsError Settings :=
  if key = "data_file" then .ok { settings with dataFile := some value }
  else if key = "format" then
    match Format.ofAnyCase value with
    | .ok format => .ok { settings with format := some format }
    | .error lowered => .error (.unknownFormat lowered)
  else .error (.unknownKey key)

def dataFileOf? : Toml.Item → Option String
  | .text name => some name
  | _ => none

/-- The format that an item stands for: its name as a text, or a table whose only key is the name
and has nothing under it. -/
def formatOf? : Toml.Item → Option Format
  | .text name => Format.ofName? name
  | .inline _ [(name, content)] => if content.isVoid then Format.ofName? name else none
  | .table _ [(name, content)] => if content.isVoid then Format.ofName? name else none
  | _ => none

/-- What is found under a key, and `some none` if there is nothing. -/
def at? {α : Type} (entries : Toml.Entries) (key : String) (meaning : Toml.Item → Option α) :
    Option (Option α) :=
  match entries.get? key with
  | none => some none
  | some item => (meaning item).map some

/-- The settings that a document holds. -/
def read? (text : String) : Option Settings := do
  let entries ← Toml.read? text
  let dataFile ← at? entries "data_file" dataFileOf?
  let format ← at? entries "format" formatOf?
  some { dataFile := dataFile, format := format }

/-- The line of a setting. -/
def line (key value : String) : String :=
  key ++ " = " ++ String.ofList (Toml.quote value.toList) ++ "\n"

/-- The document of the settings. What is not set is not written. -/
def write (settings : Settings) : String :=
  (settings.dataFile.map (line "data_file")).getD "" ++
    (settings.format.map fun format => line "format" format.name).getD ""

end Settings

namespace SettingsError

def message : SettingsError → String
  | unknownKey key =>
      "Unknown config key: " ++ key ++
        " (available: " ++ String.intercalate ", " Settings.keys ++ ")"
  | unknownFormat lowered => Format.unknownMessage lowered

end SettingsError

end LinkAtlas
