import LinkAtlas.Command.Arguments
import LinkAtlas.Command.LinkSpec
import LinkAtlas.Command.Report
import LinkAtlas.Files.Disk
import LinkAtlas.Query.Json
import LinkAtlas.Settings

/-!
# Running commands

A command reads the settings and the dataset and gives what it has to say, all at once at its end.
Only commands on the settings write to the disk.
-/

namespace LinkAtlas

/-- Why a command fails. -/
inductive CommandError where
  | noDataset
  | cannotRead (name : String) (reason : FileError)
  | graph (reason : GraphError)
  | badLink (text : String)
  | noInstance (id : String)
  | settings (reason : SettingsError)
  | settingsPresent (name : String)
  | file (reason : FileError)
deriving DecidableEq

namespace CommandError

def message : CommandError → String
  | noDataset =>
      "No dataset given. Pass --data or run `nodemap config set data_file <path>`"
  | cannotRead name reason => "Cannot read " ++ name ++ ": " ++ reason.message
  | graph reason => reason.message
  | badLink text => "Invalid link '" ++ text ++ "', expected FROM:EDGE:TO"
  | noInstance id => "Instance '" ++ id ++ "' not found"
  | settings reason => reason.message
  | settingsPresent name =>
      "Config file already exists at " ++ name ++ ". Use --force to overwrite."
  | file reason => reason.message

end CommandError

/-- How a run ends. -/
inductive Outcome where
  | done (output : String)
  | failed (reason : CommandError)
  /-- the arguments cannot be understood -/
  | usage
deriving DecidableEq

namespace Outcome

def code : Outcome → Nat
  | done _ => 0
  | failed _ => 1
  | usage => 2

def output : Outcome → String
  | done output => output
  | _ => ""

def usageText : String :=
  "Usage: nodemap [-d FILE] [-f tree|json|matrix] [-v] [-q] load|query|show|config\n"

/-- What goes to the error stream. -/
def complaint : Outcome → String
  | done _ => ""
  | failed reason => "Error: " ++ reason.message ++ "\n"
  | usage => usageText

def ofResult : Except CommandError String → Outcome
  | .ok output => done output
  | .error reason => failed reason

end Outcome

namespace Command

/-- Carries out the removals and then the unlinkings that come with a query. -/
def applyEdits (store : Store) (remove unlink : List String) : Except CommandError Store := do
  let removed ← remove.foldlM (fun store id => (store.remove id).mapError .graph) store
  unlink.foldlM
    (fun store text =>
      match LinkSpec.read? text with
      | some spec => .ok (store.unlink spec.source spec.edge spec.target).2
      | none => .error (.badLink text))
    removed

/-- The output of a query. The forest as a tree ends its last line itself. -/
def queryOutput (store : Store) (format : Format) (path : String) (remove unlink : List String) :
    Except CommandError String := do
  let path ← (QueryPath.read path).mapError .graph
  let edited ← applyEdits store remove unlink
  let roots ← (edited.query path).mapError .graph
  let shown := format.present edited roots
  .ok (if format = .tree then shown else shown ++ "\n")

def loadOutput (store : Store) (report : LoadReport) (format : Format) : String :=
  if format = .json then report.toJson.pretty ++ "\n"
  else Report.ofLines (Report.loadLines store report)

def inspectOutput (store : Store) (id : String) : Except CommandError String :=
  match store.find? id with
  | some vertex => .ok (Report.ofLines (Report.instanceLines store vertex))
  | none => .error (.noInstance id)

/-- The output of a command on a dataset. -/
def datasetOutput (command : Command) (store : Store) (report : LoadReport) (format : Format) :
    Except CommandError String :=
  match command with
  | load => .ok (loadOutput store report format)
  | query path remove unlink => queryOutput store format path remove unlink
  | inspect id => inspectOutput store id
  | settings _ => .ok ""

variable {m : Type → Type} [Monad m]

/-- The settings of a file. One that cannot be read or understood sets nothing. -/
def readSettings (disk : Disk m) (name : String) : m Settings := do
  match ← disk.read name with
  | .ok text => return (Settings.read? text).getD {}
  | .error _ => return {}

/-- Writes the settings to a file and then says so. -/
def writeSettings (disk : Disk m) (name : String) (settings : Settings) (output : String) :
    m (Except CommandError String) := do
  match ← disk.save name settings.write with
  | .ok _ => return .ok output
  | .error reason => return .error (.file reason)

/-- A setting as the user sees it. -/
def shownSetting (settings : Settings) (key : String) : String :=
  (settings.get? key).getD "(not set)"

def settingsOutput (disk : Disk m) (name : String) :
    SettingsCommand → m (Except CommandError String)
  | .get key => do
      if Settings.keys.contains key then
        return .ok (shownSetting (← readSettings disk name) key ++ "\n")
      else return .error (.settings (.unknownKey key))
  | .set key value => do
      match (← readSettings disk name).set key value with
      | .ok changed => writeSettings disk name changed ("Set " ++ key ++ " = " ++ value ++ "\n")
      | .error reason => return .error (.settings reason)
  | .list => do
      let settings ← readSettings disk name
      let lines := Settings.keys.map fun key => key ++ " = " ++ shownSetting settings key
      return .ok (Report.ofLines (("Config file: " ++ name) :: "" :: lines))
  | .path => return .ok (name ++ "\n")
  | .init force => do
      if (← disk.isPresent name) && !force then return .error (.settingsPresent name)
      else writeSettings disk name {} ("Created config file at " ++ name ++ "\n")

/-- Reads the dataset that is asked for, or else the one in the settings, and runs a command on
it. -/
def onDataset (disk : Disk m) (settingsName : String) (data : Option String)
    (format : Option Format) (command : Command) : m (Except CommandError String) := do
  let settings ← readSettings disk settingsName
  match data <|> settings.dataFile with
  | none => return .error .noDataset
  | some name =>
      match ← disk.read name with
      | .error reason => return .error (.cannotRead name reason)
      | .ok text =>
          match Store.load text with
          | .error reason => return .error (.graph reason)
          | .ok (store, report) =>
              let chosen := (format <|> settings.format).getD .tree
              return command.datasetOutput store report chosen

end Command

namespace Request

variable {m : Type → Type} [Monad m]

def versionText : String := "nodemap 0.1.0\n"

/-- Does what is asked for, with the settings in the file `settingsName`. -/
def fulfil (disk : Disk m) (settingsName : String) : Option Request → m Outcome
  | none => return .usage
  | some .version => return .done versionText
  | some .help => return .done Outcome.usageText
  | some (.run _ _ (.settings command)) =>
      return Outcome.ofResult (← Command.settingsOutput disk settingsName command)
  | some (.run data format command) =>
      return Outcome.ofResult (← command.onDataset disk settingsName data format)

end Request

end LinkAtlas
