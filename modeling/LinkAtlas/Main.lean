import LinkAtlas.Command.Run

/-!
# The command line

The program on the real disk, with the names of its settings and of the dataset from the
environment.
-/

namespace LinkAtlas

/-- A failure in the words of the system. -/
def systemFailure (code : UInt32) (details : String) : FileError :=
  .other (details ++ " (os error " ++ toString code ++ ")")

/-- What a failure of the system means for a file. -/
def fileError : IO.Error → FileError
  | .noFileOrDirectory _ _ _ => .missing
  | .alreadyExists _ _ _ => .occupied
  | .inappropriateType _ code _ => if code = 20 then .notDirectory else .isDirectory
  | .invalidArgument _ code details =>
      if code = 36 then .nameTooLong else systemFailure code details
  | .permissionDenied _ code details => systemFailure code details
  | .resourceExhausted _ code details => systemFailure code details
  | error => .other (toString error)

/-- Does something with a file if a system can take its name. -/
def onFile {α : Type} (name : String) (act : IO (Except FileError α)) :
    IO (Except FileError α) := do
  match Route.read name with
  | .error reason => return .error reason
  | .ok _ =>
      try act
      catch error => return .error (fileError error)

/-- Whether a file or directory can be opened. -/
def opens (name : String) : IO (Except FileError Unit) :=
  onFile name do
    let _ ← IO.FS.Handle.mk name .read
    return .ok ()

def realDisk : Disk IO where
  read := fun name => onFile name do
    let handle ← IO.FS.Handle.mk name .read
    match String.fromUTF8? (← handle.readBinToEnd) with
    | some text => return .ok text
    | none => return .error .notText
  isPresent := fun name => do
    match ← opens name with
    | .ok _ => return true
    | .error (.other _) => return true
    | .error _ => return false
  isDirectory := fun name => do
    match ← opens (name ++ "/.") with
    | .ok _ => return true
    | .error _ => return false
  makeDirectory := fun name => onFile name do
    IO.FS.createDir name
    return .ok ()
  write := fun name content => onFile name do
    IO.FS.writeFile name content
    return .ok ()

/-- The file of the settings if the environment does not name one. A directory for settings counts
only if its name begins at the root. -/
def defaultSettingsName : IO String := do
  let directory := (← IO.getEnv "XDG_CONFIG_HOME").filter fun name => name.toList.head? == some '/'
  match directory, ← IO.getEnv "HOME" with
  | some directory, _ => return directory ++ "/nodemap/config.toml"
  | none, some home => return home ++ "/.config/nodemap/config.toml"
  | none, none => return "./nodemap/config.toml"

end LinkAtlas

open LinkAtlas in
def main (arguments : List String) : IO UInt32 := do
  let settingsName ← match ← IO.getEnv "NODEMAP_CONFIG" with
    | some name => pure name
    | none => defaultSettingsName
  let request := Request.read? (← IO.getEnv "NODEMAP_DATA") arguments
  let outcome ← Request.fulfil realDisk settingsName request
  IO.print outcome.output
  IO.eprint outcome.complaint
  return outcome.code.toUInt32
