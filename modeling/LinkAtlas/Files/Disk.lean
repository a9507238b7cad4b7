import LinkAtlas.Files.Route

/-!
# Disks

What the command line needs of a file system. A disk offers the single acts of a system, and saving
a file in directories that may be missing is put together from them.
-/

namespace LinkAtlas

/-- Access to files and directories by their names. -/
structure Disk (m : Type → Type) where
  read : String → m (Except FileError String)
  isPresent : String → m Bool
  isDirectory : String → m Bool
  /-- Makes one directory in a directory that is there. -/
  makeDirectory : String → m (Except FileError Unit)
  /-- Makes a file in a directory that is there, or replaces the content of one. -/
  write : String → String → m (Except FileError Unit)

namespace Disk

variable {m : Type → Type} [Monad m]

/-- Makes a directory that may be there already. -/
def ensureDirectory (disk : Disk m) (name : String) : m (Except FileError Unit) := do
  match ← disk.makeDirectory name with
  | .ok _ => return .ok ()
  | .error reason => return if ← disk.isDirectory name then .ok () else .error reason

/-- Makes a directory and those around it, which follow it in the list. They are made only where
one before them lacks a directory to stand in, and what has been made stays. -/
def ensureDirectories (disk : Disk m) : List String → m (Except FileError Unit)
  | [] => return .ok ()
  | name :: around => do
      match ← disk.ensureDirectory name with
      | .error .missing =>
          match ← ensureDirectories disk around with
          | .ok _ => disk.ensureDirectory name
          | .error reason => return .error reason
      | outcome => return outcome

/-- Writes a file and makes the directories that it is in. -/
def save (disk : Disk m) (name content : String) : m (Except FileError Unit) := do
  match ← disk.ensureDirectories (Route.directories name) with
  | .ok _ => disk.write name content
  | .error reason => return .error reason

end Disk

end LinkAtlas
