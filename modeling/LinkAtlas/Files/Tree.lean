import LinkAtlas.Files.Disk
import LinkAtlas.Ledger

/-!
# Files in memory

A tree of directories and files, and the disk that it is. A route is walked step by step as a real
system walks it: every step needs a directory to start from, also one that stays or goes up.
-/

namespace LinkAtlas

/-- What a name in a directory can stand for. A file that is no text has no content here, and a
sink is empty and keeps nothing. -/
inductive FileNode where
  | file (content : Option String)
  | sink
  | directory (entries : List (String × FileNode))
deriving Inhabited

namespace FileNode

def isDirectory : FileNode → Bool
  | directory _ => true
  | _ => false

/-- What a directory holds, by name. -/
def entries : FileNode → Ledger String FileNode
  | directory entries => entries
  | _ => []

/-- Puts a node at the end of some names. Directories are made along them. -/
def plant (planted : FileNode) : List String → FileNode → FileNode
  | [], _ => planted
  | name :: rest, node =>
      let below := (node.entries.get? name).getD (directory [])
      directory (node.entries.insert name (plant planted rest below))

end FileNode

/-- A node and the way back to the root: the nearest directory first, each with the name that was
taken from it. -/
structure FilePosition where
  node : FileNode
  above : List (String × Ledger String FileNode) := []

namespace FilePosition

/-- The directory around the present one. The root is around itself. -/
def up (position : FilePosition) : FilePosition :=
  match position.above with
  | [] => position
  | (_, entries) :: above => ⟨.directory entries, above⟩

/-- The root as it is with the present node in it. -/
def root (position : FilePosition) : FileNode :=
  position.above.foldl
    (fun node (name, entries) => .directory (entries.insert name node))
    position.node

/-- Goes on by a name in the present directory. -/
def enter (position : FilePosition) (name : String) : Except FileError FilePosition :=
  if Route.longestStep < name.utf8ByteSize then .error .nameTooLong
  else
    match position.node.entries.get? name with
    | some node => .ok ⟨node, (name, position.node.entries) :: position.above⟩
    | none => .error .missing

def step (position : FilePosition) (name : String) : Except FileError FilePosition :=
  if !position.node.isDirectory then .error .notDirectory
  else if name = "." then .ok position
  else if name = ".." then .ok position.up
  else position.enter name

def walk (position : FilePosition) (steps : List String) : Except FileError FilePosition :=
  steps.foldlM step position

/-- The present directory with a new node in it. -/
def insert (position : FilePosition) (name : String) (node : FileNode) : FilePosition :=
  { position with node := .directory (position.node.entries.insert name node) }

end FilePosition

/-- All that there is on a disk and the names that lead to the present directory. -/
structure FileTree where
  root : FileNode := .directory []
  present : List String := []
deriving Inhabited

namespace FileTree

/-- Puts a node at the end of some names from the present directory. -/
def plant (tree : FileTree) (steps : List String) (node : FileNode) : FileTree :=
  { tree with root := FileNode.plant node (tree.present ++ steps) tree.root }

/-- Where a route begins. -/
def start (tree : FileTree) (route : Route) : Except FileError FilePosition :=
  if route.fromRoot then .ok ⟨tree.root, []⟩
  else (FilePosition.mk tree.root []).walk tree.present

/-- What a name stands for. -/
def find (tree : FileTree) (name : String) : Except FileError FileNode := do
  let route ← Route.read name
  let position ← (← tree.start route).walk route.steps
  if route.endsInSlash && !position.node.isDirectory then .error .notDirectory
  else .ok position.node

def read (tree : FileTree) (name : String) : Except FileError String := do
  match ← tree.find name with
  | .file (some text) => .ok text
  | .file none => .error .notText
  | .sink => .ok ""
  | .directory _ => .error .isDirectory

def isPresent (tree : FileTree) (name : String) : Bool :=
  match tree.find name with
  | .ok _ => true
  | .error _ => false

def isDirectory (tree : FileTree) (name : String) : Bool :=
  match tree.find name with
  | .ok node => node.isDirectory
  | .error _ => false

/-- The directory that a route ends in and the last name, if the route ends with a name. -/
def approach (tree : FileTree) (route : Route) :
    Except FileError (FilePosition × Option String) := do
  let position ← (← tree.start route).walk route.steps.dropLast
  if !position.node.isDirectory then .error .notDirectory
  else
    match route.steps.getLast? with
    | none | some "." | some ".." => .ok (position, none)
    | some name => .ok (position, some name)

def makeDirectory (tree : FileTree) (name : String) : Except FileError FileTree := do
  match ← tree.approach (← Route.read name) with
  | (_, none) => .error .occupied
  | (position, some last) =>
      match position.enter last with
      | .ok _ => .error .occupied
      | .error .missing =>
          .ok { tree with root := (position.insert last (.directory [])).root }
      | .error reason => .error reason

def write (tree : FileTree) (name content : String) : Except FileError FileTree := do
  let route ← Route.read name
  match ← tree.approach route with
  | (_, none) => .error .isDirectory
  | (position, some last) =>
      let written : FileTree :=
        { tree with root := (position.insert last (.file (some content))).root }
      if route.endsInSlash then .error .isDirectory
      else
        match position.enter last with
        | .ok ⟨.directory _, _⟩ => .error .isDirectory
        | .ok ⟨.sink, _⟩ => .ok tree
        | .ok ⟨.file _, _⟩ => .ok written
        | .error .missing => .ok written
        | .error reason => .error reason

/-- Goes on with the tree after a change, or with the same one if there was none. -/
def change (act : FileTree → Except FileError FileTree) : StateM FileTree (Except FileError Unit) :=
  fun tree =>
    match act tree with
    | .ok after => (.ok (), after)
    | .error reason => (.error reason, tree)

/-- The tree as a disk. -/
def disk : Disk (StateM FileTree) where
  read := fun name => do return (← get).read name
  isPresent := fun name => do return (← get).isPresent name
  isDirectory := fun name => do return (← get).isDirectory name
  makeDirectory := fun name => change fun tree => tree.makeDirectory name
  write := fun name content => change fun tree => tree.write name content

end FileTree

end LinkAtlas
