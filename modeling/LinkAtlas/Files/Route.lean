/-!
# Routes

The name of a file is a route: steps between slashes, from the root or from the present directory.
Names have a length that they may not exceed, and so have their steps.
-/

namespace LinkAtlas

/-- Why a file cannot be read or written. -/
inductive FileError where
  | missing
  /-- a directory was to be made where something is -/
  | occupied
  /-- a directory is needed and something else stands there -/
  | notDirectory
  | isDirectory
  | nameTooLong
  /-- a name with the character zero in it -/
  | zeroInName
  /-- the bytes of a file are no text -/
  | notText
  | other (message : String)
deriving DecidableEq

namespace FileError

def message : FileError → String
  | missing => "No such file or directory (os error 2)"
  | occupied => "File exists (os error 17)"
  | notDirectory => "Not a directory (os error 20)"
  | isDirectory => "Is a directory (os error 21)"
  | nameTooLong => "File name too long (os error 36)"
  | zeroInName => "file name contained an unexpected NUL byte"
  | notText => "stream did not contain valid UTF-8"
  | other message => message

end FileError

/-- A name taken apart. A single point and two points are steps like any other here. -/
structure Route where
  fromRoot : Bool
  steps : List String
  /-- A slash comes last, and so only a directory can be meant. -/
  endsInSlash : Bool
deriving DecidableEq, Inhabited

namespace Route

/-- The most bytes of a name. -/
def longestName : Nat := 4095

/-- The most bytes of one step. -/
def longestStep : Nat := 255

/-- What stands before, between and behind the slashes of a name. -/
def split (name : List Char) : List (List Char) :=
  name.foldr
    (fun character parts =>
      match character, parts with
      | '/', parts => [] :: parts
      | character, first :: rest => (character :: first) :: rest
      | character, [] => [[character]])
    [[]]

def parts (name : String) : List String := (split name.toList).map String.ofList

/-- The route of a name that a system can take at all. -/
def read (name : String) : Except FileError Route :=
  if name.toList.contains '\x00' then .error .zeroInName
  else if name = "" then .error .missing
  else if longestName < name.utf8ByteSize then .error .nameTooLong
  else
    .ok
      { fromRoot := name.toList.head? == some '/'
        steps := (parts name).filter (· != "")
        endsInSlash := name.toList.getLast? == some '/' }

/-- A part of a name that leads nowhere else. -/
def isStill (part : String) : Bool := part = "" || part = "."

/-- The names of the directories around what is named by `first` and, the last one first, the parts
behind it. The nearest directory comes first. The root has its slash. -/
def enclosing (first : String) : List String → List String
  | [] => []
  | part :: rest =>
      if isStill part then enclosing first rest
      else
        match rest.dropWhile isStill with
        | [] => [if first = "" then "/" else first]
        | around => String.intercalate "/" (first :: around.reverse) :: enclosing first rest

/-- The names of the directories that a file is in, the nearest first, as far as its name tells
them. -/
def directories (name : String) : List String :=
  match parts name with
  | first :: rest => enclosing first rest.reverse
  | [] => []

end Route

end LinkAtlas
