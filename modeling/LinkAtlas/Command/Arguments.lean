import LinkAtlas.Format

/-!
# Arguments of the command line

Arguments are read from left to right, and the first fault ends the reading. A command may have
commands below it. Each level takes options of its own, and all levels take those for the dataset
and the format; of these the deepest level that gives one decides.
-/

namespace LinkAtlas

/-- What is done with the settings. -/
inductive SettingsCommand where
  | get (key : String)
  | set (key value : String)
  | list
  | path
  | init (force : Bool)
deriving DecidableEq

inductive Command where
  | load
  | query (path : String) (remove unlink : List String)
  | inspect (id : String)
  | settings (command : SettingsCommand)
deriving DecidableEq

/-- What the arguments ask for. -/
inductive Request where
  | run (data : Option String) (format : Option Format) (command : Command)
  | version
  | help
deriving DecidableEq

namespace Arguments

/-- A command or a command below it. -/
inductive Level where
  | top
  | load
  | query
  | inspect
  | settings
  | settingsGet
  | settingsSet
  | settingsList
  | settingsPath
  | settingsInit
deriving DecidableEq

inductive OptionName where
  | data
  | format
  | verbose
  | quiet
  | version
  | help
  | remove
  | unlink
  | force
deriving DecidableEq

/-- What was given on one level. -/
structure Given where
  data : Option String := none
  format : Option Format := none
  quiet : Bool := false
  remove : List String := []
  unlink : List String := []
  force : Bool := false
  words : List String := []
deriving DecidableEq, Inhabited

/-- Why the reading ends early. -/
inductive Stop where
  | fault
  | version
  | help
deriving DecidableEq

namespace Level

/-- The number of words that a command takes. -/
def words : Level → Nat
  | query => 1
  | inspect => 1
  | settingsGet => 1
  | settingsSet => 2
  | _ => 0

/-- The commands below a command. -/
def below : Level → List (String × Level)
  | top => [("load", load), ("query", query), ("show", inspect), ("config", settings)]
  | settings => [("get", settingsGet), ("set", settingsSet), ("list", settingsList),
      ("path", settingsPath), ("init", settingsInit)]
  | _ => []

def longOption? (level : Level) (name : String) : Option OptionName :=
  if name = "data" then some .data
  else if name = "format" then some .format
  else if name = "verbose" then some .verbose
  else if name = "quiet" then some .quiet
  else if name = "help" then some .help
  else if name = "version" && level = top then some .version
  else if name = "remove" && level = query then some .remove
  else if name = "unlink" && level = query then some .unlink
  else if name = "force" && level = settingsInit then some .force
  else none

def shortOption? (level : Level) (letter : Char) : Option OptionName :=
  match letter with
  | 'd' => some .data
  | 'f' => some .format
  | 'v' => some .verbose
  | 'q' => some .quiet
  | 'h' => some .help
  | 'V' => if level = top then some .version else none
  | _ => none

end Level

def OptionName.takesValue : OptionName → Bool
  | data => true
  | format => true
  | remove => true
  | unlink => true
  | _ => false

namespace Given

/-- Takes in an option without a value. Only the verbosity may be given more than once. -/
def flag (given : Given) : OptionName → Except Stop Given
  | .verbose => .ok given
  | .quiet => if given.quiet then .error .fault else .ok { given with quiet := true }
  | .force => if given.force then .error .fault else .ok { given with force := true }
  | .version => .error .version
  | .help => .error .help
  | _ => .error .fault

/-- Takes in an option with its value. The dataset and the format may be given once. -/
def option (given : Given) (name : OptionName) (value : String) : Except Stop Given :=
  match name with
  | .data =>
      if value = "" || given.data.isSome then .error .fault
      else .ok { given with data := some value }
  | .format =>
      match Format.ofName? value with
      | some format =>
          if given.format.isSome then .error .fault else .ok { given with format := some format }
      | none => .error .fault
  | .remove => .ok { given with remove := given.remove ++ [value] }
  | .unlink => .ok { given with unlink := given.unlink ++ [value] }
  | _ => .error .fault

def word (given : Given) (value : String) : Given := { given with words := given.words ++ [value] }

end Given

/-- An argument that is not taken for the value of an option. -/
def looksLikeOption (argument : String) : Bool :=
  argument.toList.head? == some '-' && argument != "-"

/-- Takes in the letters behind a single dash. An option with a value takes the remaining letters
for it, less an equals sign in front; if there are none, it is given back to wait for its value. -/
def letters (level : Level) (given : Given) : List Char → Except Stop (Given × Option OptionName)
  | [] => .ok (given, none)
  | letter :: rest =>
      match level.shortOption? letter with
      | none => .error .fault
      | some name =>
          if name.takesValue then
            match rest with
            | [] => .ok (given, some name)
            | '=' :: value => (given.option name (String.ofList value)).map (·, none)
            | value => (given.option name (String.ofList value)).map (·, none)
          else do
            let taken ← given.flag name
            letters level taken rest

/-- A name with the value behind its equals sign, if there is one. -/
def splitLong (text : List Char) : String × Option String :=
  match text.dropWhile (· != '=') with
  | [] => (String.ofList text, none)
  | _ :: value => (String.ofList (text.takeWhile (· != '=')), some (String.ofList value))

/-- Takes in an argument behind two dashes; an option that lacks its value is given back to wait for
it. -/
def long (level : Level) (given : Given) (text : List Char) :
    Except Stop (Given × Option OptionName) :=
  let (spelling, value) := splitLong text
  match level.longOption? spelling, value with
  | none, _ => .error .fault
  | some name, some value =>
      if name.takesValue then (given.option name value).map (·, none) else .error .fault
  | some name, none =>
      if name.takesValue then .ok (given, some name) else (given.flag name).map (·, none)

/-- The levels that the arguments go through, the deepest one in front, with what each was given.
`waiting` is an option that still lacks its value. -/
def read (outer : List (Level × Given)) (level : Level) (given : Given)
    (waiting : Option OptionName) : List String → Except Stop (List (Level × Given))
  | [] => if waiting.isSome then .error .fault else .ok ((level, given) :: outer)
  | argument :: rest =>
      match waiting with
      | some name =>
          if looksLikeOption argument then .error .fault
          else do
            let taken ← given.option name argument
            read outer level taken none rest
      | none =>
          match argument.toList with
          | ['-', '-'] => .ok ((level, rest.foldl Given.word given) :: outer)
          | '-' :: '-' :: text => do
              let (taken, waiting) ← long level given text
              read outer level taken waiting rest
          | '-' :: letter :: text => do
              let (taken, waiting) ← letters level given (letter :: text)
              read outer level taken waiting rest
          | _ =>
              match level.below.lookup argument with
              | some deeper => read ((level, given) :: outer) deeper {} none rest
              | none =>
                  if given.words.length < level.words then
                    read outer level (given.word argument) none rest
                  else if argument = "help" && !level.below.isEmpty then .error .help
                  else .error .fault

/-- The command of the deepest level, which has to have all its words. -/
def command? (level : Level) (given : Given) : Option Command :=
  match level, given.words with
  | .load, [] => some .load
  | .query, [path] => some (.query path given.remove given.unlink)
  | .inspect, [id] => some (.inspect id)
  | .settingsGet, [key] => some (.settings (.get key))
  | .settingsSet, [key, value] => some (.settings (.set key value))
  | .settingsList, [] => some (.settings .list)
  | .settingsPath, [] => some (.settings .path)
  | .settingsInit, [] => some (.settings (.init given.force))
  | _, _ => none

end Arguments

namespace Request

open Arguments

/-- What the arguments ask for, given the dataset that the environment names. Arguments that cannot
be understood ask for nothing. The environment counts on each level that names no dataset, where an
empty name is a fault. -/
def read? (environment : Option String) (arguments : List String) : Option Request :=
  match Arguments.read [] .top {} none arguments with
  | .error .fault => none
  | .error .version => some .version
  | .error .help => some .help
  | .ok [] => none
  | .ok ((level, given) :: outer) => do
      let command ← command? level given
      let levels := given :: outer.map Prod.snd
      if environment = some "" && levels.any (·.data.isNone) then none
      let data := levels.findSome? Given.data
      let format := levels.findSome? Given.format
      some (.run (data <|> environment) format command)

end Request

end LinkAtlas
