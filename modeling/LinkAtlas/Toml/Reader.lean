import LinkAtlas.Toml.Basic
import LinkAtlas.Toml.Plain
import LinkAtlas.Toml.Text

/-!
# Reading TOML

A document is read line by line: blank lines and comments, headers of tables, and keys with their
values. Only arrays and strings with three quotes reach over several lines.
-/

namespace LinkAtlas

namespace Toml

/-- How deep arrays and inline tables may nest, and how many parts a key may have. -/
def deepestNesting : Nat := 79

def dropBlanks (text : List Char) : List Char := text.dropWhile isBlank

/-- Drops a comment up to the end of its line. -/
def dropComment : List Char → List Char
  | '#' :: rest => rest.dropWhile isPrintable
  | text => text

/-- The end of a line after blanks and a comment, and what follows. -/
def endLine? (text : List Char) : Option (List Char) :=
  match dropComment (dropBlanks text) with
  | [] => some []
  | rest => lineEnd? rest

/-- Drops blanks, comments and line ends, where the text begins inside a comment or not. -/
def dropLines (inComment : Bool) : List Char → List Char
  | [] => []
  | '\n' :: rest => dropLines false rest
  | '\r' :: '\n' :: rest => dropLines false rest
  | character :: rest =>
      if inComment then
        if isPrintable character then dropLines true rest else character :: rest
      else if isBlank character then dropLines false rest
      else if character = '#' then dropLines true rest
      else character :: rest

def isBareKey (character : Char) : Bool :=
  character.isAlphanum || character == '-' || character == '_'

/-- One part of a key in front, and what follows. -/
def keyPart? (fuel : Nat) (text : List Char) : Option (String × List Char) :=
  match text with
  | '"' :: _ => (shortString? fuel text).map fun (part, rest) => (String.ofList part, rest)
  | '\'' :: _ => (shortString? fuel text).map fun (part, rest) => (String.ofList part, rest)
  | _ =>
      let part := text.takeWhile isBareKey
      if part.isEmpty then none else some (String.ofList part, text.dropWhile isBareKey)

/-- A key in front, as the parts before its last one and the last one; `room` limits their number.
Blanks may stand around the points and behind. -/
def key? (fuel : Nat) : Nat → List Char → Option ((List String × String) × List Char)
  | 0, _ => none
  | room + 1, text => do
      let (first, rest) ← keyPart? fuel (dropBlanks text)
      match dropBlanks rest with
      | '.' :: rest => do
          let ((way, last), rest) ← key? fuel room rest
          some ((first :: way, last), rest)
      | rest => some (([], first), rest)

def isPlainCharacter (character : Char) : Bool :=
  character.isAlphanum || character == '-' || character == '_' || character == '+' ||
    character == '.' || character == ':'

/-- A plain value in front, and what follows. A blank may part a date from a time. -/
def plain? (text : List Char) : Option (List Char) :=
  let word := text.takeWhile isPlainCharacter
  let rest := text.dropWhile isPlainCharacter
  match rest with
  | ' ' :: behind =>
      let long := word ++ ' ' :: behind.takeWhile isPlainCharacter
      if isMoment long then some (behind.dropWhile isPlainCharacter)
      else if isPlain word then some rest
      else none
  | _ => if isPlain word then some rest else none

mutual

/-- A value in front, and what follows; `room` limits the nesting. The length of the text is fuel
enough, as an array or table within the text takes two steps and has two brackets. -/
def value? : Nat → Nat → List Char → Option (Item × List Char)
  | 0, _, _ => none
  | fuel + 1, room, text =>
      match text with
      | '"' :: _ =>
          (string? fuel text).map fun (value, rest) => (.text (String.ofList value), rest)
      | '\'' :: _ =>
          (string? fuel text).map fun (value, rest) => (.text (String.ofList value), rest)
      | '[' :: rest =>
          match room with
          | 0 => none
          | less + 1 =>
              let isEmpty := (dropLines false rest).head? == some ']'
              (items? fuel less rest).map fun rest => (.array isEmpty, rest)
      | '\x7b' :: rest =>
          match room with
          | 0 => none
          | less + 1 =>
              match dropBlanks rest with
              | '\x7d' :: rest => some (.inline false [], rest)
              | rest => (members? fuel less [] rest).map fun (entries, rest) =>
                  (.inline false entries, rest)
      | _ => (plain? text).map fun rest => (.plain, rest)

/-- The values of an array up to its end, and what follows. -/
def items? : Nat → Nat → List Char → Option (List Char)
  | 0, _, _ => none
  | fuel + 1, room, text =>
      match dropLines false text with
      | ']' :: rest => some rest
      | rest => do
          let (_, rest) ← value? fuel room rest
          match dropLines false rest with
          | ',' :: rest => items? fuel room rest
          | ']' :: rest => some rest
          | _ => none

/-- The keys and values of an inline table up to its end, and what follows. -/
def members? : Nat → Nat → Entries → List Char → Option (Entries × List Char)
  | 0, _, _, _ => none
  | fuel + 1, room, entries, text => do
      let ((way, key), rest) ← key? fuel deepestNesting text
      let rest ← character? '=' rest
      let (item, rest) ← value? fuel room (dropBlanks rest)
      let entered ← entries.enterInline key item way
      match dropBlanks rest with
      | ',' :: rest => members? fuel room entered rest
      | '\x7d' :: rest => some (entered, rest)
      | _ => none

end

/-- A document up to some line, and the header that is in force. -/
structure Draft where
  entries : Entries := []
  header : List String := []

/-- The effect of a line, and what follows it. The length of the text is fuel enough. -/
def line? (fuel : Nat) (draft : Draft) (text : List Char) : Option (Draft × List Char) :=
  match dropBlanks text with
  | '[' :: '[' :: rest => do
      let ((way, key), rest) ← key? fuel deepestNesting rest
      let rest ← (character? ']' rest).bind (character? ']')
      let entries ← draft.entries.openElement way key
      some (⟨entries, way ++ [key]⟩, ← endLine? rest)
  | '[' :: rest => do
      let ((way, key), rest) ← key? fuel deepestNesting rest
      let rest ← character? ']' rest
      let entries ← draft.entries.openTable way key
      some (⟨entries, way ++ [key]⟩, ← endLine? rest)
  | text =>
      match endLine? text with
      | some rest => some (draft, rest)
      | none => do
          let ((way, key), rest) ← key? fuel deepestNesting text
          let rest ← character? '=' rest
          let (item, rest) ← value? fuel deepestNesting (dropBlanks rest)
          let entries ← draft.entries.within
            (fun inner => inner.enterDotted key item way) draft.header
          some (⟨entries, draft.header⟩, ← endLine? rest)

/-- The effect of all lines. -/
def lines? : Nat → Draft → List Char → Option Draft
  | 0, _, _ => none
  | _ + 1, draft, [] => some draft
  | fuel + 1, draft, text => do
      let (next, rest) ← line? fuel draft text
      lines? fuel next rest

/-- The table that a document stands for. A byte order mark may stand in front. -/
def read? (text : String) : Option Entries :=
  let characters := match text.toList with
    | '\uFEFF' :: rest => rest
    | characters => characters
  (lines? (characters.length + 1) {} characters).map Draft.entries

end Toml

end LinkAtlas
