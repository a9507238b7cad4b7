import LinkAtlas.Json.Basic

/-!
# Printing JSON

Two layouts of one value: compact, without any blank, and pretty, with every item and member on a
line of its own, two columns further in than the brackets around it. What is printed is put in front
of what follows it.
-/

namespace LinkAtlas

namespace Json

def hexDigit (value : Nat) : Char := "0123456789abcdef".toList.getD value '0'

/-- A character inside a quoted string. Only quotes, backslashes and control characters are
escaped. -/
def escape (character : Char) : List Char :=
  match character with
  | '"' => ['\\', '"']
  | '\\' => ['\\', '\\']
  | '\n' => ['\\', 'n']
  | '\r' => ['\\', 'r']
  | '\t' => ['\\', 't']
  | '\x08' => ['\\', 'b']
  | '\x0c' => ['\\', 'f']
  | _ =>
      if character.toNat < 32 then
        ['\\', 'u', '0', '0', hexDigit (character.toNat / 16), hexDigit (character.toNat % 16)]
      else [character]

/-- A quoted string in front of `tail`. -/
def quoteOnto (text : String) (tail : List Char) : List Char :=
  '"' :: (text.toList.flatMap escape ++ '"' :: tail)

/-- A value without parts in front of `tail`. -/
def wordOnto (word : String) (tail : List Char) : List Char := word.toList ++ tail

mutual

/-- The compact layout of a value in front of `tail`. -/
def compactOnto : Json → List Char → List Char
  | null, tail => wordOnto "null" tail
  | boolean value, tail => wordOnto (if value then "true" else "false") tail
  | number spelling, tail => spelling ++ tail
  | text value, tail => quoteOnto value tail
  | array [], tail => '[' :: ']' :: tail
  | array (first :: rest), tail => '[' :: compactOnto first (compactItemsOnto rest (']' :: tail))
  | object [], tail => '\x7b' :: '\x7d' :: tail
  | object ((name, value) :: rest), tail =>
      '\x7b' :: quoteOnto name (':' :: compactOnto value (compactMembersOnto rest ('\x7d' :: tail)))
  | unreadable, tail => wordOnto "null" tail

/-- The items behind the first one, each with its comma. -/
def compactItemsOnto : List Json → List Char → List Char
  | [], tail => tail
  | next :: rest, tail => ',' :: compactOnto next (compactItemsOnto rest tail)

def compactMembersOnto : List (String × Json) → List Char → List Char
  | [], tail => tail
  | (name, value) :: rest, tail =>
      ',' :: quoteOnto name (':' :: compactOnto value (compactMembersOnto rest tail))

end

/-- The beginning of a line inside `level` brackets. -/
def newlineOnto (level : Nat) (tail : List Char) : List Char :=
  '\n' :: (List.replicate (2 * level) ' ' ++ tail)

mutual

/-- The pretty layout of a value inside `level` brackets, in front of `tail`. -/
def prettyOnto (level : Nat) : Json → List Char → List Char
  | null, tail => wordOnto "null" tail
  | boolean value, tail => wordOnto (if value then "true" else "false") tail
  | number spelling, tail => spelling ++ tail
  | text value, tail => quoteOnto value tail
  | array [], tail => '[' :: ']' :: tail
  | array (first :: rest), tail =>
      '[' :: newlineOnto (level + 1) (prettyOnto (level + 1) first
        (prettyItemsOnto (level + 1) rest (newlineOnto level (']' :: tail))))
  | object [], tail => '\x7b' :: '\x7d' :: tail
  | object ((name, value) :: rest), tail =>
      '\x7b' :: newlineOnto (level + 1) (quoteOnto name (':' :: ' ' :: prettyOnto (level + 1) value
        (prettyMembersOnto (level + 1) rest (newlineOnto level ('\x7d' :: tail)))))
  | unreadable, tail => wordOnto "null" tail

/-- The items behind the first one, each with its comma and on its line. -/
def prettyItemsOnto (level : Nat) : List Json → List Char → List Char
  | [], tail => tail
  | next :: rest, tail =>
      ',' :: newlineOnto level (prettyOnto level next (prettyItemsOnto level rest tail))

def prettyMembersOnto (level : Nat) : List (String × Json) → List Char → List Char
  | [], tail => tail
  | (name, value) :: rest, tail =>
      ',' :: newlineOnto level (quoteOnto name (':' :: ' ' :: prettyOnto level value
        (prettyMembersOnto level rest tail)))

end

def compact (json : Json) : String := String.ofList (json.compactOnto [])

def pretty (json : Json) : String := String.ofList (json.prettyOnto 0 [])

end Json

end LinkAtlas
