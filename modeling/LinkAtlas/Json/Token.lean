import LinkAtlas.Number.Numeral

/-!
# JSON tokens

The text is cut into tokens by a machine that sees one character at a time. A number or a word ends
where a character follows that cannot belong to it, and this character begins what comes next.
-/

namespace LinkAtlas

namespace Json

inductive Token where
  | openArray
  | closeArray
  | openObject
  | closeObject
  | comma
  | colon
  | null
  | boolean (value : Bool)
  | number (spelling : List Char)
  /-- a string, or nothing if it holds half of a surrogate pair -/
  | text (value : Option String)
deriving DecidableEq

/-- Code points, where two surrogates that follow each other stand for one character. -/
def joinSurrogates : List Nat → Option (List Char)
  | [] => some []
  | point :: rest =>
      if 0xD800 ≤ point && point < 0xDC00 then
        match rest with
        | low :: behind =>
            if 0xDC00 ≤ low && low < 0xE000 then
              (joinSurrogates behind).map fun characters =>
                Char.ofNat (0x10000 + (point - 0xD800) * 0x400 + (low - 0xDC00)) :: characters
            else none
        | [] => none
      else if 0xDC00 ≤ point && point < 0xE000 then none
      else (joinSurrogates rest).map fun characters => Char.ofNat point :: characters

def hexValue? (character : Char) : Option Nat :=
  if character.isDigit then some (character.toNat - '0'.toNat)
  else if 'a' ≤ character && character ≤ 'f' then some (character.toNat - 'a'.toNat + 10)
  else if 'A' ≤ character && character ≤ 'F' then some (character.toNat - 'A'.toNat + 10)
  else none

/-- The character that stands for itself or another one behind a backslash. -/
def unescape? : Char → Option Char
  | '"' => some '"'
  | '\\' => some '\\'
  | '/' => some '/'
  | 'b' => some '\x08'
  | 'f' => some '\x0c'
  | 'n' => some '\n'
  | 'r' => some '\r'
  | 't' => some '\t'
  | _ => none

/-- Where the machine stands. What was read of a token is kept backwards. -/
inductive Mode where
  | between
  | word (letters : List Char)
  | number (spelling : List Char)
  | text (points : List Nat)
  /-- behind a backslash -/
  | escape (points : List Nat)
  /-- inside the four digits of an escaped code point, with the value of those read so far -/
  | codePoint (points : List Nat) (missing : Nat) (value : Nat)
deriving DecidableEq

def isBlank (character : Char) : Bool :=
  character == ' ' || character == '\t' || character == '\n' || character == '\r'

def isNumberCharacter (character : Char) : Bool :=
  character.isDigit || character == '-' || character == '+' || character == '.' ||
    character == 'e' || character == 'E'

def wordToken? (word : String) : Option Token :=
  if word = "null" then some .null
  else if word = "true" then some (.boolean true)
  else if word = "false" then some (.boolean false)
  else none

/-- The token that ends with the text or in front of a character that does not belong to it; nothing
if the machine is between tokens. -/
def finish : Mode → Option (List Token)
  | .between => some []
  | .word letters => (wordToken? (String.ofList letters.reverse)).map ([·])
  | .number spelling =>
      (Numeral.read? spelling.reverse).map fun _ => [.number spelling.reverse]
  | .text _ => none
  | .escape _ => none
  | .codePoint _ _ _ => none

/-- The effect of a character between two tokens. -/
def begin (character : Char) : Option (List Token × Mode) :=
  if isBlank character then some ([], .between)
  else if character == '"' then some ([], .text [])
  else if character == '-' || character.isDigit then some ([], .number [character])
  else if character.isLower then some ([], .word [character])
  else
    match character with
    | '[' => some ([.openArray], .between)
    | ']' => some ([.closeArray], .between)
    | '\x7b' => some ([.openObject], .between)
    | '\x7d' => some ([.closeObject], .between)
    | ',' => some ([.comma], .between)
    | ':' => some ([.colon], .between)
    | _ => none

/-- Ends the present token and goes on with `character` behind it. -/
def finishThen (mode : Mode) (character : Char) : Option (List Token × Mode) := do
  let done ← finish mode
  let (more, next) ← begin character
  some (done ++ more, next)

/-- The effect of one character: the tokens that end with it and the new mode. -/
def advance (mode : Mode) (character : Char) : Option (List Token × Mode) :=
  match mode with
  | .between => begin character
  | .word letters =>
      if character.isLower then some ([], .word (character :: letters))
      else finishThen mode character
  | .number spelling =>
      if isNumberCharacter character then some ([], .number (character :: spelling))
      else finishThen mode character
  | .text points =>
      if character == '"' then
        some ([.text ((joinSurrogates points.reverse).map String.ofList)], .between)
      else if character == '\\' then some ([], .escape points)
      else if character.toNat < 32 then none
      else some ([], .text (character.toNat :: points))
  | .escape points =>
      if character == 'u' then some ([], .codePoint points 4 0)
      else (unescape? character).map fun plain => ([], .text (plain.toNat :: points))
  | .codePoint points missing value =>
      (hexValue? character).map fun digit =>
        let longer := 16 * value + digit
        if missing ≤ 1 then ([], .text (longer :: points))
        else ([], .codePoint points (missing - 1) longer)

/-- The tokens `done`, given backwards, and those of a text from a given mode on. -/
def tokensFrom (done : List Token) : Mode → List Char → Option (List Token)
  | mode, [] => (finish mode).map fun last => done.reverse ++ last
  | mode, character :: rest =>
      match advance mode character with
      | none => none
      | some (more, next) => tokensFrom (more.reverse ++ done) next rest

def tokens? (text : List Char) : Option (List Token) := tokensFrom [] .between text

end Json

end LinkAtlas
