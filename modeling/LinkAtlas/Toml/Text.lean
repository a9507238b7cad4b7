/-!
# TOML strings

The four ways to quote a text: with double or single quotes, on one line or, with three quotes on
either side, on several. Escapes exist between double quotes only. The writer takes the first way
that needs no escapes.
-/

namespace LinkAtlas

namespace Toml

/-- Characters that may stand in a comment and, but for the quotes, in a string. -/
def isPrintable (character : Char) : Bool :=
  character == '\t' || (32 ≤ character.toNat && character.toNat ≠ 127)

/-- A code point that is a character. -/
def ofCodePoint? (point : Nat) : Option Char :=
  if point < 0xD800 || (0xE000 ≤ point && point < 0x110000) then some (Char.ofNat point) else none

def hexDigit? (character : Char) : Option Nat :=
  if character.isDigit then some (character.toNat - '0'.toNat)
  else if 'a' ≤ character && character ≤ 'f' then some (character.toNat - 'a'.toNat + 10)
  else if 'A' ≤ character && character ≤ 'F' then some (character.toNat - 'A'.toNat + 10)
  else none

/-- The value of exactly `count` hexadecimal digits in front, and what follows. -/
def hexDigits? (count : Nat) (text : List Char) : Option (Nat × List Char) := do
  let digits ← (text.take count).mapM hexDigit?
  if digits.length < count then none
  some (digits.foldl (fun total digit => 16 * total + digit) 0, text.drop count)

/-- The character of an escape, without its backslash, and what follows. -/
def unescape? : List Char → Option (Char × List Char)
  | 'b' :: rest => some ('\x08', rest)
  | 't' :: rest => some ('\t', rest)
  | 'n' :: rest => some ('\n', rest)
  | 'f' :: rest => some ('\x0c', rest)
  | 'r' :: rest => some ('\r', rest)
  | '"' :: rest => some ('"', rest)
  | '\\' :: rest => some ('\\', rest)
  | 'u' :: rest => do
      let (point, rest) ← hexDigits? 4 rest
      some (← ofCodePoint? point, rest)
  | 'U' :: rest => do
      let (point, rest) ← hexDigits? 8 rest
      some (← ofCodePoint? point, rest)
  | _ => none

/-- A line end in front, and what follows. -/
def lineEnd? : List Char → Option (List Char)
  | '\n' :: rest => some rest
  | '\r' :: '\n' :: rest => some rest
  | _ => none

def isBlank (character : Char) : Bool := character == ' ' || character == '\t'

/-- Drops blanks and line ends. -/
def dropSpace : List Char → List Char
  | '\n' :: rest => dropSpace rest
  | '\r' :: '\n' :: rest => dropSpace rest
  | character :: rest => if isBlank character then dropSpace rest else character :: rest
  | [] => []

/-- The rest of a string between double quotes on one line. Every step takes a character at least,
so that the length of the text is fuel enough. -/
def basic? : Nat → List Char → Option (List Char × List Char)
  | 0, _ => none
  | _ + 1, [] => none
  | _ + 1, '"' :: rest => some ([], rest)
  | fuel + 1, '\\' :: rest => do
      let (character, rest) ← unescape? rest
      let (text, rest) ← basic? fuel rest
      some (character :: text, rest)
  | fuel + 1, character :: rest =>
      if isPrintable character then do
        let (text, rest) ← basic? fuel rest
        some (character :: text, rest)
      else none

/-- The rest of a string between single quotes on one line. -/
def literal? : List Char → Option (List Char × List Char)
  | [] => none
  | '\'' :: rest => some ([], rest)
  | character :: rest =>
      if isPrintable character then do
        let (text, rest) ← literal? rest
        some (character :: text, rest)
      else none

/-- What a row of quotes means in a string that three quotes end: how many of them belong to the
text, and whether the string ends here. -/
def quoteRow? (count : Nat) : Option (Nat × Bool) :=
  if count < 3 then some (count, false)
  else if count ≤ 5 then some (count - 3, true)
  else none

/-- Blanks up to a line end behind a backslash, and all blank space after it. -/
def continuation? (text : List Char) : Option (List Char) :=
  (lineEnd? (text.dropWhile isBlank)).map dropSpace

/-- The rest of a string on several lines. Between double quotes (`escapes`) a backslash begins an
escape or joins two lines. -/
def multiline? (quote : Char) (escapes : Bool) : Nat → List Char → Option (List Char × List Char)
  | 0, _ => none
  | _ + 1, [] => none
  | fuel + 1, character :: rest =>
      if character = quote then
        let others := rest.takeWhile (· == quote)
        match quoteRow? (others.length + 1) with
        | none => none
        | some (count, true) => some (List.replicate count quote, rest.drop others.length)
        | some (count, false) => do
            let (text, rest) ← multiline? quote escapes fuel (rest.drop others.length)
            some (List.replicate count quote ++ text, rest)
      else if character = '\\' && escapes then
        match continuation? rest with
        | some rest => multiline? quote escapes fuel rest
        | none => do
            let (character, rest) ← unescape? rest
            let (text, rest) ← multiline? quote escapes fuel rest
            some (character :: text, rest)
      else
        match lineEnd? (character :: rest) with
        | some rest => do
            let (text, rest) ← multiline? quote escapes fuel rest
            some ('\n' :: text, rest)
        | none =>
            if isPrintable character then do
              let (text, rest) ← multiline? quote escapes fuel rest
              some (character :: text, rest)
            else none

/-- A line end right behind the opening quotes does not count. -/
def dropFirstLineEnd (text : List Char) : List Char := (lineEnd? text).getD text

/-- A string on one line in front, and what follows. -/
def shortString? (fuel : Nat) : List Char → Option (List Char × List Char)
  | '"' :: rest => basic? fuel rest
  | '\'' :: rest => literal? rest
  | _ => none

/-- A string in front, and what follows. -/
def string? (fuel : Nat) : List Char → Option (List Char × List Char)
  | '"' :: '"' :: '"' :: rest => multiline? '"' true fuel (dropFirstLineEnd rest)
  | '\'' :: '\'' :: '\'' :: rest => multiline? '\'' false fuel (dropFirstLineEnd rest)
  | text => shortString? fuel text

/-- The longest row of a character. -/
def longestRow (wanted : Char) (text : List Char) : Nat :=
  (text.foldl
    (fun (row : Nat × Nat) character =>
      if character = wanted then (row.1 + 1, max row.2 (row.1 + 1)) else (0, row.2))
    (0, 0)).2

/-- Characters that stand in no string but by an escape. -/
def needsEscape (character : Char) : Bool :=
  (character.toNat < 32 && character != '\t' && character != '\n') || character.toNat == 127

def upperHexDigit (value : Nat) : Char := "0123456789ABCDEF".toList.getD value '0'

/-- A character between double quotes. -/
def escape (character : Char) : List Char :=
  match character with
  | '\x08' => ['\\', 'b']
  | '\t' => ['\\', 't']
  | '\n' => ['\\', 'n']
  | '\x0c' => ['\\', 'f']
  | '\r' => ['\\', 'r']
  | '"' => ['\\', '"']
  | '\\' => ['\\', '\\']
  | _ =>
      if needsEscape character then
        ['\\', 'u', '0', '0', upperHexDigit (character.toNat / 16),
          upperHexDigit (character.toNat % 16)]
      else [character]

/-- Text between three double quotes: line ends stand for themselves, and of a row of quotes every
third is escaped, where `row` counts the quotes in front. -/
def escapeLines (row : Nat) : List Char → List Char
  | [] => []
  | character :: rest =>
      if character = '"' then
        if row = 2 then '\\' :: '"' :: escapeLines 0 rest else '"' :: escapeLines (row + 1) rest
      else if character = '\n' then '\n' :: escapeLines 0 rest
      else escape character ++ escapeLines 0 rest

/-- A text in quotes. -/
def quote (text : List Char) : List Char :=
  let control := text.any needsEscape
  let backslash := text.contains '\\'
  let lines := text.contains '\n'
  let doubles := longestRow '"' text
  let singles := longestRow '\'' text
  let multilineStart (quotes : List Char) := quotes ++ if lines then ['\n'] else []
  let double := ['"', '"', '"']
  let single := ['\'', '\'', '\'']
  if !control && !backslash && doubles = 0 && !lines then '"' :: (text.flatMap escape ++ ['"'])
  else if !control && singles = 0 && !lines then '\'' :: (text ++ ['\''])
  else if !control && !backslash && doubles ≤ 2 then
    multilineStart double ++ escapeLines 0 text ++ double
  else if !control && singles ≤ 2 then multilineStart single ++ text ++ single
  else if lines then multilineStart double ++ escapeLines 0 text ++ double
  else '"' :: (text.flatMap escape ++ ['"'])

end Toml

end LinkAtlas
