import LinkAtlas.Number.Numeral

/-!
# Plain TOML values

Which spellings are numbers, booleans and dates. They are told apart as whole words.
-/

namespace LinkAtlas

namespace Toml

/-- Digits that single underscores may part. -/
def isGrouped (isDigit : Char → Bool) : List Char → Bool
  | [] => false
  | [only] => isDigit only
  | first :: '_' :: rest => isDigit first && isGrouped isDigit rest
  | first :: rest => isDigit first && isGrouped isDigit rest

/-- A whole number without leading zeros. -/
def isWhole (digits : List Char) : Bool :=
  isGrouped Char.isDigit digits && (digits.length == 1 || digits.head? != some '0')

def dropSign : List Char → List Char
  | '+' :: rest => rest
  | '-' :: rest => rest
  | text => text

def isNegative (text : List Char) : Bool := text.head? == some '-'

def withoutUnderscores (text : List Char) : List Char := text.filter (· != '_')

def digitOf (character : Char) : Nat :=
  if character.isDigit then character.toNat - '0'.toNat
  else if character.isUpper then character.toNat - 'A'.toNat + 10
  else character.toNat - 'a'.toNat + 10

def isHexDigit (character : Char) : Bool :=
  character.isDigit || ('a' ≤ character && character ≤ 'f') || ('A' ≤ character && character ≤ 'F')

def isOctalDigit (character : Char) : Bool := '0' ≤ character && character ≤ '7'

def isBinaryDigit (character : Char) : Bool := character == '0' || character == '1'

def valueIn (base : Nat) (digits : List Char) : Nat :=
  (withoutUnderscores digits).foldl (fun total digit => base * total + digitOf digit) 0

/-- An integer of 64 bits. -/
def isInteger : List Char → Bool
  | '0' :: 'x' :: digits => isGrouped isHexDigit digits && valueIn 16 digits < Nat.pow 2 63
  | '0' :: 'o' :: digits => isGrouped isOctalDigit digits && valueIn 8 digits < Nat.pow 2 63
  | '0' :: 'b' :: digits => isGrouped isBinaryDigit digits && valueIn 2 digits < Nat.pow 2 63
  | text =>
      let digits := dropSign text
      isWhole digits && valueIn 10 digits < Nat.pow 2 63 + (if isNegative text then 1 else 0)

/-- What may follow the digits of a float: nothing more, or an exponent. -/
def isExponent : List Char → Bool
  | mark :: rest => (mark == 'e' || mark == 'E') && isGrouped Char.isDigit (dropSign rest)
  | [] => false

def isFraction (text : List Char) : Bool :=
  match text with
  | '.' :: rest =>
      let isPart (character : Char) := character.isDigit || character == '_'
      let exponent := rest.dropWhile isPart
      isGrouped Char.isDigit (rest.takeWhile isPart) && (exponent.isEmpty || isExponent exponent)
  | text => isExponent text

/-- Whether a number without sign has a finite double as its nearest. -/
def isInRange (unsigned : List Char) : Bool :=
  match Numeral.read? (withoutUnderscores unsigned) with
  | some numeral => !numeral.isBeyond
  | none => false

/-- A float. A positive one that is spelled in digits has to be in the range of doubles. -/
def isFloat (text : List Char) : Bool :=
  let unsigned := dropSign text
  let isPart (character : Char) := character.isDigit || character == '_'
  if unsigned = "inf".toList || unsigned = "nan".toList then true
  else
    isWhole (unsigned.takeWhile isPart) && isFraction (unsigned.dropWhile isPart) &&
      (isNegative text || isInRange unsigned)

def twoDigits? : List Char → Option (Nat × List Char)
  | first :: second :: rest =>
      if first.isDigit && second.isDigit then
        some (10 * digitOf first + digitOf second, rest)
      else none
  | _ => none

def character? (wanted : Char) : List Char → Option (List Char)
  | first :: rest => if first = wanted then some rest else none
  | [] => none

def daysIn (year month : Nat) : Nat :=
  if month = 2 then
    if year % 4 = 0 && (year % 100 != 0 || year % 400 = 0) then 29 else 28
  else if month = 4 || month = 6 || month = 9 || month = 11 then 30
  else 31

/-- A date in front and what follows it. -/
def date? (text : List Char) : Option (List Char) := do
  let (century, text) ← twoDigits? text
  let (year, text) ← twoDigits? text
  let text ← character? '-' text
  let (month, text) ← twoDigits? text
  let text ← character? '-' text
  let (day, text) ← twoDigits? text
  if 1 ≤ month && month ≤ 12 && 1 ≤ day && day ≤ daysIn (100 * century + year) month then some text
  else none

/-- A time in front and what follows it. -/
def time? (text : List Char) : Option (List Char) := do
  let (hour, text) ← twoDigits? text
  let text ← character? ':' text
  let (minute, text) ← twoDigits? text
  let text ← character? ':' text
  let (second, text) ← twoDigits? text
  if hour ≥ 24 || minute ≥ 60 || second > 60 then none
  match text with
  | '.' :: rest =>
      if (rest.takeWhile Char.isDigit).isEmpty then none else some (rest.dropWhile Char.isDigit)
  | rest => some rest

/-- The distance from universal time at the end of a time. -/
def isOffset : List Char → Bool
  | [] => true
  | ['Z'] => true
  | ['z'] => true
  | sign :: rest =>
      (sign == '+' || sign == '-') &&
        (match twoDigits? rest with
          | some (hour, ':' :: rest) =>
              match twoDigits? rest with
              | some (minute, []) => hour < 24 && minute < 60
              | _ => false
          | _ => false)

/-- A date, a time, or both with an offset behind. -/
def isMoment (text : List Char) : Bool :=
  match date? text with
  | some [] => true
  | some (mark :: rest) =>
      (mark == 'T' || mark == 't' || mark == ' ') &&
        (match time? rest with
          | some offset => isOffset offset
          | none => false)
  | none => time? text == some []

def isPlain (text : List Char) : Bool :=
  text = "true".toList || text = "false".toList || isInteger text || isFloat text || isMoment text

end Toml

end LinkAtlas
