import LinkAtlas.Text.CasedTable
import LinkAtlas.Text.LowerCaseTable

/-!
# Lower case

Lower case of a text in all scripts. Each character has its own small letter, with two exceptions:
the dotted capital I becomes two characters, and a sigma at the end of a word has a form of its own.
-/

namespace LinkAtlas

namespace Text

def inRanges (ranges : List (Nat × Nat)) (character : Char) : Bool :=
  ranges.any fun range => range.1 ≤ character.toNat && character.toNat ≤ range.2

def isCased (character : Char) : Bool := inRanges casedRanges character

def isCaseIgnorable (character : Char) : Bool := inRanges caseIgnorableRanges character

def CapitalRun.holds (run : CapitalRun) (character : Char) : Bool :=
  run.first ≤ character.toNat && character.toNat ≤ run.last &&
    (character.toNat - run.first) % run.step == 0

/-- The small letter of a capital letter, and any other character itself. -/
def small (character : Char) : Char :=
  match capitalRuns.find? fun run => run.holds character with
  | some run => Char.ofNat (character.toNat + run.offset).toNat
  | none => character

/-- Whether the first character that is not passed over is cased. -/
def beginsCased (text : List Char) : Bool :=
  match text.dropWhile isCaseIgnorable with
  | first :: _ => isCased first
  | [] => false

/-- The lower case of one character, given the text before it, read backwards, and the text behind
it. -/
def lowerAt (before : List Char) (character : Char) (behind : List Char) : List Char :=
  if character = 'Σ' then
    if beginsCased before && !beginsCased behind then ['ς'] else ['σ']
  else if character = 'İ' then ['i', '\u0307']
  else [small character]

/-- The lower case of a text that follows `before`, which is given backwards. -/
def lowerFrom (before : List Char) : List Char → List Char
  | [] => []
  | character :: rest => lowerAt before character rest ++ lowerFrom (character :: before) rest

def lower (text : String) : String := String.ofList (lowerFrom [] text.toList)

end Text

end LinkAtlas
