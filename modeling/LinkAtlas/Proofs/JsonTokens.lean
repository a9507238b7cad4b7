import LinkAtlas.Json.Printer
import LinkAtlas.Json.Token
import Mathlib.Data.List.TakeWhile

/-!
# Tokens of printed JSON

The pieces that printed JSON consists of are taken for the tokens they were printed for: a quoted
string for the string, a numeral for the number, a mark for itself. Blanks between them do not show.
A number or a word is told from what follows it only if that cannot belong to it, which is why these
statements speak of the text that is printed in front of another one.
-/

namespace LinkAtlas

/-! ## Numerals -/

namespace Numeral

open Json (isNumberCharacter)

theorem isNumberCharacter_of_isDigit {character : Char} (digit : character.isDigit = true) :
    isNumberCharacter character = true := by
  simp [isNumberCharacter, digit]

theorem splitDigits_append (text : List Char) :
    (splitDigits text).1 ++ (splitDigits text).2 = text :=
  List.takeWhile_append_dropWhile

theorem isNumberCharacter_of_mem_digits {text : List Char} :
    ∀ character ∈ (splitDigits text).1, isNumberCharacter character = true := fun _ member =>
  isNumberCharacter_of_isDigit (List.mem_takeWhile_imp member)

theorem numberCharacters_of_exponentDigits {text : List Char} {power : Nat}
    (read : exponentDigits text = some power) :
    ∀ character ∈ text, isNumberCharacter character = true := by
  simp only [exponentDigits] at read
  split at read
  · cases read
  · rename_i ended
    have whole := splitDigits_append text
    have parts : (splitDigits text).1 ≠ [] ∧ (splitDigits text).2 = [] := by simpa using ended
    rw [parts.2, List.append_nil] at whole
    rw [← whole]
    exact isNumberCharacter_of_mem_digits

theorem numberCharacters_of_readExponent {text : List Char} {exponent : Int}
    (read : readExponent text = some exponent) :
    ∀ character ∈ text, isNumberCharacter character = true := by
  unfold readExponent at read
  split at read
  · exact fun _ none => absurd none List.not_mem_nil
  · split at read
    · rename_i mark behind marked
      refine List.forall_mem_cons.mpr ⟨?_, ?_⟩
      · rcases Bool.or_eq_true_iff.mp marked with lower | upper
        · simp [isNumberCharacter, lower]
        · simp [isNumberCharacter, upper]
      · split at read
        · obtain ⟨power, digits, -⟩ := Option.map_eq_some_iff.mp read
          exact List.forall_mem_cons.mpr ⟨rfl, numberCharacters_of_exponentDigits digits⟩
        · obtain ⟨power, lifted, -⟩ := Option.map_eq_some_iff.mp read
          obtain ⟨natural, digits, -⟩ := Option.bind_eq_some_iff.mp lifted
          exact List.forall_mem_cons.mpr ⟨rfl, numberCharacters_of_exponentDigits digits⟩
        · obtain ⟨power, digits, -⟩ := Option.map_eq_some_iff.mp read
          exact numberCharacters_of_exponentDigits digits
    · cases read

theorem splitFraction_append {text digits rest : List Char}
    (split : splitFraction text = some (digits, rest)) :
    text = rest ∨ text = '.' :: (digits ++ rest) ∧
      ∀ character ∈ digits, isNumberCharacter character = true := by
  unfold splitFraction at split
  split at split
  · rename_i behind
    have whole := splitDigits_append behind
    dsimp only at split
    split at split
    · cases split
    · cases split
      exact Or.inr ⟨congrArg _ whole.symm, isNumberCharacter_of_mem_digits⟩
  · cases split
    exact Or.inl rfl

/-- A numeral without its sign begins with a digit. -/
theorem characters_of_readUnsigned {negative : Bool} {text : List Char} {numeral : Numeral}
    (read : readUnsigned negative text = some numeral) :
    (∃ first rest, text = first :: rest ∧ first.isDigit = true) ∧
      ∀ character ∈ text, isNumberCharacter character = true := by
  have whole := splitDigits_append text
  simp only [readUnsigned, Option.bind_eq_bind] at read
  split at read
  · cases read
  · rename_i proper
    simp only [Option.bind_eq_some_iff] at read
    obtain ⟨⟨fraction, behind⟩, cut, exponent, ends, -⟩ := read
    have last := numberCharacters_of_readExponent ends
    have after : ∀ character ∈ (splitDigits text).2, isNumberCharacter character = true := by
      rcases splitFraction_append cut with same | ⟨pointed, digits⟩
      · rw [same]
        exact last
      · rw [pointed]
        exact List.forall_mem_cons.mpr ⟨rfl, List.forall_mem_append.mpr ⟨digits, last⟩⟩
    constructor
    · cases digits : (splitDigits text).1 with
      | nil =>
          rw [digits] at proper
          exact absurd rfl proper
      | cons first rest =>
          rw [digits] at whole
          refine ⟨first, _, whole.symm, ?_⟩
          exact List.mem_takeWhile_imp (digits ▸ List.mem_cons_self)
    · rw [← whole]
      exact List.forall_mem_append.mpr ⟨isNumberCharacter_of_mem_digits, after⟩

/-- How a numeral begins and what it is made of. -/
theorem characters_of_read {text : List Char} {numeral : Numeral}
    (read : read? text = some numeral) :
    (∃ first rest, text = first :: rest ∧ (first = '-' ∨ first.isDigit = true)) ∧
      ∀ character ∈ text, isNumberCharacter character = true := by
  unfold read? at read
  split at read
  · rename_i behind
    obtain ⟨-, characters⟩ := characters_of_readUnsigned read
    exact ⟨⟨_, _, rfl, Or.inl rfl⟩, List.forall_mem_cons.mpr ⟨rfl, characters⟩⟩
  · obtain ⟨⟨first, rest, begins, digit⟩, characters⟩ := characters_of_readUnsigned read
    exact ⟨⟨first, rest, begins, Or.inr digit⟩, characters⟩

end Numeral

namespace Json

/-! ## From characters to tokens -/

theorem tokensFrom_eq (done : List Token) (mode : Mode) (text : List Char) :
    tokensFrom done mode text =
      (tokensFrom [] mode text).map fun later => done.reverse ++ later := by
  induction text generalizing done mode with
  | nil => simp [tokensFrom]
  | cons character rest ih =>
      unfold tokensFrom
      cases advance mode character with
      | none => rfl
      | some effect =>
          obtain ⟨more, next⟩ := effect
          dsimp only
          rw [ih (more.reverse ++ done), ih (more.reverse ++ [])]
          simp [Option.map_map, Function.comp_def]

theorem tokensFrom_cons {mode next : Mode} {character : Char} {done : List Token}
    (effect : advance mode character = some (done, next)) (rest : List Char) :
    tokensFrom [] mode (character :: rest) =
      (tokensFrom [] next rest).map fun later => done ++ later := by
  rw [tokensFrom, effect]
  dsimp only
  rw [tokensFrom_eq, List.append_nil, List.reverse_reverse]

/-- A character that ends no token. -/
theorem tokensFrom_inside {mode next : Mode} {character : Char}
    (effect : advance mode character = some ([], next)) (rest : List Char) :
    tokensFrom [] mode (character :: rest) = tokensFrom [] next rest := by
  rw [tokensFrom, effect]
  rfl

theorem tokens?_blank {character : Char} (blank : isBlank character = true) (tail : List Char) :
    tokens? (character :: tail) = tokens? tail := by
  apply tokensFrom_inside
  unfold advance begin
  exact if_pos blank

/-- A token of one character. -/
theorem tokens?_mark (mark : Char) (token : Token) (effect : begin mark = some ([token], .between))
    (tail : List Char) :
    tokens? (mark :: tail) = (tokens? tail).map fun later => token :: later := by
  have marked : advance .between mark = some ([token], .between) := effect
  exact tokensFrom_cons marked tail

theorem tokens?_newlineOnto (level : Nat) (tail : List Char) :
    tokens? (newlineOnto level tail) = tokens? tail := by
  rw [newlineOnto, tokens?_blank rfl]
  induction 2 * level with
  | zero => rfl
  | succ width ih => rw [List.replicate_succ, List.cons_append, tokens?_blank rfl, ih]

/-! ## Strings -/

theorem hexValue?_hexDigit : ∀ value < 16, hexValue? (hexDigit value) = some value := by
  decide

/-- A control character is written as its code point. -/
theorem tokensFrom_codePoint {value : Nat} (control : value < 32) (points : List Nat)
    (rest : List Char) :
    tokensFrom [] (.text points) ('\\' :: 'u' :: '0' :: '0' :: hexDigit (value / 16) ::
      hexDigit (value % 16) :: rest) = tokensFrom [] (.text (value :: points)) rest := by
  have high := hexValue?_hexDigit (value / 16) (by omega)
  have low := hexValue?_hexDigit (value % 16) (by omega)
  have third : advance (.codePoint points 2 0) (hexDigit (value / 16)) =
      some ([], .codePoint points 1 (value / 16)) := by
    simp [advance, high]
  have fourth : advance (.codePoint points 1 (value / 16)) (hexDigit (value % 16)) =
      some ([], .text (value :: points)) := by
    have sum : 16 * (value / 16) + value % 16 = value := Nat.div_add_mod value 16
    simp [advance, low, sum]
  calc tokensFrom [] (.text points) ('\\' :: 'u' :: '0' :: '0' :: hexDigit (value / 16) ::
        hexDigit (value % 16) :: rest)
      = tokensFrom [] (.codePoint points 2 0) (hexDigit (value / 16) ::
          hexDigit (value % 16) :: rest) := rfl
    _ = tokensFrom [] (.codePoint points 1 (value / 16)) (hexDigit (value % 16) :: rest) :=
      tokensFrom_inside third _
    _ = tokensFrom [] (.text (value :: points)) rest := tokensFrom_inside fourth _

/-- A character that was escaped stands for itself. -/
theorem tokensFrom_escape (character : Char) (points : List Nat) (rest : List Char) :
    tokensFrom [] (.text points) (escape character ++ rest) =
      tokensFrom [] (.text (character.toNat :: points)) rest := by
  unfold escape
  split
  case h_8 quote backslash _ _ _ _ _ =>
    split
    · rename_i control
      exact tokensFrom_codePoint control points rest
    · rename_i printed
      apply tokensFrom_inside
      rw [advance, if_neg (by simpa using quote), if_neg (by simpa using backslash),
        if_neg printed]
  all_goals rfl

theorem joinSurrogates_toNat (characters : List Char) :
    joinSurrogates (characters.map Char.toNat) = some characters := by
  induction characters with
  | nil => rfl
  | cons first rest ih =>
      have whole : ¬(0xD800 ≤ first.toNat ∧ first.toNat < 0xDC00) ∧
          ¬(0xDC00 ≤ first.toNat ∧ first.toNat < 0xE000) := by
        have valid : first.toNat < 0xD800 ∨ 0xDFFF < first.toNat ∧ first.toNat < 0x110000 :=
          first.valid
        omega
      rw [List.map_cons, joinSurrogates.eq_def]
      simp [whole, ih]

theorem tokensFrom_quoted (characters : List Char) (points : List Nat) (tail : List Char) :
    tokensFrom [] (.text points) (characters.flatMap escape ++ '"' :: tail) =
      (tokens? tail).map fun later =>
        .text ((joinSurrogates (points.reverse ++ characters.map Char.toNat)).map String.ofList) ::
          later := by
  induction characters generalizing points with
  | nil =>
      have closed : advance (.text points) '"' =
          some ([.text ((joinSurrogates points.reverse).map String.ofList)], .between) := rfl
      rw [List.map_nil, List.append_nil]
      exact tokensFrom_cons closed tail
  | cons first rest ih =>
      rw [List.flatMap_cons, List.append_assoc, tokensFrom_escape, ih]
      simp

theorem tokens?_quoteOnto (text : String) (tail : List Char) :
    tokens? (quoteOnto text tail) = (tokens? tail).map fun later => .text (some text) :: later := by
  have quoted := tokensFrom_quoted text.toList [] tail
  rw [List.reverse_nil, List.nil_append, joinSurrogates_toNat, Option.map_some,
    String.ofList_toList] at quoted
  exact (tokensFrom_inside rfl _).trans quoted

/-! ## Numbers and words -/

/-- What stands behind a number or a word and cannot belong to it. -/
def Apart (tail : List Char) : Prop :=
  ∀ character ∈ tail.head?, isNumberCharacter character = false ∧ character.isLower = false

/-- The present token ends in front of what does not belong to it. -/
theorem tokensFrom_of_finish {mode : Mode} {tail : List Char} {done : List Token}
    (ends : ∀ character ∈ tail.head?, advance mode character = finishThen mode character)
    (finished : finish mode = some done) :
    tokensFrom [] mode tail = (tokens? tail).map fun later => done ++ later := by
  cases tail with
  | nil =>
      rw [tokensFrom, finished]
      simp [tokens?, tokensFrom, finish.eq_1]
  | cons character rest =>
      have effect := ends character rfl
      rw [finishThen, finished] at effect
      unfold tokens?
      cases begun : begin character with
      | none =>
          rw [begun] at effect
          rw [tokensFrom, effect, tokensFrom, advance, begun]
          rfl
      | some step =>
          obtain ⟨more, next⟩ := step
          rw [begun] at effect
          have alone : advance .between character = some (more, next) := begun
          rw [tokensFrom_cons effect, tokensFrom_cons alone]
          simp [Function.comp_def]

theorem begin_of_numeral {first : Char} (begins : first = '-' ∨ first.isDigit = true) :
    begin first = some ([], .number [first]) := by
  rcases begins with rfl | digit
  · rfl
  · have other (character : Char) (none : character.isDigit = false) : first ≠ character := by
      rintro rfl
      exact Bool.noConfusion (none.symm.trans digit)
    simp [begin, isBlank, digit, other ' ' rfl, other '\t' rfl, other '\n' rfl, other '\r' rfl,
      other '"' rfl]

theorem tokensFrom_digits {more : List Char}
    (characters : ∀ character ∈ more, isNumberCharacter character = true) (taken tail : List Char) :
    tokensFrom [] (.number taken) (more ++ tail) =
      tokensFrom [] (.number (more.reverse ++ taken)) tail := by
  induction more generalizing taken with
  | nil => rfl
  | cons next later ih =>
      obtain ⟨belongs, others⟩ := List.forall_mem_cons.mp characters
      rw [List.cons_append, tokensFrom_inside (by rw [advance, if_pos belongs]), ih others]
      simp

theorem tokens?_number {spelling : List Char} (legible : (Numeral.read? spelling).isSome = true)
    {tail : List Char} (apart : Apart tail) :
    tokens? (spelling ++ tail) = (tokens? tail).map fun later => .number spelling :: later := by
  obtain ⟨numeral, read⟩ := Option.isSome_iff_exists.mp legible
  obtain ⟨⟨first, rest, rfl, begins⟩, characters⟩ := Numeral.characters_of_read read
  have begun : advance .between first = some ([], .number [first]) := begin_of_numeral begins
  have finished : finish (.number (rest.reverse ++ [first])) = some [.number (first :: rest)] := by
    simp [finish, read]
  have ends : ∀ character ∈ tail.head?, advance (.number (rest.reverse ++ [first])) character =
      finishThen (.number (rest.reverse ++ [first])) character := by
    intro character next
    rw [advance, (apart character next).1]
    rfl
  calc tokens? (first :: rest ++ tail)
      = tokensFrom [] (.number [first]) (rest ++ tail) := tokensFrom_inside begun _
    _ = tokensFrom [] (.number (rest.reverse ++ [first])) tail :=
      tokensFrom_digits (List.forall_mem_cons.mp characters).2 _ _
    _ = (tokens? tail).map fun later => .number (first :: rest) :: later :=
      tokensFrom_of_finish ends finished

theorem tokens?_word {word : String} {token : Token} (known : wordToken? word = some token)
    {tail : List Char} (apart : Apart tail) :
    tokens? (wordOnto word tail) = (tokens? tail).map fun later => token :: later := by
  have ends (letters : List Char) : ∀ character ∈ tail.head?,
      advance (.word letters) character = finishThen (.word letters) character := by
    intro character next
    rw [advance, (apart character next).2]
    rfl
  unfold wordToken? at known
  split at known
  · rename_i same
    cases known
    subst same
    exact tokensFrom_of_finish (ends ['l', 'l', 'u', 'n']) rfl
  · split at known
    · rename_i same
      cases known
      subst same
      exact tokensFrom_of_finish (ends ['e', 'u', 'r', 't']) rfl
    · split at known
      · rename_i same
        cases known
        subst same
        exact tokensFrom_of_finish (ends ['e', 's', 'l', 'a', 'f']) rfl
      · cases known

end Json

end LinkAtlas
