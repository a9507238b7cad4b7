import LinkAtlas.Toml.Text
import Mathlib.Data.List.Basic

/-!
# Quoted texts

Whichever of the four ways of quoting a text is chosen, the reader gives the text back and stops
behind the last quote. In strings on several lines quotes come in rows: a row of three ends the
string, and with up to two quotes of the text in front of them they are one row.
-/

namespace LinkAtlas

namespace Toml

/-! ## Escapes -/

/-- A way to write a character between double quotes: as it is or by a code. -/
inductive Escape (character : Char) : List Char → Prop where
  | plain (printable : isPrintable character = true) (quote : character ≠ '"')
      (backslash : character ≠ '\\') : Escape character [character]
  | coded {mark : Char} {code : List Char} (mark_apart : mark ∉ [' ', '\t', '\n', '\r'])
      (reads : ∀ rest, unescape? (mark :: (code ++ rest)) = some (character, rest)) :
      Escape character ('\\' :: mark :: code)

theorem hexDigit?_upperHexDigit : ∀ value < 16, hexDigit? (upperHexDigit value) = some value := by
  decide

/-- A code point of two digits is read back. -/
theorem unescape?_codePoint {character : Char} (small : character.toNat < 128) (rest : List Char) :
    unescape? ('u' :: '0' :: '0' :: upperHexDigit (character.toNat / 16) ::
      upperHexDigit (character.toNat % 16) :: rest) = some (character, rest) := by
  have zero : hexDigit? '0' = some 0 := rfl
  have high := hexDigit?_upperHexDigit (character.toNat / 16) (by omega)
  have low := hexDigit?_upperHexDigit (character.toNat % 16) (by omega)
  have value : 16 * (character.toNat / 16) + character.toNat % 16 = character.toNat :=
    Nat.div_add_mod _ 16
  have point : ofCodePoint? character.toNat = some character := by
    rw [ofCodePoint?, if_pos (by simp; omega), Char.ofNat_toNat]
  simp [unescape?, hexDigits?, zero, high, low, value, point]

/-- Every character is escaped by one of the two ways. -/
theorem escape_spec (character : Char) : Escape character (escape character) := by
  unfold escape
  split
  case h_8 backspace tab lineFeed formFeed carriageReturn quote backslash =>
    split
    · rename_i control
      have small : character.toNat < 128 := by
        simp only [needsEscape, Bool.or_eq_true, Bool.and_eq_true, decide_eq_true_eq,
          beq_iff_eq] at control
        omega
      exact .coded (by decide) (unescape?_codePoint small)
    · rename_i printed
      refine .plain ?_ quote backslash
      simp only [needsEscape, Bool.or_eq_true, Bool.and_eq_true, decide_eq_true_eq, beq_iff_eq,
        bne_iff_ne, not_or, not_and, not_not] at printed
      simp only [isPrintable, Bool.or_eq_true, Bool.and_eq_true, decide_eq_true_eq]
      refine Or.inr ⟨?_, printed.2⟩
      by_contra low
      exact lineFeed (printed.1 ⟨by omega, tab⟩)
  all_goals exact .coded (by decide) fun _ => rfl

/-! ## Strings on one line -/

/-- What is read of a text once its first character is known. -/
def before (character : Char) (read : Option (List Char × List Char)) :
    Option (List Char × List Char) :=
  read.map fun result => (character :: result.1, result.2)

theorem basic?_escape (fuel : Nat) (character : Char) (rest : List Char) :
    basic? (fuel + 1) (escape character ++ rest) = before character (basic? fuel rest) := by
  generalize escape character = written, escape_spec character = escaped
  cases escaped with
  | plain printable quote backslash =>
      simp only [List.singleton_append, basic?, printable, if_true]
      cases basic? fuel rest <;> rfl
  | coded mark_apart reads =>
      simp only [List.cons_append, basic?, reads, Option.bind_eq_bind, Option.bind_some]
      cases basic? fuel rest <;> rfl

theorem basic?_flatMap_escape {fuel : Nat} {text : List Char} (enough : text.length < fuel)
    (rest : List Char) : basic? fuel (text.flatMap escape ++ '"' :: rest) = some (text, rest) := by
  induction text generalizing fuel with
  | nil =>
      obtain ⟨less, rfl⟩ := Nat.exists_eq_add_of_lt enough
      rfl
  | cons character others ih =>
      obtain ⟨less, rfl⟩ := Nat.exists_eq_succ_of_ne_zero (Nat.ne_zero_of_lt enough)
      rw [List.flatMap_cons, List.append_assoc, basic?_escape, ih (Nat.lt_of_succ_lt_succ enough)]
      rfl

theorem literal?_append {text : List Char}
    (bare : ∀ character ∈ text, character ≠ '\'' ∧ isPrintable character = true)
    (rest : List Char) : literal? (text ++ '\'' :: rest) = some (text, rest) := by
  induction text with
  | nil => rfl
  | cons character others ih =>
      obtain ⟨⟨apart, printable⟩, later⟩ := List.forall_mem_cons.mp bare
      simp only [List.cons_append, literal?, printable, if_true, ih later]
      rfl

/-! ## Strings on several lines -/

section Multiline

variable {quote : Char} {escapes : Bool}

/-- The reader takes some characters as one character of the text. -/
def Reads (quote : Char) (escapes : Bool) (written : List Char) (character : Char) : Prop :=
  ∀ fuel rest, multiline? quote escapes (fuel + 1) (written ++ rest) =
    before character (multiline? quote escapes fuel rest)

theorem lineEnd?_of_ne {character : Char} (feed : character ≠ '\n') (back : character ≠ '\r')
    (rest : List Char) : lineEnd? (character :: rest) = none := by
  unfold lineEnd?
  split <;> simp_all

theorem reads_lineFeed (apart : '\n' ≠ quote) : Reads quote escapes ['\n'] '\n' := by
  intro fuel rest
  have ends : lineEnd? ('\n' :: rest) = some rest := rfl
  rw [List.singleton_append, multiline?, if_neg apart, if_neg (by simp), ends]
  dsimp only
  cases multiline? quote escapes fuel rest <;> rfl

theorem reads_plain {character : Char} (apart : character ≠ quote)
    (backslash : (decide (character = '\\') && escapes) = false)
    (printable : isPrintable character = true) : Reads quote escapes [character] character := by
  have feed : character ≠ '\n' := by
    rintro rfl
    cases printable
  have back : character ≠ '\r' := by
    rintro rfl
    cases printable
  intro fuel rest
  rw [List.singleton_append, multiline?, if_neg apart, if_neg (by simp [backslash]),
    lineEnd?_of_ne feed back]
  simp only [printable, if_true]
  cases multiline? quote escapes fuel rest <;> rfl

theorem reads_coded {character mark : Char} {code : List Char}
    (mark_apart : mark ∉ [' ', '\t', '\n', '\r'])
    (reads : ∀ rest, unescape? (mark :: (code ++ rest)) = some (character, rest)) :
    Reads '"' true ('\\' :: mark :: code) character := by
  simp only [List.mem_cons, List.not_mem_nil, or_false, not_or] at mark_apart
  obtain ⟨space, tab, feed, back⟩ := mark_apart
  intro fuel rest
  have goes_on : continuation? (mark :: (code ++ rest)) = none := by
    have visible : ¬ isBlank mark = true := by simp [isBlank, space, tab]
    rw [continuation?, List.dropWhile_cons_of_neg visible, lineEnd?_of_ne feed back]
    rfl
  rw [List.cons_append, List.cons_append, multiline?, if_neg (by decide), if_pos (by decide),
    goes_on]
  simp only [reads, Option.bind_eq_bind, Option.bind_some]
  cases multiline? '"' true fuel rest <;> rfl

/-- How a text is written between rows of three quotes, where `row` quotes of it stand right in
front. -/
inductive Written (quote : Char) (escapes : Bool) : Nat → List Char → List Char → Prop where
  | done {row : Nat} : Written quote escapes row [] []
  | quote {row : Nat} {written text : List Char} (few : row < 2)
      (later : Written quote escapes (row + 1) written text) :
      Written quote escapes row (quote :: written) (quote :: text)
  | piece {row : Nat} {first character : Char} {others written text : List Char}
      (apart : first ≠ quote) (reads : Reads quote escapes (first :: others) character)
      (later : Written quote escapes 0 written text) :
      Written quote escapes row (first :: (others ++ written)) (character :: text)

theorem Written.single {row : Nat} {first character : Char} {written text : List Char}
    (apart : first ≠ quote) (reads : Reads quote escapes [first] character)
    (later : Written quote escapes 0 written text) :
    Written quote escapes row (first :: written) (character :: text) :=
  @Written.piece _ _ row first character [] written text apart reads later

theorem takeWhile_row (count : Nat) {rest : List Char} (apart : rest.head? ≠ some quote) :
    (List.replicate count quote ++ rest).takeWhile (· == quote) = List.replicate count quote := by
  have all : ∀ character ∈ List.replicate count quote, (character == quote) = true := by
    intro character listed
    exact beq_iff_eq.mpr (List.eq_of_mem_replicate listed)
  rw [List.takeWhile_append_of_pos all]
  cases rest with
  | nil => exact List.append_nil _
  | cons character later =>
      rw [List.takeWhile_cons_of_neg, List.append_nil]
      intro same
      exact apart (congrArg some (beq_iff_eq.mp same))

/-- A row of quotes that ends the string. -/
theorem multiline?_lastRow (fuel : Nat) {count own : Nat} {rest : List Char}
    (apart : rest.head? ≠ some quote) (last : quoteRow? (count + 1) = some (own, true)) :
    multiline? quote escapes (fuel + 1) (List.replicate (count + 1) quote ++ rest) =
      some (List.replicate own quote, rest) := by
  rw [List.replicate_succ, List.cons_append, multiline?, if_pos rfl]
  simp only [takeWhile_row count apart, List.length_replicate, last,
    List.drop_left' List.length_replicate]

/-- A row of quotes inside the string. -/
theorem multiline?_row (fuel : Nat) {count own : Nat} {rest : List Char}
    (apart : rest.head? ≠ some quote) (within : quoteRow? (count + 1) = some (own, false)) :
    multiline? quote escapes (fuel + 1) (List.replicate (count + 1) quote ++ rest) =
      (multiline? quote escapes fuel rest).map fun result =>
        (List.replicate own quote ++ result.1, result.2) := by
  rw [List.replicate_succ, List.cons_append, multiline?, if_pos rfl]
  simp only [takeWhile_row count apart, List.length_replicate, within,
    List.drop_left' List.length_replicate]
  cases multiline? quote escapes fuel rest <;> rfl

/-- What is written between rows of three quotes is read back. -/
theorem multiline?_of_written {row : Nat} {written text : List Char}
    (wrote : Written quote escapes row written text) (few : row ≤ 2) {fuel : Nat}
    (enough : row + text.length < fuel) {rest : List Char} (apart : rest.head? ≠ some quote) :
    multiline? quote escapes fuel
        (List.replicate row quote ++ (written ++ (List.replicate 3 quote ++ rest))) =
      some (List.replicate row quote ++ text, rest) := by
  induction wrote generalizing fuel with
  | @done row =>
      obtain ⟨less, rfl⟩ := Nat.exists_eq_succ_of_ne_zero (Nat.ne_zero_of_lt enough)
      have whole : quoteRow? (row + 2 + 1) = some (row, true) := by
        rw [quoteRow?, if_neg (by omega), if_pos (by omega)]
        rfl
      rw [List.nil_append, ← List.append_assoc, List.replicate_append_replicate,
        multiline?_lastRow less apart whole, List.append_nil]
  | @quote row written text below later ih =>
      have longer : row + 1 + text.length < fuel := by
        rw [List.length_cons] at enough
        omega
      have result := ih (by omega) longer
      rw [List.replicate_succ', List.append_assoc, List.append_assoc] at result
      exact result
  | @piece row first character others written text begins reads later ih =>
      rw [List.length_cons] at enough
      have next (less : Nat) (left : text.length < less) :
          multiline? quote escapes (less + 1)
              (first :: (others ++ written) ++ (List.replicate 3 quote ++ rest)) =
            some (character :: text, rest) := by
        have read := ih (Nat.zero_le 2) (by omega : 0 + text.length < less)
        rw [List.replicate_zero, List.nil_append, List.nil_append] at read
        rw [← List.cons_append, List.append_assoc, reads, read]
        rfl
      cases row with
      | zero =>
          obtain ⟨less, rfl⟩ := Nat.exists_eq_succ_of_ne_zero (Nat.ne_zero_of_lt enough)
          exact next less (by omega)
      | succ row =>
          obtain ⟨less, rfl⟩ : ∃ less, fuel = less + 1 + 1 := ⟨fuel - 2, by omega⟩
          have own : quoteRow? (row + 1) = some (row + 1, false) := if_pos (by omega)
          have front : (first :: (others ++ written) ++ (List.replicate 3 quote ++ rest)).head? ≠
              some quote := fun same => begins (Option.some.inj same)
          rw [multiline?_row (less + 1) front own, next less (by omega)]
          rfl

/-! ### Rows of quotes in a text -/

/-- What a character does to the row of quotes that ends here and to the longest one so far. -/
def lengthen (wanted : Char) (row : Nat × Nat) (character : Char) : Nat × Nat :=
  if character = wanted then (row.1 + 1, max row.2 (row.1 + 1)) else (0, row.2)

theorem longestRow_eq (wanted : Char) (text : List Char) :
    longestRow wanted text = (text.foldl (lengthen wanted) (0, 0)).2 := rfl

theorem le_longest (wanted : Char) (text : List Char) (row best : Nat) :
    best ≤ (text.foldl (lengthen wanted) (row, best)).2 := by
  induction text generalizing row best with
  | nil => exact Nat.le_refl best
  | cons character rest ih =>
      rw [List.foldl_cons, lengthen]
      split
      · exact Nat.le_trans (Nat.le_max_left best (row + 1)) (ih _ _)
      · exact ih _ _

theorem not_mem_of_longestRow {wanted : Char} {text : List Char}
    (none : longestRow wanted text = 0) : wanted ∉ text := by
  suffices apart : ∀ row best, (text.foldl (lengthen wanted) (row, best)).2 = 0 → wanted ∉ text by
    exact apart 0 0 none
  clear none
  induction text with
  | nil => exact fun _ _ _ => List.not_mem_nil
  | cons character rest ih =>
      intro row best shortest
      rw [List.foldl_cons, lengthen] at shortest
      split at shortest
      · have longer := le_longest wanted rest (row + 1) (max best (row + 1))
        rw [shortest] at longer
        omega
      · rename_i differs
        rintro (_ | ⟨_, later⟩)
        · exact differs rfl
        · exact ih _ _ shortest later

/-- A text with short rows of quotes only may stand as it is. -/
theorem written_raw {text : List Char} {row best : Nat} (backslash : escapes = false)
    (feed : '\n' ≠ quote)
    (shown : ∀ character ∈ text, character = '\n' ∨ isPrintable character = true)
    (few : (text.foldl (lengthen quote) (row, best)).2 ≤ 2) :
    Written quote escapes row text text := by
  induction text generalizing row best with
  | nil => exact .done
  | cons character rest ih =>
      obtain ⟨first, later⟩ := List.forall_mem_cons.mp shown
      rw [List.foldl_cons, lengthen] at few
      split at few
      · rename_i same
        subst same
        have longer := Nat.le_trans (le_longest character rest (row + 1) (max best (row + 1))) few
        exact .quote (by omega) (ih later few)
      · rename_i differs
        refine .single differs ?_ (ih later few)
        rcases first with rfl | printable
        · exact reads_lineFeed feed
        · exact reads_plain differs (by simp [backslash]) printable

theorem written_escapeLines {row : Nat} (few : row ≤ 2) (text : List Char) :
    Written '"' true row (escapeLines row text) text := by
  induction text generalizing row with
  | nil => exact .done
  | cons character rest ih =>
      have later := ih (Nat.zero_le 2)
      rw [escapeLines]
      split
      · rename_i same
        subst same
        split
        · have reads : Reads '"' true ['\\', '"'] '"' := reads_coded (by decide) fun _ => rfl
          exact @Written.piece _ _ row '\\' '"' ['"'] _ _ (by decide) reads later
        · exact .quote (by omega) (ih (by omega))
      · rename_i differs
        split
        · rename_i same
          subst same
          exact .single (by decide) (reads_lineFeed (by decide)) later
        · generalize escape character = written, escape_spec character = escaped
          cases escaped with
          | plain printable quote backslash =>
              exact .single quote (reads_plain quote (by simp [backslash]) printable)
                later
          | coded mark_apart reads =>
              exact .piece (by decide) (reads_coded mark_apart reads) later

end Multiline

/-! ## Choosing the quotes -/

section Choice

variable {fuel : Nat} {text : List Char}

theorem dropFirstLineEnd_of_ne {first : Char} {others : List Char} (feed : first ≠ '\n')
    (back : first ≠ '\r') : dropFirstLineEnd (first :: others) = first :: others := by
  rw [dropFirstLineEnd, lineEnd?_of_ne feed back]
  rfl

/-- The text between the quotes is read. A line end is put in front of it if the text has line ends
of its own, so that none of these is taken for it. -/
theorem multiline?_opened {quote : Char} {escapes lines : Bool} {written : List Char}
    (wrote : Written quote escapes 0 written text) (enough : text.length < fuel)
    (feed : quote ≠ '\n') (back : quote ≠ '\r')
    (apart : lines = false → ∀ first ∈ written.head?, first ≠ '\n' ∧ first ≠ '\r')
    (rest : List Char) :
    multiline? quote escapes fuel (dropFirstLineEnd
        ((if lines then ['\n'] else []) ++ (written ++ (List.replicate 3 quote ++ '\n' :: rest)))) =
      some (text, '\n' :: rest) := by
  have ends : ('\n' :: rest).head? ≠ some quote := fun same => feed (Option.some.inj same).symm
  have read := multiline?_of_written wrote (Nat.zero_le 2) (by omega : 0 + text.length < fuel) ends
  rw [List.replicate_zero, List.nil_append, List.nil_append] at read
  rw [← read]
  congr 1
  cases lines with
  | true => rfl
  | false =>
      cases written with
      | nil => exact dropFirstLineEnd_of_ne feed back
      | cons first others =>
          obtain ⟨feed, back⟩ := apart rfl first rfl
          exact dropFirstLineEnd_of_ne feed back

theorem isPrintable_of_not_needsEscape {character : Char} (control : needsEscape character = false)
    (feed : character ≠ '\n') : isPrintable character = true := by
  simp only [needsEscape, Bool.or_eq_false_iff, Bool.and_eq_false_iff, decide_eq_false_iff_not,
    bne_eq_false_iff_eq, beq_eq_false_iff_ne] at control
  simp only [isPrintable, Bool.or_eq_true, beq_iff_eq, Bool.and_eq_true, decide_eq_true_eq]
  by_cases tab : character = '\t'
  · exact Or.inl tab
  · refine Or.inr ⟨?_, control.2⟩
    rcases control.1 with (high | tab') | feed'
    · omega
    · exact absurd tab' tab
    · exact absurd feed' feed

/-- What an escaped character does not begin with. -/
theorem escape_head (character : Char) : ∃ first others, escape character = first :: others ∧
    first ≠ '"' ∧ first ≠ '\n' ∧ first ≠ '\r' := by
  generalize escape character = written, escape_spec character = escaped
  cases escaped with
  | plain printable quote backslash =>
      refine ⟨character, [], rfl, quote, ?_, ?_⟩
      · rintro rfl
        cases printable
      · rintro rfl
        cases printable
  | @coded mark code mark_apart reads =>
      exact ⟨'\\', mark :: code, rfl, by decide, by decide, by decide⟩

theorem escapeLines_head {character : Char} (feed : character ≠ '\n') (others : List Char) :
    ∃ first later, escapeLines 0 (character :: others) = first :: later ∧ first ≠ '\n' ∧
      first ≠ '\r' := by
  rw [escapeLines]
  split
  · exact ⟨'"', _, rfl, by decide, by decide⟩
  · obtain ⟨first, later, written, -, apart⟩ := escape_head character
    rw [written]
    exact ⟨first, later ++ escapeLines 0 others, rfl, apart⟩

theorem string?_basic (enough : text.length < fuel) (rest : List Char) :
    string? fuel ('"' :: (text.flatMap escape ++ '"' :: '\n' :: rest)) =
      some (text, '\n' :: rest) := by
  have alone : ∀ more, text.flatMap escape ++ '"' :: '\n' :: rest ≠ '"' :: '"' :: more := by
    intro more same
    cases text with
    | nil => simp at same
    | cons character others =>
        obtain ⟨first, later, written, quote, -⟩ := escape_head character
        rw [List.flatMap_cons, written] at same
        exact quote (List.cons.inj same).1
  rw [← basic?_flatMap_escape enough ('\n' :: rest)]
  unfold string?
  split
  · rename_i more same
    exact absurd (List.cons.inj same).2 (alone more)
  · rename_i same
    exact absurd (List.cons.inj same).1 (by decide)
  · rfl

theorem string?_literal (bare : ∀ character ∈ text, character ≠ '\'' ∧ isPrintable character = true)
    (rest : List Char) :
    string? fuel ('\'' :: (text ++ '\'' :: '\n' :: rest)) = some (text, '\n' :: rest) := by
  have alone : ∀ more, text ++ '\'' :: '\n' :: rest ≠ '\'' :: '\'' :: more := by
    intro more same
    cases text with
    | nil => simp at same
    | cons character others =>
        exact (List.forall_mem_cons.mp bare).1.1 (List.cons.inj same).1
  rw [← literal?_append bare ('\n' :: rest)]
  unfold string?
  split
  · rename_i same
    exact absurd (List.cons.inj same).1 (by decide)
  · rename_i more same
    exact absurd (List.cons.inj same).2 (alone more)
  · rfl

/-- Between three double quotes. -/
theorem string?_escapeLines (enough : text.length < fuel) {lines : Bool}
    (single : lines = false → '\n' ∉ text) (rest : List Char) :
    string? fuel (['"', '"', '"'] ++ (if lines then ['\n'] else []) ++ escapeLines 0 text ++
      ['"', '"', '"'] ++ '\n' :: rest) = some (text, '\n' :: rest) := by
  have apart : lines = false → ∀ first ∈ (escapeLines 0 text).head?,
      first ≠ '\n' ∧ first ≠ '\r' := by
    intro unbroken first begins
    cases text with
    | nil => cases begins
    | cons character others =>
        have feed : character ≠ '\n' := fun same => single unbroken (same ▸ List.mem_cons_self)
        obtain ⟨_, later, written, apart⟩ := escapeLines_head feed others
        rw [written] at begins
        cases begins
        exact apart
  simp only [List.append_assoc]
  exact multiline?_opened (written_escapeLines (Nat.zero_le 2) text) enough (by decide) (by decide)
    apart rest

/-- Between three single quotes. -/
theorem string?_raw (enough : text.length < fuel) (few : longestRow '\'' text ≤ 2)
    (control : ∀ character ∈ text, needsEscape character = false) {lines : Bool}
    (single : lines = false → '\n' ∉ text) (rest : List Char) :
    string? fuel (['\'', '\'', '\''] ++ (if lines then ['\n'] else []) ++ text ++
      ['\'', '\'', '\''] ++ '\n' :: rest) = some (text, '\n' :: rest) := by
  have shown : ∀ character ∈ text, character = '\n' ∨ isPrintable character = true := by
    intro character member
    refine or_iff_not_imp_left.mpr fun feed => ?_
    exact isPrintable_of_not_needsEscape (control character member) feed
  have wrote : Written '\'' false 0 text text :=
    written_raw rfl (by decide) shown (longestRow_eq '\'' text ▸ few)
  have apart : lines = false → ∀ first ∈ text.head?, first ≠ '\n' ∧ first ≠ '\r' := by
    intro unbroken first begins
    have member := List.mem_of_mem_head? begins
    refine ⟨fun same => single unbroken (same ▸ member), ?_⟩
    rintro rfl
    cases control '\r' member
  simp only [List.append_assoc]
  exact multiline?_opened wrote enough (by decide) (by decide) apart rest

/-- A text in quotes is read back, whichever quotes are chosen. -/
theorem string?_quote (enough : text.length < fuel) (rest : List Char) :
    string? fuel (quote text ++ '\n' :: rest) = some (text, '\n' :: rest) := by
  have unbroken : text.contains '\n' = false → '\n' ∉ text := by simp
  have calm : (!text.any needsEscape) = true →
      ∀ character ∈ text, needsEscape character = false := by
    simp
  simp only [quote]
  split
  · rw [List.cons_append, List.append_assoc]
    exact string?_basic enough rest
  split
  · rename_i chosen
    simp only [Bool.and_eq_true, decide_eq_true_eq, Bool.not_eq_true'] at chosen
    obtain ⟨⟨control, short⟩, line⟩ := chosen
    rw [List.cons_append, List.append_assoc]
    refine string?_literal (fun character member => ⟨?_, ?_⟩) rest
    · exact fun same => not_mem_of_longestRow short (same ▸ member)
    · refine isPrintable_of_not_needsEscape (calm (by simp [control]) character member) ?_
      exact fun same => unbroken line (same ▸ member)
  split
  · exact string?_escapeLines enough unbroken rest
  split
  · rename_i chosen
    simp only [Bool.and_eq_true, decide_eq_true_eq] at chosen
    exact string?_raw enough chosen.2 (calm chosen.1) unbroken rest
  split
  · have opened : true = false → '\n' ∉ text := fun impossible => absurd impossible (by decide)
    exact string?_escapeLines enough opened rest
  · rw [List.cons_append, List.append_assoc]
    exact string?_basic enough rest

end Choice

end Toml

end LinkAtlas
