import LinkAtlas.Proofs.Quoting
import LinkAtlas.Settings
import Mathlib.Tactic.SplitIfs

/-!
# Settings that are written and read

The document of some settings has a line for each that is set. Reading it enters one key after the
other and gives the same settings back, whatever characters the name of the dataset has.
-/

namespace LinkAtlas

namespace Toml

/-! ## The length of a quoted text -/

theorem Written.length_le {quote : Char} {escapes : Bool} {row : Nat} {written text : List Char}
    (wrote : Written quote escapes row written text) : text.length ≤ written.length := by
  induction wrote with
  | done => exact Nat.le_refl 0
  | quote few later ih => exact Nat.succ_le_succ ih
  | piece apart reads later ih =>
      simp only [List.length_cons, List.length_append]
      omega

theorem length_le_flatMap_escape (text : List Char) :
    text.length ≤ (text.flatMap escape).length := by
  induction text with
  | nil => exact Nat.le_refl 0
  | cons character rest ih =>
      obtain ⟨first, others, written, -⟩ := escape_head character
      rw [List.flatMap_cons, written]
      simp only [List.length_cons, List.length_append]
      omega

/-- A quoted text is a mark and at least as many characters as the text has. -/
theorem quote_spec (text : List Char) : ∃ mark others, quote text = mark :: others ∧
    (mark = '"' ∨ mark = '\'') ∧ text.length ≤ others.length := by
  have escaped := length_le_flatMap_escape text
  have lines := (written_escapeLines (Nat.zero_le 2) text).length_le
  simp only [quote]
  split
  · refine ⟨'"', _, rfl, Or.inl rfl, ?_⟩
    exact Nat.le_trans escaped (List.length_append ▸ Nat.le_add_right _ _)
  split
  · exact ⟨'\'', _, rfl, Or.inr rfl, List.length_append ▸ Nat.le_add_right _ _⟩
  split
  · exact ⟨'"', _, rfl, Or.inl rfl, by simp; omega⟩
  split
  · exact ⟨'\'', _, rfl, Or.inr rfl, by simp; omega⟩
  split
  · exact ⟨'"', _, rfl, Or.inl rfl, by simp; omega⟩
  · refine ⟨'"', _, rfl, Or.inl rfl, ?_⟩
    exact Nat.le_trans escaped (List.length_append ▸ Nat.le_add_right _ _)

/-! ## A line with a key and a text -/

theorem value?_quote {fuel : Nat} {text : List Char} (enough : text.length < fuel) (room : Nat)
    (rest : List Char) :
    value? (fuel + 1) room (quote text ++ '\n' :: rest) =
      some (.text (String.ofList text), '\n' :: rest) := by
  have read := string?_quote enough rest
  obtain ⟨mark, others, written, marks, -⟩ := quote_spec text
  rw [written] at read ⊢
  rcases marks with rfl | rfl
  all_goals
    rw [List.cons_append] at read ⊢
    simp only [value?, read]
    rfl

section Line

variable {key : List Char} {fuel : Nat}

/-- Keys that need no quotes. -/
structure Bare (key : List Char) : Prop where
  nonempty : key ≠ []
  bare : ∀ character ∈ key, isBareKey character = true

/-- A bare key is read as one part, and the line does not begin with anything else. -/
theorem Bare.head (bare : Bare key) (rest : List Char) : ∃ first others,
    key ++ rest = first :: others ∧ isBareKey first = true := by
  cases key with
  | nil => exact absurd rfl bare.nonempty
  | cons first others => exact ⟨first, others ++ rest, rfl, bare.bare first List.mem_cons_self⟩

theorem ne_of_isBareKey {first mark : Char} (bare : isBareKey first = true)
    (other : isBareKey mark = false) : first ≠ mark := by
  rintro rfl
  exact Bool.noConfusion (bare.symm.trans other)

theorem dropBlanks_of_bare {first : Char} (bare : isBareKey first = true) (others : List Char) :
    dropBlanks (first :: others) = first :: others := by
  have visible : ¬ isBlank first = true := by
    simp [isBlank, ne_of_isBareKey bare (by decide : isBareKey ' ' = false),
      ne_of_isBareKey bare (by decide : isBareKey '\t' = false)]
  exact List.dropWhile_cons_of_neg visible

theorem keyPart?_bare (bare : Bare key) (rest : List Char) :
    keyPart? fuel (key ++ ' ' :: rest) = some (String.ofList key, ' ' :: rest) := by
  have word : (key ++ ' ' :: rest).takeWhile isBareKey = key := by
    rw [List.takeWhile_append_of_pos bare.bare, List.takeWhile_cons_of_neg (by decide),
      List.append_nil]
  have behind : (key ++ ' ' :: rest).dropWhile isBareKey = ' ' :: rest := by
    rw [List.dropWhile_append_of_pos bare.bare]
    rfl
  obtain ⟨first, others, front, letter⟩ := bare.head (' ' :: rest)
  unfold keyPart?
  split
  · rename_i same
    exact absurd (List.cons.inj (front.symm.trans same)).1 (ne_of_isBareKey letter (by decide))
  · rename_i same
    exact absurd (List.cons.inj (front.symm.trans same)).1 (ne_of_isBareKey letter (by decide))
  · rw [word, behind]
    simp [bare.nonempty]

theorem key?_bare (bare : Bare key) (room : Nat) (rest : List Char) :
    key? fuel (room + 1) (key ++ ' ' :: '=' :: rest) =
      some (([], String.ofList key), '=' :: rest) := by
  obtain ⟨first, others, front, letter⟩ := bare.head (' ' :: '=' :: rest)
  have begins : dropBlanks (key ++ ' ' :: '=' :: rest) = key ++ ' ' :: '=' :: rest := by
    rw [front]
    exact dropBlanks_of_bare letter others
  have blank : dropBlanks (' ' :: '=' :: rest) = '=' :: rest := rfl
  simp only [key?, begins, keyPart?_bare bare, Option.bind_eq_bind, Option.bind_some, blank]
  rfl

theorem endLine?_of_bare {first : Char} (bare : isBareKey first = true) (others : List Char) :
    endLine? (first :: others) = none := by
  have told : dropComment (first :: others) = first :: others := by
    unfold dropComment
    split
    · rename_i same
      exact absurd (List.cons.inj same).1 (ne_of_isBareKey bare (by decide))
    · rfl
  rw [endLine?, dropBlanks_of_bare bare, told]
  exact lineEnd?_of_ne (ne_of_isBareKey bare (by decide)) (ne_of_isBareKey bare (by decide)) others

/-- A line enters the text under its key. -/
theorem line?_text (bare : Bare key) {text : List Char} (enough : text.length + 1 < fuel)
    {entries entered : Entries}
    (free : entries.enter (String.ofList key) (.text (String.ofList text)) = some entered)
    (rest : List Char) :
    line? fuel ⟨entries, []⟩ (key ++ ' ' :: '=' :: ' ' :: (quote text ++ '\n' :: rest)) =
      some (⟨entered, []⟩, rest) := by
  obtain ⟨less, rfl⟩ := Nat.exists_eq_succ_of_ne_zero (Nat.ne_zero_of_lt enough)
  have value := value?_quote (Nat.lt_of_succ_lt_succ enough) deepestNesting rest
  have blank : dropBlanks (' ' :: (quote text ++ '\n' :: rest)) = quote text ++ '\n' :: rest := by
    obtain ⟨mark, others, written, marks, -⟩ := quote_spec text
    rw [written]
    rcases marks with rfl | rfl <;> rfl
  have named := @key?_bare key (less + 1) bare 78 (' ' :: (quote text ++ '\n' :: rest))
  obtain ⟨first, others, front, letter⟩ :=
    bare.head (' ' :: '=' :: ' ' :: (quote text ++ '\n' :: rest))
  rw [front] at named ⊢
  unfold line?
  rw [dropBlanks_of_bare letter]
  split
  · rename_i same
    exact absurd (List.cons.inj same).1 (ne_of_isBareKey letter (by decide))
  · rename_i same
    exact absurd (List.cons.inj same).1 (ne_of_isBareKey letter (by decide))
  · rw [endLine?_of_bare letter]
    have equals : character? '=' ('=' :: ' ' :: (quote text ++ '\n' :: rest)) =
      some (' ' :: (quote text ++ '\n' :: rest)) := rfl
    have ended : endLine? ('\n' :: rest) = some rest := rfl
    simp only [deepestNesting, named, equals, blank, Option.bind_eq_bind, Option.bind_some]
    simp only [deepestNesting] at value
    simp only [value, Option.bind_some, Entries.within, Entries.enterDotted, free, ended]

end Line

end Toml

/-! ## The document -/

/-- A format is known by its own name only. -/
theorem Format.ofName?_eq_some_iff {name : String} {format : Format} :
    Format.ofName? name = some format ↔ name = format.name := by
  constructor
  · intro found
    unfold Format.ofName? at found
    split_ifs at found with tree json matrix
    all_goals cases found
    · exact tree
    · exact json
    · exact matrix
  · rintro rfl
    cases format <;> rfl

namespace Settings

open Toml

theorem toList_line (key value : String) :
    (line key value).toList =
      key.toList ++ ' ' :: '=' :: ' ' :: (quote value.toList ++ ['\n']) := by
  simp [line, String.toList_append]

/-- A line is long enough to be the fuel for reading its value. -/
theorem length_line (key value : String) :
    value.toList.length + 2 < (line key value).toList.length := by
  obtain ⟨mark, others, written, -, long⟩ := quote_spec value.toList
  rw [toList_line, written]
  simp only [List.length_append, List.length_cons]
  omega

/-- A line of a document is read and the others are left. -/
theorem lines?_line {key : String} (bare : Bare key.toList) {value : String} {fuel : Nat}
    (enough : value.toList.length + 1 < fuel) {entries entered : Entries}
    (free : entries.enter key (.text value) = some entered) (rest : List Char) :
    lines? (fuel + 1) ⟨entries, []⟩ ((line key value).toList ++ rest) =
      lines? fuel ⟨entered, []⟩ rest := by
  have text : (line key value).toList ++ rest =
      key.toList ++ ' ' :: '=' :: ' ' :: (quote value.toList ++ '\n' :: rest) := by
    simp [toList_line]
  have read : line? fuel ⟨entries, []⟩ ((line key value).toList ++ rest) =
      some (⟨entered, []⟩, rest) := by
    rw [text]
    exact line?_text bare enough (by simpa using free) rest
  obtain ⟨first, others, front, -⟩ :=
    bare.head (' ' :: '=' :: ' ' :: (quote value.toList ++ '\n' :: rest))
  rw [text, front] at read ⊢
  simp only [lines?, read, Option.bind_eq_bind, Option.bind_some]

theorem bare_dataFile : Bare "data_file".toList :=
  ⟨by decide, List.all_eq_true.mp (by decide)⟩

theorem bare_format : Bare "format".toList :=
  ⟨by decide, List.all_eq_true.mp (by decide)⟩

/-- The table that a document of settings stands for. -/
def held (settings : Settings) : Entries :=
  (settings.dataFile.map fun name => ("data_file", Item.text name)).toList ++
    (settings.format.map fun format => ("format", Item.text format.name)).toList

/-- The second line, where there is one. -/
theorem lines?_format {entries : Entries} (free : entries.get? "format" = none)
    (chosen : Option Format) {fuel : Nat}
    (enough : ((chosen.map fun format => line "format" format.name).getD "").toList.length < fuel) :
    lines? fuel ⟨entries, []⟩
        ((chosen.map fun format => line "format" format.name).getD "").toList =
      some ⟨entries ++ (chosen.map fun format => ("format", .text format.name)).toList, []⟩ := by
  obtain ⟨less, rfl⟩ := Nat.exists_eq_succ_of_ne_zero (Nat.ne_zero_of_lt enough)
  cases chosen with
  | none =>
      rw [Option.map_none, Option.map_none, Option.toList_none, List.append_nil]
      rfl
  | some format =>
      have long := length_line "format" format.name
      rw [Option.map_some, Option.getD_some] at enough ⊢
      have entered : entries.enter "format" (.text format.name) =
          some (entries ++ [("format", .text format.name)]) := by
        rw [Entries.enter, free]
      have fits : format.name.toList.length + 1 < less := by omega
      have read := lines?_line bare_format fits entered []
      rw [List.append_nil] at read
      rw [read]
      obtain ⟨still, rfl⟩ : ∃ still, less = still + 1 := ⟨less - 1, by omega⟩
      rfl

theorem lines?_write (settings : Settings) {fuel : Nat}
    (enough : settings.write.toList.length < fuel) :
    lines? fuel {} settings.write.toList = some ⟨settings.held, []⟩ := by
  obtain ⟨dataFile, format⟩ := settings
  simp only [write, String.toList_append, List.length_append] at enough ⊢
  cases dataFile with
  | none => exact lines?_format rfl format (by omega)
  | some name =>
      obtain ⟨less, rfl⟩ := Nat.exists_eq_succ_of_ne_zero (Nat.ne_zero_of_lt enough)
      have long := length_line "data_file" name
      rw [Option.map_some, Option.getD_some] at enough ⊢
      have entered : Entries.enter [] "data_file" (.text name) = some [("data_file", .text name)] :=
        rfl
      rw [lines?_line bare_dataFile (by omega) entered]
      exact lines?_format rfl format (by omega)

/-- The document is read as the table of its lines. -/
theorem read?_document (settings : Settings) : Toml.read? settings.write = some settings.held := by
  have plain : ∀ rest, settings.write.toList ≠ '\uFEFF' :: rest := by
    obtain ⟨dataFile, format⟩ := settings
    intro rest
    cases dataFile <;> cases format <;> simp [write, toList_line, String.toList_append]
  unfold Toml.read?
  split
  · rename_i rest same
    exact absurd same (plain rest)
  · exact congrArg (Option.map Draft.entries) (lines?_write settings (Nat.lt_succ_self _))

/-- What is written is what is read. -/
theorem read?_write (settings : Settings) : read? settings.write = some settings := by
  have known (format : Format) : Format.ofName? format.name = some format :=
    Format.ofName?_eq_some_iff.mpr rfl
  obtain ⟨dataFile, format⟩ := settings
  rw [read?, read?_document]
  cases dataFile <;> cases format <;>
    simp [held, at?, Entries.get?, Ledger.get?, dataFileOf?, formatOf?, known]

end Settings

end LinkAtlas
