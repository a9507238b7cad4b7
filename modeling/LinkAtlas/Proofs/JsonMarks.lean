import LinkAtlas.Proofs.JsonTokens
import Mathlib.Data.List.Forall2

/-!
# Marks

Brackets, commas and colons belong to no other token. So a text is cut in front of each of them and
behind it, and the tokens of such a text are those of its parts, with the mark between them.
-/

namespace LinkAtlas

namespace Json

/-- How a token of one character is written. -/
def Token.mark? : Token → Option Char
  | .openArray => some '['
  | .closeArray => some ']'
  | .openObject => some '\x7b'
  | .closeObject => some '\x7d'
  | .comma => some ','
  | .colon => some ':'
  | .null => none
  | .boolean _ => none
  | .number _ => none
  | .text _ => none

variable {token : Token} {mark : Char}

theorem begin_of_mark (marked : token.mark? = some mark) :
    begin mark = some ([token], .between) := by
  cases token <;> cases marked <;> rfl

theorem advance_of_mark (marked : token.mark? = some mark) {mode : Mode} {done : List Token}
    (finished : finish mode = some done) : advance mode mark = finishThen mode mark := by
  cases mode with
  | between => cases token <;> cases marked <;> rfl
  | word letters => cases token <;> cases marked <;> rfl
  | number spelling => cases token <;> cases marked <;> rfl
  | text points => cases finished
  | escape points => cases finished
  | codePoint points missing value => cases finished

theorem tokensFrom_append_mark (marked : token.mark? = some mark) {mode : Mode}
    {front : List Char} {first : List Token} (read : tokensFrom [] mode front = some first)
    (tail : List Char) :
    tokensFrom [] mode (front ++ mark :: tail) =
      (tokens? tail).map fun later => first ++ token :: later := by
  induction front generalizing mode first with
  | nil =>
      have finished : finish mode = some first := by
        rw [tokensFrom] at read
        obtain ⟨last, ended, rfl⟩ := Option.map_eq_some_iff.mp read
        exact ended
      have ends : ∀ character ∈ (mark :: tail).head?,
          advance mode character = finishThen mode character := by
        rintro _ ⟨⟩
        exact advance_of_mark marked finished
      rw [List.nil_append, tokensFrom_of_finish ends finished,
        tokens?_mark mark token (begin_of_mark marked), Option.map_map]
      rfl
  | cons character rest ih =>
      cases effect : advance mode character with
      | none =>
          rw [tokensFrom, effect] at read
          cases read
      | some step =>
          obtain ⟨done, next⟩ := step
          rw [tokensFrom_cons effect] at read
          obtain ⟨later, behind, rfl⟩ := Option.map_eq_some_iff.mp read
          rw [List.cons_append, tokensFrom_cons effect, ih behind, Option.map_map]
          simp [Function.comp_def]

/-! ## Cutting in front of a mark -/

theorem begin_cases {character : Char} {done : List Token} {next : Mode}
    (begun : begin character = some (done, next)) :
    done = [] ∨ ∃ token : Token, token.mark? = some character ∧ done = [token] ∧
      next = .between := by
  unfold begin at begun
  repeat' split at begun
  all_goals cases begun
  all_goals first | exact Or.inl rfl | exact Or.inr ⟨_, rfl, rfl, rfl⟩

theorem mark?_of_mem_finish {mode : Mode} {done : List Token} (finished : finish mode = some done)
    (listed : token ∈ done) : token.mark? = none := by
  cases mode with
  | between =>
      cases finished
      cases listed
  | word letters =>
      obtain ⟨known, said, rfl⟩ := Option.map_eq_some_iff.mp finished
      obtain rfl := List.mem_singleton.mp listed
      unfold wordToken? at said
      repeat' split at said
      all_goals cases said
      all_goals rfl
  | number spelling =>
      obtain ⟨numeral, -, rfl⟩ := Option.map_eq_some_iff.mp finished
      obtain rfl := List.mem_singleton.mp listed
      rfl
  | text points => cases finished
  | escape points => cases finished
  | codePoint points missing value => cases finished

/-- A mark ends the present token and nothing but itself comes of it. -/
theorem finishThen_mark (marked : token.mark? = some mark) {mode next : Mode} {character : Char}
    {first more : List Token}
    (effect : finishThen mode character = some (first ++ token :: more, next)) :
    character = mark ∧ finish mode = some first ∧ more = [] ∧ next = .between := by
  unfold finishThen at effect
  simp only [Option.bind_eq_bind, Option.bind_eq_some_iff] at effect
  obtain ⟨done, finished, ⟨begun, other⟩, started, same⟩ := effect
  simp only [Option.some.injEq, Prod.mk.injEq] at same
  obtain ⟨whole, rfl⟩ := same
  have outside : token ∉ done := fun inside =>
    nomatch marked.symm.trans (mark?_of_mem_finish finished inside)
  rcases begin_cases started with rfl | ⟨single, written, rfl, rfl⟩
  · rw [List.append_nil] at whole
    exact absurd (whole ▸ List.mem_append_right first List.mem_cons_self) outside
  · rcases List.append_eq_append_iff.mp whole with ⟨between, rfl, rest⟩ | ⟨between, rfl, rest⟩
    · cases between with
      | nil =>
          cases rest
          rw [marked] at written
          cases written
          exact ⟨rfl, by rwa [List.append_nil], rfl, rfl⟩
      | cons other others => simp at rest
    · cases between with
      | nil =>
          cases rest
          rw [marked] at written
          cases written
          exact ⟨rfl, by rwa [List.append_nil] at finished, rfl, rfl⟩
      | cons other others =>
          cases rest
          exact absurd (List.mem_append_right first List.mem_cons_self) outside

theorem advance_mark (marked : token.mark? = some mark) {mode next : Mode} {character : Char}
    {first more : List Token}
    (effect : advance mode character = some (first ++ token :: more, next)) :
    character = mark ∧ finish mode = some first ∧ more = [] ∧ next = .between := by
  have nothing (other : Mode) (same : (([], other) : List Token × Mode) =
      (first ++ token :: more, next)) : False := by simp at same
  cases mode with
  | between =>
      apply finishThen_mark marked
      rw [← effect, advance]
      unfold finishThen
      cases begin character <;> rfl
  | word letters =>
      rw [advance] at effect
      split at effect
      · exact (nothing _ (Option.some.inj effect)).elim
      · exact finishThen_mark marked effect
  | number spelling =>
      rw [advance] at effect
      split at effect
      · exact (nothing _ (Option.some.inj effect)).elim
      · exact finishThen_mark marked effect
  | text points =>
      rw [advance] at effect
      split at effect
      · have string := congrArg Prod.fst (Option.some.inj effect)
        cases first with
        | nil =>
            cases string
            cases marked
        | cons _ others => simp at string
      · split at effect
        · exact (nothing _ (Option.some.inj effect)).elim
        · split at effect
          · cases effect
          · exact (nothing _ (Option.some.inj effect)).elim
  | escape points =>
      rw [advance] at effect
      split at effect
      · exact (nothing _ (Option.some.inj effect)).elim
      · obtain ⟨plain, -, same⟩ := Option.map_eq_some_iff.mp effect
        exact (nothing _ same).elim
  | codePoint points missing value =>
      rw [advance] at effect
      obtain ⟨digit, -, same⟩ := Option.map_eq_some_iff.mp effect
      dsimp only at same
      split at same
      · exact (nothing _ same).elim
      · exact (nothing _ same).elim

theorem exists_of_tokensFrom_mark (marked : token.mark? = some mark) {mode : Mode}
    {text : List Char} {first later : List Token}
    (read : tokensFrom [] mode text = some (first ++ token :: later)) :
    ∃ front tail, text = front ++ mark :: tail ∧ tokensFrom [] mode front = some first ∧
      tokens? tail = some later := by
  induction text generalizing mode first with
  | nil =>
      rw [tokensFrom] at read
      obtain ⟨last, ended, same⟩ := Option.map_eq_some_iff.mp read
      rw [List.reverse_nil, List.nil_append] at same
      have plain : token.mark? = none := mark?_of_mem_finish ended
        (same ▸ List.mem_append_right first List.mem_cons_self)
      rw [marked] at plain
      cases plain
  | cons character rest ih =>
      cases effect : advance mode character with
      | none =>
          rw [tokensFrom, effect] at read
          cases read
      | some step =>
          obtain ⟨done, next⟩ := step
          rw [tokensFrom_cons effect] at read
          obtain ⟨others, behind, whole⟩ := Option.map_eq_some_iff.mp read
          have further (between : List Token) (same : others = between ++ token :: later) :
              ∃ front tail, character :: rest = front ++ mark :: tail ∧
                tokensFrom [] mode front = some (done ++ between) ∧ tokens? tail = some later := by
            rw [same] at behind
            obtain ⟨front, tail, rfl, inside, outside⟩ := ih behind
            exact ⟨character :: front, tail, rfl, by rw [tokensFrom_cons effect, inside]; rfl,
              outside⟩
          rcases List.append_eq_append_iff.mp whole with ⟨between, rfl, same⟩ | ⟨between, rfl, same⟩
          · exact further between same
          · cases between with
            | nil =>
                have here := further [] same.symm
                rwa [List.append_nil, List.append_nil] at here
            | cons other more =>
                cases same
                obtain ⟨rfl, finished, rfl, rfl⟩ := advance_mark marked effect
                exact ⟨[], rest, rfl, by rw [tokensFrom, finished]; rfl, behind⟩

theorem tokens?_eq_append_mark_iff (marked : token.mark? = some mark) {text : List Char}
    {first later : List Token} :
    tokens? text = some (first ++ token :: later) ↔
      ∃ front tail, text = front ++ mark :: tail ∧ tokens? front = some first ∧
        tokens? tail = some later := by
  constructor
  · exact exists_of_tokensFrom_mark marked
  · rintro ⟨front, tail, rfl, read, behind⟩
    rw [tokens?, tokensFrom_append_mark marked read, behind]
    rfl

/-! ## Blanks -/

theorem tokens?_blanks {blanks : List Char} (blank : ∀ character ∈ blanks, isBlank character = true)
    (tail : List Char) : tokens? (blanks ++ tail) = tokens? tail := by
  induction blanks with
  | nil => rfl
  | cons first rest ih =>
      obtain ⟨here, others⟩ := List.forall_mem_cons.mp blank
      rw [List.cons_append, tokens?_blank here, ih others]

theorem finish_ne_nil {mode : Mode} (inside : mode ≠ .between) : finish mode ≠ some [] := by
  cases mode with
  | between => exact absurd rfl inside
  | word letters => simp [finish]
  | number spelling => simp [finish]
  | text points => simp [finish]
  | escape points => simp [finish]
  | codePoint points missing value => simp [finish]

/-- A token that has begun does not go by unnoticed. -/
theorem advance_ne_nil {mode : Mode} (inside : mode ≠ .between) (character : Char) :
    advance mode character ≠ some ([], .between) := by
  have noticed : finishThen mode character ≠ some ([], .between) := by
    intro effect
    unfold finishThen at effect
    simp only [Option.bind_eq_bind, Option.bind_eq_some_iff] at effect
    obtain ⟨done, finished, ⟨begun, next⟩, -, same⟩ := effect
    simp only [Option.some.injEq, Prod.mk.injEq, List.append_eq_nil_iff] at same
    exact finish_ne_nil inside (same.1.1 ▸ finished)
  cases mode with
  | between => exact absurd rfl inside
  | word letters =>
      rw [advance]
      split
      · simp
      · exact noticed
  | number spelling =>
      rw [advance]
      split
      · simp
      · exact noticed
  | text points =>
      rw [advance]
      split
      · simp
      · split
        · simp
        · split <;> simp
  | escape points =>
      rw [advance]
      split
      · simp
      · simp
  | codePoint points missing value =>
      rw [advance]
      intro effect
      obtain ⟨digit, -, same⟩ := Option.map_eq_some_iff.mp effect
      dsimp only at same
      split at same <;> cases same

theorem tokensFrom_ne_nil {mode : Mode} (inside : mode ≠ .between) (text : List Char) :
    tokensFrom [] mode text ≠ some [] := by
  induction text generalizing mode with
  | nil =>
      intro read
      rw [tokensFrom] at read
      obtain ⟨last, ended, same⟩ := Option.map_eq_some_iff.mp read
      exact finish_ne_nil inside (ended.trans (congrArg some same))
  | cons character rest ih =>
      intro read
      cases effect : advance mode character with
      | none =>
          rw [tokensFrom, effect] at read
          cases read
      | some step =>
          obtain ⟨done, next⟩ := step
          rw [tokensFrom_cons effect] at read
          obtain ⟨later, behind, same⟩ := Option.map_eq_some_iff.mp read
          obtain ⟨rfl, rfl⟩ := List.append_eq_nil_iff.mp same
          by_cases again : next = .between
          · exact advance_ne_nil inside character (again ▸ effect)
          · exact ih again behind

/-- A text without tokens is blank. -/
theorem isBlank_of_tokens? {text : List Char} (read : tokens? text = some []) :
    ∀ character ∈ text, isBlank character = true := by
  induction text with
  | nil => exact fun _ none => absurd none List.not_mem_nil
  | cons character rest ih =>
      cases effect : begin character with
      | none =>
          rw [tokens?, tokensFrom, advance, effect] at read
          cases read
      | some step =>
          obtain ⟨done, next⟩ := step
          have advanced : advance .between character = some (done, next) := effect
          rw [tokens?, tokensFrom_cons advanced] at read
          obtain ⟨later, behind, same⟩ := Option.map_eq_some_iff.mp read
          obtain ⟨rfl, rfl⟩ := List.append_eq_nil_iff.mp same
          obtain rfl : next = .between := by
            by_contra inside
            exact tokensFrom_ne_nil inside rest behind
          refine List.forall_mem_cons.mpr ⟨?_, ih behind⟩
          unfold begin at effect
          repeat' split at effect
          all_goals first | assumption | cases effect

/-! ## Separated by commas -/

theorem tokens?_eq_intercalate_iff {groups : List (List Token)} (filled : groups ≠ [])
    {text : List Char} :
    tokens? text = some ([Token.comma].intercalate groups) ↔
      ∃ parts : List String, text = [','].intercalate (parts.map String.toList) ∧
        List.Forall₂ (fun part group => tokens? part.toList = some group) parts groups := by
  have comma : Token.comma.mark? = some ',' := rfl
  induction groups generalizing text with
  | nil => exact absurd rfl filled
  | cons group rest ih =>
      cases rest with
      | nil =>
          rw [List.intercalate_singleton]
          constructor
          · intro read
            exact ⟨[String.ofList text], by simp, .cons (by simpa using read) .nil⟩
          · rintro ⟨parts, rfl, matched⟩
            obtain ⟨first, others, read, last, rfl⟩ := List.forall₂_cons_right_iff.mp matched
            rw [List.forall₂_nil_right_iff.mp last, List.map_singleton,
              List.intercalate_singleton]
            exact read
      | cons next later =>
          rw [List.intercalate_cons_cons, List.append_assoc, List.singleton_append,
            tokens?_eq_append_mark_iff comma]
          constructor
          · rintro ⟨front, tail, rfl, read, behind⟩
            obtain ⟨parts, rfl, matched⟩ := (ih (List.cons_ne_nil _ _)).mp behind
            obtain ⟨second, others, -, -, rfl⟩ := List.forall₂_cons_right_iff.mp matched
            exact ⟨String.ofList front :: second :: others, by simp [List.intercalate_cons_cons],
              .cons (by simpa using read) matched⟩
          · rintro ⟨parts, rfl, matched⟩
            obtain ⟨front, rest, read, behind, rfl⟩ := List.forall₂_cons_right_iff.mp matched
            obtain ⟨second, others, -, -, rfl⟩ := List.forall₂_cons_right_iff.mp behind
            refine ⟨front.toList, _, ?_, read, (ih (List.cons_ne_nil _ _)).mpr ⟨_, rfl, behind⟩⟩
            rw [List.map_cons, List.map_cons, List.intercalate_cons_cons, List.append_assoc,
              List.singleton_append]

/-- A text of blanks. -/
def Blank (text : String) : Prop := ∀ character ∈ text.toList, isBlank character = true

theorem blank_empty : Blank "" := nofun

/-- A text in brackets, which consists of parts with a comma between each two of them. Blanks inside
of the brackets belong to the parts, or stand alone if there are none. -/
def Enclosed (opening closing : Char) (parts : List String) (text : String) : Prop :=
  ∃ front inner back, Blank front ∧ Blank inner ∧ Blank back ∧
    text = (front.push opening ++ inner ++ ",".intercalate parts).push closing ++ back

theorem enclosed_bare (opening closing : Char) (parts : List String) :
    Enclosed opening closing parts (("".push opening ++ ",".intercalate parts).push closing) :=
  ⟨"", "", "", blank_empty, blank_empty, blank_empty, by simp⟩

section Enclosed

variable {first last : Token} {opening closing : Char} {parts : List String} {text : String}
  {groups : List (List Token)}

theorem Enclosed.tokens? (opens : first.mark? = some opening) (closes : last.mark? = some closing)
    (enclosed : Enclosed opening closing parts text)
    (read : List.Forall₂ (fun part group => Json.tokens? part.toList = some group) parts groups) :
    Json.tokens? text.toList = some (first :: ([Token.comma].intercalate groups ++ [last])) := by
  obtain ⟨front, inner, back, before, within, behind, rfl⟩ := enclosed
  have nothing {blanks : String} (blank : Blank blanks) : Json.tokens? blanks.toList = some [] := by
    have alone := tokens?_blanks blank []
    rw [List.append_nil] at alone
    exact alone
  have middle : Json.tokens? (inner.toList ++ [','].intercalate (parts.map String.toList)) =
      some ([Token.comma].intercalate groups) := by
    rw [tokens?_blanks within]
    cases read with
    | nil => rfl
    | cons one others =>
        exact (tokens?_eq_intercalate_iff (List.cons_ne_nil _ _)).mpr ⟨_, rfl, .cons one others⟩
  have whole := (tokens?_eq_append_mark_iff opens).mpr ⟨front.toList, _, rfl, nothing before,
    (tokens?_eq_append_mark_iff closes).mpr ⟨_, back.toList, rfl, middle, nothing behind⟩⟩
  simpa [String.toList_intercalate] using whole

theorem exists_enclosed (opens : first.mark? = some opening) (closes : last.mark? = some closing)
    (read : Json.tokens? text.toList =
      some (first :: ([Token.comma].intercalate groups ++ [last]))) :
    ∃ parts, Enclosed opening closing parts text ∧
      List.Forall₂ (fun part group => Json.tokens? part.toList = some group) parts groups := by
  rw [← List.nil_append (first :: _)] at read
  obtain ⟨front, tail, whole, before, later⟩ := (tokens?_eq_append_mark_iff opens).mp read
  obtain ⟨middle, back, rfl, within, behind⟩ := (tokens?_eq_append_mark_iff closes).mp later
  have blank {blanks : List Char} (none : Json.tokens? blanks = some []) :
      Blank (String.ofList blanks) := by
    unfold Blank
    rw [String.toList_ofList]
    exact isBlank_of_tokens? none
  have same {inner : List Char} {parts : List String}
      (body : middle = inner ++ [','].intercalate (parts.map String.toList)) :
      text = ((String.ofList front).push opening ++ String.ofList inner ++
        ",".intercalate parts).push closing ++ String.ofList back := by
    apply String.toList_inj.mp
    rw [whole, body]
    simp [String.toList_intercalate]
  by_cases filled : groups = []
  · subst filled
    exact ⟨[], ⟨_, _, _, blank before, blank within, blank behind,
      same (List.append_nil middle).symm⟩, .nil⟩
  · obtain ⟨parts, body, matched⟩ := (tokens?_eq_intercalate_iff filled).mp within
    exact ⟨parts, ⟨_, "", _, blank before, blank_empty, blank behind, same body⟩, matched⟩

end Enclosed

end Json

end LinkAtlas
