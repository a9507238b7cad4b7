import LinkAtlas.Proofs.JsonMarks
import LinkAtlas.Proofs.JsonText

/-!
# Objects and arrays in pieces

The text of an object is cut into the texts of its names and values, and such pieces are put
together to the text of an object. A value is read alike on every stack, so that what is read from a
piece alone is what it means within the object.
-/

namespace LinkAtlas

namespace Json

/-! ## Values on a stack -/

/-- A reading of a value within what is open on a stack below it. -/
def Reading.onto (base : List Frame) (reading : Reading) : Option Reading :=
  match reading.result with
  | some value => complete value base
  | none => some ⟨reading.stack ++ base, reading.awaiting, none⟩

/-- The value has not been read to its end, nor was anything else begun after it. -/
def Reading.Open (reading : Reading) : Prop :=
  reading.result = none ∧ (reading.stack = [] → reading.awaiting = .value)

namespace Reading

theorem complete_append (value : Json) (stack base : List Frame) :
    complete value (stack ++ base) = (complete value stack).bind (onto base) := by
  cases stack with
  | nil => rfl
  | cons frame rest => cases frame <;> rfl

theorem complete_cases {value : Json} {stack : List Frame} {next : Reading}
    (completed : complete value stack = some next) :
    next.Open ∨ ∃ whole, next = ⟨[], .nothing, some whole⟩ := by
  cases stack with
  | nil =>
      cases completed
      exact Or.inr ⟨value, rfl⟩
  | cons frame rest =>
      cases frame <;> cases completed <;> exact Or.inl ⟨rfl, nofun⟩

variable {reading next final : Reading} {base : List Frame} {token : Token}

/-- As long as the value is not complete, nothing of the stack below it is seen. -/
theorem take_onto (opened : reading.Open) (base : List Frame) (token : Token) :
    take ⟨reading.stack ++ base, reading.awaiting, none⟩ token =
      (reading.take token).bind (onto base) := by
  obtain ⟨stack, awaiting, result⟩ := reading
  obtain ⟨rfl, held⟩ := opened
  have begun (stack : List Frame) :
      beginValue (stack ++ base) token = (beginValue stack token).bind (onto base) := by
    cases token with
    | text value => cases value <;> exact complete_append _ _ _
    | null => exact complete_append _ _ _
    | boolean value => exact complete_append _ _ _
    | number spelling => exact complete_append _ _ _
    | openArray | openObject => rfl
    | closeArray | closeObject | comma | colon => rfl
  have arrayClosed {frame : Frame} {rest : List Frame} :
      closeArray (frame :: rest ++ base) = (closeArray (frame :: rest)).bind (onto base) := by
    cases frame with
    | array items => exact complete_append _ _ _
    | object | member => rfl
  have objectClosed {frame : Frame} {rest : List Frame} :
      closeObject (frame :: rest ++ base) = (closeObject (frame :: rest)).bind (onto base) := by
    cases frame with
    | object members => exact complete_append _ _ _
    | array | member => rfl
  have named {frame : Frame} {rest : List Frame} :
      beginMember (frame :: rest ++ base) token =
        (beginMember (frame :: rest) token).bind (onto base) := by
    cases token <;> cases frame <;> rfl
  cases stack with
  | nil =>
      obtain rfl : awaiting = .value := held rfl
      exact begun []
  | cons frame rest =>
      cases awaiting with
      | value => exact begun _
      | firstItem =>
          unfold take
          dsimp only
          split
          · exact arrayClosed
          · exact begun _
      | name => exact named
      | firstName =>
          unfold take
          dsimp only
          split
          · exact objectClosed
          · exact named
      | colon =>
          unfold take
          dsimp only
          split <;> rfl
      | separator =>
          cases token with
          | comma => cases frame <;> rfl
          | closeArray => exact arrayClosed
          | closeObject => exact objectClosed
          | openArray | openObject | colon | null | boolean | number | text => rfl
      | nothing => rfl

theorem beginValue_cases {stack : List Frame} (taken : beginValue stack token = some next) :
    next.Open ∨ ∃ value, next = ⟨[], .nothing, some value⟩ := by
  cases token with
  | text value => cases value <;> exact complete_cases taken
  | null => exact complete_cases taken
  | boolean value => exact complete_cases taken
  | number spelling => exact complete_cases taken
  | openArray | openObject =>
      cases taken
      exact Or.inl ⟨rfl, nofun⟩
  | closeArray | closeObject | comma | colon => cases taken

theorem beginMember_cases {stack : List Frame} (taken : beginMember stack token = some next) :
    next.Open := by
  unfold beginMember at taken
  split at taken
  · split at taken
    · cases taken
      exact ⟨rfl, nofun⟩
    · cases taken
  · cases taken

theorem closeArray_cases {stack : List Frame} (taken : closeArray stack = some next) :
    next.Open ∨ ∃ value, next = ⟨[], .nothing, some value⟩ := by
  unfold closeArray at taken
  split at taken
  · exact complete_cases taken
  · cases taken

theorem closeObject_cases {stack : List Frame} (taken : closeObject stack = some next) :
    next.Open ∨ ∃ value, next = ⟨[], .nothing, some value⟩ := by
  unfold closeObject at taken
  split at taken
  · exact complete_cases taken
  · cases taken

/-- One token leaves a value open or completes it. -/
theorem take_cases (opened : reading.Open) (taken : reading.take token = some next) :
    next.Open ∨ ∃ value, next = ⟨[], .nothing, some value⟩ := by
  obtain ⟨stack, awaiting, result⟩ := reading
  obtain ⟨rfl, held⟩ := opened
  cases awaiting with
  | value => exact beginValue_cases taken
  | firstItem =>
      unfold take at taken
      dsimp only at taken
      split at taken
      · exact closeArray_cases taken
      · exact beginValue_cases taken
  | name => exact Or.inl (beginMember_cases taken)
  | firstName =>
      unfold take at taken
      dsimp only at taken
      split at taken
      · exact closeObject_cases taken
      · exact Or.inl (beginMember_cases taken)
  | colon =>
      unfold take at taken
      dsimp only at taken
      split at taken
      · cases taken
        exact Or.inl ⟨rfl, fun _ => rfl⟩
      · cases taken
  | separator =>
      cases token with
      | comma =>
          cases stack with
          | nil => cases taken
          | cons frame rest =>
              cases frame <;> cases taken <;> exact Or.inl ⟨rfl, nofun⟩
      | closeArray => exact closeArray_cases taken
      | closeObject => exact closeObject_cases taken
      | openArray | openObject | colon | null | boolean | number | text => cases taken
  | nothing => cases taken

theorem onto_of_open (opened : next.Open) :
    next.onto base = some ⟨next.stack ++ base, next.awaiting, none⟩ := by
  rw [onto, opened.1]

theorem takeAll_nothing {value : Json} {tokens : List Token}
    (taken : takeAll ⟨[], .nothing, some value⟩ tokens = some final) :
    tokens = [] ∧ final = ⟨[], .nothing, some value⟩ := by
  cases tokens with
  | nil =>
      cases taken
      exact ⟨rfl, rfl⟩
  | cons token rest => cases taken

/-- What is a value alone is the same value on a stack. -/
theorem takeAll_onto (opened : reading.Open) {tokens : List Token} {value : Json}
    (taken : (reading.takeAll tokens).bind result = some value) (base : List Frame)
    (rest : List Token) :
    takeAll ⟨reading.stack ++ base, reading.awaiting, none⟩ (tokens ++ rest) =
      (complete value base).bind fun reading => reading.takeAll rest := by
  induction tokens generalizing reading with
  | nil =>
      rw [takeAll, Option.bind_some, opened.1] at taken
      cases taken
  | cons token later ih =>
      have lifted := take_onto opened base token
      cases step : reading.take token with
      | none =>
          rw [takeAll, step] at taken
          cases taken
      | some next =>
          rw [takeAll, step] at taken
          rw [step, Option.bind_some] at lifted
          rw [List.cons_append, takeAll_cons lifted]
          rcases take_cases opened step with further | ⟨whole, rfl⟩
          · rw [onto_of_open further, Option.bind_some]
            exact ih further taken
          · obtain ⟨final, ended, same⟩ := Option.bind_eq_some_iff.mp taken
            obtain ⟨rfl, rfl⟩ := takeAll_nothing ended
            cases same
            rfl

/-- A value that was read on a stack would have been the same alone. -/
theorem exists_of_takeAll_onto (opened : reading.Open) {tokens : List Token}
    (taken : takeAll ⟨reading.stack ++ base, reading.awaiting, none⟩ tokens = some final)
    (ended : final.result ≠ none) :
    ∃ first rest value, tokens = first ++ rest ∧
      (reading.takeAll first).bind result = some value ∧
      (complete value base).bind (fun reading => reading.takeAll rest) = some final := by
  induction tokens generalizing reading with
  | nil =>
      cases taken
      exact absurd rfl ended
  | cons token later ih =>
      have lifted := take_onto opened base token
      rw [takeAll_cons lifted] at taken
      cases step : reading.take token with
      | none =>
          rw [step] at taken
          cases taken
      | some next =>
          rw [step, Option.bind_some] at taken
          rcases take_cases opened step with further | ⟨whole, rfl⟩
          · rw [onto_of_open further, Option.bind_some] at taken
            obtain ⟨first, rest, value, rfl, alone, behind⟩ := ih further taken
            exact ⟨token :: first, rest, value, rfl, by rwa [takeAll_cons step], behind⟩
          · exact ⟨[token], later, whole, rfl, by rw [takeAll_cons step]; rfl, taken⟩

end Reading

theorem open_value : Reading.Open ⟨[], .value, none⟩ := ⟨rfl, fun _ => rfl⟩

/-! ## Members -/

/-- The tokens of a member: its name, a colon and its value. -/
def MemberTokens (group : List Token) (member : Option String × Json) : Prop :=
  ∃ tokens, group = .text member.1 :: .colon :: tokens ∧ ofTokens? tokens = some member.2

variable {stack : List Frame} {held : List (Option String × Json)} {awaiting : Awaiting}

theorem takeAll_member (awaits : awaiting = .name ∨ awaiting = .firstName) {group : List Token}
    {member : Option String × Json} (spelled : MemberTokens group member) (rest : List Token) :
    Reading.takeAll ⟨.object held :: stack, awaiting, none⟩ (group ++ rest) =
      Reading.takeAll ⟨.object (member :: held) :: stack, .separator, none⟩ rest := by
  obtain ⟨tokens, rfl, read⟩ := spelled
  have begun : Reading.takeAll ⟨.object held :: stack, awaiting, none⟩
      (.text member.1 :: .colon :: tokens ++ rest) =
        Reading.takeAll ⟨.member held member.1 :: stack, .value, none⟩ (tokens ++ rest) := by
    rcases awaits with rfl | rfl <;> rfl
  exact begun.trans (Reading.takeAll_onto open_value read _ rest)

theorem takeAll_members (awaits : awaiting = .name ∨ awaiting = .firstName)
    {groups : List (List Token)} {members : List (Option String × Json)} (filled : groups ≠ [])
    (spelled : List.Forall₂ MemberTokens groups members) (rest : List Token) :
    Reading.takeAll ⟨.object held :: stack, awaiting, none⟩
        ([Token.comma].intercalate groups ++ .closeObject :: rest) =
      (Reading.complete (ofMembers (held.reverse ++ members)) stack).bind
        fun reading => reading.takeAll rest := by
  induction spelled generalizing held awaiting with
  | nil => exact absurd rfl filled
  | @cons group member groups members first others ih =>
      cases others with
      | nil =>
          rw [List.intercalate_singleton, takeAll_member awaits first,
            ← List.reverse_cons]
          exact Reading.takeAll_cons rfl rest
      | @cons next second later behind more all =>
          rw [List.intercalate_cons_cons, List.append_assoc, List.append_assoc,
            takeAll_member awaits first]
          refine (ih (Or.inl rfl) (List.cons_ne_nil _ _)).trans ?_
          rw [List.reverse_cons, List.append_assoc]
          rfl

theorem exists_of_takeAll_member (awaits : awaiting = .name ∨ awaiting = .firstName)
    {tokens : List Token} {final : Reading} (ended : final.result ≠ none)
    (taken : Reading.takeAll ⟨.object held :: stack, awaiting, none⟩ tokens = some final)
    (further : awaiting = .firstName → tokens.head? ≠ some .closeObject) :
    ∃ group member rest, tokens = group ++ rest ∧ MemberTokens group member ∧
      Reading.takeAll ⟨.object (member :: held) :: stack, .separator, none⟩ rest = some final := by
  cases tokens with
  | nil =>
      cases taken
      exact absurd rfl ended
  | cons token rest =>
      have begun : Reading.take ⟨.object held :: stack, awaiting, none⟩ token =
          beginMember (.object held :: stack) token := by
        rcases awaits with rfl | rfl
        · rfl
        · unfold Reading.take
          exact if_neg fun same => further rfl (congrArg some same)
      rw [Reading.takeAll_cons begun] at taken
      cases token with
      | text name =>
          rw [beginMember, Option.bind_some] at taken
          cases rest with
          | nil =>
              cases taken
              exact absurd rfl ended
          | cons second later =>
              unfold Reading.takeAll Reading.take at taken
              dsimp only at taken
              by_cases colon : second = .colon
              · rw [if_pos colon] at taken
                obtain ⟨first, behind, value, rfl, alone, rest⟩ :=
                  Reading.exists_of_takeAll_onto open_value taken ended
                exact ⟨.text name :: .colon :: first, (name, value), behind, by rw [colon]; rfl,
                  ⟨first, rfl, alone⟩, rest⟩
              · rw [if_neg colon] at taken
                cases taken
      | openArray | closeArray | openObject | closeObject => cases taken
      | comma | colon | null | boolean | number => cases taken

/-- An object that comes to its end consists of members. -/
theorem exists_of_takeAll_members (awaits : awaiting = .name ∨ awaiting = .firstName)
    {tokens : List Token} {final : Reading} (ended : final.result ≠ none)
    (taken : Reading.takeAll ⟨[.object held], awaiting, none⟩ tokens = some final)
    (further : awaiting = .firstName → tokens.head? ≠ some .closeObject) :
    ∃ groups, groups ≠ [] ∧ tokens = [Token.comma].intercalate groups ++ [.closeObject] ∧
      ∀ group ∈ groups, ∃ member, MemberTokens group member := by
  induction size : tokens.length using Nat.strong_induction_on generalizing tokens held awaiting with
  | h length ih =>
      obtain ⟨group, member, rest, rfl, spelled, behind⟩ :=
        exists_of_takeAll_member awaits ended taken further
      cases rest with
      | nil =>
          cases behind
          exact absurd rfl ended
      | cons token later =>
          cases token with
          | comma =>
              have shorter : later.length < length := by
                rw [← size, List.length_append, List.length_cons]
                omega
              obtain ⟨groups, filled, rfl, all⟩ := ih later.length shorter (Or.inl rfl) behind
                nofun rfl
              refine ⟨group :: groups, List.cons_ne_nil _ _, ?_,
                List.forall_mem_cons.mpr ⟨⟨member, spelled⟩, all⟩⟩
              rw [List.intercalate_cons_of_ne_nil filled]
              simp
          | closeObject =>
              obtain ⟨rfl, -⟩ := Reading.takeAll_nothing behind
              exact ⟨[group], List.cons_ne_nil _ _, by rw [List.intercalate_singleton],
                List.forall_mem_cons.mpr ⟨⟨member, spelled⟩, nofun⟩⟩
          | openArray | closeArray | openObject => cases behind
          | colon | null | boolean | number | text => cases behind

theorem ofTokens?_object {groups : List (List Token)} {members : List (Option String × Json)}
    (spelled : List.Forall₂ MemberTokens groups members) :
    ofTokens? (.openObject :: ([Token.comma].intercalate groups ++ [.closeObject])) =
      some (ofMembers members) := by
  cases spelled with
  | nil => rfl
  | @cons group member groups members first others =>
      have read : Reading.takeAll ⟨[.object []], .firstName, none⟩
          ([Token.comma].intercalate (group :: groups) ++ [.closeObject]) =
            some ⟨[], .nothing, some (ofMembers (member :: members))⟩ :=
        takeAll_members (Or.inr rfl) (List.cons_ne_nil _ _) (.cons first others) []
      exact congrArg (Option.bind · Reading.result) read

theorem exists_of_ofTokens?_object {tokens : List Token} {json : Json}
    (read : ofTokens? (.openObject :: tokens) = some json) :
    ∃ groups, tokens = [Token.comma].intercalate groups ++ [.closeObject] ∧
      ∀ group ∈ groups, ∃ member, MemberTokens group member := by
  obtain ⟨final, taken, ended⟩ := Option.bind_eq_some_iff.mp read
  have whole : final.result ≠ none := fun none => nomatch none.symm.trans ended
  have inside : Reading.takeAll ⟨[.object []], .firstName, none⟩ tokens = some final := taken
  by_cases closes : tokens.head? = some .closeObject
  · cases tokens with
    | nil => cases closes
    | cons token rest =>
        cases closes
        obtain ⟨rfl, -⟩ := Reading.takeAll_nothing inside
        exact ⟨[], rfl, nofun⟩
  · obtain ⟨groups, -, same, all⟩ :=
      exists_of_takeAll_members (Or.inr rfl) whole inside fun _ => closes
    exact ⟨groups, same, all⟩

/-! ## Items -/

theorem takeAll_item (awaits : awaiting = .value ∨ awaiting = .firstItem) {group : List Token}
    {item : Json} (read : ofTokens? group = some item) (items : List Json) (rest : List Token) :
    Reading.takeAll ⟨.array items :: stack, awaiting, none⟩ (group ++ rest) =
      Reading.takeAll ⟨.array (item :: items) :: stack, .separator, none⟩ rest := by
  have alone : Reading.takeAll ⟨.array items :: stack, .value, none⟩ (group ++ rest) =
      Reading.takeAll ⟨.array (item :: items) :: stack, .separator, none⟩ rest :=
    Reading.takeAll_onto open_value read (.array items :: stack) rest
  rcases awaits with rfl | rfl
  · exact alone
  · cases group with
    | nil => cases read
    | cons token later =>
        have other : token ≠ .closeArray := by
          rintro rfl
          cases read
        have same : Reading.take ⟨.array items :: stack, .firstItem, none⟩ token =
            Reading.take ⟨.array items :: stack, .value, none⟩ token := if_neg other
        rw [List.cons_append, Reading.takeAll_cons same]
        exact (Reading.takeAll_cons rfl _).symm.trans alone

theorem takeAll_items (awaits : awaiting = .value ∨ awaiting = .firstItem)
    {groups : List (List Token)} {items : List Json} (filled : groups ≠ [])
    (spelled : List.Forall₂ (fun group item => ofTokens? group = some item) groups items)
    (before : List Json) (rest : List Token) :
    Reading.takeAll ⟨.array before :: stack, awaiting, none⟩
        ([Token.comma].intercalate groups ++ .closeArray :: rest) =
      (Reading.complete (.array (before.reverse ++ items)) stack).bind
        fun reading => reading.takeAll rest := by
  induction spelled generalizing before awaiting with
  | nil => exact absurd rfl filled
  | @cons group item groups items first others ih =>
      cases others with
      | nil =>
          rw [List.intercalate_singleton, takeAll_item awaits first, ← List.reverse_cons]
          exact Reading.takeAll_cons rfl rest
      | @cons next second later behind more all =>
          rw [List.intercalate_cons_cons, List.append_assoc, List.append_assoc,
            takeAll_item awaits first]
          refine (ih (Or.inl rfl) (List.cons_ne_nil _ _) (item :: before)).trans ?_
          rw [List.reverse_cons, List.append_assoc]
          rfl

theorem ofTokens?_array {groups : List (List Token)} {items : List Json}
    (spelled : List.Forall₂ (fun group item => ofTokens? group = some item) groups items) :
    ofTokens? (.openArray :: ([Token.comma].intercalate groups ++ [.closeArray])) =
      some (.array items) := by
  cases spelled with
  | nil => rfl
  | @cons group item groups items first others =>
      have read : Reading.takeAll ⟨[.array []], .firstItem, none⟩
          ([Token.comma].intercalate (group :: groups) ++ [.closeArray]) =
            some ⟨[], .nothing, some (.array (item :: items))⟩ :=
        takeAll_items (Or.inr rfl) (List.cons_ne_nil _ _) (.cons first others) [] []
      exact congrArg (Option.bind · Reading.result) read

/-! ## Texts -/

/-- A member of an object as it is written: what stands in front of the colon, and what stands
behind it. -/
structure Piece where
  name : String
  value : String

namespace Piece

def text (piece : Piece) : String := piece.name ++ ":" ++ piece.value

/-- The member that a piece stands for. Its name is missing if it holds half of a surrogate pair. -/
structure Spells (piece : Piece) (member : Option String × Json) : Prop where
  name : tokens? piece.name.toList = some [.text member.1]
  value : read? piece.value = some member.2

variable {piece : Piece} {member other : Option String × Json}

theorem Spells.unique (one : piece.Spells member) (two : piece.Spells other) : member = other := by
  have name := one.name.symm.trans two.name
  have value := one.value.symm.trans two.value
  simp only [Option.some.injEq, List.cons.injEq, Token.text.injEq, and_true] at name value
  exact Prod.ext name value

/-- The name that is written in a piece. -/
def Named (piece : Piece) (name : String) : Prop :=
  tokens? piece.name.toList = some [.text (some name)]

instance (piece : Piece) (name : String) : Decidable (piece.Named name) :=
  inferInstanceAs (Decidable (_ = _))

theorem Spells.named_iff {name : String} (spells : piece.Spells member) :
    piece.Named name ↔ member.1 = some name := by
  rw [Named, spells.name]
  simp

theorem Spells.tokens (spells : piece.Spells member) :
    ∃ group, tokens? piece.text.toList = some group ∧ MemberTokens group member := by
  obtain ⟨tokens, value, read⟩ := Option.bind_eq_some_iff.mp spells.value
  have colon : Token.colon.mark? = some ':' := rfl
  refine ⟨_, ?_, tokens, rfl, read⟩
  refine (tokens?_eq_append_mark_iff colon).mpr ⟨_, _, ?_, spells.name, value⟩
  simp [text]

theorem exists_spells {part : String} {group : List Token}
    (tokens : tokens? part.toList = some group) (spelled : MemberTokens group member) :
    ∃ piece : Piece, piece.text = part ∧ piece.Spells member := by
  obtain ⟨value, rfl, read⟩ := spelled
  rw [← List.singleton_append] at tokens
  have colon : Token.colon.mark? = some ':' := rfl
  obtain ⟨front, tail, whole, name, behind⟩ := (tokens?_eq_append_mark_iff colon).mp tokens
  refine ⟨⟨String.ofList front, String.ofList tail⟩, ?_, ?_, ?_⟩
  · apply String.toList_inj.mp
    rw [whole]
    simp [text]
  · simpa using name
  · rw [read?, String.toList_ofList, behind]
    exact read

end Piece

/-- Pieces in a row stand for members in a row. -/
theorem Piece.spells_append_iff {one two : List Piece} {members : List (Option String × Json)} :
    List.Forall₂ Spells (one ++ two) members ↔ ∃ first second, members = first ++ second ∧
      List.Forall₂ Spells one first ∧ List.Forall₂ Spells two second := by
  constructor
  · intro spelled
    have front := List.forall₂_take one.length spelled
    have back := List.forall₂_drop one.length spelled
    rw [List.take_left] at front
    rw [List.drop_left] at back
    exact ⟨_, _, (List.take_append_drop _ _).symm, front, back⟩
  · rintro ⟨first, second, rfl, front, back⟩
    exact List.rel_append front back

/-- A text of an object in pieces. -/
structure ObjectOf (pieces : List Piece) (text : String) : Prop where
  spelled : ∃ members, List.Forall₂ Piece.Spells pieces members
  written : Enclosed '\x7b' '\x7d' (pieces.map Piece.text) text

/-- A text of an array with its items. -/
structure ArrayOf (items : List String) (text : String) : Prop where
  spelled : ∃ values, List.Forall₂ (fun item value => read? item = some value) items values
  written : Enclosed '[' ']' items text

variable {text : String} {pieces : List Piece}

theorem read?_of_objectOf (written : ObjectOf pieces text)
    {members : List (Option String × Json)} (spelled : List.Forall₂ Piece.Spells pieces members) :
    read? text = some (ofMembers members) := by
  obtain ⟨groups, tokens, same⟩ : ∃ groups,
      List.Forall₂ (fun part group => tokens? part.toList = some group)
        (pieces.map Piece.text) groups ∧ List.Forall₂ MemberTokens groups members := by
    clear written
    induction spelled with
    | nil => exact ⟨[], .nil, .nil⟩
    | cons first others ih =>
        obtain ⟨group, tokens, same⟩ := first.tokens
        obtain ⟨groups, all, alike⟩ := ih
        exact ⟨group :: groups, .cons tokens all, .cons same alike⟩
  have whole : tokens? text.toList =
      some (.openObject :: ([Token.comma].intercalate groups ++ [.closeObject])) :=
    written.written.tokens? rfl rfl tokens
  rw [read?, whole]
  exact ofTokens?_object same

theorem read?_of_arrayOf {items : List String} (written : ArrayOf items text)
    {values : List Json} (spelled : List.Forall₂ (fun item value => read? item = some value)
      items values) : read? text = some (.array values) := by
  obtain ⟨groups, tokens, same⟩ : ∃ groups,
      List.Forall₂ (fun part group => tokens? part.toList = some group) items groups ∧
        List.Forall₂ (fun group value => ofTokens? group = some value) groups values := by
    clear written
    induction spelled with
    | nil => exact ⟨[], .nil, .nil⟩
    | cons first others ih =>
        obtain ⟨group, tokens, same⟩ := Option.bind_eq_some_iff.mp first
        obtain ⟨groups, all, alike⟩ := ih
        exact ⟨group :: groups, .cons tokens all, .cons same alike⟩
  have whole : tokens? text.toList =
      some (.openArray :: ([Token.comma].intercalate groups ++ [.closeArray])) :=
    written.written.tokens? rfl rfl tokens
  rw [read?, whole]
  exact ofTokens?_array same

/-- Every text that begins with a brace and can be read is made of pieces. -/
theorem exists_objectOf {json : Json} (read : read? text = some json)
    (begins : (text.toList.dropWhile isBlank).head? = some '\x7b') :
    ∃ pieces, ObjectOf pieces text := by
  obtain ⟨tail, inside⟩ : ∃ tail, text.toList.dropWhile isBlank = '\x7b' :: tail := by
    cases found : text.toList.dropWhile isBlank with
    | nil =>
        rw [found] at begins
        cases begins
    | cons first tail =>
        rw [found] at begins
        cases begins
        exact ⟨tail, rfl⟩
  obtain ⟨tokens, cut, value⟩ := Option.bind_eq_some_iff.mp read
  have opened : tokens? text.toList = (tokens? tail).map fun later => .openObject :: later := by
    rw [← List.takeWhile_append_dropWhile (l := text.toList) (p := isBlank),
      tokens?_blanks (fun _ => List.mem_takeWhile_imp), inside]
    exact tokens?_mark _ _ rfl tail
  obtain ⟨later, -, rfl⟩ := Option.map_eq_some_iff.mp (opened.symm.trans cut)
  obtain ⟨groups, rfl, all⟩ := exists_of_ofTokens?_object value
  obtain ⟨parts, enclosed, matched⟩ : ∃ parts, Enclosed '\x7b' '\x7d' parts text ∧
      List.Forall₂ (fun part group => tokens? part.toList = some group) parts groups :=
    exists_enclosed rfl rfl cut
  obtain ⟨pieces, rfl, spelled⟩ : ∃ pieces : List Piece, parts = pieces.map Piece.text ∧
      ∃ members, List.Forall₂ Piece.Spells pieces members := by
    clear enclosed cut value
    induction matched with
    | nil => exact ⟨[], rfl, [], .nil⟩
    | cons first others ih =>
        obtain ⟨⟨member, named⟩, rest⟩ := List.forall_mem_cons.mp all
        obtain ⟨piece, rfl, spells⟩ := Piece.exists_spells first named
        obtain ⟨pieces, rfl, members, spelled⟩ := ih rest
        exact ⟨piece :: pieces, rfl, member :: members, .cons spells spelled⟩
  exact ⟨pieces, spelled, enclosed⟩

end Json

end LinkAtlas
