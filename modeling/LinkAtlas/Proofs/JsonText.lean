import LinkAtlas.Json.Reader
import LinkAtlas.Proofs.JsonTokens

/-!
# Reading printed JSON

What is printed is read back as it was, in either layout. Both layouts of a value are the same
tokens with other blanks between them, and from its tokens the reader builds the value again.
-/

namespace LinkAtlas

namespace Json

/-! ## The tokens of a value -/

mutual

/-- A value whose numbers are numerals and none of whose parts is unreadable. -/
def Legible : Json → Prop
  | number spelling => (Numeral.read? spelling).isSome = true
  | array items => ItemsLegible items
  | object members => MembersLegible members
  | unreadable => False
  | null => True
  | boolean _ => True
  | text _ => True

def ItemsLegible : List Json → Prop
  | [] => True
  | next :: rest => next.Legible ∧ ItemsLegible rest

def MembersLegible : List (String × Json) → Prop
  | [] => True
  | (_, value) :: rest => value.Legible ∧ MembersLegible rest

end

mutual

/-- The tokens of a value. -/
def tokens : Json → List Token
  | null => [.null]
  | boolean value => [.boolean value]
  | number spelling => [.number spelling]
  | text value => [.text (some value)]
  | array [] => [.openArray, .closeArray]
  | array (first :: rest) => .openArray :: (first.tokens ++ itemTokens rest)
  | object [] => [.openObject, .closeObject]
  | object ((name, value) :: rest) =>
      .openObject :: .text (some name) :: .colon :: (value.tokens ++ memberTokens rest)
  | unreadable => [.null]

/-- The tokens behind the first item. -/
def itemTokens : List Json → List Token
  | [] => [.closeArray]
  | next :: rest => .comma :: (next.tokens ++ itemTokens rest)

def memberTokens : List (String × Json) → List Token
  | [] => [.closeObject]
  | (name, value) :: rest =>
      .comma :: .text (some name) :: .colon :: (value.tokens ++ memberTokens rest)

end

/-! ### Layouts -/

theorem apart_nil : Apart [] := fun _ none => nomatch none

theorem apart_cons {character : Char}
    (apart : isNumberCharacter character = false ∧ character.isLower = false) (tail : List Char) :
    Apart (character :: tail) := by
  intro other same
  cases same
  exact apart

-- Behind a value stands a comma or a bracket, in front of which a number or a word has to end.
theorem apart_compactItemsOnto (items : List Json) (tail : List Char) :
    Apart (compactItemsOnto items (']' :: tail)) := by
  cases items <;> exact apart_cons ⟨rfl, rfl⟩ _

theorem apart_compactMembersOnto (members : List (String × Json)) (tail : List Char) :
    Apart (compactMembersOnto members ('\x7d' :: tail)) := by
  cases members <;> exact apart_cons ⟨rfl, rfl⟩ _

mutual

theorem tokens?_compactOnto : ∀ (json : Json), json.Legible → ∀ {tail : List Char}, Apart tail →
    tokens? (json.compactOnto tail) = (tokens? tail).map fun later => json.tokens ++ later
  | null, _, _, apart => tokens?_word rfl apart
  | boolean value, _, _, apart => by
      cases value <;> exact tokens?_word rfl apart
  | number spelling, legible, _, apart => tokens?_number legible apart
  | text value, _, tail, _ => tokens?_quoteOnto value tail
  | array [], _, tail, _ => by
      rw [compactOnto, tokens?_mark '[' .openArray rfl, tokens?_mark ']' .closeArray rfl]
      simp [tokens, Function.comp_def]
  | array (first :: rest), legible, tail, _ => by
      obtain ⟨head, others⟩ := legible
      rw [compactOnto, tokens?_mark '[' .openArray rfl,
        tokens?_compactOnto first head (apart_compactItemsOnto rest tail),
        tokens?_compactItemsOnto rest others]
      simp [tokens, Function.comp_def]
  | object [], _, tail, _ => by
      rw [compactOnto, tokens?_mark '\x7b' .openObject rfl, tokens?_mark '\x7d' .closeObject rfl]
      simp [tokens, Function.comp_def]
  | object ((name, value) :: rest), legible, tail, _ => by
      obtain ⟨head, others⟩ := legible
      rw [compactOnto, tokens?_mark '\x7b' .openObject rfl, tokens?_quoteOnto,
        tokens?_mark ':' .colon rfl,
        tokens?_compactOnto value head (apart_compactMembersOnto rest tail),
        tokens?_compactMembersOnto rest others]
      simp [tokens, Function.comp_def]

theorem tokens?_compactItemsOnto : ∀ (items : List Json), ItemsLegible items →
    ∀ {tail : List Char}, tokens? (compactItemsOnto items (']' :: tail)) =
      (tokens? tail).map fun later => itemTokens items ++ later
  | [], _, tail => by
      rw [compactItemsOnto, tokens?_mark ']' .closeArray rfl]
      rfl
  | next :: rest, legible, tail => by
      obtain ⟨head, others⟩ := legible
      rw [compactItemsOnto, tokens?_mark ',' .comma rfl,
        tokens?_compactOnto next head (apart_compactItemsOnto rest tail),
        tokens?_compactItemsOnto rest others]
      simp [itemTokens, Function.comp_def]

theorem tokens?_compactMembersOnto : ∀ (members : List (String × Json)), MembersLegible members →
    ∀ {tail : List Char}, tokens? (compactMembersOnto members ('\x7d' :: tail)) =
      (tokens? tail).map fun later => memberTokens members ++ later
  | [], _, tail => by
      rw [compactMembersOnto, tokens?_mark '\x7d' .closeObject rfl]
      rfl
  | (name, value) :: rest, legible, tail => by
      obtain ⟨head, others⟩ := legible
      rw [compactMembersOnto, tokens?_mark ',' .comma rfl, tokens?_quoteOnto,
        tokens?_mark ':' .colon rfl,
        tokens?_compactOnto value head (apart_compactMembersOnto rest tail),
        tokens?_compactMembersOnto rest others]
      simp [memberTokens, Function.comp_def]

end

theorem apart_prettyItemsOnto (level outer : Nat) (items : List Json) (tail : List Char) :
    Apart (prettyItemsOnto level items (newlineOnto outer tail)) := by
  cases items <;> exact apart_cons ⟨rfl, rfl⟩ _

theorem apart_prettyMembersOnto (level outer : Nat) (members : List (String × Json))
    (tail : List Char) : Apart (prettyMembersOnto level members (newlineOnto outer tail)) := by
  cases members <;> exact apart_cons ⟨rfl, rfl⟩ _

mutual

/-- The pretty layout has the same tokens as the compact one. -/
theorem tokens?_prettyOnto : ∀ (json : Json), json.Legible → ∀ {level : Nat} {tail : List Char},
    Apart tail →
      tokens? (json.prettyOnto level tail) = (tokens? tail).map fun later => json.tokens ++ later
  | null, _, _, _, apart => tokens?_word rfl apart
  | boolean value, _, _, _, apart => by
      cases value <;> exact tokens?_word rfl apart
  | number spelling, legible, _, _, apart => tokens?_number legible apart
  | text value, _, _, tail, _ => tokens?_quoteOnto value tail
  | array [], _, _, tail, _ => by
      rw [prettyOnto, tokens?_mark '[' .openArray rfl, tokens?_mark ']' .closeArray rfl]
      simp [tokens, Function.comp_def]
  | array (first :: rest), legible, level, tail, _ => by
      obtain ⟨head, others⟩ := legible
      rw [prettyOnto, tokens?_mark '[' .openArray rfl, tokens?_newlineOnto,
        tokens?_prettyOnto first head (apart_prettyItemsOnto _ level rest _),
        tokens?_prettyItemsOnto rest others]
      simp [tokens, Function.comp_def]
  | object [], _, _, tail, _ => by
      rw [prettyOnto, tokens?_mark '\x7b' .openObject rfl, tokens?_mark '\x7d' .closeObject rfl]
      simp [tokens, Function.comp_def]
  | object ((name, value) :: rest), legible, level, tail, _ => by
      obtain ⟨head, others⟩ := legible
      rw [prettyOnto, tokens?_mark '\x7b' .openObject rfl, tokens?_newlineOnto,
        tokens?_quoteOnto, tokens?_mark ':' .colon rfl, tokens?_blank rfl,
        tokens?_prettyOnto value head (apart_prettyMembersOnto _ level rest _),
        tokens?_prettyMembersOnto rest others]
      simp [tokens, Function.comp_def]

theorem tokens?_prettyItemsOnto : ∀ (items : List Json), ItemsLegible items →
    ∀ {level outer : Nat} {tail : List Char},
      tokens? (prettyItemsOnto level items (newlineOnto outer (']' :: tail))) =
        (tokens? tail).map fun later => itemTokens items ++ later
  | [], _, _, _, tail => by
      rw [prettyItemsOnto, tokens?_newlineOnto, tokens?_mark ']' .closeArray rfl]
      rfl
  | next :: rest, legible, level, outer, tail => by
      obtain ⟨head, others⟩ := legible
      rw [prettyItemsOnto, tokens?_mark ',' .comma rfl, tokens?_newlineOnto,
        tokens?_prettyOnto next head (apart_prettyItemsOnto level outer rest _),
        tokens?_prettyItemsOnto rest others]
      simp [itemTokens, Function.comp_def]

theorem tokens?_prettyMembersOnto : ∀ (members : List (String × Json)), MembersLegible members →
    ∀ {level outer : Nat} {tail : List Char},
      tokens? (prettyMembersOnto level members (newlineOnto outer ('\x7d' :: tail))) =
        (tokens? tail).map fun later => memberTokens members ++ later
  | [], _, _, _, tail => by
      rw [prettyMembersOnto, tokens?_newlineOnto, tokens?_mark '\x7d' .closeObject rfl]
      rfl
  | (name, value) :: rest, legible, level, outer, tail => by
      obtain ⟨head, others⟩ := legible
      rw [prettyMembersOnto, tokens?_mark ',' .comma rfl, tokens?_newlineOnto, tokens?_quoteOnto,
        tokens?_mark ':' .colon rfl, tokens?_blank rfl,
        tokens?_prettyOnto value head (apart_prettyMembersOnto level outer rest _),
        tokens?_prettyMembersOnto rest others]
      simp [memberTokens, Function.comp_def]

end

/-! ## From tokens to values -/

theorem Reading.takeAll_cons {reading : Reading} {token : Token} {next : Option Reading}
    (effect : reading.take token = next) (rest : List Token) :
    reading.takeAll (token :: rest) = next.bind fun reading => reading.takeAll rest := by
  rw [takeAll, effect]
  cases next <;> rfl

/-- Where an array may end, a value may begin as well. -/
theorem takeAll_firstItem (json : Json) (stack : List Frame) (rest : List Token) :
    Reading.takeAll ⟨stack, .firstItem, none⟩ (json.tokens ++ rest) =
      Reading.takeAll ⟨stack, .value, none⟩ (json.tokens ++ rest) := by
  unfold tokens
  split <;> rfl

theorem mapM_map_eq_some {α β γ : Type} {write : α → γ} {read : γ → Option β} {mean : α → β}
    {list : List α} (back : ∀ item ∈ list, read (write item) = some (mean item)) :
    (list.map write).mapM read = some (list.map mean) := by
  induction list with
  | nil => rfl
  | cons first rest ih =>
      obtain ⟨head, others⟩ := List.forall_mem_cons.mp back
      rw [List.map_cons, List.mapM_cons, head, ih others]
      rfl

theorem ofMembers_of_named (members : List (String × Json)) :
    ofMembers (members.map fun member => (some member.1, member.2)) = .object members := by
  have named : (members.map fun member => (some member.1, member.2)).mapM
      (fun member => member.1.map fun name => (name, member.2)) = some (members.map id) :=
    mapM_map_eq_some fun _ _ => rfl
  rw [ofMembers, named, List.map_id]

-- The stack is any: the parts of a value are read while the value itself is open on it.
mutual

/-- The tokens of a value are read as this value, and it goes where a value was awaited. -/
theorem takeAll_tokens : ∀ (json : Json), json.Legible → ∀ (stack : List Frame) (rest : List Token),
    Reading.takeAll ⟨stack, .value, none⟩ (json.tokens ++ rest) =
      (Reading.complete json stack).bind fun reading => reading.takeAll rest
  | null, _, _, rest => Reading.takeAll_cons rfl rest
  | boolean _, _, _, rest => Reading.takeAll_cons rfl rest
  | number _, _, _, rest => Reading.takeAll_cons rfl rest
  | text _, _, _, rest => Reading.takeAll_cons rfl rest
  | array [], _, _, rest => Reading.takeAll_cons rfl rest
  | array (first :: others), legible, stack, rest => by
      obtain ⟨head, later⟩ := legible
      calc Reading.takeAll ⟨stack, .value, none⟩
            (.openArray :: (first.tokens ++ itemTokens others) ++ rest)
          = Reading.takeAll ⟨.array [] :: stack, .firstItem, none⟩
              (first.tokens ++ itemTokens others ++ rest) := rfl
        _ = Reading.takeAll ⟨.array [first] :: stack, .separator, none⟩
              (itemTokens others ++ rest) := by
          rw [List.append_assoc, takeAll_firstItem, takeAll_tokens first head]
          rfl
        _ = (Reading.complete (.array (first :: others)) stack).bind
              fun reading => reading.takeAll rest :=
          takeAll_itemTokens others later [first] stack rest
  | object [], _, _, rest => Reading.takeAll_cons rfl rest
  | object ((name, value) :: others), legible, stack, rest => by
      obtain ⟨head, later⟩ := legible
      calc Reading.takeAll ⟨stack, .value, none⟩
            (.openObject :: .text (some name) :: .colon ::
              (value.tokens ++ memberTokens others) ++ rest)
          = Reading.takeAll ⟨.member [] (some name) :: stack, .value, none⟩
              (value.tokens ++ memberTokens others ++ rest) := rfl
        _ = Reading.takeAll ⟨.object [(some name, value)] :: stack, .separator, none⟩
              (memberTokens others ++ rest) := by
          rw [List.append_assoc, takeAll_tokens value head]
          rfl
        _ = (Reading.complete (.object ((name, value) :: others)) stack).bind
              fun reading => reading.takeAll rest := by
          rw [takeAll_memberTokens others later, ← ofMembers_of_named]
          rfl

theorem takeAll_itemTokens : ∀ (items : List Json), ItemsLegible items →
    ∀ (held : List Json) (stack : List Frame) (rest : List Token),
      Reading.takeAll ⟨.array held :: stack, .separator, none⟩ (itemTokens items ++ rest) =
        (Reading.complete (.array (held.reverse ++ items)) stack).bind
          fun reading => reading.takeAll rest
  | [], _, held, stack, rest => by
      rw [List.append_nil]
      exact Reading.takeAll_cons rfl rest
  | next :: others, legible, held, stack, rest => by
      obtain ⟨head, later⟩ := legible
      calc Reading.takeAll ⟨.array held :: stack, .separator, none⟩
            (.comma :: (next.tokens ++ itemTokens others) ++ rest)
          = Reading.takeAll ⟨.array held :: stack, .value, none⟩
              (next.tokens ++ itemTokens others ++ rest) := rfl
        _ = Reading.takeAll ⟨.array (next :: held) :: stack, .separator, none⟩
              (itemTokens others ++ rest) := by
          rw [List.append_assoc, takeAll_tokens next head]
          rfl
        _ = (Reading.complete (.array (held.reverse ++ next :: others)) stack).bind
              fun reading => reading.takeAll rest := by
          rw [takeAll_itemTokens others later, List.reverse_cons, List.append_assoc]
          rfl

theorem takeAll_memberTokens : ∀ (members : List (String × Json)), MembersLegible members →
    ∀ (held : List (Option String × Json)) (stack : List Frame) (rest : List Token),
      Reading.takeAll ⟨.object held :: stack, .separator, none⟩ (memberTokens members ++ rest) =
        (Reading.complete (ofMembers (held.reverse ++
          members.map fun member => (some member.1, member.2))) stack).bind
            fun reading => reading.takeAll rest
  | [], _, held, stack, rest => by
      rw [List.map_nil, List.append_nil]
      exact Reading.takeAll_cons rfl rest
  | (name, value) :: others, legible, held, stack, rest => by
      obtain ⟨head, later⟩ := legible
      calc Reading.takeAll ⟨.object held :: stack, .separator, none⟩
            (.comma :: .text (some name) :: .colon ::
              (value.tokens ++ memberTokens others) ++ rest)
          = Reading.takeAll ⟨.member held (some name) :: stack, .value, none⟩
              (value.tokens ++ memberTokens others ++ rest) := rfl
        _ = Reading.takeAll ⟨.object ((some name, value) :: held) :: stack, .separator, none⟩
              (memberTokens others ++ rest) := by
          rw [List.append_assoc, takeAll_tokens value head]
          rfl
        _ = _ := by
          rw [takeAll_memberTokens others later, List.reverse_cons, List.append_assoc]
          rfl

end

theorem ofTokens?_tokens {json : Json} (legible : json.Legible) :
    ofTokens? json.tokens = some json := by
  have read := takeAll_tokens json legible [] []
  rw [List.append_nil] at read
  rw [ofTokens?, read]
  rfl

/-- The compact and the pretty layout of a value. -/
def texts (json : Json) : List String := [json.compact, json.pretty]

/-- A value is read back from each of its layouts. -/
theorem read?_of_mem_texts {json : Json} (legible : json.Legible) {text : String}
    (written : text ∈ json.texts) : read? text = some json := by
  have tokens : tokens? text.toList = (tokens? []).map fun later => json.tokens ++ later := by
    rcases List.mem_cons.mp written with rfl | pretty
    · rw [compact, String.toList_ofList, tokens?_compactOnto json legible apart_nil]
    · rw [List.mem_singleton.mp pretty, Json.pretty, String.toList_ofList,
        tokens?_prettyOnto json legible apart_nil]
  have last : tokens? [] = some [] := rfl
  rw [last, Option.map_some, List.append_nil] at tokens
  rw [read?, tokens]
  exact ofTokens?_tokens legible

end Json

end LinkAtlas
