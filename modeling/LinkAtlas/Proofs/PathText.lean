import LinkAtlas.Proofs.JsonText
import LinkAtlas.Query.Json

/-!
# Paths in a text

A path is read back from its text, whatever its labels are and however its branches nest, up to the
limit on nesting; there is no such limit on what is written. So a text that was read can be written
again and means the same path.
-/

namespace LinkAtlas

namespace PathStep

mutual

/-- How deep the arrays of a step nest. -/
def nesting : PathStep → Nat
  | hop _ => 0
  | branch steps => nestingAll steps + 1

def nestingAll : List PathStep → Nat
  | [] => 0
  | step :: rest => max step.nesting (nestingAll rest)

end

mutual

theorem legible_toJson : ∀ step : PathStep, step.toJson.Legible
  | hop _ => trivial
  | branch steps => itemsLegible_toJsonList steps

theorem itemsLegible_toJsonList : ∀ steps : List PathStep, Json.ItemsLegible (toJsonList steps)
  | [] => trivial
  | step :: rest => ⟨legible_toJson step, itemsLegible_toJsonList rest⟩

end

mutual

/-- What is written means the step again, if there is room for it. -/
theorem ofJson?_toJson : ∀ (room : Nat) (step : PathStep),
    ofJson? room step.toJson = if step.nesting ≤ room then some step else none
  | room, hop label => by
      rw [nesting, if_pos (Nat.zero_le room)]
      rfl
  | 0, branch steps => rfl
  | room + 1, branch steps => by
      have inside := ofItems?_toJsonList room steps
      rw [toJson, ofJson?, inside, nesting]
      by_cases fits : nestingAll steps ≤ room
      · rw [if_pos fits, if_pos (Nat.succ_le_succ fits)]
        rfl
      · rw [if_neg fits, if_neg (mt Nat.le_of_succ_le_succ fits)]
        rfl

theorem ofItems?_toJsonList : ∀ (room : Nat) (steps : List PathStep),
    ofItems? room (toJsonList steps) = if nestingAll steps ≤ room then some steps else none
  | room, [] => by
      rw [nestingAll, if_pos (Nat.zero_le room)]
      rfl
  | room, step :: rest => by
      have first := ofJson?_toJson room step
      have others := ofItems?_toJsonList room rest
      rw [toJsonList, ofItems?, first, others, nestingAll]
      by_cases fits : step.nesting ≤ room
      · by_cases fit : nestingAll rest ≤ room
        · rw [if_pos fits, if_pos fit, if_pos (Nat.max_le.mpr ⟨fits, fit⟩)]
          rfl
        · rw [if_pos fits, if_neg fit, if_neg fun both => fit (Nat.max_le.mp both).2]
          rfl
      · rw [if_neg fits, if_neg fun both => fits (Nat.max_le.mp both).1]
        rfl

end

mutual

/-- What is read nests no deeper than there is room. -/
theorem nesting_le : ∀ {room : Nat} {json : Json} {step : PathStep},
    ofJson? room json = some step → step.nesting ≤ room
  | _, .text _, _, means => by
      cases means
      exact Nat.zero_le _
  | 0, .array _, _, means => by cases means
  | _ + 1, .array items, _, means => by
      obtain ⟨steps, read, rfl⟩ := Option.map_eq_some_iff.mp means
      exact Nat.succ_le_succ (nestingAll_le read)
  | _, .null, _, means => by cases means
  | _, .boolean _, _, means => by cases means
  | _, .number _, _, means => by cases means
  | _, .object _, _, means => by cases means
  | _, .unreadable, _, means => by cases means

theorem nestingAll_le : ∀ {room : Nat} {items : List Json} {steps : List PathStep},
    ofItems? room items = some steps → nestingAll steps ≤ room
  | _, [], _, means => by
      cases means
      exact Nat.zero_le _
  | room, item :: rest, _, means => by
      obtain ⟨step, first, later⟩ := Option.bind_eq_some_iff.mp means
      obtain ⟨steps, others, whole⟩ := Option.bind_eq_some_iff.mp later
      cases whole
      exact Nat.max_le.mpr ⟨nesting_le first, nestingAll_le others⟩

end

end PathStep

namespace QueryPath

/-- How deep the arrays of a path nest, its own one included. -/
def nesting (path : QueryPath) : Nat := PathStep.nestingAll path.steps + 1

theorem legible_toJson (path : QueryPath) : path.toJson.Legible :=
  PathStep.itemsLegible_toJsonList path.steps

theorem ofJson?_toJson (path : QueryPath) :
    ofJson? path.toJson = if path.nesting ≤ deepestNesting then some path else none := by
  have inside : PathStep.nestingAll path.steps ≤ deepestNesting - 1 ↔
      path.nesting ≤ deepestNesting := Nat.succ_le_succ_iff.symm
  rw [toJson, ofJson?, PathStep.ofItems?_toJsonList]
  by_cases fits : path.nesting ≤ deepestNesting
  · rw [if_pos fits, if_pos (inside.mpr fits)]
    rfl
  · rw [if_neg fits, if_neg (mt inside.mp fits)]
    rfl

theorem nesting_le_of_read {text : String} {path : QueryPath} (means : read text = .ok path) :
    path.nesting ≤ deepestNesting := by
  unfold read at means
  split at means
  · rename_i found
    cases means
    obtain ⟨json, -, whole⟩ := Option.bind_eq_some_iff.mp found
    unfold ofJson? at whole
    split at whole
    · obtain ⟨steps, read, rfl⟩ := Option.map_eq_some_iff.mp whole
      exact Nat.succ_le_succ (PathStep.nestingAll_le read)
    · cases whole
  · cases means

theorem read_of_mem_texts {path : QueryPath} {text : String} (written : text ∈ path.toJson.texts) :
    read text = if path.nesting ≤ deepestNesting then .ok path else .error .malformed := by
  rw [read, Json.read?_of_mem_texts path.legible_toJson written, Option.bind_some, ofJson?_toJson]
  by_cases fits : path.nesting ≤ deepestNesting
  · rw [if_pos fits, if_pos fits]
  · rw [if_neg fits, if_neg fits]

/-- Every path is read back from its text exactly if its arrays nest no deeper than the limit, and
what was read once is read again from the text of what it means. -/
theorem reads_back :
    (∀ path : QueryPath, ∀ text ∈ path.toJson.texts,
      read text = if path.nesting ≤ deepestNesting then .ok path else .error .malformed) ∧
    ∀ text path, read text = .ok path → ∀ again ∈ path.toJson.texts, read again = .ok path := by
  refine ⟨fun path text => read_of_mem_texts, fun text path means again written => ?_⟩
  rw [read_of_mem_texts written, if_pos (nesting_le_of_read means)]

/-- Empty branches inside each other. -/
def tower : Nat → PathStep
  | 0 => .branch []
  | height + 1 => .branch [tower height]

theorem nesting_tower (height : Nat) : (tower height).nesting = height + 1 := by
  induction height with
  | zero => rfl
  | succ height ih => simp [tower, PathStep.nesting, PathStep.nestingAll, ih]

/-- The highest tower that is read back, one that is too high, and a hop that is spelled in two
ways. -/
theorem reads_back_tower :
    read (toJson ⟨[.hop "\"\\\n", tower 125]⟩).compact = .ok ⟨[.hop "\"\\\n", tower 125]⟩ ∧
      read (toJson ⟨[.hop "\"\\\n", tower 126]⟩).compact = .error .malformed ∧
      read "[ \"\\ud83d\\ude00\" ]" = .ok ⟨[.hop "😀"]⟩ ∧
      read (toJson ⟨[.hop "😀"]⟩).pretty = .ok ⟨[.hop "😀"]⟩ := by
  have tokens : Json.tokens? "[ \"\\ud83d\\ude00\" ]".toList =
      some [.openArray, .text (some "😀"), .closeArray] := by decide +kernel
  have means : read "[ \"\\ud83d\\ude00\" ]" = .ok ⟨[.hop "😀"]⟩ := by
    rw [read, Json.read?, tokens]
    rfl
  refine ⟨(reads_back.1 _ _ List.mem_cons_self).trans (if_pos ?_),
    (reads_back.1 _ _ List.mem_cons_self).trans (if_neg ?_), means,
    reads_back.2 _ _ means _ (List.mem_cons_of_mem _ List.mem_cons_self)⟩
  · simp [nesting, PathStep.nestingAll, PathStep.nesting, nesting_tower, deepestNesting]
  · simp [nesting, PathStep.nestingAll, PathStep.nesting, nesting_tower, deepestNesting]

end QueryPath

end LinkAtlas
