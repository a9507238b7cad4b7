import LinkAtlas.Command.LinkSpec

/-!
# Reading link specifications

A text is a link specification exactly if it can be written from three parts that are not empty, the
first two of which have no colon. There is only one way to do so: the first two colons of the text
part it.
-/

namespace LinkAtlas

namespace LinkSpec

/-- None of the parts is empty, and only the target may have colons. -/
structure Proper (spec : LinkSpec) : Prop where
  source_filled : spec.source ≠ ""
  edge_filled : spec.edge ≠ ""
  target_filled : spec.target ≠ ""
  source_plain : ':' ∉ spec.source.toList
  edge_plain : ':' ∉ spec.edge.toList

theorem cut?_colon (behind : List Char) : cut? (':' :: behind) = some ([], behind) := rfl

theorem cut?_cons {first : Char} (other : first ≠ ':') (rest : List Char) :
    cut? (first :: rest) = (cut? rest).map fun parts => (first :: parts.1, parts.2) := by
  simp only [cut?, List.dropWhile_cons, List.takeWhile_cons, bne_iff_ne, ne_eq, other,
    not_false_eq_true, if_true]
  cases rest.dropWhile (· != ':') <;> rfl

/-- A text is cut at its first colon. -/
theorem cut?_eq_some_iff {text before behind : List Char} :
    cut? text = some (before, behind) ↔ text = before ++ ':' :: behind ∧ ':' ∉ before := by
  constructor
  · intro found
    induction text generalizing before with
    | nil => cases found
    | cons first rest ih =>
        by_cases here : first = ':'
        · subst here
          cases (cut?_colon rest).symm.trans found
          exact ⟨rfl, List.not_mem_nil⟩
        · rw [cut?_cons here, Option.map_eq_some_iff] at found
          obtain ⟨⟨inner, after⟩, deeper, same⟩ := found
          cases same
          obtain ⟨rfl, plain⟩ := ih deeper
          exact ⟨rfl, List.not_mem_cons_of_ne_of_not_mem (Ne.symm here) plain⟩
  · rintro ⟨rfl, plain⟩
    induction before with
    | nil => exact cut?_colon behind
    | cons first rest ih =>
        rw [List.mem_cons, not_or] at plain
        rw [List.cons_append, cut?_cons (Ne.symm plain.1), ih plain.2]
        rfl

theorem toList_write (spec : LinkSpec) :
    spec.write.toList =
      spec.source.toList ++ ':' :: (spec.edge.toList ++ ':' :: spec.target.toList) := by
  simp [write]

theorem read?_eq_some_iff {text : String} {spec : LinkSpec} :
    read? text = some spec ↔ spec.Proper ∧ text = spec.write := by
  rw [← String.toList_inj, toList_write]
  simp only [read?, Option.bind_eq_bind, Option.bind_eq_some_iff]
  constructor
  · rintro ⟨⟨source, behind⟩, first, parts⟩
    obtain ⟨⟨edge, target⟩, second, whole⟩ := parts
    obtain ⟨begins, plain⟩ := cut?_eq_some_iff.mp first
    obtain ⟨goes, bare⟩ := cut?_eq_some_iff.mp second
    dsimp only at whole goes
    split at whole
    · cases whole
    · rename_i filled
      cases whole
      simp only [Bool.or_eq_true, List.isEmpty_iff, not_or] at filled
      refine ⟨⟨?_, ?_, ?_, ?_, ?_⟩, ?_⟩
      · simpa using filled.1.1
      · simpa using filled.1.2
      · simpa using filled.2
      · simpa using plain
      · simpa using bare
      · simpa [goes] using begins
  · rintro ⟨proper, same⟩
    refine ⟨_, cut?_eq_some_iff.mpr ⟨same, proper.source_plain⟩, ?_⟩
    refine ⟨_, cut?_eq_some_iff.mpr ⟨rfl, proper.edge_plain⟩, ?_⟩
    simp [proper.source_filled, proper.edge_filled, proper.target_filled]

/-! ## Which texts are specifications -/

/-- What stands before, between and behind the colons of a text. -/
def pieces (text : String) : List (List Char) := text.toList.splitOn ':'

/-- The text in front of the first colon. -/
def front (text : String) : List Char := (pieces text).getD 0 []

/-- The text between the first two colons. -/
def middle (text : String) : List Char := (pieces text).getD 1 []

/-- All that follows the second colon, further colons included. -/
def remainder (text : String) : List Char := [':'].intercalate ((pieces text).drop 2)

/-- A text with a colon is parted by its first one. -/
theorem exists_of_count_pos {text : List Char} (colons : 0 < text.count ':') :
    ∃ before behind, text = before ++ ':' :: behind ∧ ':' ∉ before ∧
      text.count ':' = behind.count ':' + 1 := by
  obtain ⟨before, behind, rfl, plain⟩ :=
    List.eq_append_cons_of_mem (List.count_pos_iff.mp colons)
  refine ⟨before, behind, rfl, plain, ?_⟩
  rw [List.count_append, List.count_eq_zero.mpr plain, List.count_cons_self, Nat.zero_add]

theorem pieces_eq {text : String} {source edge target : List Char}
    (parted : text.toList = source ++ ':' :: (edge ++ ':' :: target)) (plain : ':' ∉ source)
    (bare : ':' ∉ edge) : pieces text = source :: edge :: target.splitOn ':' := by
  rw [pieces, parted, List.splitOn_append_cons_self_of_not_mem plain,
    List.splitOn_append_cons_self_of_not_mem bare]

/-- The three parts of a text that has them. -/
theorem parts_eq {text : String} {source edge target : List Char}
    (parted : text.toList = source ++ ':' :: (edge ++ ':' :: target)) (plain : ':' ∉ source)
    (bare : ':' ∉ edge) : front text = source ∧ middle text = edge ∧ remainder text = target := by
  simp only [front, middle, remainder, pieces_eq parted plain bare]
  exact ⟨rfl, rfl, List.intercalate_splitOn ':'⟩

/-- A text with two colons or more has the three parts. -/
theorem exists_parts {text : String} (colons : 2 ≤ text.toList.count ':') :
    text.toList = front text ++ ':' :: (middle text ++ ':' :: remainder text) ∧
      ':' ∉ front text ∧ ':' ∉ middle text := by
  obtain ⟨source, behind, first, plain, fewer⟩ :=
    exists_of_count_pos (by omega : 0 < text.toList.count ':')
  obtain ⟨edge, target, rfl, bare, -⟩ := exists_of_count_pos (by omega : 0 < behind.count ':')
  obtain ⟨front, middle, remainder⟩ := parts_eq first plain bare
  rw [front, middle, remainder]
  exact ⟨first, plain, bare⟩

theorem exists_read?_iff {text : String} :
    (∃ spec, read? text = some spec) ↔ 2 ≤ text.toList.count ':' ∧ front text ≠ [] ∧
      middle text ≠ [] ∧ remainder text ≠ [] := by
  constructor
  · rintro ⟨spec, found⟩
    obtain ⟨proper, rfl⟩ := read?_eq_some_iff.mp found
    have parted := toList_write spec
    obtain ⟨front, middle, remainder⟩ := parts_eq parted proper.source_plain proper.edge_plain
    rw [front, middle, remainder, parted]
    refine ⟨?_, ?_, ?_, ?_⟩
    · simp only [List.count_append, List.count_cons_self]
      omega
    · simpa using proper.source_filled
    · simpa using proper.edge_filled
    · simpa using proper.target_filled
  · rintro ⟨colons, source, edge, target⟩
    obtain ⟨parted, plain, bare⟩ := exists_parts colons
    refine ⟨⟨String.ofList (front text), String.ofList (middle text),
      String.ofList (remainder text)⟩, read?_eq_some_iff.mpr ⟨?_, ?_⟩⟩
    · constructor <;> simpa
    · rw [← String.toList_inj, toList_write]
      simpa using parted

/-- A text is read exactly if it has two colons and its parts at the first two of them are not
empty. What is read gives the text back, every specification is read from what is written of it,
and no two are written alike. -/
theorem parts_uniquely :
    (∀ text, (∃ spec, read? text = some spec) ↔ 2 ≤ text.toList.count ':' ∧ front text ≠ [] ∧
      middle text ≠ [] ∧ remainder text ≠ []) ∧
    (∀ text spec, read? text = some spec → spec.write = text ∧ ':' ∉ spec.source.toList ∧
      ':' ∉ spec.edge.toList) ∧
    (∀ spec : LinkSpec, spec.Proper → read? spec.write = some spec) ∧
    ∀ spec other : LinkSpec, spec.Proper → other.Proper → spec.write = other.write →
      spec = other := by
  have reread (spec : LinkSpec) (proper : spec.Proper) : read? spec.write = some spec :=
    read?_eq_some_iff.mpr ⟨proper, rfl⟩
  refine ⟨fun text => exists_read?_iff, ?_, reread, ?_⟩
  · intro text spec found
    obtain ⟨proper, rfl⟩ := read?_eq_some_iff.mp found
    exact ⟨rfl, proper.source_plain, proper.edge_plain⟩
  · intro spec other proper fair same
    have alike := (reread spec proper).symm.trans (same ▸ reread other fair)
    exact Option.some.inj alike

/-- The target is an address with colons of its own. -/
theorem parts_uniquely_address :
    (⟨"ada", "page", "http://a.b:80/"⟩ : LinkSpec).Proper ∧
      read? "ada:page:http://a.b:80/" = some ⟨"ada", "page", "http://a.b:80/"⟩ ∧
      read? "ada::bob" = none := by
  have proper : (⟨"ada", "page", "http://a.b:80/"⟩ : LinkSpec).Proper := by
    constructor <;> decide
  obtain ⟨accepted, -, reread, -⟩ := parts_uniquely
  refine ⟨proper, reread _ proper, ?_⟩
  rw [Option.eq_none_iff_forall_ne_some]
  intro spec found
  exact ((accepted "ada::bob").mp ⟨spec, found⟩).2.2.1 (by decide)

end LinkSpec

end LinkAtlas
