import LinkAtlas.Files.Route
import Mathlib.Data.List.Basic

/-!
# The directory of a name

The name of the nearest directory around a file is taken from the name of the file. It is a name
that a system can take as well, and its route goes the same way up to that directory.
-/

namespace LinkAtlas

namespace Route

/-! ## Parts of a name -/

theorem split_cons {character : Char} {rest first : List Char} {others : List (List Char)}
    (apart : character ≠ '/') (parted : split rest = first :: others) :
    split (character :: rest) = (character :: first) :: others := by
  unfold split at parted ⊢
  rw [List.foldr_cons, parted]
  split
  · exact absurd rfl apart
  · rename_i same
    cases same
    rfl
  · rename_i same
    cases same

theorem split_eq_splitOn (name : List Char) : split name = name.splitOn '/' := by
  induction name with
  | nil => rfl
  | cons character rest ih =>
      obtain ⟨first, others, parted⟩ := List.exists_cons_of_ne_nil (List.splitOn_ne_nil '/' rest)
      rw [List.splitOn_cons_eq_if_modifyHead, parted]
      rw [parted] at ih
      by_cases slash : character = '/'
      · rw [if_pos (beq_iff_eq.mpr slash), slash, ← ih]
        rfl
      · rw [if_neg (fun same => slash (beq_iff_eq.mp same)), split_cons slash ih]
        rfl

theorem not_mem_of_mem_splitOn {name part : List Char} (listed : part ∈ name.splitOn '/') :
    '/' ∉ part := by
  induction name generalizing part with
  | nil =>
      rw [List.splitOn_nil, List.mem_singleton] at listed
      exact listed ▸ List.not_mem_nil
  | cons character rest ih =>
      obtain ⟨first, others, parted⟩ := List.exists_cons_of_ne_nil (List.splitOn_ne_nil '/' rest)
      rw [parted] at ih
      rw [List.splitOn_cons_eq_if_modifyHead, parted] at listed
      split at listed
      · rcases List.mem_cons.mp listed with rfl | later
        · exact List.not_mem_nil
        · exact ih later
      · rename_i differs
        rcases List.mem_cons.mp listed with rfl | later
        · have apart : '/' ≠ character := fun same => differs (beq_iff_eq.mpr same.symm)
          exact List.not_mem_cons_of_ne_of_not_mem apart (ih List.mem_cons_self)
        · exact ih (List.mem_cons_of_mem first later)

theorem slash_not_mem_parts {name part : String} (listed : part ∈ parts name) :
    '/' ∉ part.toList := by
  obtain ⟨piece, within, rfl⟩ := List.mem_map.mp listed
  rw [split_eq_splitOn] at within
  rw [String.toList_ofList]
  exact not_mem_of_mem_splitOn within

theorem intercalate_parts (name : String) : String.intercalate "/" (parts name) = name := by
  have texts : (parts name).map String.toList = name.toList.splitOn '/' := by
    simp [parts, split_eq_splitOn, Function.comp_def]
  apply String.toList_inj.mp
  rw [String.toList_intercalate, texts]
  exact List.intercalate_splitOn '/'

theorem parts_intercalate {pieces : List String} (filled : pieces ≠ [])
    (apart : ∀ piece ∈ pieces, '/' ∉ piece.toList) :
    parts (String.intercalate "/" pieces) = pieces := by
  have others : ∀ piece ∈ pieces.map String.toList, '/' ∉ piece := by
    simpa using apart
  have parted := List.splitOn_intercalate '/' others (by simpa using filled)
  rw [parts, split_eq_splitOn, String.toList_intercalate]
  exact (congrArg _ parted).trans (by simp)

/-! ## The nearest directory -/

/-- The name of the directory that some parts lead to. -/
def nameOf (first : String) (kept : List String) : String :=
  if first = "" ∧ kept = [] then "/" else String.intercalate "/" (first :: kept)

/-- The nearest directory is what some parts in front lead to, and a part behind them leads on. -/
theorem enclosing_eq_cons {first near : String} {back further : List String}
    (begins : enclosing first back = near :: further) :
    ∃ kept behind, back.reverse = kept ++ behind ∧ (∃ part ∈ behind, part ≠ "") ∧
      near = nameOf first kept := by
  induction back with
  | nil => cases begins
  | cons part rest ih =>
      rw [enclosing] at begins
      split at begins
      · obtain ⟨kept, behind, parted, ⟨next, listed, leads⟩, named⟩ := ih begins
        refine ⟨kept, behind ++ [part], ?_, ⟨next, List.mem_append_left _ listed, leads⟩, named⟩
        rw [List.reverse_cons, parted, List.append_assoc]
      · rename_i leads
        have filled : part ≠ "" := by
          rintro rfl
          exact leads rfl
        have parted : rest.reverse =
            (rest.dropWhile isStill).reverse ++ (rest.takeWhile isStill).reverse := by
          rw [← List.reverse_append, List.takeWhile_append_dropWhile]
        refine ⟨(rest.dropWhile isStill).reverse, (rest.takeWhile isStill).reverse ++ [part], ?_,
          ⟨part, List.mem_append_right _ (List.mem_singleton_self part), filled⟩, ?_⟩
        · rw [List.reverse_cons, parted, List.append_assoc]
        · split at begins
          · rename_i alone
            rw [alone, ← (List.cons.inj begins).1]
            by_cases root : first = ""
            · rw [nameOf, if_pos root, if_pos ⟨root, rfl⟩]
            · rw [nameOf, if_neg root, if_neg fun both => root both.1]
              exact (String.intercalate_singleton).symm
          · rename_i inner
            rw [nameOf, if_neg fun both => inner (List.reverse_eq_nil_iff.mp both.2)]
            exact (List.cons.inj begins).1.symm

/-- A name made of parts is no empty name. -/
theorem nameOf_ne (first : String) (kept : List String) : nameOf first kept ≠ "" := by
  rw [nameOf]
  split
  · decide
  · rename_i proper
    intro empty
    cases kept with
    | nil => exact proper ⟨(String.intercalate_singleton).symm.trans empty, rfl⟩
    | cons second others =>
        rw [String.intercalate_cons_cons] at empty
        simp at empty

/-- The steps of the directory are the parts it is made of. -/
theorem steps_nameOf {first : String} {kept : List String}
    (apart : ∀ part ∈ first :: kept, '/' ∉ part.toList) :
    (parts (nameOf first kept)).filter (· != "") = (first :: kept).filter (· != "") := by
  rw [nameOf]
  split
  · rename_i both
    obtain ⟨rfl, rfl⟩ := both
    rfl
  · rw [parts_intercalate (List.cons_ne_nil first kept) apart]

/-- The name of the directory stands in front of the whole name. -/
theorem exists_behind {name first : String} {kept back : List String} (more : back ≠ [])
    (parted : parts name = first :: (kept ++ back)) :
    ∃ behind, name = nameOf first kept ++ behind := by
  have whole := intercalate_parts name
  rw [parted, ← List.cons_append,
    String.intercalate_append_of_ne_nil (List.cons_ne_nil first kept) more] at whole
  rw [nameOf]
  split
  · rename_i both
    obtain ⟨rfl, rfl⟩ := both
    rw [String.intercalate_singleton, String.empty_append] at whole
    exact ⟨_, whole.symm⟩
  · exact ⟨"/" ++ String.intercalate "/" back, by rw [← String.append_assoc, whole]⟩

/-- The names that a system can take, and what it takes them for. -/
theorem read_eq_ok_iff {name : String} {route : Route} :
    read name = .ok route ↔
      '\x00' ∉ name.toList ∧ name ≠ "" ∧ name.utf8ByteSize ≤ longestName ∧
        route =
          { fromRoot := name.toList.head? == some '/'
            steps := (parts name).filter (· != "")
            endsInSlash := name.toList.getLast? == some '/' } := by
  by_cases zero : '\x00' ∈ name.toList
  · simp [read, zero]
  by_cases empty : name = ""
  · simp [read, empty]
  by_cases long : longestName < name.utf8ByteSize
  · simp [read, zero, empty, long, Nat.not_le_of_lt long]
  · simp [read, zero, empty, long, Nat.le_of_not_lt long, eq_comm]

/-- A name in front of another is taken as well, and it begins at the same place. -/
theorem read_front {front behind : String} (filled : front ≠ "") {route : Route}
    (reads : read (front ++ behind) = .ok route) :
    ∃ around, read front = .ok around ∧ around.fromRoot = route.fromRoot ∧
      around.steps = (parts front).filter (· != "") := by
  obtain ⟨clean, -, short, rfl⟩ := read_eq_ok_iff.mp reads
  rw [String.toList_append] at clean
  rw [String.utf8ByteSize_append] at short
  have bare : '\x00' ∉ front.toList := fun inside => clean (List.mem_append_left _ inside)
  refine ⟨_, read_eq_ok_iff.mpr ⟨bare, filled, by omega, rfl⟩, ?_, rfl⟩
  obtain ⟨first, others, shape⟩ := List.exists_cons_of_ne_nil
    (fun none => filled (String.toList_eq_nil_iff.mp none))
  simp only [String.toList_append, shape]
  rfl

/-- The nearest directory has a name that can be taken. Its route begins at the same place and is
the first part of the route of the file. -/
theorem read_near {name near : String} {further : List String} {route : Route}
    (reads : read name = .ok route) (begins : directories name = near :: further) :
    ∃ around behind, read near = .ok around ∧ around.fromRoot = route.fromRoot ∧
      route.steps = around.steps ++ behind ∧ behind ≠ [] := by
  unfold directories at begins
  split at begins
  · rename_i first rest parted
    obtain ⟨kept, behind, shape, ⟨next, listed, leads⟩, rfl⟩ := enclosing_eq_cons begins
    rw [List.reverse_reverse] at shape
    rw [shape] at parted
    have apart : ∀ part ∈ first :: kept, '/' ∉ part.toList := by
      intro part listed
      apply @slash_not_mem_parts name
      rw [parted, ← List.cons_append]
      exact List.mem_append_left _ listed
    obtain ⟨tail, rfl⟩ := exists_behind (List.ne_nil_of_mem listed) parted
    obtain ⟨around, front, same, steps⟩ := read_front (nameOf_ne first kept) reads
    refine ⟨around, behind.filter (· != ""), front, same, ?_, ?_⟩
    · obtain ⟨-, -, -, rfl⟩ := read_eq_ok_iff.mp reads
      rw [steps, steps_nameOf apart, parted, ← List.cons_append, List.filter_append]
    · exact List.ne_nil_of_mem (List.mem_filter.mpr ⟨listed, bne_iff_ne.mpr leads⟩)
  · cases begins

end Route

end LinkAtlas
