/-!
# Rosters

A roster keeps its members in the order in which they joined and holds none of them twice.
Link targets, the labels of an instance and the carriers of a label are rosters.
-/

namespace LinkAtlas

/-- Members in joining order, none of them twice. -/
structure Roster (α : Type) where
  toList : List α
  nodup : toList.Nodup

namespace Roster

variable {α : Type}

theorem eq_of_toList_eq {first second : Roster α} (same : first.toList = second.toList) :
    first = second := by
  cases first
  cases second
  cases same
  rfl

instance [DecidableEq α] : DecidableEq (Roster α) := fun first second =>
  decidable_of_iff (first.toList = second.toList) ⟨eq_of_toList_eq, fun same => same ▸ rfl⟩

instance : Membership α (Roster α) := ⟨fun roster member => member ∈ roster.toList⟩

theorem mem_iff {member : α} {roster : Roster α} : member ∈ roster ↔ member ∈ roster.toList :=
  Iff.rfl

def empty : Roster α := ⟨[], List.nodup_nil⟩

instance : EmptyCollection (Roster α) := ⟨empty⟩

instance : Inhabited (Roster α) := ⟨empty⟩

@[simp] theorem toList_empty : (∅ : Roster α).toList = [] := rfl

def isEmpty (roster : Roster α) : Bool := roster.toList.isEmpty

def size (roster : Roster α) : Nat := roster.toList.length

section Membership

variable [DecidableEq α]

instance (member : α) (roster : Roster α) : Decidable (member ∈ roster) :=
  inferInstanceAs (Decidable (member ∈ roster.toList))

/-- The place of a member, counted from zero. -/
def position? (roster : Roster α) (member : α) : Option Nat := roster.toList.idxOf? member

/-- A newcomer joins at the end; a member keeps its place. -/
def add (roster : Roster α) (newcomer : α) : Roster α :=
  if present : newcomer ∈ roster.toList then roster
  else ⟨roster.toList ++ [newcomer], by
    refine List.nodup_append.mpr ⟨roster.nodup, by simp, ?_⟩
    intro member inside other alone same
    have other_eq : other = newcomer := by simpa using alone
    exact present (other_eq ▸ same ▸ inside)⟩

/-- The others keep their order. -/
def remove (roster : Roster α) (leaver : α) : Roster α :=
  ⟨roster.toList.erase leaver, roster.nodup.erase leaver⟩

/-- The roster of a list: each element at the place where it first occurs. -/
def ofList (members : List α) : Roster α := members.foldl add ∅

theorem toList_add (roster : Roster α) (newcomer : α) :
    (roster.add newcomer).toList =
      if newcomer ∈ roster then roster.toList else roster.toList ++ [newcomer] := by
  by_cases present : newcomer ∈ roster.toList
  · simp [add, mem_iff, present]
  · simp [add, mem_iff, present]

@[simp] theorem toList_remove (roster : Roster α) (leaver : α) :
    (roster.remove leaver).toList = roster.toList.erase leaver := rfl

@[simp] theorem mem_add {member newcomer : α} {roster : Roster α} :
    member ∈ roster.add newcomer ↔ member ∈ roster ∨ member = newcomer := by
  rw [mem_iff, toList_add]
  by_cases present : newcomer ∈ roster
  · rw [if_pos present]
    exact ⟨Or.inl, fun either => either.elim id (fun same => same ▸ present)⟩
  · rw [if_neg present]
    simp [mem_iff]

@[simp] theorem mem_remove {member leaver : α} {roster : Roster α} :
    member ∈ roster.remove leaver ↔ member ≠ leaver ∧ member ∈ roster := by
  rw [mem_iff, toList_remove, roster.nodup.mem_erase_iff, mem_iff]

end Membership

end Roster

end LinkAtlas
