/-!
# Ledgers

A ledger is a finite map that remembers the order in which its keys were first entered. Changing an
entry keeps its place, striking it out keeps the order of the others, and a key entered again after
that goes to the end.
-/

namespace LinkAtlas

/-- Entries in the order in which their keys were entered. -/
abbrev Ledger (κ : Type) (α : Type) := List (κ × α)

namespace Ledger

variable {κ α : Type} [DecidableEq κ]

def get? : Ledger κ α → κ → Option α
  | [], _ => none
  | (first, content) :: rest, key => if first = key then some content else get? rest key

/-- Changes the entry of one key: `change` sees the present content and answers with the new one,
where `none` stands for no entry. -/
def alter (key : κ) (change : Option α → Option α) : Ledger κ α → Ledger κ α
  | [] =>
      match change none with
      | some content => [(key, content)]
      | none => []
  | (first, content) :: rest =>
      if first = key then
        match change (some content) with
        | some changed => (first, changed) :: rest
        | none => rest
      else (first, content) :: alter key change rest

def insert (ledger : Ledger κ α) (key : κ) (content : α) : Ledger κ α :=
  ledger.alter key fun _ => some content

def erase (ledger : Ledger κ α) (key : κ) : Ledger κ α :=
  ledger.alter key fun _ => none

def keys (ledger : Ledger κ α) : List κ := ledger.map Prod.fst

def contains (ledger : Ledger κ α) (key : κ) : Bool := (ledger.get? key).isSome

@[simp] theorem get?_nil (key : κ) : get? ([] : Ledger κ α) key = none := rfl

theorem get?_cons (first : κ) (content : α) (rest : Ledger κ α) (key : κ) :
    get? ((first, content) :: rest) key = if first = key then some content else rest.get? key := rfl

theorem get?_eq_none_iff {ledger : Ledger κ α} {key : κ} :
    ledger.get? key = none ↔ key ∉ ledger.keys := by
  induction ledger with
  | nil => simp [keys]
  | cons entry rest ih =>
      by_cases same : entry.1 = key
      · simp [get?, keys, same]
      · have other : key ≠ entry.1 := fun eq => same eq.symm
        simpa [get?, keys, same, other] using ih

theorem get?_alter_of_ne {key other : κ} (different : other ≠ key)
    (change : Option α → Option α) (ledger : Ledger κ α) :
    (ledger.alter key change).get? other = ledger.get? other := by
  have reversed : key ≠ other := fun same => different same.symm
  induction ledger with
  | nil =>
      rw [alter]
      split <;> simp [get?, reversed]
  | cons entry rest ih =>
      obtain ⟨first, content⟩ := entry
      rw [alter]
      by_cases same : first = key
      · rw [if_pos same]
        subst same
        split <;> simp [get?, reversed]
      · rw [if_neg same]
        simp only [get?, ih]

end Ledger

end LinkAtlas
