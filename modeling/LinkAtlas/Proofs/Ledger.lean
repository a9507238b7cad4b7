import LinkAtlas.Ledger
import Mathlib.Data.List.Nodup

/-!
# Ledgers with distinct keys

As long as no key is entered twice, an entry is found under its key exactly if it stands in the
ledger. A change that never makes an entry out of nothing is a `thin`: every entry is kept in its
place, changed, or struck out, as its key and its content say.
-/

namespace LinkAtlas

namespace Ledger

section Keys

variable {κ α β γ : Type}

/-- No key is entered twice. -/
def Distinct (ledger : Ledger κ α) : Prop := ledger.keys.Nodup

@[simp] theorem keys_cons (entry : κ × α) (rest : Ledger κ α) :
    keys (entry :: rest) = entry.1 :: keys rest := rfl

@[simp] theorem keys_append (first second : Ledger κ α) :
    keys (first ++ second) = keys first ++ keys second := List.map_append

theorem distinct_nil : Distinct ([] : Ledger κ α) := List.nodup_nil

theorem Distinct.tail {entry : κ × α} {rest : Ledger κ α} (distinct : Distinct (entry :: rest)) :
    Distinct rest :=
  (List.nodup_cons.mp distinct).2

theorem Distinct.head_not_mem {entry : κ × α} {rest : Ledger κ α}
    (distinct : Distinct (entry :: rest)) : entry.1 ∉ rest.keys :=
  (List.nodup_cons.mp distinct).1

theorem mem_keys_of_mem {entry : κ × α} {ledger : Ledger κ α} (member : entry ∈ ledger) :
    entry.1 ∈ ledger.keys :=
  List.mem_map_of_mem member

/-- Keeps, changes or strikes out every entry where it stands. -/
def thin (keep : κ → α → Option β) (ledger : Ledger κ α) : Ledger κ β :=
  ledger.filterMap fun entry => (keep entry.1 entry.2).map (entry.1, ·)

theorem keys_thin_sublist (keep : κ → α → Option β) (ledger : Ledger κ α) :
    (ledger.thin keep).keys.Sublist ledger.keys := by
  induction ledger with
  | nil => exact List.Sublist.slnil
  | cons entry rest ih =>
      cases kept : keep entry.1 entry.2 with
      | none =>
          simp only [thin, List.filterMap_cons, kept, Option.map_none]
          exact ih.cons _
      | some changed =>
          simp only [thin, List.filterMap_cons, kept, Option.map_some]
          exact ih.cons_cons _

theorem Distinct.thin {ledger : Ledger κ α} (distinct : ledger.Distinct)
    (keep : κ → α → Option β) : (ledger.thin keep).Distinct :=
  distinct.sublist (keys_thin_sublist keep ledger)

theorem thin_thin (second : κ → β → Option γ) (first : κ → α → Option β) (ledger : Ledger κ α) :
    (ledger.thin first).thin second =
      ledger.thin fun key content => (first key content).bind (second key) := by
  unfold Ledger.thin
  rw [List.filterMap_filterMap]
  refine List.filterMap_congr fun entry _ => ?_
  dsimp only
  cases first entry.1 entry.2 <;> rfl

theorem thin_congr {first second : κ → α → Option β} {ledger : Ledger κ α}
    (same : ∀ entry ∈ ledger, first entry.1 entry.2 = second entry.1 entry.2) :
    ledger.thin first = ledger.thin second :=
  List.filterMap_congr fun entry member => by rw [same entry member]

theorem thin_eq_self {keep : κ → α → Option α} {ledger : Ledger κ α}
    (kept : ∀ entry ∈ ledger, keep entry.1 entry.2 = some entry.2) : ledger.thin keep = ledger :=
  (List.filterMap_congr fun entry member => by rw [kept entry member]; rfl).trans
    List.filterMap_some

theorem mem_thin {keep : κ → α → Option β} {ledger : Ledger κ α} {key : κ} {changed : β} :
    (key, changed) ∈ ledger.thin keep ↔
      ∃ content, (key, content) ∈ ledger ∧ keep key content = some changed := by
  rw [Ledger.thin, List.mem_filterMap]
  constructor
  · rintro ⟨⟨first, content⟩, member, kept⟩
    obtain ⟨result, held, same⟩ := Option.map_eq_some_iff.mp kept
    cases same
    exact ⟨content, member, held⟩
  · rintro ⟨content, member, kept⟩
    exact ⟨(key, content), member, by simp [kept]⟩

end Keys

section Lookup

variable {κ α β : Type} [DecidableEq κ]

theorem mem_of_get? {ledger : Ledger κ α} {key : κ} {content : α}
    (found : ledger.get? key = some content) : (key, content) ∈ ledger := by
  induction ledger with
  | nil => cases found
  | cons entry rest ih =>
      obtain ⟨first, held⟩ := entry
      rw [get?_cons] at found
      rcases eq_or_ne first key with same | same
      · rw [if_pos same] at found
        cases found
        rw [same]
        exact List.mem_cons_self
      · rw [if_neg same] at found
        exact List.mem_cons_of_mem _ (ih found)

theorem mem_keys_of_get? {ledger : Ledger κ α} {key : κ} {content : α}
    (found : ledger.get? key = some content) : key ∈ ledger.keys :=
  mem_keys_of_mem (mem_of_get? found)

theorem get?_of_mem_keys {ledger : Ledger κ α} {key : κ} (entered : key ∈ ledger.keys) :
    ∃ content, ledger.get? key = some content := by
  cases found : ledger.get? key with
  | none => exact absurd entered (get?_eq_none_iff.mp found)
  | some content => exact ⟨content, rfl⟩

theorem get?_of_mem {ledger : Ledger κ α} (distinct : ledger.Distinct) {key : κ} {content : α}
    (entered : (key, content) ∈ ledger) : ledger.get? key = some content := by
  induction ledger with
  | nil => cases entered
  | cons entry rest ih =>
      obtain ⟨first, held⟩ := entry
      rw [get?_cons]
      rcases List.mem_cons.mp entered with same | later
      · cases same
        exact if_pos rfl
      · have other : first ≠ key := by
          rintro rfl
          have listed : first ∈ keys rest := mem_keys_of_mem later
          exact distinct.head_not_mem listed
        rw [if_neg other]
        exact ih distinct.tail later

theorem get?_thin {ledger : Ledger κ α} (distinct : ledger.Distinct) (keep : κ → α → Option β)
    (key : κ) : (ledger.thin keep).get? key = (ledger.get? key).bind (keep key) := by
  induction ledger with
  | nil => rfl
  | cons entry rest ih =>
      obtain ⟨first, held⟩ := entry
      have later := ih distinct.tail
      rw [get?_cons]
      rcases eq_or_ne first key with same | same
      · subst same
        rw [if_pos rfl]
        cases kept : keep first held with
        | none =>
            have absent : get? rest first = none := get?_eq_none_iff.mpr distinct.head_not_mem
            simpa [thin, kept, absent] using later
        | some changed => simp [thin, kept, get?]
      · rw [if_neg same, ← later]
        cases kept : keep first held <;> simp [thin, kept, get?, same]

/-! ## Changing one entry -/

/-- A key that has no entry is entered at the end. -/
theorem alter_of_absent {ledger : Ledger κ α} {key : κ} (absent : key ∉ ledger.keys)
    (change : Option α → Option α) :
    ledger.alter key change = ledger ++ ((change none).map (key, ·)).toList := by
  induction ledger with
  | nil =>
      rw [alter]
      cases change none <;> rfl
  | cons entry rest ih =>
      obtain ⟨first, held⟩ := entry
      have other : first ≠ key := fun same => absent (by simp [same])
      rw [alter, if_neg other, ih (fun later => absent (List.mem_cons_of_mem _ later))]
      rfl

/-- A key that has an entry keeps its place. -/
theorem alter_of_present {ledger : Ledger κ α} (distinct : ledger.Distinct) {key : κ}
    (present : key ∈ ledger.keys) (change : Option α → Option α) :
    ledger.alter key change =
      ledger.thin fun first content =>
        if first = key then change (some content) else some content := by
  induction ledger with
  | nil => cases present
  | cons entry rest ih =>
      obtain ⟨first, held⟩ := entry
      rw [alter]
      rcases eq_or_ne first key with same | same
      · have kept : thin (fun first content =>
            if first = key then change (some content) else some content) rest = rest := by
          refine thin_eq_self fun later member => ?_
          have listed : later.1 ∈ keys rest := mem_keys_of_mem member
          have other : later.1 ≠ key := fun again =>
            distinct.head_not_mem (same.trans again.symm ▸ listed)
          exact if_neg other
        rw [if_pos same]
        unfold thin at kept ⊢
        rw [List.filterMap_cons, kept]
        cases changed : change (some held) <;> simp [same, changed]
      · rw [if_neg same, ih distinct.tail
          ((List.mem_cons.mp present).resolve_left fun again => same again.symm)]
        simp [thin, same]

/-- A change that enters nothing keeps, changes or strikes out what is there. -/
theorem alter_eq_thin {ledger : Ledger κ α} (distinct : ledger.Distinct) (key : κ)
    {change : Option α → Option α} (nothing : change none = none) :
    ledger.alter key change =
      ledger.thin fun first content =>
        if first = key then change (some content) else some content := by
  by_cases present : key ∈ ledger.keys
  · exact alter_of_present distinct present change
  · rw [alter_of_absent present, nothing]
    refine (List.append_nil _).trans (thin_eq_self fun entry member => ?_).symm
    have other : entry.1 ≠ key := fun same => present (same ▸ mem_keys_of_mem member)
    exact if_neg other

theorem erase_eq_thin {ledger : Ledger κ α} (distinct : ledger.Distinct) (key : κ) :
    ledger.erase key =
      ledger.thin fun first content => if first = key then none else some content :=
  alter_eq_thin distinct key rfl

theorem insert_of_absent {ledger : Ledger κ α} {key : κ} (absent : key ∉ ledger.keys)
    (content : α) : ledger.insert key content = ledger ++ [(key, content)] :=
  alter_of_absent absent _

theorem Distinct.alter {ledger : Ledger κ α} (distinct : ledger.Distinct) (key : κ)
    (change : Option α → Option α) : (ledger.alter key change).Distinct := by
  by_cases present : key ∈ ledger.keys
  · rw [alter_of_present distinct present]
    exact distinct.thin _
  · rw [alter_of_absent present]
    cases change none with
    | none => simpa using distinct
    | some content =>
        rw [Distinct, keys_append]
        refine List.nodup_append.mpr ⟨distinct, List.nodup_singleton _, ?_⟩
        intro first member second alone same
        have last : second = key := List.mem_singleton.mp alone
        exact present (last ▸ same ▸ member)

theorem get?_alter_self {ledger : Ledger κ α} (distinct : ledger.Distinct) (key : κ)
    (change : Option α → Option α) :
    (ledger.alter key change).get? key = change (ledger.get? key) := by
  by_cases present : key ∈ ledger.keys
  · obtain ⟨content, found⟩ := get?_of_mem_keys present
    rw [alter_of_present distinct present, get?_thin distinct, found]
    simp
  · rw [get?_eq_none_iff.mpr present, alter_of_absent present]
    cases changed : change none with
    | none => simpa using get?_eq_none_iff.mpr present
    | some content =>
        refine get?_of_mem ?_ (List.mem_append_right _ List.mem_cons_self)
        have entered := distinct.alter key change
        rwa [alter_of_absent present, changed] at entered

theorem get?_alter {ledger : Ledger κ α} (distinct : ledger.Distinct) (key other : κ)
    (change : Option α → Option α) :
    (ledger.alter key change).get? other =
      if other = key then change (ledger.get? key) else ledger.get? other := by
  rcases eq_or_ne other key with same | same
  · rw [if_pos same, same]
    exact get?_alter_self distinct key change
  · rw [if_neg same]
    exact get?_alter_of_ne same change ledger

/-- A key that is entered for the first time goes to the end. -/
theorem keys_alter_some (ledger : Ledger κ α) (key : κ) (change : Option α → α) :
    (ledger.alter key fun present => some (change present)).keys =
      if key ∈ ledger.keys then ledger.keys else ledger.keys ++ [key] := by
  induction ledger with
  | nil => rfl
  | cons entry rest ih =>
      rw [alter]
      rcases eq_or_ne entry.1 key with same | same
      · simp [same]
      · have other : key ≠ entry.1 := same.symm
        simp only [same, if_false, keys_cons, ih, List.mem_cons, other, false_or]
        split <;> rfl

/-- A change right after the entry. -/
theorem alter_insert (ledger : Ledger κ α) (key : κ) (content : α) (change : α → α) :
    (ledger.insert key content).alter key (Option.map change) =
      ledger.insert key (change content) := by
  unfold insert
  induction ledger with
  | nil => simp [alter]
  | cons entry rest ih =>
      rcases eq_or_ne entry.1 key with same | same
      · simp [alter, same]
      · simp [alter, same, ih]

/-- What is entered is found, whatever else stands in the ledger. -/
theorem get?_insert (ledger : Ledger κ α) (key other : κ) (content : α) :
    (ledger.insert key content).get? other =
      if other = key then some content else ledger.get? other := by
  rcases eq_or_ne other key with same | same
  · rw [if_pos same, same]
    unfold insert
    induction ledger with
    | nil => simp [alter, get?]
    | cons entry rest ih =>
        rcases eq_or_ne entry.1 key with first | first
        · simp [alter, get?, first]
        · simp [alter, get?, first, ih]
  · rw [if_neg same]
    exact get?_alter_of_ne same _ ledger

/-! ## Length -/

theorem length_erase {ledger : Ledger κ α} {key : κ} (present : key ∈ ledger.keys) :
    (ledger.erase key).length + 1 = ledger.length := by
  induction ledger with
  | nil => cases present
  | cons entry rest ih =>
      obtain ⟨first, content⟩ := entry
      unfold erase at ih ⊢
      rw [alter]
      rcases eq_or_ne first key with same | same
      · rw [if_pos same, List.length_cons]
      · have later : key ∈ keys rest :=
          (List.mem_cons.mp present).resolve_left fun again => same again.symm
        rw [if_neg same, List.length_cons, ih later, List.length_cons]

theorem length_le_insert (ledger : Ledger κ α) (key : κ) (content : α) :
    ledger.length ≤ (ledger.insert key content).length := by
  induction ledger with
  | nil => exact Nat.zero_le _
  | cons entry rest ih =>
      obtain ⟨first, held⟩ := entry
      unfold insert at ih ⊢
      rw [alter]
      rcases eq_or_ne first key with same | same
      · refine Nat.le_of_eq ?_
        rw [if_pos same, List.length_cons, List.length_cons]
      · rw [if_neg same, List.length_cons, List.length_cons]
        exact Nat.succ_le_succ ih

end Lookup

end Ledger

end LinkAtlas
