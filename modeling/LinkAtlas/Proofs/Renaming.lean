import LinkAtlas.Proofs.Groups

/-!
# Renaming members

The members of a roster may be given other names. If two of them get the same name, the first place
counts, so that renaming commutes with additions whatever the names are.
-/

namespace LinkAtlas

namespace Roster

variable {α β : Type} [DecidableEq β]

def rename (name : α → β) (roster : Roster α) : Roster β := ofList (roster.toList.map name)

theorem mem_rename {name : α → β} {roster : Roster α} {member : β} :
    member ∈ roster.rename name ↔ ∃ former ∈ roster, name former = member :=
  mem_ofList.trans List.mem_map

theorem rename_congr {first second : α → β} {roster : Roster α}
    (same : ∀ member ∈ roster, first member = second member) :
    roster.rename first = roster.rename second := by
  unfold rename
  rw [List.map_congr_left same]

theorem rename_eq_empty_iff {name : α → β} {roster : Roster α} :
    roster.rename name = ∅ ↔ roster = ∅ := by
  rw [eq_empty_iff, eq_empty_iff]
  constructor
  · intro none member inside
    exact none (name member) (mem_rename.mpr ⟨member, inside, rfl⟩)
  · intro none member inside
    obtain ⟨former, present, -⟩ := mem_rename.mp inside
    exact none former present

theorem isEmpty_rename (name : α → β) (roster : Roster α) :
    (roster.rename name).isEmpty = roster.isEmpty := by
  rw [Bool.eq_iff_iff, isEmpty_iff, isEmpty_iff]
  exact rename_eq_empty_iff

theorem toList_ofList {members : List β} (once : members.Nodup) :
    (ofList members).toList = members := by
  induction members using List.reverseRecOn with
  | nil => rfl
  | append_singleton members last ih =>
      obtain ⟨before, -, apart⟩ := List.nodup_append.mp once
      have absent : last ∉ ofList members := fun member =>
        apart last (mem_ofList.mp member) last List.mem_cons_self rfl
      rw [ofList_concat, toList_add_of_not_mem absent, ih before]

/-- Members that keep different names keep their places. -/
theorem toList_rename {name : α → β} {roster : Roster α}
    (apart : ∀ first ∈ roster, ∀ second ∈ roster, name first = name second → first = second) :
    (roster.rename name).toList = roster.toList.map name :=
  toList_ofList (roster.nodup.map_on fun first inside second present =>
    apart first inside second present)

theorem keep_ofList (members : List β) (test : β → Bool) :
    (ofList members).keep test = ofList (members.filter test) := by
  induction members using List.reverseRecOn with
  | nil => rfl
  | append_singleton members last ih =>
      have once : (ofList (members ++ [last])).keep test =
          if test last then ((ofList members).keep test).add last
          else (ofList members).keep test := by
        rw [ofList_concat]
        by_cases present : last ∈ ofList members
        · rw [add_of_mem present]
          rcases eq_or_ne (test last) true with passes | passes
          · rw [if_pos passes, add_of_mem (mem_keep.mpr ⟨present, passes⟩)]
          · rw [if_neg passes]
        · have absent : last ∉ (ofList members).keep test := fun kept =>
            present (mem_keep.mp kept).1
          apply eq_of_toList_eq
          rw [toList_keep, toList_add_of_not_mem present, List.filter_append]
          rcases eq_or_ne (test last) true with passes | passes
          · rw [if_pos passes, toList_add_of_not_mem absent]
            simp [passes]
          · simp [passes]
      rw [once, ih, List.filter_append]
      rcases eq_or_ne (test last) true with passes | passes
      · rw [if_pos passes, ← ofList_concat]
        simp [passes]
      · rw [if_neg passes]
        simp [passes]

theorem rename_keep {name : α → β} {roster : Roster α} {test : α → Bool} {renamed : β → Bool}
    (same : ∀ member ∈ roster, test member = renamed (name member)) :
    (roster.keep test).rename name = (roster.rename name).keep renamed := by
  unfold rename
  rw [keep_ofList, List.filter_map, toList_keep]
  exact congrArg (fun members => ofList (members.map name)) (List.filter_congr same)

theorem rename_add [DecidableEq α] (name : α → β) (roster : Roster α) (newcomer : α) :
    (roster.add newcomer).rename name = (roster.rename name).add (name newcomer) := by
  by_cases present : newcomer ∈ roster
  · rw [add_of_mem present, add_of_mem (mem_rename.mpr ⟨newcomer, present, rfl⟩)]
  · rw [rename, toList_add_of_not_mem present, List.map_append]
    exact ofList_concat _ _

end Roster

namespace Ledger

variable {κ α β : Type} [DecidableEq κ]

/-- Changes of the contents commute with the change of one entry if they commute at the entry. -/
theorem thin_alter {key : κ} {change : Option α → Option α} {changed : Option β → Option β}
    {content : κ → α → β}
    (same : ∀ present, (change present).map (content key) = changed (present.map (content key)))
    (ledger : Ledger κ α) :
    ((ledger.alter key change).thin fun label held => some (content label held)) =
      (ledger.thin fun label held => some (content label held)).alter key changed := by
  induction ledger with
  | nil =>
      have here := same none
      simp only [thin, List.filterMap_nil, alter] at here ⊢
      rw [Option.map_none] at here
      rw [← here]
      cases change none <;> rfl
  | cons entry rest ih =>
      obtain ⟨first, held⟩ := entry
      have here := same (some held)
      rw [Option.map_some] at here
      rcases eq_or_ne first key with equal | equal
      · subst equal
        simp only [thin, List.filterMap_cons, alter, Option.map_some, ← here]
        cases change (some held) <;> simp
      · simp only [thin, List.filterMap_cons, alter, Option.map_some, if_neg equal] at ih ⊢
        rw [ih]

end Ledger

namespace Groups

variable {α β : Type} [DecidableEq β]

/-- Gives the members of every group other names. -/
def rename (name : α → β) (groups : Groups α) : Groups β :=
  groups.thin fun _ roster => some (roster.rename name)

theorem keys_rename (name : α → β) (groups : Groups α) :
    (groups.rename name).keys = groups.keys := by
  unfold rename
  induction groups with
  | nil => rfl
  | cons group rest ih => exact congrArg (group.1 :: ·) ih

theorem members_rename (name : α → β) {groups : Groups α} (distinct : Ledger.Distinct groups)
    (label : Label) : members (groups.rename name) label = (members groups label).rename name := by
  unfold members rename
  rw [Ledger.get?_thin distinct]
  cases groups.get? label with
  | none => rfl
  | some roster => rfl

theorem Neat.rename {groups : Groups α} (neat : Neat groups) (name : α → β) :
    Neat (groups.rename name) := by
  refine ⟨neat.distinct.thin _, fun group entered none => ?_⟩
  obtain ⟨roster, former, same⟩ := Ledger.mem_thin.mp entered
  rw [← Option.some.inj same] at none
  exact neat.filled _ former (Roster.rename_eq_empty_iff.mp none)

theorem rename_congr {groups : Groups α} (neat : Neat groups) {first second : α → β}
    (same : ∀ label, ∀ member ∈ members groups label, first member = second member) :
    groups.rename first = groups.rename second := by
  refine Ledger.thin_congr fun group entered => congrArg some ?_
  refine Roster.rename_congr fun member inside => same group.1 member ?_
  rw [members_of_mem neat entered]
  exact inside

theorem rename_prune {groups : Groups α} (neat : Neat groups) {name : α → β}
    {gone : Label → α → Bool} {renamed : Label → β → Bool}
    (same : ∀ label, ∀ member ∈ members groups label,
      gone label member = renamed label (name member)) :
    (groups.prune gone).rename name = (groups.rename name).prune renamed := by
  unfold rename prune
  rw [Ledger.thin_thin, Ledger.thin_thin]
  refine Ledger.thin_congr fun group entered => ?_
  have kept : (group.2.keep fun member => !gone group.1 member).rename name =
      (group.2.rename name).keep fun member => !renamed group.1 member := by
    refine Roster.rename_keep fun member inside => ?_
    rw [same group.1 member ((members_of_mem neat entered).symm ▸ inside)]
  simp only [Option.bind_some, ← kept, Roster.isEmpty_rename]
  cases (group.2.keep fun member => !gone group.1 member).isEmpty <;> rfl

variable [DecidableEq α]

theorem rename_add (name : α → β) (groups : Groups α) (label : Label) (newcomer : α) :
    (groups.add label newcomer).rename name = (groups.rename name).add label (name newcomer) := by
  refine Ledger.thin_alter (fun present => ?_) groups
  cases present with
  | none => exact congrArg some (Roster.rename_add name ∅ newcomer)
  | some roster => exact congrArg some (Roster.rename_add name roster newcomer)

theorem rename_enter (name : α → β) (groups : Groups α) (labels : List Label) (newcomer : α) :
    (groups.enter labels newcomer).rename name =
      (groups.rename name).enter labels (name newcomer) := by
  unfold enter
  induction labels generalizing groups with
  | nil => rfl
  | cons label rest ih => rw [List.foldl_cons, List.foldl_cons, ih, rename_add]

end Groups

end LinkAtlas
