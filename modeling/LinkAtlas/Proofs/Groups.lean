import LinkAtlas.Store.Basic
import LinkAtlas.Proofs.Ledger
import Mathlib.Data.List.Induction

/-!
# Groups

The links of an instance and the index of labels are both rosters by label. They grow by one member
at a time, and whatever is taken out of them is a `prune`: the members that are gone are struck out
where they stand, and a group without members goes with its last one.
-/

namespace LinkAtlas

namespace Roster

variable {α : Type}

/-- The members that pass a test. -/
def keep (roster : Roster α) (test : α → Bool) : Roster α :=
  ⟨roster.toList.filter test, roster.nodup.filter test⟩

@[simp] theorem toList_keep (roster : Roster α) (test : α → Bool) :
    (roster.keep test).toList = roster.toList.filter test := rfl

@[simp] theorem mem_keep {roster : Roster α} {test : α → Bool} {member : α} :
    member ∈ roster.keep test ↔ member ∈ roster ∧ test member = true := List.mem_filter

theorem keep_keep (roster : Roster α) (first second : α → Bool) :
    (roster.keep first).keep second = roster.keep fun member => first member && second member := by
  apply eq_of_toList_eq
  simp only [toList_keep, List.filter_filter]
  exact List.filter_congr fun member _ => Bool.and_comm _ _

theorem keep_congr {roster : Roster α} {first second : α → Bool}
    (same : ∀ member ∈ roster, first member = second member) :
    roster.keep first = roster.keep second :=
  eq_of_toList_eq (List.filter_congr same)

theorem keep_eq_self {roster : Roster α} {test : α → Bool}
    (all : ∀ member ∈ roster, test member = true) : roster.keep test = roster :=
  eq_of_toList_eq (List.filter_eq_self.mpr all)

theorem isEmpty_iff {roster : Roster α} : roster.isEmpty = true ↔ roster = ∅ := by
  constructor
  · intro none
    exact eq_of_toList_eq (List.isEmpty_iff.mp none)
  · rintro rfl
    rfl

@[simp] theorem not_mem_empty (member : α) : member ∉ (∅ : Roster α) := List.not_mem_nil

theorem eq_empty_iff {roster : Roster α} : roster = ∅ ↔ ∀ member, member ∉ roster := by
  constructor
  · rintro rfl member
    exact not_mem_empty member
  · intro none
    exact eq_of_toList_eq (List.eq_nil_iff_forall_not_mem.mpr none)

variable [DecidableEq α]

theorem remove_eq_keep (roster : Roster α) (leaver : α) :
    roster.remove leaver = roster.keep fun member => !decide (member = leaver) := by
  apply eq_of_toList_eq
  rw [toList_remove, toList_keep, roster.nodup.erase_eq_filter]
  exact List.filter_congr fun member _ => by simp [bne, beq_eq_decide]

theorem add_of_mem {roster : Roster α} {member : α} (present : member ∈ roster) :
    roster.add member = roster :=
  eq_of_toList_eq (by rw [toList_add, if_pos present])

theorem toList_add_of_not_mem {roster : Roster α} {newcomer : α} (absent : newcomer ∉ roster) :
    (roster.add newcomer).toList = roster.toList ++ [newcomer] := by
  rw [toList_add, if_neg absent]

theorem remove_add {roster : Roster α} {newcomer : α} (absent : newcomer ∉ roster) :
    (roster.add newcomer).remove newcomer = roster := by
  apply eq_of_toList_eq
  rw [toList_remove, toList_add_of_not_mem absent, List.erase_append_right _ absent,
    List.erase_cons_head, List.append_nil]

theorem add_ne_empty (roster : Roster α) (newcomer : α) : roster.add newcomer ≠ ∅ := fun none =>
  not_mem_empty newcomer (none ▸ mem_add.mpr (Or.inr rfl))

theorem ofList_concat (members : List α) (last : α) :
    ofList (members ++ [last]) = (ofList members).add last := by
  simp [ofList, List.foldl_append]

theorem mem_ofList {members : List α} {member : α} :
    member ∈ ofList members ↔ member ∈ members := by
  induction members using List.reverseRecOn with
  | nil => simp [ofList]
  | append_singleton members last ih => rw [ofList_concat, mem_add, ih, List.mem_append,
      List.mem_singleton]

theorem toList_ofList_eq_eraseDups (members : List α) :
    (ofList members).toList = members.eraseDups := by
  induction members using List.reverseRecOn with
  | nil => rfl
  | append_singleton members last ih =>
      rw [ofList_concat, toList_add, List.eraseDups_append, ← ih]
      by_cases present : last ∈ members
      · simp [mem_ofList, present, List.removeAll]
      · have alone : [last].eraseDups = [last] := List.eraseDups_cons
        simp [mem_ofList, present, List.removeAll, alone]

end Roster

/-- Rosters by label. -/
abbrev Groups (α : Type) := Ledger Label (Roster α)

namespace Groups

variable {α : Type}

/-- The members of the group of a label, which has none if it is not entered. -/
def members (groups : Groups α) (label : Label) : Roster α := (groups.get? label).getD ∅

/-- Strikes out the members that are gone, and the groups that are left without members. -/
def prune (gone : Label → α → Bool) (groups : Groups α) : Groups α :=
  groups.thin fun label roster =>
    let kept := roster.keep fun member => !gone label member
    if kept.isEmpty then none else some kept

/-- No label is entered twice and none without members. -/
structure Neat (groups : Groups α) : Prop where
  distinct : Ledger.Distinct groups
  filled : ∀ group ∈ groups, group.2 ≠ ∅

theorem neat_nil : Neat ([] : Groups α) := ⟨Ledger.distinct_nil, fun _ member => nomatch member⟩

theorem members_of_mem {groups : Groups α} (neat : Neat groups) {group : Label × Roster α}
    (entered : group ∈ groups) : members groups group.1 = group.2 := by
  rw [members, Ledger.get?_of_mem neat.distinct entered]
  rfl

/-- A label is entered exactly if it has members. -/
theorem Neat.mem_keys_iff {groups : Groups α} (neat : Neat groups) {label : Label} :
    label ∈ groups.keys ↔ members groups label ≠ ∅ := by
  unfold members
  cases found : groups.get? label with
  | none =>
      simp only [Option.getD_none, ne_eq, not_true_eq_false, iff_false]
      exact Ledger.get?_eq_none_iff.mp found
  | some roster =>
      simp only [Option.getD_some]
      exact ⟨fun _ => neat.filled _ (Ledger.mem_of_get? found),
        fun _ => Ledger.mem_keys_of_get? found⟩

theorem Neat.mem_keys_iff_exists {groups : Groups α} (neat : Neat groups) {label : Label} :
    label ∈ groups.keys ↔ ∃ member, member ∈ members groups label := by
  rw [neat.mem_keys_iff, ne_eq, Roster.eq_empty_iff, not_forall_not]

/-! ## Pruning -/

theorem mem_prune {gone : Label → α → Bool} {groups : Groups α} {group : Label × Roster α} :
    group ∈ groups.prune gone ↔ group.2 ≠ ∅ ∧ ∃ roster, (group.1, roster) ∈ groups ∧
      (roster.keep fun member => !gone group.1 member) = group.2 := by
  obtain ⟨label, kept⟩ := group
  refine Ledger.mem_thin.trans ⟨?_, ?_⟩
  · rintro ⟨roster, entered, survives⟩
    dsimp only at survives
    split at survives
    · cases survives
    · rename_i filled
      cases survives
      exact ⟨fun none => filled (Roster.isEmpty_iff.mpr none), roster, entered, rfl⟩
  · rintro ⟨filled, roster, entered, same⟩
    refine ⟨roster, entered, ?_⟩
    rw [same, if_neg fun none => filled (Roster.isEmpty_iff.mp none)]

theorem members_prune {groups : Groups α} (distinct : Ledger.Distinct groups)
    (gone : Label → α → Bool) (label : Label) :
    members (groups.prune gone) label =
      (members groups label).keep fun member => !gone label member := by
  unfold members prune
  rw [Ledger.get?_thin distinct]
  cases groups.get? label with
  | none => rfl
  | some roster =>
      simp only [Option.bind_some, Option.getD_some]
      split
      · rename_i none
        exact (Roster.isEmpty_iff.mp none).symm
      · rfl

theorem Neat.prune {groups : Groups α} (neat : Neat groups) (gone : Label → α → Bool) :
    Neat (groups.prune gone) :=
  ⟨neat.distinct.thin _, fun _ entered => (mem_prune.mp entered).1⟩

theorem prune_prune (first second : Label → α → Bool) (groups : Groups α) :
    (groups.prune first).prune second =
      groups.prune fun label member => first label member || second label member := by
  refine (Ledger.thin_thin _ _ groups).trans (Ledger.thin_congr fun group _ => ?_)
  have twice := Roster.keep_keep group.2 (fun member => !first group.1 member)
    (fun member => !second group.1 member)
  simp only [Bool.not_or, ← twice]
  by_cases none : (group.2.keep fun member => !first group.1 member).isEmpty = true
  · have empty := Roster.isEmpty_iff.mp none
    rw [if_pos none, empty]
    rfl
  · rw [if_neg none]
    rfl

theorem prune_congr {groups : Groups α} (neat : Neat groups) {first second : Label → α → Bool}
    (same : ∀ label, ∀ member ∈ members groups label, first label member = second label member) :
    groups.prune first = groups.prune second := by
  refine Ledger.thin_congr fun group entered => ?_
  have kept : (group.2.keep fun member => !first group.1 member) =
      group.2.keep fun member => !second group.1 member := by
    refine Roster.keep_congr fun member inside => ?_
    rw [same group.1 member ((members_of_mem neat entered).symm ▸ inside)]
  simp only [kept]

theorem prune_eq_self {groups : Groups α} (neat : Neat groups) {gone : Label → α → Bool}
    (stays : ∀ label, ∀ member ∈ members groups label, gone label member = false) :
    groups.prune gone = groups := by
  refine Ledger.thin_eq_self fun group entered => ?_
  have kept : (group.2.keep fun member => !gone group.1 member) = group.2 := by
    refine Roster.keep_eq_self fun member inside => ?_
    rw [stays group.1 member ((members_of_mem neat entered).symm ▸ inside)]
    rfl
  simp only [kept]
  exact if_neg fun none => neat.filled group entered (Roster.isEmpty_iff.mp none)

theorem erase_eq_prune {groups : Groups α} (neat : Neat groups) (label : Label) :
    groups.erase label = groups.prune fun first _ => first = label := by
  rw [Ledger.erase_eq_thin neat.distinct]
  refine Ledger.thin_congr fun group entered => ?_
  rcases eq_or_ne group.1 label with same | same
  · have none : (group.2.keep fun _ => false).isEmpty = true := by
      simp [Roster.isEmpty]
    simp [same, none]
  · have all : (group.2.keep fun _ => true) = group.2 := Roster.keep_eq_self fun _ _ => rfl
    have filled : ¬ group.2.isEmpty = true := fun none =>
      neat.filled group entered (Roster.isEmpty_iff.mp none)
    simp [same, all, filled]

variable [DecidableEq α]

/-! ## One member in, one member out -/

/-- Enters a member at the end of the group of a label. -/
def add (groups : Groups α) (label : Label) (newcomer : α) : Groups α :=
  groups.alter label fun present => some ((present.getD ∅).add newcomer)

/-- Takes a member out of the group of a label, and the group with its last member. -/
def drop (groups : Groups α) (label : Label) (leaver : α) : Groups α :=
  groups.alter label fun present =>
    match present with
    | none => none
    | some roster =>
        let remaining := roster.remove leaver
        if remaining.isEmpty then none else some remaining

theorem members_add {groups : Groups α} (distinct : Ledger.Distinct groups) (label : Label)
    (newcomer : α) (other : Label) :
    members (groups.add label newcomer) other =
      if other = label then (members groups label).add newcomer else members groups other := by
  unfold members add
  rw [Ledger.get?_alter distinct]
  rcases eq_or_ne other label with same | same
  · rw [if_pos same, if_pos same]
    rfl
  · rw [if_neg same, if_neg same]

theorem mem_members_add {groups : Groups α} (distinct : Ledger.Distinct groups)
    {label other : Label} {newcomer member : α} :
    member ∈ members (groups.add label newcomer) other ↔
      member ∈ members groups other ∨ other = label ∧ member = newcomer := by
  rw [members_add distinct]
  rcases eq_or_ne other label with same | same
  · subst same
    simp
  · simp [same]

theorem Neat.add {groups : Groups α} (neat : Neat groups) (label : Label) (newcomer : α) :
    Neat (groups.add label newcomer) := by
  have distinct : Ledger.Distinct (groups.add label newcomer) := neat.distinct.alter _ _
  refine ⟨distinct, fun group entered none => ?_⟩
  have found := Ledger.get?_of_mem distinct entered
  unfold Groups.add at found
  rw [Ledger.get?_alter neat.distinct] at found
  rcases eq_or_ne group.1 label with same | same
  · rw [if_pos same] at found
    exact Roster.add_ne_empty _ _ ((Option.some.inj found).trans none)
  · rw [if_neg same] at found
    exact neat.filled group (Ledger.mem_of_get? found) none

/-- A member that is there already is not entered again. -/
theorem add_of_mem {groups : Groups α} (neat : Neat groups) {label : Label} {member : α}
    (present : member ∈ members groups label) : groups.add label member = groups := by
  have entered : label ∈ groups.keys :=
    neat.mem_keys_iff.mpr fun none => Roster.not_mem_empty member (none ▸ present)
  rw [add, Ledger.alter_of_present neat.distinct entered]
  refine Ledger.thin_eq_self fun group held => ?_
  rcases eq_or_ne group.1 label with same | same
  · have inside : member ∈ group.2 := members_of_mem neat held ▸ same ▸ present
    rw [if_pos same, Option.getD_some, Roster.add_of_mem inside]
  · rw [if_neg same]

theorem drop_eq_prune {groups : Groups α} (neat : Neat groups) (label : Label) (leaver : α) :
    groups.drop label leaver =
      groups.prune fun first member => first = label && member = leaver := by
  refine (Ledger.alter_eq_thin neat.distinct label rfl).trans
    (Ledger.thin_congr fun group entered => ?_)
  rcases eq_or_ne group.1 label with same | same
  · simp [same, Roster.remove_eq_keep]
  · have all : (group.2.keep fun _ => true) = group.2 := Roster.keep_eq_self fun _ _ => rfl
    have filled : ¬ group.2.isEmpty = true := fun none =>
      neat.filled group entered (Roster.isEmpty_iff.mp none)
    simp [same, all, filled]

/-- A member that is gone might as well never have joined, and neither does its group stay behind if
it joined as the first. -/
theorem prune_add {groups : Groups α} (neat : Neat groups) {gone : Label → α → Bool} {label : Label}
    {newcomer : α} (leaves : gone label newcomer = true) :
    (groups.add label newcomer).prune gone = groups.prune gone := by
  have cut (roster : Roster α) : (roster.add newcomer).keep (fun member => !gone label member) =
      roster.keep fun member => !gone label member := by
    apply Roster.eq_of_toList_eq
    rw [Roster.toList_keep, Roster.toList_keep, Roster.toList_add]
    split
    · rfl
    · simp [List.filter_append, leaves]
  by_cases entered : label ∈ groups.keys
  · rw [add, Ledger.alter_of_present neat.distinct entered]
    refine (Ledger.thin_thin _ _ groups).trans (Ledger.thin_congr fun group _ => ?_)
    rcases eq_or_ne group.1 label with same | same
    · simp only [same, if_true, Option.getD_some, Option.bind_some, cut]
    · simp only [if_neg same, Option.bind_some]
  · have alone := cut ∅
    rw [add, Ledger.alter_of_absent entered]
    refine List.filterMap_append.trans ?_
    simp only [Option.map_some, Option.toList_some, List.filterMap_cons, Option.getD_none, alone]
    exact List.append_nil _

theorem drop_add {groups : Groups α} (neat : Neat groups) {label : Label} {newcomer : α}
    (absent : newcomer ∉ members groups label) :
    (groups.add label newcomer).drop label newcomer = groups := by
  rw [drop_eq_prune (neat.add _ _), prune_add neat (by simp)]
  refine prune_eq_self neat fun kind member inside => ?_
  rw [Bool.eq_false_iff]
  intro goes
  simp only [Bool.and_eq_true, decide_eq_true_eq] at goes
  obtain ⟨rfl, rfl⟩ := goes
  exact absent inside

/-! ## Several labels at once -/

/-- Enters a member in the groups of several labels. -/
def enter (groups : Groups α) (labels : List Label) (newcomer : α) : Groups α :=
  labels.foldl (fun groups label => groups.add label newcomer) groups

theorem enter_concat (groups : Groups α) (labels : List Label) (label : Label) (newcomer : α) :
    groups.enter (labels ++ [label]) newcomer = (groups.enter labels newcomer).add label newcomer :=
  List.foldl_append

theorem Neat.enter {groups : Groups α} (neat : Neat groups) (labels : List Label) (newcomer : α) :
    Neat (groups.enter labels newcomer) := by
  unfold Groups.enter
  induction labels generalizing groups with
  | nil => exact neat
  | cons label rest ih => exact ih (neat.add label newcomer)

theorem mem_members_enter {groups : Groups α} (neat : Neat groups) {labels : List Label}
    {newcomer member : α} {label : Label} :
    member ∈ members (groups.enter labels newcomer) label ↔
      member ∈ members groups label ∨ label ∈ labels ∧ member = newcomer := by
  unfold enter
  induction labels generalizing groups with
  | nil => simp
  | cons first rest ih =>
      rw [List.foldl_cons, ih (neat.add first newcomer), mem_members_add neat.distinct,
        List.mem_cons]
      tauto

theorem prune_enter {groups : Groups α} (neat : Neat groups) {gone : Label → α → Bool}
    {newcomer : α} (leaves : ∀ label, gone label newcomer = true) (labels : List Label) :
    (groups.enter labels newcomer).prune gone = groups.prune gone := by
  induction labels using List.reverseRecOn with
  | nil => rfl
  | append_singleton labels last ih =>
      rw [enter_concat, prune_add (neat.enter labels newcomer) (leaves last), ih]

/-- A newcomer stands behind all others, once in the group of each of its labels. -/
theorem toList_members_enter {groups : Groups α} (neat : Neat groups) {newcomer : α} {label : Label}
    (absent : newcomer ∉ members groups label) (labels : List Label) :
    (members (groups.enter labels newcomer) label).toList =
      (members groups label).toList ++ if label ∈ labels then [newcomer] else [] := by
  induction labels using List.reverseRecOn with
  | nil => exact (List.append_nil _).symm
  | append_singleton labels last ih =>
      rw [enter_concat, members_add (neat.enter labels newcomer).distinct]
      rcases eq_or_ne label last with same | same
      · have there : newcomer ∈ members (groups.enter labels newcomer) label ↔ label ∈ labels := by
          rw [mem_members_enter neat]
          simp [absent]
        rw [if_pos same, ← same, Roster.toList_add, ih]
        by_cases before : label ∈ labels
        · simp [there, before]
        · simp [there, before]
      · rw [if_neg same, ih]
        simp [same]

theorem foldl_drop_eq_prune {groups : Groups α} (neat : Neat groups) (labels : List Label)
    (leaver : α) :
    labels.foldl (fun groups label => groups.drop label leaver) groups =
      groups.prune fun label member => label ∈ labels && member = leaver := by
  induction labels generalizing groups with
  | nil => exact (prune_eq_self neat fun _ _ _ => rfl).symm
  | cons first rest ih =>
      rw [List.foldl_cons, drop_eq_prune neat, ih (neat.prune _), prune_prune]
      congr 1
      funext label member
      simp only [List.mem_cons, Bool.decide_or, Bool.and_or_distrib_right]

end Groups

/-! ## Links between two ends -/

section Ends

variable {α : Type} [DecidableEq α]

/-- A link between two ends, seen from either of them. -/
def between (first : α) (edge : Label) (second source : α) (kind : Label) (target : α) : Bool :=
  kind = edge &&
    ((source = first ∧ target = second) || (source = second ∧ target = first))

/-- Any link of one kind with one end in a given place. -/
def touching (place : α) (edge : Label) (source : α) (kind : Label) (target : α) : Bool :=
  kind = edge && (source = place || target = place)

theorem between_comm (first : α) (edge : Label) (second source : α) (kind : Label) (target : α) :
    between first edge second source kind target =
      between first edge second target kind source := by
  unfold between
  rw [Bool.or_comm]
  simp only [and_comm]

theorem between_swap (first : α) (edge : Label) (second : α) :
    between first edge second = between second edge first := by
  funext source kind target
  rw [between, between, Bool.or_comm]

theorem between_first {first second target : α} {edge kind : Label} :
    between first edge second first kind target = true ↔ kind = edge ∧ target = second := by
  simp only [between, Bool.and_eq_true, Bool.or_eq_true, decide_eq_true_eq, true_and]
  exact and_congr_right fun _ => or_iff_left_of_imp fun back => back.2.trans back.1

theorem between_second {first second target : α} {edge kind : Label} :
    between first edge second second kind target = true ↔ kind = edge ∧ target = first := by
  simp only [between, Bool.and_eq_true, Bool.or_eq_true, decide_eq_true_eq, true_and]
  exact and_congr_right fun _ => or_iff_right_of_imp fun back => back.2.trans back.1

theorem between_elsewhere {first second source target : α} {edge kind : Label}
    (one : source ≠ first) (two : source ≠ second) :
    between first edge second source kind target = false := by
  simp [between, one, two]

theorem touching_comm (place : α) (edge : Label) (source : α) (kind : Label) (target : α) :
    touching place edge source kind target = touching place edge target kind source := by
  unfold touching
  rw [Bool.or_comm (source = place)]

end Ends

/-! ## Links and the index of labels as groups -/

theorem Links.link_eq_add (links : Links) (edge : Label) (target : Handle) :
    links.link edge target = Groups.add links edge target := rfl

theorem Links.unlink_eq_drop (links : Links) (edge : Label) (target : Handle) :
    links.unlink edge target = Groups.drop links edge target := by
  unfold unlink Groups.drop
  congr 1
  funext present
  cases present <;> rfl

theorem Instance.targets_eq_members (vertex : Instance) (edge : Label) :
    vertex.targets edge = Groups.members vertex.links edge := rfl

namespace Store

theorem delist_eq (store : Store) (handle : Handle) (label : Label) :
    store.delist handle label = { store with byType := Groups.drop store.byType label handle } := by
  unfold delist Groups.drop
  congr 2
  funext present
  cases present <;> rfl

/-- The carriers of a label are what its group of handles resolves to. -/
theorem ofType_eq (store : Store) (label : Label) :
    store.ofType label = (Groups.members store.byType label).toList.filterMap store.resolve := by
  unfold ofType Groups.members
  cases store.byType.get? label <;> rfl

end Store

end LinkAtlas
