import LinkAtlas.Proofs.Groups
import LinkAtlas.Store.Edit

/-!
# Chronicles

What edits bring about is written down as a chronicle of events. It tells which links and labels
stand, and since which event each of them does. Lists that are kept up to date one event at a time
are in chronological order if the survivors keep their places and a newcomer goes to the end.
-/

namespace LinkAtlas

/-- What an edit brings about. -/
inductive Event where
  | arrived (id : InstanceId)
  | left (id : InstanceId)
  | gained (id : InstanceId) (label : Label)
  | lost (id : InstanceId) (label : Label)
  | tied (source : InstanceId) (edge : Label) (target : InstanceId)
  | severed (source : InstanceId) (edge : Label) (target : InstanceId)
  | cleared (id : InstanceId) (edge : Label)
deriving DecidableEq

namespace Edit

/-- The events of an edit that is carried out. A newcomer gains its labels one after the other. -/
def events : Edit → List Event
  | .add id labels _ => .arrived id :: labels.map (.gained id)
  | .remove id => [.left id]
  | .addLabel id label => [.gained id label]
  | .removeLabel id label => [.lost id label]
  | .link source edge target => [.tied source edge target]
  | .unlink source edge target => [.severed source edge target]
  | .unlinkAll id edge => [.cleared id edge]

/-- The events of an edit that was answered: none if it was turned down. -/
def outcome {α : Type} (edit : Edit) : Except GraphError α → List Event
  | .ok _ => edit.events
  | .error _ => []

theorem outcome_map {α β : Type} (edit : Edit) (answer : Except GraphError α) (change : α → β) :
    edit.outcome (answer.map change) = edit.outcome answer := by
  cases answer <;> rfl

/-- The events of a run of edits, told from the edits and their answers alone. -/
def chronicle {α : Type} : List Edit → List (Except GraphError α) → List Event
  | edit :: rest, answer :: answers => edit.outcome answer ++ chronicle rest answers
  | _, _ => []

theorem chronicle_map {α β : Type} (edits : List Edit) (answers : List (Except GraphError α))
    (change : α → β) : chronicle edits (answers.map (·.map change)) = chronicle edits answers := by
  induction edits generalizing answers with
  | nil => rfl
  | cons edit rest ih =>
      cases answers with
      | nil => rfl
      | cons answer answers => rw [List.map_cons, chronicle, chronicle, outcome_map, ih]

end Edit

/-! ## What stands -/

/-- Some event has made it, and no later one has undone it. -/
def Stands (makes undoes : Event → Prop) (log : List Event) : Prop :=
  ∃ before event after, log = before ++ event :: after ∧ makes event ∧
    ∀ later ∈ after, ¬ undoes later

theorem not_stands_nil (makes undoes : Event → Prop) : ¬ Stands makes undoes [] := by
  rintro ⟨before, event, after, empty, -⟩
  exact List.append_ne_nil_of_right_ne_nil before (List.cons_ne_nil event after) empty.symm

/-- What stands after one more event. -/
theorem stands_concat {makes undoes : Event → Prop} {log : List Event} {last : Event} :
    Stands makes undoes (log ++ [last]) ↔
      makes last ∨ Stands makes undoes log ∧ ¬ undoes last := by
  constructor
  · rintro ⟨before, event, after, split, made, kept⟩
    -- the last event made it, or it was made before and the last event spared it
    rcases List.eq_nil_or_concat after with rfl | ⟨part, final, rfl⟩
    · obtain ⟨-, same⟩ := List.append_inj' split rfl
      cases same
      exact Or.inl made
    · rw [List.concat_eq_append, ← List.cons_append, ← List.append_assoc] at split
      obtain ⟨earlier, same⟩ := List.append_inj' split rfl
      cases same
      refine Or.inr ⟨⟨before, event, part, earlier, made, fun later inside => ?_⟩, ?_⟩
      · exact kept later (by simp [inside])
      · exact kept last (by simp)
  · rintro (made | ⟨⟨before, event, after, rfl, made, kept⟩, spared⟩)
    · exact ⟨log, last, [], rfl, made, fun later inside => nomatch inside⟩
    · refine ⟨before, event, after ++ [last], by simp, made, fun later inside => ?_⟩
      rcases List.mem_append.mp inside with old | new
      · exact kept later old
      · exact List.mem_singleton.mp new ▸ spared

namespace Event

/-- Makes a link between two ids, whichever of them is named first. -/
def Ties (one : InstanceId) (edge : Label) (other : InstanceId) : Event → Prop
  | tied source kind target => between source kind target one edge other
  | _ => False

/-- Ends a link between two ids. Whoever arrives under an id comes without links. -/
def Parts (one : InstanceId) (edge : Label) (other : InstanceId) : Event → Prop
  | severed source kind target => between source kind target one edge other
  | cleared id kind => touching id kind one edge other
  | left id | arrived id => one = id ∨ other = id
  | _ => False

def Gives (id : InstanceId) (label : Label) : Event → Prop
  | gained bearer given => id = bearer ∧ label = given
  | _ => False

def Takes (id : InstanceId) (label : Label) : Event → Prop
  | lost bearer taken => id = bearer ∧ label = taken
  | left leaver => id = leaver
  | arrived newcomer => id = newcomer
  | _ => False

end Event

/-- A link was made between the present instances of two ids and has not been cut since. -/
def Linked (one : InstanceId) (edge : Label) (other : InstanceId) (log : List Event) : Prop :=
  Stands (Event.Ties one edge other) (Event.Parts one edge other) log

/-- The present instance of an id got a label and has not lost it since. -/
def Carries (id : InstanceId) (label : Label) (log : List Event) : Prop :=
  Stands (Event.Gives id label) (Event.Takes id label) log

theorem linked_concat {one other : InstanceId} {edge : Label} {log : List Event} {last : Event} :
    Linked one edge other (log ++ [last]) ↔
      last.Ties one edge other ∨ Linked one edge other log ∧ ¬ last.Parts one edge other :=
  stands_concat

theorem carries_concat {id : InstanceId} {label : Label} {log : List Event} {last : Event} :
    Carries id label (log ++ [last]) ↔
      last.Gives id label ∨ Carries id label log ∧ ¬ last.Takes id label :=
  stands_concat

/-- An event that has nothing to do with a link leaves it as it is. -/
theorem linked_untouched {one other : InstanceId} {edge : Label} {log : List Event} {last : Event}
    (ties : ¬ last.Ties one edge other) (parts : ¬ last.Parts one edge other) :
    Linked one edge other (log ++ [last]) ↔ Linked one edge other log := by
  rw [linked_concat, or_iff_right ties, and_iff_left parts]

theorem carries_untouched {id : InstanceId} {label : Label} {log : List Event} {last : Event}
    (gives : ¬ last.Gives id label) (takes : ¬ last.Takes id label) :
    Carries id label (log ++ [last]) ↔ Carries id label log := by
  rw [carries_concat, or_iff_right gives, and_iff_left takes]

theorem Event.ties_comm (one : InstanceId) (edge : Label) (other : InstanceId) (event : Event) :
    event.Ties one edge other ↔ event.Ties other edge one := by
  cases event with
  | tied source kind target => rw [Ties, between_comm, Ties]
  | arrived | left | gained | lost | severed | cleared => exact Iff.rfl

theorem Event.parts_comm (one : InstanceId) (edge : Label) (other : InstanceId) (event : Event) :
    event.Parts one edge other ↔ event.Parts other edge one := by
  cases event with
  | severed source kind target => rw [Parts, between_comm, Parts]
  | cleared id kind => rw [Parts, touching_comm, Parts]
  | arrived id | left id => exact Or.comm
  | gained | lost | tied => exact Iff.rfl

/-- Links stand at both ends. -/
theorem linked_comm {one other : InstanceId} {edge : Label} {log : List Event} :
    Linked one edge other log ↔ Linked other edge one log := by
  have ties : Event.Ties one edge other = Event.Ties other edge one :=
    funext fun event => propext (event.ties_comm one edge other)
  have parts : Event.Parts one edge other = Event.Parts other edge one :=
    funext fun event => propext (event.parts_comm one edge other)
  rw [Linked, ties, parts, Linked]

/-! ## Since when it stands -/

/-- It came to hold by the event of this number and has held ever since. -/
def Since (holds : List Event → Prop) (log : List Event) (moment : Nat) : Prop :=
  moment < log.length ∧ ¬ holds (log.take moment) ∧
    ∀ later, moment < later → later ≤ log.length → holds (log.take later)

section Moments

variable {holds : List Event → Prop} {log : List Event} {last : Event} {moment : Nat}

theorem Since.now (since : Since holds log moment) : holds log := by
  have whole := since.2.2 log.length since.1 (Nat.le_refl _)
  rwa [List.take_length] at whole

/-- As long as it holds, the moment stays. -/
theorem Since.concat (since : Since holds log moment) (still : holds (log ++ [last])) :
    Since holds (log ++ [last]) moment := by
  obtain ⟨bound, before, held⟩ := since
  refine ⟨by simp; omega, ?_, fun later after within => ?_⟩
  · rwa [List.take_append_of_le_length (Nat.le_of_lt bound)]
  · rcases Nat.lt_or_ge log.length later with new | old
    · rwa [List.take_of_length_le (by simp; omega)]
    · rw [List.take_append_of_le_length old]
      exact held later after old

/-- What comes to hold does so by the last event. -/
theorem since_last (before : ¬ holds log) (now : holds (log ++ [last])) :
    Since holds (log ++ [last]) log.length := by
  refine ⟨by simp, by rwa [List.take_left], fun later after _ => ?_⟩
  rwa [List.take_of_length_le (by simp; omega)]

end Moments

/-- A list of all that holds, in the order in which each last came to hold. -/
structure Chronological {α : Type} (holds : α → List Event → Prop) (log : List Event)
    (members : List α) : Prop where
  listed : ∀ member, member ∈ members ↔ holds member log
  dated : ∀ member ∈ members, ∃ moment, Since (holds member) log moment
  ordered : members.Pairwise fun first second =>
    ∃ earlier later, Since (holds first) log earlier ∧ Since (holds second) log later ∧
      earlier < later

namespace Chronological

variable {α : Type} {holds : α → List Event → Prop} {log : List Event} {last : Event}
  {members : List α}

theorem nil (none : ∀ member, ¬ holds member log) : Chronological holds log [] where
  listed := fun member => iff_of_false List.not_mem_nil (none member)
  dated := fun _ inside => nomatch inside
  ordered := List.Pairwise.nil

/-- What no longer holds is struck out where it stands. -/
theorem strike {kept : List α} (old : Chronological holds log members)
    (sub : kept.Sublist members)
    (now : ∀ member, member ∈ kept ↔ holds member (log ++ [last])) :
    Chronological holds (log ++ [last]) kept where
  listed := now
  dated := by
    intro member inside
    obtain ⟨moment, since⟩ := old.dated member (sub.subset inside)
    exact ⟨moment, since.concat ((now member).mp inside)⟩
  ordered := by
    refine (old.ordered.sublist sub).imp_of_mem ?_
    rintro first second one two ⟨earlier, later, before, after, apart⟩
    exact ⟨earlier, later, before.concat ((now first).mp one), after.concat ((now second).mp two),
      apart⟩

/-- What begins to hold goes to the end. -/
theorem append {newcomer : α} (old : Chronological holds log members)
    (fresh : newcomer ∉ members)
    (now : ∀ member, holds member (log ++ [last]) ↔ holds member log ∨ member = newcomer) :
    Chronological holds (log ++ [last]) (members ++ [newcomer]) where
  listed := fun member => by
    rw [now, List.mem_append, List.mem_singleton, old.listed]
  dated := by
    intro member inside
    rcases List.mem_append.mp inside with held | new
    · obtain ⟨moment, since⟩ := old.dated member held
      exact ⟨moment, since.concat ((now member).mpr (Or.inl since.now))⟩
    · obtain rfl := List.mem_singleton.mp new
      exact ⟨_, since_last (fun held => fresh ((old.listed member).mpr held))
        ((now member).mpr (Or.inr rfl))⟩
  ordered := by
    have begun : Since (holds newcomer) (log ++ [last]) log.length :=
      since_last (fun held => fresh ((old.listed newcomer).mpr held))
        ((now newcomer).mpr (Or.inr rfl))
    refine List.pairwise_append.mpr ⟨old.ordered.imp ?_, List.pairwise_singleton _ _, ?_⟩
    · rintro first second ⟨earlier, later, before, after, apart⟩
      exact ⟨earlier, later, before.concat ((now first).mpr (Or.inl before.now)),
        after.concat ((now second).mpr (Or.inl after.now)), apart⟩
    · intro member inside new alone
      obtain rfl := List.mem_singleton.mp alone
      obtain ⟨moment, since⟩ := old.dated member inside
      exact ⟨moment, log.length, since.concat ((now member).mpr (Or.inl since.now)), begun,
        since.1⟩

/-- An event that changes nothing. -/
theorem keep (old : Chronological holds log members)
    (now : ∀ member, holds member (log ++ [last]) ↔ holds member log) :
    Chronological holds (log ++ [last]) members :=
  old.strike (List.Sublist.refl members) fun member =>
    (old.listed member).trans (now member).symm

section Rosters

variable {roster : Roster α}

/-- A member that joins again keeps its date. -/
theorem add [DecidableEq α] {newcomer : α} (old : Chronological holds log roster.toList)
    (now : ∀ member, holds member (log ++ [last]) ↔ holds member log ∨ member = newcomer) :
    Chronological holds (log ++ [last]) (roster.add newcomer).toList := by
  by_cases present : newcomer ∈ roster
  · have held : holds newcomer log := (old.listed newcomer).mp present
    rw [Roster.add_of_mem present]
    exact old.keep fun member =>
      (now member).trans (or_iff_left_of_imp fun same => same.symm ▸ held)
  · rw [Roster.toList_add_of_not_mem present]
    exact old.append present now

theorem filter {test : α → Bool} (old : Chronological holds log roster.toList)
    (now : ∀ member, holds member (log ++ [last]) ↔ holds member log ∧ test member = true) :
    Chronological holds (log ++ [last]) (roster.keep test).toList := by
  refine old.strike List.filter_sublist fun member => ?_
  rw [← Roster.mem_iff, Roster.mem_keep, Roster.mem_iff, old.listed, now]

end Rosters

end Chronological

/-! ## Groups -/

namespace Groups

variable {α : Type}

/-- Groups of all that holds, where the members of each group and the labels that have members are
in chronological order. -/
structure Dated (holds : Label → α → List Event → Prop) (log : List Event)
    (groups : Groups α) : Prop where
  neat : Neat groups
  members : ∀ label, Chronological (holds label) log (members groups label).toList
  keys : Chronological (fun label log => ∃ member, holds label member log) log groups.keys

namespace Dated

variable {holds : Label → α → List Event → Prop} {log : List Event} {last : Event}
  {groups : Groups α}

theorem nil (none : ∀ label member, ¬ holds label member log) : Dated holds log [] where
  neat := neat_nil
  members := fun label => Chronological.nil (none label)
  keys := Chronological.nil fun label => not_exists.mpr (none label)

theorem mem_iff (old : Dated holds log groups) {label : Label} {member : α} :
    member ∈ Groups.members groups label ↔ holds label member log :=
  (old.members label).listed member

theorem keep (old : Dated holds log groups)
    (now : ∀ label member, holds label member (log ++ [last]) ↔ holds label member log) :
    Dated holds (log ++ [last]) groups where
  neat := old.neat
  members := fun label => (old.members label).keep (now label)
  keys := old.keys.keep fun label => exists_congr (now label)

/-- What no longer holds is pruned. -/
theorem prune {gone : Label → α → Bool} (old : Dated holds log groups)
    (now : ∀ label member, holds label member (log ++ [last]) ↔
      holds label member log ∧ gone label member = false) :
    Dated holds (log ++ [last]) (groups.prune gone) := by
  have within (label : Label) : Chronological (holds label) (log ++ [last])
      (Groups.members (groups.prune gone) label).toList := by
    rw [members_prune old.neat.distinct]
    refine (old.members label).filter fun member => ?_
    rw [now, Bool.not_eq_true']
  refine ⟨old.neat.prune gone, within, ?_⟩
  refine old.keys.strike (Ledger.keys_thin_sublist _ _) fun label => ?_
  rw [(old.neat.prune gone).mem_keys_iff_exists]
  exact exists_congr (within label).listed

/-- What begins to hold is entered. -/
theorem add [DecidableEq α] {label : Label} {newcomer : α} (old : Dated holds log groups)
    (now : ∀ other member, holds other member (log ++ [last]) ↔
      holds other member log ∨ other = label ∧ member = newcomer) :
    Dated holds (log ++ [last]) (groups.add label newcomer) := by
  refine ⟨old.neat.add label newcomer, fun other => ?_, ?_⟩
  · rw [members_add old.neat.distinct]
    rcases eq_or_ne other label with same | same
    · rw [if_pos same, ← same]
      exact (old.members other).add fun member => by simp [now, same]
    · rw [if_neg same]
      exact (old.members other).keep fun member => by simp [now, same]
  · have grown (other : Label) : (∃ member, holds other member (log ++ [last])) ↔
        (∃ member, holds other member log) ∨ other = label := by
      simp [now, exists_or]
    rw [Groups.add, Ledger.keys_alter_some]
    by_cases entered : label ∈ groups.keys
    · rw [if_pos entered]
      refine old.keys.keep fun other => (grown other).trans (or_iff_left_of_imp ?_)
      rintro rfl
      exact (old.keys.listed other).mp entered
    · rw [if_neg entered]
      exact old.keys.append entered grown

end Dated

end Groups

end LinkAtlas
