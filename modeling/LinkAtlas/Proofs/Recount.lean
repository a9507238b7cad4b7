import LinkAtlas.Proofs.Abstraction
import LinkAtlas.Proofs.Chronicle

/-!
# Registries and chronicles

Each event changes a registry in one way, and a registry that lists what stands in chronological
order still does so after the next event.
-/

namespace LinkAtlas

namespace Entry

/-- What stands under an id that is not registered. -/
def blank : Entry where
  labels := ∅
  value := none

/-- A link that is there is not entered again. -/
theorem link_link {entry : Entry} (neat : Groups.Neat entry.links) (edge : Label)
    (target : InstanceId) : (entry.link edge target).link edge target = entry.link edge target := by
  have entered : target ∈ Groups.members (entry.links.add edge target) edge :=
    (Groups.mem_members_add neat.distinct).mpr (Or.inr ⟨rfl, rfl⟩)
  have same := Groups.add_of_mem (neat.add edge target) entered
  exact congrArg (fun links => { entry with links := links }) same

end Entry

namespace Registry

variable {registry after : Registry} {log : List Event}

/-! ## What is registered under an id -/

/-- The entry under an id, which is blank if the id is not registered. -/
def entryOf (registry : Registry) (id : InstanceId) : Entry := (registry.find? id).getD .blank

theorem entryOf_of_found {id : InstanceId} {entry : Entry}
    (found : registry.find? id = some entry) : registry.entryOf id = entry := by
  rw [entryOf, found, Option.getD_some]

theorem entryOf_of_absent {id : InstanceId} (absent : registry.find? id = none) :
    registry.entryOf id = .blank := by
  rw [entryOf, absent, Option.getD_none]

theorem find?_add (distinct : registry.entries.Distinct) (id : InstanceId) (labels : Roster Label)
    (value : Option Scalar) (other : InstanceId) :
    (registry.add id labels value).find? other =
      if other = id then some { labels := labels, value := value } else registry.find? other :=
  Ledger.get?_alter distinct id other _

theorem entryOf_add (distinct : registry.entries.Distinct) (id : InstanceId) (labels : Roster Label)
    (value : Option Scalar) (other : InstanceId) :
    (registry.add id labels value).entryOf other =
      if other = id then { labels := labels, value := value } else registry.entryOf other := by
  rw [entryOf, find?_add distinct, entryOf]
  split <;> rfl

theorem entryOf_modify (distinct : registry.entries.Distinct) {id : InstanceId} {entry : Entry}
    (found : registry.find? id = some entry) (change : Entry → Entry) (other : InstanceId) :
    (registry.modify id change).entryOf other =
      if other = id then change (registry.entryOf other) else registry.entryOf other := by
  have seen : (registry.modify id change).find? other =
      if other = id then (registry.find? id).map change else registry.find? other :=
    Ledger.get?_alter distinct id other _
  rw [entryOf, seen]
  rcases eq_or_ne other id with same | same
  · rw [if_pos same, if_pos same, same, entryOf_of_found found, found]
    rfl
  · rw [if_neg same, if_neg same, entryOf]

theorem distinct_cut (distinct : registry.entries.Distinct)
    (gone : InstanceId → Label → InstanceId → Bool) : (registry.cut gone).entries.Distinct :=
  distinct.thin fun source entry => some (entry.cut (gone source))

theorem entryOf_cut (distinct : registry.entries.Distinct)
    (gone : InstanceId → Label → InstanceId → Bool) (id : InstanceId) :
    (registry.cut gone).entryOf id = (registry.entryOf id).cut (gone id) := by
  rw [entryOf, find?, cut, Ledger.get?_thin distinct, entryOf, find?]
  cases registry.entries.get? id <;> rfl

theorem entryOf_remove (distinct : registry.entries.Distinct) (id other : InstanceId) :
    (registry.remove id).entryOf other =
      if other = id then .blank
      else (registry.entryOf other).cut fun _ target => target = id := by
  rw [entryOf, find?, entries_remove distinct, Ledger.get?_thin distinct, entryOf, find?]
  rcases eq_or_ne other id with same | same
  · rw [if_pos same, same]
    simp
  · simp only [if_neg same]
    cases registry.entries.get? other <;> rfl

/-- A link to itself is entered once. -/
theorem entryOf_link (distinct : registry.entries.Distinct) {source target : InstanceId}
    {entry opposite : Entry} (neat : Groups.Neat entry.links)
    (one : registry.find? source = some entry) (two : registry.find? target = some opposite)
    (edge : Label) (id : InstanceId) :
    (registry.link source edge target).entryOf id =
      if id = source then (registry.entryOf id).link edge target
      else if id = target then (registry.entryOf id).link edge source
      else registry.entryOf id := by
  have halfway : (registry.modify source (·.link edge target)).entries.Distinct :=
    distinct.alter source _
  have reached : ∃ held,
      (registry.modify source (·.link edge target)).find? target = some held := by
    rw [find?, modify, Ledger.get?_alter distinct, ← find?, ← find?, one, two]
    split <;> exact ⟨_, rfl⟩
  obtain ⟨held, found⟩ := reached
  rw [link, entryOf_modify halfway found, entryOf_modify distinct one]
  rcases eq_or_ne id source with first | first
  · subst first
    rw [if_pos rfl, if_pos rfl, entryOf_of_found one]
    rcases eq_or_ne id target with second | second
    · rw [if_pos second, ← second]
      exact Entry.link_link neat edge id
    · rw [if_neg second]
  · rw [if_neg first, if_neg first]

/-! ## One event -/

/-- What an event does to a registry. -/
inductive Step (registry : Registry) : Event → Registry → Prop where
  | arrived {id : InstanceId} (absent : registry.find? id = none) (value : Option Scalar) :
      Step registry (.arrived id) (registry.add id ∅ value)
  | left {id : InstanceId} {entry : Entry} (found : registry.find? id = some entry) :
      Step registry (.left id) (registry.remove id)
  | gained {id : InstanceId} {entry : Entry} (found : registry.find? id = some entry)
      {label : Label} (fresh : label ∉ entry.labels) :
      Step registry (.gained id label) (registry.addLabel id label)
  | regained {id : InstanceId} {entry : Entry} (found : registry.find? id = some entry)
      {label : Label} (carried : label ∈ entry.labels) : Step registry (.gained id label) registry
  | lost {id : InstanceId} {entry : Entry} (found : registry.find? id = some entry)
      {label : Label} (carried : label ∈ entry.labels) :
      Step registry (.lost id label) (registry.removeLabel id label)
  | missed {id : InstanceId} {entry : Entry} (found : registry.find? id = some entry)
      {label : Label} (missing : label ∉ entry.labels) : Step registry (.lost id label) registry
  | tied {source target : InstanceId} {entry opposite : Entry}
      (one : registry.find? source = some entry) (two : registry.find? target = some opposite)
      (edge : Label) : Step registry (.tied source edge target) (registry.link source edge target)
  | severed {source target : InstanceId} {entry opposite : Entry}
      (one : registry.find? source = some entry) (two : registry.find? target = some opposite)
      (edge : Label) :
      Step registry (.severed source edge target) (registry.cut (between source edge target))
  | apart {source target : InstanceId}
      (absent : registry.find? source = none ∨ registry.find? target = none) (edge : Label) :
      Step registry (.severed source edge target) registry
  | cleared {id : InstanceId} {entry : Entry} (found : registry.find? id = some entry)
      (edge : Label) : Step registry (.cleared id edge) (registry.cut (touching id edge))

/-- A registry that lists what stands, in chronological order. -/
structure Recounts (registry : Registry) (log : List Event) : Prop where
  distinct : registry.entries.Distinct
  links : ∀ id, Groups.Dated (Linked id) log (registry.entryOf id).links
  labels : ∀ id, Chronological (Carries id) log (registry.entryOf id).labels.toList
  byType : Groups.Dated (fun label id => Carries id label) log registry.byType

theorem recounts_empty : Registry.empty.Recounts [] where
  distinct := Ledger.distinct_nil
  links := fun _ => .nil fun _ _ => not_stands_nil _ _
  labels := fun _ => .nil fun _ => not_stands_nil _ _
  byType := .nil fun _ _ => not_stands_nil _ _

namespace Recounts

variable {last : Event}

/-- Nothing is linked to an id that is not registered. -/
theorem not_linked (old : registry.Recounts log) {id : InstanceId}
    (absent : registry.find? id = none) (edge : Label) (other : InstanceId) :
    ¬ Linked id edge other log := by
  rw [← (old.links id).mem_iff, entryOf_of_absent absent]
  exact Roster.not_mem_empty other

theorem not_carries (old : registry.Recounts log) {id : InstanceId}
    (absent : registry.find? id = none) (label : Label) : ¬ Carries id label log := by
  rw [← (old.labels id).listed, entryOf_of_absent absent]
  exact Roster.not_mem_empty label

/-- An event without any effect. -/
theorem idle (old : registry.Recounts log)
    (links : ∀ one edge other, Linked one edge other (log ++ [last]) ↔ Linked one edge other log)
    (labels : ∀ id label, Carries id label (log ++ [last]) ↔ Carries id label log) :
    registry.Recounts (log ++ [last]) where
  distinct := old.distinct
  links := fun id => (old.links id).keep (links id)
  labels := fun id => (old.labels id).keep (labels id)
  byType := old.byType.keep fun label id => labels id label

theorem cut {gone : InstanceId → Label → InstanceId → Bool} (old : registry.Recounts log)
    (links : ∀ one edge other, Linked one edge other (log ++ [last]) ↔
      Linked one edge other log ∧ gone one edge other = false)
    (labels : ∀ id label, Carries id label (log ++ [last]) ↔ Carries id label log) :
    (registry.cut gone).Recounts (log ++ [last]) where
  distinct := distinct_cut old.distinct gone
  links := fun id => by
    rw [entryOf_cut old.distinct]
    exact (old.links id).prune (links id)
  labels := fun id => by
    rw [entryOf_cut old.distinct]
    exact (old.labels id).keep (labels id)
  byType := old.byType.keep fun label id => labels id label

theorem arrived (old : registry.Recounts log) {id : InstanceId}
    (absent : registry.find? id = none) (value : Option Scalar) :
    (registry.add id ∅ value).Recounts (log ++ [.arrived id]) := by
  have links (one : InstanceId) (edge : Label) (other : InstanceId) :
      Linked one edge other (log ++ [.arrived id]) ↔ Linked one edge other log := by
    simp only [linked_concat, Event.Ties, Event.Parts, false_or, not_or, and_iff_left_iff_imp]
    intro linked
    constructor
    · rintro rfl
      exact old.not_linked absent edge other linked
    · rintro rfl
      exact old.not_linked absent edge one (linked_comm.mp linked)
  have labels (bearer : InstanceId) (label : Label) :
      Carries bearer label (log ++ [.arrived id]) ↔ Carries bearer label log := by
    simp only [carries_concat, Event.Gives, Event.Takes, false_or, and_iff_left_iff_imp]
    rintro carried rfl
    exact old.not_carries absent label carried
  have blank (other : InstanceId) :
      ((registry.add id ∅ value).entryOf other).links = (registry.entryOf other).links ∧
        ((registry.add id ∅ value).entryOf other).labels = (registry.entryOf other).labels := by
    rw [entryOf_add old.distinct]
    rcases eq_or_ne other id with same | same
    · rw [if_pos same, same, entryOf_of_absent absent]
      exact ⟨rfl, rfl⟩
    · rw [if_neg same]
      exact ⟨rfl, rfl⟩
  refine ⟨old.distinct.alter id _, fun other => ?_, fun other => ?_, ?_⟩
  · rw [(blank other).1]
    exact (old.links other).keep (links other)
  · rw [(blank other).2]
    exact (old.labels other).keep (labels other)
  · exact old.byType.keep fun label bearer => labels bearer label

theorem left (old : registry.Recounts log) (id : InstanceId) :
    (registry.remove id).Recounts (log ++ [.left id]) := by
  have distinct := (distinct_cut old.distinct fun _ _ target => target = id).alter id fun _ => none
  refine ⟨distinct, fun other => ?_, fun other => ?_, ?_⟩
  · rw [entryOf_remove old.distinct]
    rcases eq_or_ne other id with same | same
    · rw [if_pos same]
      exact .nil fun edge target => by simp [linked_concat, Event.Ties, Event.Parts, same]
    · rw [if_neg same]
      change Groups.Dated _ _ ((registry.entryOf other).links.prune fun _ target => target = id)
      refine (old.links other).prune fun edge target => ?_
      simp [linked_concat, Event.Ties, Event.Parts, same]
  · rw [entryOf_remove old.distinct]
    rcases eq_or_ne other id with same | same
    · rw [if_pos same]
      exact .nil fun label => by simp [carries_concat, Event.Gives, Event.Takes, same]
    · rw [if_neg same]
      refine (old.labels other).keep fun label => ?_
      simp [carries_concat, Event.Gives, Event.Takes, same]
  · change Groups.Dated _ _ (registry.byType.prune fun _ member => decide (member = id))
    refine old.byType.prune fun label bearer => ?_
    simp [carries_concat, Event.Gives, Event.Takes]

/-- An event that changes the labels under one id. -/
theorem relabel (old : registry.Recounts log) {id : InstanceId} {entry : Entry}
    (found : registry.find? id = some entry) (change : Roster Label → Roster Label)
    {types : Groups InstanceId}
    (links : ∀ one edge other, Linked one edge other (log ++ [last]) ↔ Linked one edge other log)
    (own : Chronological (Carries id) (log ++ [last]) (change entry.labels).toList)
    (others : ∀ bearer, bearer ≠ id → ∀ label,
      Carries bearer label (log ++ [last]) ↔ Carries bearer label log)
    (byType : Groups.Dated (fun label id => Carries id label) (log ++ [last]) types) :
    ({ registry.modify id fun entry => { entry with labels := change entry.labels } with
      byType := types } : Registry).Recounts (log ++ [last]) := by
  have entries (other : InstanceId) :
      ({ registry.modify id fun entry => { entry with labels := change entry.labels } with
        byType := types } : Registry).entryOf other =
        if other = id then
          { registry.entryOf other with labels := change (registry.entryOf other).labels }
        else registry.entryOf other :=
    entryOf_modify old.distinct found _ other
  refine ⟨old.distinct.alter id _, fun other => ?_, fun other => ?_, byType⟩
  · have same : (if other = id then
          { registry.entryOf other with labels := change (registry.entryOf other).labels }
        else registry.entryOf other).links = (registry.entryOf other).links := by
      split <;> rfl
    rw [entries, same]
    exact (old.links other).keep (links other)
  · rw [entries]
    rcases eq_or_ne other id with same | same
    · rw [if_pos same, same, entryOf_of_found found]
      exact own
    · rw [if_neg same]
      exact (old.labels other).keep (others other same)

theorem gained (old : registry.Recounts log) {id : InstanceId} {entry : Entry}
    (found : registry.find? id = some entry) (label : Label) :
    (registry.addLabel id label).Recounts (log ++ [.gained id label]) := by
  have carries (bearer : InstanceId) (other : Label) :
      Carries bearer other (log ++ [.gained id label]) ↔
        Carries bearer other log ∨ other = label ∧ bearer = id := by
    simp [carries_concat, Event.Gives, Event.Takes, or_comm, and_comm]
  have before := old.labels id
  rw [entryOf_of_found found] at before
  refine old.relabel found (·.add label)
    (fun _ _ _ => linked_untouched not_false not_false) ?_ (fun bearer other carried => ?_) ?_
  · exact before.add fun other => by simp [carries]
  · simp [carries, other]
  · exact old.byType.add fun other bearer => carries bearer other

theorem lost (old : registry.Recounts log) {id : InstanceId} {entry : Entry}
    (found : registry.find? id = some entry) (label : Label) :
    (registry.removeLabel id label).Recounts (log ++ [.lost id label]) := by
  have carries (bearer : InstanceId) (other : Label) :
      Carries bearer other (log ++ [.lost id label]) ↔
        Carries bearer other log ∧ (other = label && bearer = id) = false := by
    simp only [carries_concat, Event.Gives, Event.Takes, false_or, and_comm, ← Bool.not_eq_true,
      Bool.and_eq_true, decide_eq_true_eq]
  have before := old.labels id
  rw [entryOf_of_found found] at before
  refine old.relabel found (·.remove label)
    (fun _ _ _ => linked_untouched not_false not_false) ?_ (fun bearer other carried => ?_) ?_
  · rw [Roster.remove_eq_keep]
    exact before.filter fun other => by simp [carries]
  · simp [carries, other]
  · rw [Groups.drop_eq_prune old.byType.neat]
    exact old.byType.prune fun other bearer => carries bearer other

theorem tied (old : registry.Recounts log) {source target : InstanceId} {entry opposite : Entry}
    (one : registry.find? source = some entry) (two : registry.find? target = some opposite)
    (edge : Label) :
    (registry.link source edge target).Recounts (log ++ [.tied source edge target]) := by
  have links (id : InstanceId) (kind : Label) (other : InstanceId) :
      Linked id kind other (log ++ [.tied source edge target]) ↔
        Linked id kind other log ∨ between source edge target id kind other = true := by
    simp [linked_concat, Event.Ties, Event.Parts, or_comm]
  have labels (id : InstanceId) (label : Label) :
      Carries id label (log ++ [.tied source edge target]) ↔ Carries id label log :=
    carries_untouched not_false not_false
  have neat := (old.links source).neat
  rw [entryOf_of_found one] at neat
  refine ⟨?_, fun id => ?_, fun id => ?_, old.byType.keep fun label id => labels id label⟩
  · exact (old.distinct.alter source _).alter target _
  · rw [entryOf_link old.distinct neat one two]
    rcases eq_or_ne id source with first | first
    · rw [if_pos first]
      refine (old.links id).add fun kind other => (links id kind other).trans ?_
      rw [first, between_first]
    · rw [if_neg first]
      rcases eq_or_ne id target with second | second
      · rw [if_pos second]
        refine (old.links id).add fun kind other => (links id kind other).trans ?_
        rw [second, between_second]
      · rw [if_neg second]
        refine (old.links id).keep fun kind other => (links id kind other).trans ?_
        simp [between_elsewhere first second]
  · have same : ((registry.link source edge target).entryOf id).labels =
        (registry.entryOf id).labels := by
      rw [entryOf_link old.distinct neat one two]
      split
      · rfl
      · split <;> rfl
    rw [same]
    exact (old.labels id).keep (labels id)

/-- A registry that recounts what has happened still does so after the next event. -/
theorem step (old : registry.Recounts log) {event : Event} (step : Step registry event after) :
    after.Recounts (log ++ [event]) := by
  cases step with
  | arrived absent value => exact old.arrived absent value
  | @left id entry found => exact old.left id
  | gained found fresh => exact old.gained found _
  | lost found carried => exact old.lost found _
  | tied one two edge => exact old.tied one two edge
  | severed one two edge =>
      refine old.cut (fun id kind other => ?_) fun _ _ => carries_untouched not_false not_false
      simp [linked_concat, Event.Ties, Event.Parts]
  | cleared found edge =>
      refine old.cut (fun id kind other => ?_) fun _ _ => carries_untouched not_false not_false
      simp [linked_concat, Event.Ties, Event.Parts]
  | @regained id entry found label carried =>
      rw [← entryOf_of_found found] at carried
      have held : Carries id label log := ((old.labels id).listed label).mp carried
      refine old.idle (fun _ _ _ => linked_untouched not_false not_false) fun bearer other => ?_
      simp only [carries_concat, Event.Gives, Event.Takes, not_false_iff, and_true]
      refine or_iff_right_of_imp ?_
      rintro ⟨rfl, rfl⟩
      exact held
  | @missed id entry found label missing =>
      rw [← entryOf_of_found found] at missing
      have free : ¬ Carries id label log := fun held =>
        missing (((old.labels id).listed label).mpr held)
      refine old.idle (fun _ _ _ => linked_untouched not_false not_false) fun bearer other => ?_
      simp only [carries_concat, Event.Gives, Event.Takes, false_or]
      refine and_iff_left_of_imp ?_
      rintro held ⟨rfl, rfl⟩
      exact free held
  | @apart source target absent edge =>
      -- one end is missing, so there was no link to be cut
      have unlinked : ¬ Linked source edge target log := by
        rcases absent with none | none
        · exact old.not_linked none edge target
        · exact fun linked => old.not_linked none edge source (linked_comm.mp linked)
      refine old.idle (fun one kind other => ?_) fun _ _ => carries_untouched not_false not_false
      simp only [linked_concat, Event.Ties, Event.Parts, false_or]
      refine and_iff_left_of_imp fun linked parted => ?_
      simp only [between, Bool.and_eq_true, Bool.or_eq_true, decide_eq_true_eq] at parted
      obtain ⟨rfl, ⟨rfl, rfl⟩ | ⟨rfl, rfl⟩⟩ := parted
      · exact unlinked linked
      · exact unlinked (linked_comm.mp linked)

end Recounts

end Registry

end LinkAtlas
