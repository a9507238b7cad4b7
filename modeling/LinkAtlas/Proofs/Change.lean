import LinkAtlas.Proofs.Edits

/-!
# What comes of an edit

A sound store turns an edit down, carries it out without any effect, or goes over into one of the
closed forms. Facts about single edits are read off these cases.
-/

namespace LinkAtlas

namespace Store

variable {store : Store}

/-- The edits that a store turns down, and why. -/
inductive Refused (store : Store) : Edit → GraphError → Prop where
  | add {id : InstanceId} {vertex : Instance} (found : store.find? id = some vertex)
      (labels : List Label) (value : Option Scalar) :
      Refused store (.add id labels value) (.duplicateId id)
  | remove {id : InstanceId} (absent : store.find? id = none) :
      Refused store (.remove id) (.unknownInstance id)
  | addLabel {id : InstanceId} (absent : store.find? id = none) (label : Label) :
      Refused store (.addLabel id label) (.unknownInstance id)
  | removeLabel {id : InstanceId} (absent : store.find? id = none) (label : Label) :
      Refused store (.removeLabel id label) (.unknownInstance id)
  | source {source : InstanceId} (absent : store.find? source = none) (edge : Label)
      (target : InstanceId) :
      Refused store (.link source edge target) (.unknownInstance source)
  | target {source target : InstanceId} {vertex : Instance}
      (found : store.find? source = some vertex) (absent : store.find? target = none)
      (edge : Label) :
      Refused store (.link source edge target) (.unknownInstance target)
  | unlinkAll {id : InstanceId} (absent : store.find? id = none) (edge : Label) :
      Refused store (.unlinkAll id edge) (.unknownInstance id)

/-- The edits that a store carries out without any effect. -/
inductive Idle (store : Store) : Edit → Prop where
  | addLabel {bearer : Instance} (live : store.resolve bearer.handle = some bearer) {label : Label}
      (carried : label ∈ bearer.labels) : Idle store (.addLabel bearer.id label)
  | removeLabel {bearer : Instance} (live : store.resolve bearer.handle = some bearer)
      {label : Label} (missing : label ∉ bearer.labels) : Idle store (.removeLabel bearer.id label)
  | unlink {source target : InstanceId}
      (absent : store.find? source = none ∨ store.find? target = none) (edge : Label) :
      Idle store (.unlink source edge target)

/-- What comes of an edit of a sound store: the answer, and the store after it. -/
inductive Change (store : Store) : Edit → Except GraphError Reply → Store → Prop where
  | refused {edit : Edit} {reason : GraphError} (refused : Refused store edit reason) :
      Change store edit (.error reason) store
  | idle {edit : Edit} (idle : Idle store edit) : Change store edit (.ok (.flag false)) store
  | enrolled {id : InstanceId} (absent : store.find? id = none) (labels : List Label)
      (value : Option Scalar) :
      Change store (.add id labels value) (.ok (.handle store.allocate.1))
        (store.enrolled (store.newcomer id labels value))
  | evicted {leaver : Instance} (live : store.resolve leaver.handle = some leaver) :
      Change store (.remove leaver.id) (.ok .done) (store.evicted leaver)
  | labelled {bearer : Instance} (live : store.resolve bearer.handle = some bearer) {label : Label}
      (fresh : label ∉ bearer.labels) :
      Change store (.addLabel bearer.id label) (.ok (.flag true))
        (store.labelled bearer.handle label)
  | unlabelled {bearer : Instance} (live : store.resolve bearer.handle = some bearer)
      {label : Label} (carried : label ∈ bearer.labels) :
      Change store (.removeLabel bearer.id label) (.ok (.flag true))
        (store.unlabelled bearer.handle label)
  | tied {vertex other : Instance} (one : store.resolve vertex.handle = some vertex)
      (two : store.resolve other.handle = some other) (edge : Label) :
      Change store (.link vertex.id edge other.id) (.ok .done)
        (store.revise (tie vertex.handle edge other.handle))
  | severed {vertex other : Instance} (one : store.resolve vertex.handle = some vertex)
      (two : store.resolve other.handle = some other) (edge : Label) :
      Change store (.unlink vertex.id edge other.id)
        (.ok (.flag (vertex.hasLink edge other.handle)))
        (store.revise (Instance.trim (between vertex.handle edge other.handle)))
  | cleared {holder : Instance} (live : store.resolve holder.handle = some holder) (edge : Label) :
      Change store (.unlinkAll holder.id edge) (.ok (.count (holder.targets edge).size))
        (store.revise (Instance.trim (touching holder.handle edge)))

namespace Sound

theorem change_add (sound : store.Sound) (id : InstanceId) (labels : List Label)
    (value : Option Scalar) :
    Change store (.add id labels value) (store.perform (.add id labels value)).1
      (store.perform (.add id labels value)).2 := by
  cases found : store.find? id with
  | some vertex =>
      simp only [Store.perform, sound.add_of_present found, Except.map]
      exact .refused (.add found labels value)
  | none =>
      simp only [Store.perform, sound.add_of_absent found, Except.map]
      exact .enrolled found labels value

theorem change_remove (sound : store.Sound) (id : InstanceId) :
    Change store (.remove id) (store.perform (.remove id)).1 (store.perform (.remove id)).2 := by
  cases found : store.find? id with
  | none =>
      simp only [Store.perform, sound.remove_of_absent found, Except.map]
      exact .refused (.remove found)
  | some leaver =>
      simp only [Store.perform, sound.remove_of_present found, Except.map]
      obtain ⟨live, rfl⟩ := sound.find?_eq_some_iff.mp found
      exact .evicted live

theorem change_addLabel (sound : store.Sound) (id : InstanceId) (label : Label) :
    Change store (.addLabel id label) (store.perform (.addLabel id label)).1
      (store.perform (.addLabel id label)).2 := by
  cases found : store.find? id with
  | none =>
      simp only [Store.perform, sound.addLabel_of_absent found, Except.map]
      exact .refused (.addLabel found label)
  | some bearer =>
      simp only [Store.perform, sound.addLabel_of_present found, Except.map]
      obtain ⟨live, rfl⟩ := sound.find?_eq_some_iff.mp found
      by_cases carried : label ∈ bearer.labels
      · rw [if_pos carried]
        exact .idle (.addLabel live carried)
      · rw [if_neg carried]
        exact .labelled live carried

theorem change_removeLabel (sound : store.Sound) (id : InstanceId) (label : Label) :
    Change store (.removeLabel id label) (store.perform (.removeLabel id label)).1
      (store.perform (.removeLabel id label)).2 := by
  cases found : store.find? id with
  | none =>
      simp only [Store.perform, sound.removeLabel_of_absent found, Except.map]
      exact .refused (.removeLabel found label)
  | some bearer =>
      simp only [Store.perform, sound.removeLabel_of_present found, Except.map]
      obtain ⟨live, rfl⟩ := sound.find?_eq_some_iff.mp found
      by_cases carried : label ∈ bearer.labels
      · rw [if_pos carried]
        exact .unlabelled live carried
      · rw [if_neg carried]
        exact .idle (.removeLabel live carried)

theorem change_link (sound : store.Sound) (source : InstanceId) (edge : Label)
    (target : InstanceId) :
    Change store (.link source edge target) (store.perform (.link source edge target)).1
      (store.perform (.link source edge target)).2 := by
  cases found : store.find? source with
  | none =>
      simp only [Store.perform, sound.link_of_source_absent found, Except.map]
      exact .refused (.source found edge target)
  | some vertex =>
      cases reached : store.find? target with
      | none =>
          simp only [Store.perform, sound.link_of_target_absent found reached, Except.map]
          exact .refused (.target found reached edge)
      | some other =>
          simp only [Store.perform, sound.link_of_present found reached, Except.map]
          obtain ⟨one, rfl⟩ := sound.find?_eq_some_iff.mp found
          obtain ⟨two, rfl⟩ := sound.find?_eq_some_iff.mp reached
          exact .tied one two edge

theorem change_unlink (sound : store.Sound) (source : InstanceId) (edge : Label)
    (target : InstanceId) :
    Change store (.unlink source edge target) (store.perform (.unlink source edge target)).1
      (store.perform (.unlink source edge target)).2 := by
  cases found : store.find? source with
  | none =>
      simp only [Store.perform, sound.unlink_of_absent (Or.inl found)]
      exact .idle (.unlink (Or.inl found) edge)
  | some vertex =>
      cases reached : store.find? target with
      | none =>
          simp only [Store.perform, sound.unlink_of_absent (Or.inr reached)]
          exact .idle (.unlink (Or.inr reached) edge)
      | some other =>
          simp only [Store.perform, sound.unlink_of_present found reached]
          obtain ⟨one, rfl⟩ := sound.find?_eq_some_iff.mp found
          obtain ⟨two, rfl⟩ := sound.find?_eq_some_iff.mp reached
          exact .severed one two edge

theorem change_unlinkAll (sound : store.Sound) (id : InstanceId) (edge : Label) :
    Change store (.unlinkAll id edge) (store.perform (.unlinkAll id edge)).1
      (store.perform (.unlinkAll id edge)).2 := by
  cases found : store.find? id with
  | none =>
      simp only [Store.perform, sound.unlinkAll_of_absent found, Except.map]
      exact .refused (.unlinkAll found edge)
  | some holder =>
      simp only [Store.perform, sound.unlinkAll_of_present found, Except.map]
      obtain ⟨live, rfl⟩ := sound.find?_eq_some_iff.mp found
      exact .cleared live edge

/-- Nothing but this comes of an edit. -/
theorem change (sound : store.Sound) (edit : Edit) :
    Change store edit (store.perform edit).1 (store.perform edit).2 := by
  cases edit with
  | add id labels value => exact sound.change_add id labels value
  | remove id => exact sound.change_remove id
  | addLabel id label => exact sound.change_addLabel id label
  | removeLabel id label => exact sound.change_removeLabel id label
  | link source edge target => exact sound.change_link source edge target
  | unlink source edge target => exact sound.change_unlink source edge target
  | unlinkAll id edge => exact sound.change_unlinkAll id edge

/-! ## Edits that are carried out -/

theorem perform_add (sound : store.Sound) {id : InstanceId} (absent : store.find? id = none)
    (labels : List Label) (value : Option Scalar) :
    store.perform (.add id labels value) =
      (.ok (.handle store.allocate.1), store.enrolled (store.newcomer id labels value)) := by
  simp only [Store.perform, sound.add_of_absent absent, Except.map]

theorem perform_remove (sound : store.Sound) {id : InstanceId} {leaver : Instance}
    (found : store.find? id = some leaver) :
    store.perform (.remove id) = (.ok .done, store.evicted leaver) := by
  simp only [Store.perform, sound.remove_of_present found, Except.map]

theorem perform_addLabel (sound : store.Sound) {id : InstanceId} {bearer : Instance}
    (found : store.find? id = some bearer) {label : Label} (fresh : label ∉ bearer.labels) :
    store.perform (.addLabel id label) =
      (.ok (.flag true), store.labelled bearer.handle label) := by
  simp only [Store.perform, sound.addLabel_of_present found, if_neg fresh, Except.map]

theorem perform_removeLabel (sound : store.Sound) {id : InstanceId} {bearer : Instance}
    (found : store.find? id = some bearer) (label : Label) :
    store.perform (.removeLabel id label) =
      if label ∈ bearer.labels then (.ok (.flag true), store.unlabelled bearer.handle label)
      else (.ok (.flag false), store) := by
  simp only [Store.perform, sound.removeLabel_of_present found, Except.map]
  split <;> rfl

theorem perform_link (sound : store.Sound) {source target : InstanceId} {vertex other : Instance}
    (found : store.find? source = some vertex) (reached : store.find? target = some other)
    (edge : Label) :
    store.perform (.link source edge target) =
      (.ok .done, store.revise (tie vertex.handle edge other.handle)) := by
  simp only [Store.perform, sound.link_of_present found reached, Except.map]

theorem perform_unlink (sound : store.Sound) {source target : InstanceId}
    {vertex other : Instance} (found : store.find? source = some vertex)
    (reached : store.find? target = some other) (edge : Label) :
    store.perform (.unlink source edge target) =
      (.ok (.flag (vertex.hasLink edge other.handle)),
        store.revise (Instance.trim (between vertex.handle edge other.handle))) := by
  simp only [Store.perform, sound.unlink_of_present found reached]

theorem perform_unlinkAll (sound : store.Sound) {id : InstanceId} {holder : Instance}
    (found : store.find? id = some holder) (edge : Label) :
    store.perform (.unlinkAll id edge) =
      (.ok (.count (holder.targets edge).size),
        store.revise (Instance.trim (touching holder.handle edge))) := by
  simp only [Store.perform, sound.unlinkAll_of_present found, Except.map]

end Sound

end Store

end LinkAtlas
