import LinkAtlas.Command.LinkSpec
import LinkAtlas.Format
import LinkAtlas.Proofs.Provenance
import LinkAtlas.Proofs.Remainder

/-!
# Cuts

Instances are taken out of a store and then links, one after the other. Together they are one cut,
and a forest that is asked for afterwards is the forest from before, cut down. It takes no notice of
the order of the removals, nor of links that are named twice, that are not there, or that lead to
nobody.
-/

namespace LinkAtlas

/-! ## One cut after another -/

namespace Store

variable {store before middle after : Store}

namespace Cut

variable {left later : Handle → Bool} {gone lost : Handle → Label → Handle → Bool}

theorem refl (sound : store.Sound) : Cut store store (fun _ => false) fun _ _ _ => false where
  resolve := by
    intro handle
    cases live : store.resolve handle with
    | none => rfl
    | some vertex =>
        have same : vertex.trim (fun _ _ _ => false) = vertex :=
          Instance.trim_eq_self (sound.neat live) fun _ _ _ => rfl
        simp [same]
  members := fun _ => (Roster.keep_eq_self fun _ _ => rfl).symm
  covered := fun _ _ _ leaves => Bool.noConfusion leaves

theorem trans (first : Cut before middle left gone) (second : Cut middle after later lost) :
    Cut before after (fun handle => left handle || later handle)
      fun source edge target => gone source edge target || lost source edge target where
  resolve := by
    intro handle
    have twice : Instance.trim lost ∘ Instance.trim gone = Instance.trim fun source edge target =>
        gone source edge target || lost source edge target :=
      funext fun vertex => Instance.trim_trim gone lost vertex
    rw [second.resolve, first.resolve]
    cases left handle with
    | true => simp
    | false => simp [Option.map_map, twice]
  members := by
    intro label
    rw [second.members, first.members, Roster.keep_keep]
    simp only [Bool.not_or]
  covered := by
    intro source edge target leaves
    rw [Bool.or_eq_true] at leaves ⊢
    exact leaves.imp (first.covered source edge target) (second.covered source edge target)

/-- What links an instance had that is not there any more makes no difference. -/
theorem congr (cut : Cut before after left gone) (sound : before.Sound)
    (covered : ∀ source edge target, left target = true → lost source edge target = true)
    (same : ∀ source edge target, left source = false → left target = false →
      gone source edge target = lost source edge target) : Cut before after left lost where
  resolve := by
    intro handle
    rw [cut.resolve]
    cases leaves : left handle with
    | true => rfl
    | false =>
        cases live : before.resolve handle with
        | none => rfl
        | some vertex =>
            have own := sound.handle_eq live
            refine congrArg some (Instance.trim_congr (sound.neat live) fun edge target _ => ?_)
            cases goes : left target with
            | true => rw [cut.covered _ _ _ goes, covered _ _ _ goes]
            | false => exact same _ _ _ (own.symm ▸ leaves) goes
  members := cut.members
  covered := covered

end Cut

/-! ## Several links -/

/-- Whether a link is the one that is named, seen from either end. -/
def isNamed (store : Store) (spec : LinkSpec) (source : Handle) (edge : Label) (target : Handle) :
    Bool :=
  match store.byId.get? spec.source, store.byId.get? spec.target with
  | some one, some other => between one spec.edge other source edge target
  | _, _ => false

/-- Cuts several links, one after the other. -/
def unlinkEach (store : Store) (specs : List LinkSpec) : Store :=
  specs.foldl (fun store spec => (store.unlink spec.source spec.edge spec.target).2) store

/-- Cutting a link, whether it is there or not. -/
theorem Sound.cut_unlink (sound : store.Sound) (spec : LinkSpec) :
    (store.unlink spec.source spec.edge spec.target).2.Sound ∧
      (store.unlink spec.source spec.edge spec.target).2.byId = store.byId ∧
      Cut store (store.unlink spec.source spec.edge spec.target).2 (fun _ => false)
        (store.isNamed spec) := by
  have idle (absent : store.find? spec.source = none ∨ store.find? spec.target = none) :
      store.isNamed spec = fun _ _ _ => false := by
    funext source edge target
    unfold isNamed
    rw [sound.get?_byId, sound.get?_byId]
    rcases absent with none | none
    · rw [none]
      rfl
    · rw [none]
      cases store.find? spec.source <;> rfl
  cases found : store.find? spec.source with
  | none =>
      rw [sound.unlink_of_absent (Or.inl found), idle (Or.inl found)]
      exact ⟨sound, rfl, .refl sound⟩
  | some vertex =>
      cases reached : store.find? spec.target with
      | none =>
          rw [sound.unlink_of_absent (Or.inr reached), idle (Or.inr reached)]
          exact ⟨sound, rfl, .refl sound⟩
      | some other =>
          have named : store.isNamed spec = between vertex.handle spec.edge other.handle := by
            funext source edge target
            unfold isNamed
            rw [sound.get?_byId, sound.get?_byId, found, reached]
            rfl
          rw [sound.unlink_of_present found reached, named]
          exact ⟨sound.trim (between_comm _ _ _), rfl, cut_trim store _⟩

theorem Sound.cut_unlinkEach (sound : store.Sound) (specs : List LinkSpec) :
    (store.unlinkEach specs).Sound ∧
      Cut store (store.unlinkEach specs) (fun _ => false) fun source edge target =>
        specs.any fun spec => store.isNamed spec source edge target := by
  unfold unlinkEach
  induction specs generalizing store with
  | nil => exact ⟨sound, .refl sound⟩
  | cons spec rest ih =>
      obtain ⟨safe, ids, first⟩ := sound.cut_unlink spec
      obtain ⟨last, second⟩ := ih safe
      refine ⟨last, ?_⟩
      have whole := first.trans second
      -- the ids are those from before, so that the other links are still told by the same names
      unfold isNamed at whole ⊢
      rw [ids] at whole
      simpa using whole

/-! ## Instances and links -/

/-- Whether a handle belongs to one of the instances with some ids. -/
def isOneOf (store : Store) (ids : List InstanceId) (handle : Handle) : Bool :=
  ids.any fun id => store.byId.get? id = some handle

/-- Whether a link is cut off when instances and links are taken out: it leads to one of the
instances, or it is one of the links. -/
def isCutOff (store : Store) (ids : List InstanceId) (specs : List LinkSpec) (source : Handle)
    (edge : Label) (target : Handle) : Bool :=
  store.isOneOf ids target || specs.any fun spec => store.isNamed spec source edge target

/-- A forest without some instances, which go with all that is below them, and without the children
that some links led to. -/
def cutDown (store : Store) (ids : List InstanceId) (specs : List LinkSpec)
    (forest : List Projection) : List Projection :=
  (forest.filter fun root => !store.isOneOf ids root.source).map
    (Projection.prune (store.isCutOff ids specs))

theorem cutDown_perm (store : Store) {ids permuted : List InstanceId}
    {specs shuffled : List LinkSpec} (same : ids.Perm permuted) (alike : specs.Perm shuffled)
    (forest : List Projection) :
    store.cutDown ids specs forest = store.cutDown permuted shuffled forest := by
  have members : store.isOneOf ids = store.isOneOf permuted := funext fun _ => same.any_eq
  have links : store.isCutOff ids specs = store.isCutOff permuted shuffled := by
    funext source edge target
    rw [isCutOff, isCutOff, members, alike.any_eq]
  rw [cutDown, cutDown, members, links]

theorem isOneOf_iff {ids : List InstanceId} {handle : Handle} :
    store.isOneOf ids handle = true ↔ ∃ id ∈ ids, store.byId.get? id = some handle := by
  simp [isOneOf]

/-- Between instances that stay, the same links are named as before some ids went out of use. -/
theorem isNamed_of_staying {ids : List InstanceId} {source target : Handle}
    (lookup : ∀ id, after.byId.get? id = if id ∈ ids then none else before.byId.get? id)
    (stays : before.isOneOf ids source = false) (keeps : before.isOneOf ids target = false)
    (spec : LinkSpec) (edge : Label) :
    after.isNamed spec source edge target = before.isNamed spec source edge target := by
  have elsewhere {id : InstanceId} {handle : Handle} (leaves : id ∈ ids)
      (entered : before.byId.get? id = some handle) : source ≠ handle ∧ target ≠ handle := by
    have listed : before.isOneOf ids handle = true := isOneOf_iff.mpr ⟨id, leaves, entered⟩
    constructor
    · rintro rfl
      exact Bool.noConfusion (stays.symm.trans listed)
    · rintro rfl
      exact Bool.noConfusion (keeps.symm.trans listed)
  unfold isNamed
  rw [lookup, lookup]
  cases one : before.byId.get? spec.source with
  | none => simp
  | some first =>
      cases other : before.byId.get? spec.target with
      | none => simp
      | some second =>
          by_cases leaves : spec.source ∈ ids
          · obtain ⟨here, there⟩ := elsewhere leaves one
            simp [leaves, between, here, there]
          · by_cases goes : spec.target ∈ ids
            · obtain ⟨here, there⟩ := elsewhere goes other
              simp [goes, between, here, there]
            · simp [leaves, goes]

/-- Removals succeed only if every id is there and given once. -/
theorem Sound.of_removeAll (sound : store.Sound) {ids : List InstanceId}
    (removed : store.removeAll ids = .ok after) :
    ids.Nodup ∧ ∀ id ∈ ids, store.Present id := by
  induction ids using List.reverseRecOn generalizing after with
  | nil => exact ⟨List.nodup_nil, fun _ none => absurd none List.not_mem_nil⟩
  | append_singleton ids last ih =>
      rw [removeAll_concat] at removed
      cases earlier : store.removeAll ids with
      | error reason =>
          rw [earlier] at removed
          cases removed
      | ok middle =>
          rw [earlier] at removed
          obtain ⟨once, present⟩ := ih earlier
          obtain ⟨named, live, apart⟩ := sound.found_of_present once present
          obtain ⟨whole, safe⟩ := sound.removeAll_eq live apart
          rw [named, earlier] at whole
          cases whole
          -- an id that is removed for the second time is not found any more
          cases found : (store.lacking (ids.filterMap store.find?)).find? last with
          | none =>
              have failed := safe.remove_of_absent found
              cases failed.symm.trans removed
          | some leaver =>
              rw [sound.find?_lacking live, named] at found
              split at found
              · cases found
              · rename_i fresh
                obtain ⟨vertex, there, -⟩ := Option.map_eq_some_iff.mp found
                refine ⟨List.nodup_append'.mpr ⟨once, List.nodup_singleton last,
                  List.disjoint_singleton.mpr fresh⟩, ?_⟩
                intro id member
                rcases List.mem_append.mp member with before | here
                · exact present id before
                · rw [List.mem_singleton.mp here]
                  exact sound.present_iff.mpr ⟨vertex, there⟩

/-- Taking out instances that are there and then any links cuts the store down. -/
theorem Sound.cut_edits (sound : store.Sound) {ids : List InstanceId} (once : ids.Nodup)
    (present : ∀ id ∈ ids, store.Present id) (specs : List LinkSpec) :
    ∃ removed, store.removeAll ids = .ok removed ∧ (removed.unlinkEach specs).Sound ∧
      Cut store (removed.unlinkEach specs) (store.isOneOf ids) (store.isCutOff ids specs) := by
  obtain ⟨named, live, apart⟩ := sound.found_of_present once present
  obtain ⟨removed, safe⟩ := sound.removeAll_eq live apart
  have handles := sound.handles_of_live live
  rw [named] at removed handles
  obtain ⟨last, second⟩ := safe.cut_unlinkEach specs
  refine ⟨_, removed, last, ?_⟩
  have whole := (sound.cut_lacking (ids.filterMap store.find?)).trans second
  have gone : (fun handle => decide (handle ∈ (ids.filterMap store.find?).map Instance.handle) ||
      false) = store.isOneOf ids := by
    funext handle
    rw [← handles, Bool.or_false, Bool.eq_iff_iff, isOneOf_iff, decide_eq_true_eq,
      List.mem_filterMap]
  rw [gone] at whole
  refine whole.congr sound (fun source edge target leaves => ?_)
    fun source edge target stays keeps => ?_
  · rw [isCutOff, leaves, Bool.true_or]
  · have outside := congrFun gone target
    rw [Bool.or_false] at outside
    rw [isCutOff, outside, keeps, Bool.false_or, Bool.false_or]
    have lookup (id : InstanceId) : (store.lacking (ids.filterMap store.find?)).byId.get? id =
        if id ∈ ids then none else store.byId.get? id := by
      rw [byId_lacking, named]
      exact Ledger.get?_filter_keys _ _ _
    exact List.any_congr rfl fun spec => isNamed_of_staying lookup stays keeps spec edge

/-- A forest that was copied from a store after a cut looks the same against the store before. -/
theorem Cut.render_eq {left : Handle → Bool} {gone : Handle → Label → Handle → Bool}
    (cut : Cut before after left gone) (safe : after.Sound) {path : QueryPath}
    {forest : List Projection} (asked : after.query path = .ok forest) :
    Projection.render after forest = Projection.render before forest := by
  have copied (root : Projection) (listed : root ∈ forest) (node : Projection)
      (within : node.Within root) := safe.copied_of_query asked listed within
  have newer : Projection.render after forest = Projection.renderWith id forest := by
    refine Projection.render_eq_renderWith fun root listed node within => ?_
    obtain ⟨original, held, named, -⟩ := copied root listed node within
    rw [Projection.sourceColumn, held]
    exact named
  have older : Projection.render before forest = Projection.renderWith id forest := by
    refine Projection.render_eq_renderWith fun root listed node within => ?_
    obtain ⟨original, held, named, -⟩ := copied root listed node within
    rw [cut.resolve] at held
    split at held
    · cases held
    · obtain ⟨vertex, live, rfl⟩ := Option.map_eq_some_iff.mp held
      rw [Projection.sourceColumn, live]
      exact named
  rw [newer, older]

theorem Cut.present_eq {left : Handle → Bool} {gone : Handle → Label → Handle → Bool}
    (cut : Cut before after left gone) (safe : after.Sound) {path : QueryPath}
    {forest : List Projection} (asked : after.query path = .ok forest) (format : Format) :
    format.present after forest = format.present before forest := by
  cases format with
  | tree => exact cut.render_eq safe asked
  | json => rfl
  | matrix => rfl

/-- The forest after some edits is the forest before, cut down, and is shown alike. -/
theorem Sound.query_edited (sound : store.Sound) {ids : List InstanceId} (once : ids.Nodup)
    (present : ∀ id ∈ ids, store.Present id) (specs : List LinkSpec) (query : QueryPath) :
    ∃ removed, store.removeAll ids = .ok removed ∧
      (removed.unlinkEach specs).query query = (store.query query).map (store.cutDown ids specs) ∧
      ∀ forest, (removed.unlinkEach specs).query query = .ok forest → ∀ format : Format,
        format.present (removed.unlinkEach specs) forest = format.present store forest := by
  obtain ⟨removed, succeeds, safe, cut⟩ := sound.cut_edits once present specs
  exact ⟨removed, succeeds, cut.query_eq sound query, fun _ asked => cut.present_eq safe asked⟩

end Store

end LinkAtlas
