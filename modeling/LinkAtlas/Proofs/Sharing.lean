import LinkAtlas.Shared
import Mathlib.Data.List.Induction
import Mathlib.Logic.Function.Basic

/-!
# Sharing one store

Any number of holders call a shared store, each when it likes and each next call as the answers so
far suggest. However the calls follow each other, they are answered as if there were one store that
nobody shares, until a task fails while it holds the store for writing. From then on every call is
turned down before anything in it is looked at, and the contents stay as that task left them.
-/

namespace LinkAtlas

/-- What a holder may ask of a shared store. A task may fail, and then it gives nothing back. -/
inductive Call : Type 1 where
  | edit (request : Edit)
  | idsOfType (label : Label)
  | contains (id : InstanceId)
  | query (path : QueryPath)
  | withRead {α : Type} (task : Store → Option α)
  | withWrite {α : Type} (task : Store → Option α × Store)

/-- What a call that is not turned down gives back. -/
inductive Response : Type 1 where
  | reply (reply : Reply)
  | ids (ids : List InstanceId)
  | present (isPresent : Bool)
  | forest (roots : List Projection)
  | given {α : Type} (result : α)
  /-- the task failed -/
  | failed

namespace Response

/-- Holders are not told handles. -/
def ofReply : Reply → Response
  | .handle _ => .reply .done
  | plain => .reply plain

def ofTask {α : Type} : Option α → Response
  | some result => .given result
  | none => .failed

end Response

namespace Call

/-- A call through the lock: the answer and the shared store after it. -/
def serve (shared : SharedStore) : Call → Except GraphError Response × SharedStore
  | .edit request =>
      let (answer, after) := shared.perform request
      (answer.map .ofReply, after)
  | .idsOfType label => ((shared.idsOfType label).map .ids, shared)
  | .contains id => ((shared.contains id).map .present, shared)
  | .query path => ((shared.query path).map .forest, shared)
  | .withRead task => ((shared.withRead task).map .ofTask, shared)
  | .withWrite task =>
      let (answer, after) := shared.withWrite task
      (answer.map .ofTask, after)

/-! ## The same calls on a store that nobody shares -/

def answer (store : Store) : Call → Except GraphError Response
  | .edit request => (store.perform request).1.map .ofReply
  | .idsOfType label => .ok (.ids (store.idsOfType label))
  | .contains id => .ok (.present (store.find? id).isSome)
  | .query path => (store.query path).map .forest
  | .withRead task => .ok (.ofTask (task store))
  | .withWrite task => .ok (.ofTask (task store).1)

/-- What a call does to a store, if it may change one at all. -/
def mutation? : Call → Option (Store → Store)
  | .edit request => some fun store => (store.perform request).2
  | .withWrite task => some fun store => (task store).2
  | .idsOfType _ | .contains _ | .query _ | .withRead _ => none

/-- Whether the call is a task that fails while it may write. -/
def breaks (store : Store) : Call → Bool
  | .withWrite task => (task store).1.isNone
  | .edit _ | .idsOfType _ | .contains _ | .query _ | .withRead _ => false

end Call

namespace Store

/-- The store after the mutations among some calls, in the order of the calls. -/
def mutated (start : Store) (calls : List Call) : Store :=
  (calls.filterMap Call.mutation?).foldl (fun store mutation => mutation store) start

/-- No call breaks the store that it meets. -/
def Calm (start : Store) (calls : List Call) : Prop :=
  ∀ earlier call, earlier ++ [call] <+: calls → call.breaks (start.mutated earlier) = false

variable {start : Store} {calls : List Call} {call : Call}

theorem mutated_concat (start : Store) (calls : List Call) (call : Call) :
    start.mutated (calls ++ [call]) =
      match call.mutation? with
      | some mutation => mutation (start.mutated calls)
      | none => start.mutated calls := by
  unfold mutated
  rw [List.filterMap_append, List.foldl_append]
  cases call <;> rfl

theorem calm_nil (start : Store) : start.Calm [] := by
  intro earlier call initial
  exact absurd (List.prefix_nil.mp initial) (List.concat_ne_nil call earlier)

theorem calm_concat :
    start.Calm (calls ++ [call]) ↔
      start.Calm calls ∧ call.breaks (start.mutated calls) = false := by
  constructor
  · intro calm
    refine ⟨fun earlier other initial => ?_, calm calls call List.prefix_rfl⟩
    exact calm earlier other (initial.trans (List.prefix_append calls [call]))
  · rintro ⟨calm, whole⟩ earlier other initial
    rcases List.prefix_concat_iff.mp initial with same | shorter
    · obtain ⟨rfl, alone⟩ := List.append_inj' same rfl
      cases alone
      exact whole
    · exact calm earlier other shorter

end Store

/-! ## One call -/

namespace Call

/-- As long as nothing is broken, a call does what it does to a store that nobody shares. -/
theorem serve_whole (start : Store) (calls : List Call) (call : Call) :
    call.serve ⟨start.mutated calls, false⟩ =
      (call.answer (start.mutated calls),
        ⟨start.mutated (calls ++ [call]), call.breaks (start.mutated calls)⟩) := by
  rw [Store.mutated_concat]
  cases call <;> rfl

/-- A broken store turns every call down and stays what it is. -/
theorem serve_poisoned (store : Store) (call : Call) :
    call.serve ⟨store, true⟩ = (.error .poisoned, ⟨store, true⟩) := by
  cases call <;> rfl

end Call

/-! ## Many holders -/

/-- What a holder is about to do: nothing, or a call and then whatever the answer suggests. -/
inductive Holder : Type 1 where
  | rests
  | asks (call : Call) (next : Except GraphError Response → Holder)

/-- A call that was made, by whom, and what it was answered. -/
structure Turn (ι : Type) : Type 1 where
  holder : ι
  call : Call
  answer : Except GraphError Response

structure Session (ι : Type) : Type 1 where
  shared : SharedStore
  holders : ι → Holder
  /-- the calls in the order in which they got the lock -/
  log : List (Turn ι) := []

namespace Session

variable {ι : Type} {start : Store} {session : Session ι}

/-- A store that is shared from now on. -/
def opening (start : Store) (holders : ι → Holder) : Session ι := ⟨{ store := start }, holders, []⟩

/-- The calls of some turns. -/
def callsOf (turns : List (Turn ι)) : List Call := turns.map Turn.call

/-- The log of a session is explained by one store that began as `start`. -/
structure ServedByOne (start : Store) (session : Session ι) : Prop where
  answered : ∀ earlier turn, earlier ++ [turn] <+: session.log → start.Calm (callsOf earlier) →
    turn.answer = turn.call.answer (start.mutated (callsOf earlier))
  refused : ∀ earlier turn, earlier ++ [turn] <+: session.log → ¬ start.Calm (callsOf earlier) →
    turn.answer = .error .poisoned
  whole : start.Calm (callsOf session.log) →
    session.shared = ⟨start.mutated (callsOf session.log), false⟩
  broken : ¬ start.Calm (callsOf session.log) → session.shared.poisoned = true
  /-- the contents stay as the first task that failed has left them -/
  frozen : ∀ earlier turn, earlier ++ [turn] <+: session.log → start.Calm (callsOf earlier) →
    turn.call.breaks (start.mutated (callsOf earlier)) = true →
    session.shared = ⟨start.mutated (callsOf (earlier ++ [turn])), true⟩
  /-- a task that may only read changes and breaks nothing, whether it fails or not -/
  readers : ∀ (calls : List Call) {α : Type} (task : Store → Option α),
    start.mutated (calls ++ [.withRead task]) = start.mutated calls ∧
      (start.Calm (calls ++ [.withRead task]) ↔ start.Calm calls)

theorem callsOf_concat (turns : List (Turn ι)) (turn : Turn ι) :
    callsOf (turns ++ [turn]) = callsOf turns ++ [turn.call] := List.map_append

theorem servedByOne_opening (start : Store) (holders : ι → Holder) :
    ServedByOne start (opening start holders) := by
  have nobody (earlier : List (Turn ι)) (turn : Turn ι) : ¬ earlier ++ [turn] <+: [] :=
    fun initial => List.concat_ne_nil turn earlier (List.prefix_nil.mp initial)
  refine ⟨?_, ?_, fun _ => rfl, ?_, ?_, fun calls _ task => ?_⟩
  · intro earlier turn initial
    exact absurd initial (nobody earlier turn)
  · intro earlier turn initial
    exact absurd initial (nobody earlier turn)
  · intro broken
    exact absurd (Store.calm_nil start) broken
  · intro earlier turn initial
    exact absurd initial (nobody earlier turn)
  · exact ⟨Store.mutated_concat start calls _, Store.calm_concat.trans (and_iff_left rfl)⟩

/-- What is true of every turn of a log, with the turns before it, stays true when one more turn is
taken of which it is true. -/
theorem forall_turns_concat {holds : List (Turn ι) → Turn ι → Prop} {turns : List (Turn ι)}
    {last : Turn ι}
    (before : ∀ earlier turn, earlier ++ [turn] <+: turns → holds earlier turn)
    (now : holds turns last) :
    ∀ earlier turn, earlier ++ [turn] <+: turns ++ [last] → holds earlier turn := by
  intro earlier turn initial
  rcases List.prefix_concat_iff.mp initial with same | shorter
  · obtain ⟨rfl, alone⟩ := List.append_inj' same rfl
    cases alone
    exact now
  · exact before earlier turn shorter

variable [DecidableEq ι]

/-- The session after a holder got the lock and made its call. -/
def grant (session : Session ι) (holder : ι) (call : Call)
    (next : Except GraphError Response → Holder) : Session ι :=
  let (answer, shared) := call.serve session.shared
  { shared := shared
    holders := Function.update session.holders holder (next answer)
    log := session.log ++ [⟨holder, call, answer⟩] }

/-- Lets a holder take its turn, if there is anything that it asks. -/
def turn (session : Session ι) (holder : ι) : Session ι :=
  match session.holders holder with
  | .rests => session
  | .asks call next => session.grant holder call next

/-- The session after the holders have got the lock in some order. -/
def interleave (session : Session ι) (schedule : List ι) : Session ι := schedule.foldl turn session

namespace ServedByOne

variable {holder : ι} {call : Call} {next : Except GraphError Response → Holder}

/-- A turn on a store that nothing has broken so far. -/
theorem grant_whole (served : ServedByOne start session)
    (calm : start.Calm (callsOf session.log)) :
    ServedByOne start (session.grant holder call next) := by
  have served_whole := Call.serve_whole start (callsOf session.log) call
  rw [← served.whole calm] at served_whole
  rw [grant, served_whole]
  refine ⟨forall_turns_concat served.answered fun _ => rfl,
    forall_turns_concat served.refused fun broken => absurd calm broken, ?_, ?_,
    forall_turns_concat ?_ ?_, served.readers⟩
  · intro still
    rw [callsOf_concat, Store.calm_concat] at still
    rw [callsOf_concat]
    exact congrArg (SharedStore.mk _) still.2
  · intro broken
    rw [callsOf_concat, Store.calm_concat, not_and] at broken
    exact eq_true_of_ne_false (broken calm)
  · intro earlier turn initial _ breaks
    have initial_calls := initial.map Turn.call
    rw [List.map_append] at initial_calls
    exact absurd (calm _ _ initial_calls) (ne_false_of_eq_true breaks)
  · intro _ breaks
    rw [callsOf_concat]
    exact congrArg (SharedStore.mk _) breaks

/-- A turn on a store that some task has broken. -/
theorem grant_broken (served : ServedByOne start session)
    (broken : ¬ start.Calm (callsOf session.log)) :
    ServedByOne start (session.grant holder call next) := by
  have refuses : call.serve session.shared = (.error .poisoned, session.shared) := by
    have poisoned := served.broken broken
    generalize session.shared = shared at poisoned
    cases shared
    cases poisoned
    exact Call.serve_poisoned _ call
  rw [grant, refuses]
  refine ⟨forall_turns_concat served.answered fun calm => absurd calm broken,
    forall_turns_concat served.refused fun _ => rfl, ?_, fun _ => served.broken broken,
    forall_turns_concat served.frozen fun calm => absurd calm broken, served.readers⟩
  intro calm
  rw [callsOf_concat, Store.calm_concat] at calm
  exact absurd calm.1 broken

theorem turn (served : ServedByOne start session) (holder : ι) :
    ServedByOne start (session.turn holder) := by
  unfold Session.turn
  split
  · exact served
  · by_cases calm : start.Calm (callsOf session.log)
    · exact served.grant_whole calm
    · exact served.grant_broken calm

theorem interleave (served : ServedByOne start session) (schedule : List ι) :
    ServedByOne start (session.interleave schedule) := by
  unfold Session.interleave
  induction schedule generalizing session with
  | nil => exact served
  | cons holder rest ih => exact ih (served.turn holder)

end ServedByOne

/-- Whatever any number of holders ask and in whatever order they get the lock, one store explains
the answers. -/
theorem servedByOne_of_schedule (start : Store) (holders : ι → Holder) (schedule : List ι) :
    ServedByOne start ((opening start holders).interleave schedule) :=
  (servedByOne_opening start holders).interleave schedule

/-- Brings in an instance and then fails while it takes it out again. -/
def scribe : Holder :=
  .asks (.edit (.add "ada" ["person"] none)) fun _ =>
    .asks (.withWrite fun store => ((none : Option Unit), (store.perform (.remove "ada")).2))
      fun _ => .rests

/-- Fails at reading and then asks what it will. -/
def visitor : Holder :=
  .asks (.withRead fun _ => (none : Option Unit)) fun _ =>
    .asks (.contains "ada") fun _ => .asks (.query ⟨[]⟩) fun _ => .rests

example :
    ((opening .empty fun isScribe : Bool => if isScribe then scribe else visitor).interleave
      [true, false, false, true, false]).log.map Turn.answer =
    [.ok (.reply .done), .ok .failed, .ok (.present true), .ok .failed, .error .poisoned] := by
  rfl

end Session

end LinkAtlas
