import LinkAtlas.Proofs.EditedQueries
import LinkAtlas.Proofs.FileWrites
import LinkAtlas.Proofs.SettingsText

/-!
# Runs of commands on the settings

Every command on the settings reads the whole file and may write it anew. Over a run of commands
the file keeps, for each key, what the last command with an effect on the key left of it. A command
that fails leaves no trace.
-/

namespace LinkAtlas

/-! ## Settings by their keys -/

theorem Format.ofName?_eq_none_iff {name : String} :
    Format.ofName? name = none ↔ name ∉ ["tree", "json", "matrix"] := by
  unfold Format.ofName?
  split_ifs <;> simp_all

namespace Settings

/-- A value as it is kept: the name of a format in small letters. -/
def spelled (key value : String) : String := if key = "format" then Text.lower value else value

/-- No setting has the key, or the value is the name of no format even in small letters. -/
def Refuses (key value : String) : Prop :=
  key ∉ keys ∨ key = "format" ∧ Text.lower value ∉ ["tree", "json", "matrix"]

/-- A value that is set is found under its key, and the other key keeps its own. -/
theorem get?_set {settings changed : Settings} {key value : String}
    (sets : settings.set key value = .ok changed) (other : String) :
    changed.get? other = if other = key then some (spelled key value) else settings.get? other := by
  unfold set at sets
  split at sets
  · rename_i isData
    subst isData
    cases sets
    by_cases data : other = "data_file"
    · simp [get?, data, spelled]
    · simp [get?, data]
  split at sets
  · rename_i isFormat
    subst isFormat
    unfold Format.ofAnyCase at sets
    cases found : Format.ofName? (Text.lower value) with
    | none => simp [found] at sets
    | some format =>
        simp only [found, Except.ok.injEq] at sets
        subst sets
        by_cases shape : other = "format"
        · simp [get?, shape, spelled, Format.ofName?_eq_some_iff.mp found]
        · simp [get?, shape]
  · cases sets

theorem refuses_iff (settings : Settings) {key value : String} :
    (∃ reason, settings.set key value = .error reason) ↔ Refuses key value := by
  by_cases isData : key = "data_file"
  · simp [set, Refuses, isData, keys]
  by_cases isFormat : key = "format"
  · subst isFormat
    have known : "format" ∈ keys := by decide
    rw [Refuses, ← Format.ofName?_eq_none_iff]
    cases found : Format.ofName? (Text.lower value) with
    | none => simp [set, Format.ofAnyCase, found]
    | some format => simp [set, Format.ofAnyCase, found, known]
  · simp [set, Refuses, isData, isFormat, keys]

end Settings

/-! ## What a run leaves -/

/-- A command on the settings and the way it ended. -/
abbrev SettingsEvent := SettingsCommand × Outcome

namespace SettingsEvent

/-- The command has written the file. -/
def wrote : SettingsEvent → Bool
  | (.set _ _, .done _) => true
  | (.init _, .done _) => true
  | _ => false

/-- What the command has made of the value of a key: it gave it a value, or it took it away. -/
def effect? (key : String) : SettingsEvent → Option (Option String)
  | (.set other value, .done _) => if other = key then some (some value) else none
  | (.init _, .done _) => some none
  | _ => none

/-- The value that a run leaves under a key: the last effect on the key decides. -/
def latest? (key : String) (log : List SettingsEvent) : Option String :=
  (log.reverse.findSome? (effect? key)).join

theorem latest?_concat (key : String) (log : List SettingsEvent) (event : SettingsEvent) :
    latest? key (log ++ [event]) = (effect? key event).getD (latest? key log) := by
  rw [latest?, List.reverse_concat, List.findSome?_cons]
  cases effect? key event <;> rfl

theorem effect?_of_quiet {event : SettingsEvent} (quiet : wrote event = false) (key : String) :
    effect? key event = none := by
  unfold wrote at quiet
  unfold effect?
  split at quiet <;> simp_all

/-- What an event does to the settings that are kept. -/
inductive Step : Option Settings → SettingsEvent → Option Settings → Prop where
  | set {held : Option Settings} {key value output : String} {changed : Settings}
      (sets : (held.getD {}).set key value = .ok changed) :
      Step held (.set key value, .done output) (some changed)
  | init {held : Option Settings} {force : Bool} {output : String} :
      Step held (.init force, .done output) (some {})
  | still {held : Option Settings} {event : SettingsEvent} (quiet : wrote event = false) :
      Step held event held

/-- The settings that are kept are those that a log tells. -/
structure Recalls (held : Option Settings) (log : List SettingsEvent) : Prop where
  present : held.isSome = log.any wrote
  values : ∀ key ∈ Settings.keys,
    (held.getD {}).get? key = (latest? key log).map (Settings.spelled key)

theorem recalls_nil : Recalls none [] := by
  refine ⟨rfl, fun key _ => ?_⟩
  simp [Settings.get?, latest?]

/-- One more event is recalled. -/
theorem Recalls.step {held next : Option Settings} {log : List SettingsEvent}
    {event : SettingsEvent} (recalls : Recalls held log) (step : Step held event next) :
    Recalls next (log ++ [event]) := by
  cases step with
  | @set key value output changed sets =>
      refine ⟨by simp [wrote], fun other known => ?_⟩
      rw [latest?_concat, Option.getD_some, Settings.get?_set sets]
      by_cases same : other = key
      · simp [effect?, same]
      · rw [if_neg same, recalls.values other known]
        simp [effect?, Ne.symm same]
  | init =>
      refine ⟨by simp [wrote], fun other known => ?_⟩
      rw [latest?_concat]
      simp [effect?, Settings.get?]
  | still quiet =>
      refine ⟨by simp [quiet, recalls.present], fun other known => ?_⟩
      rw [latest?_concat, effect?_of_quiet quiet, recalls.values other known]
      rfl

end SettingsEvent

namespace Outcome

/-- The run ends with another code than zero. -/
def Fails (outcome : Outcome) : Prop := outcome.code ≠ 0

theorem not_fails_done (output : String) : ¬ (done output).Fails := fun fails => fails rfl

theorem fails_failed (reason : CommandError) : (failed reason).Fails := Nat.one_ne_zero

end Outcome

namespace FileTree

/-! ## The settings of a file -/

/-- What is kept under a name: nothing as yet, or the document of some settings. -/
def Stores (tree : FileTree) (name : String) : Option Settings → Prop
  | none => tree.Usable name
  | some held => tree.Holds name held.write

variable {tree : FileTree} {name : String} {held : Option Settings}

theorem Stores.settings_eq (stores : tree.Stores name held) :
    tree.settings name = held.getD {} := by
  cases held with
  | none =>
      have absent : ∃ reason, tree.find name = .error reason := by
        have vacant := Usable.vacant stores
        unfold isPresent at vacant
        split at vacant
        · cases vacant
        · exact ⟨_, ‹_›⟩
      obtain ⟨reason, missing⟩ := absent
      simp [settings, read, missing, bind, Except.bind]
  | some present =>
      have found := Holds.find stores
      simp [settings, read, found, bind, Except.bind, Settings.read?_write]

theorem Stores.isPresent_eq (stores : tree.Stores name held) :
    tree.isPresent name = held.isSome := by
  cases held with
  | none => exact Usable.vacant stores
  | some present =>
      have found := Holds.find stores
      simp [isPresent, found]

theorem Stores.writeSettings_eq (stores : tree.Stores name held) (changed : Settings)
    (output : String) : ∃ after,
      Command.writeSettings disk name changed output tree = (.ok output, after) ∧
        after.Stores name (some changed) := by
  obtain ⟨after, saved, holds⟩ : ∃ after,
      disk.save name changed.write tree = (.ok (), after) ∧ after.Holds name changed.write := by
    cases held with
    | none => exact Usable.save stores changed.write
    | some present => exact Holds.save stores changed.write
  refine ⟨after, ?_, holds⟩
  unfold Command.writeSettings
  simp only [bind, StateT.bind, saved]
  rfl

/-- Carries out a command on the settings. -/
def ask (name : String) (command : SettingsCommand) : StateM FileTree Outcome :=
  Request.fulfil disk name (some (.run none none (.settings command)))

theorem ask_eq (name : String) (command : SettingsCommand) (tree : FileTree) :
    ask name command tree =
      (Outcome.ofResult (Command.settingsOutput disk name command tree).1,
        (Command.settingsOutput disk name command tree).2) := rfl

theorem ask_get (stores : tree.Stores name held) {key : String} (known : key ∈ Settings.keys) :
    ask name (.get key) tree =
      (.done (Command.shownSetting (held.getD {}) key ++ "\n"), tree) := by
  have listed : Settings.keys.contains key = true := List.contains_iff_mem.mpr known
  rw [ask_eq]
  unfold Command.settingsOutput
  simp only [listed, if_true, bind, StateT.bind, readSettings_eq, stores.settings_eq]
  rfl

theorem ask_get_unknown {key : String} (unknown : key ∉ Settings.keys) :
    ask name (.get key) tree = (.failed (.settings (.unknownKey key)), tree) := by
  have unlisted : Settings.keys.contains key = false := by simpa using unknown
  rw [ask_eq]
  unfold Command.settingsOutput
  simp only [unlisted, Bool.false_eq_true, if_false]
  rfl

theorem ask_list (stores : tree.Stores name held) :
    ask name .list tree =
      (.done (Report.ofLines ["Config file: " ++ name, "",
        "data_file = " ++ Command.shownSetting (held.getD {}) "data_file",
        "format = " ++ Command.shownSetting (held.getD {}) "format"]), tree) := by
  rw [ask_eq]
  unfold Command.settingsOutput
  simp only [bind, StateT.bind, readSettings_eq, stores.settings_eq]
  rfl

theorem ask_set_of_refuses (stores : tree.Stores name held) {key value : String}
    (refuses : Settings.Refuses key value) :
    ∃ reason, ask name (.set key value) tree = (.failed reason, tree) := by
  obtain ⟨reason, turnedDown⟩ := (Settings.refuses_iff (held.getD {})).mpr refuses
  refine ⟨.settings reason, ?_⟩
  rw [ask_eq]
  unfold Command.settingsOutput
  simp only [bind, StateT.bind, readSettings_eq, stores.settings_eq, turnedDown]
  rfl

theorem ask_set (stores : tree.Stores name held) {key value : String} {changed : Settings}
    (sets : (held.getD {}).set key value = .ok changed) :
    ∃ after, ask name (.set key value) tree =
        (.done ("Set " ++ key ++ " = " ++ value ++ "\n"), after) ∧
      after.Stores name (some changed) := by
  obtain ⟨after, written, kept⟩ :=
    stores.writeSettings_eq changed ("Set " ++ key ++ " = " ++ value ++ "\n")
  refine ⟨after, ?_, kept⟩
  rw [ask_eq]
  unfold Command.settingsOutput
  simp only [bind, StateT.bind, readSettings_eq, stores.settings_eq, sets, written]
  rfl

theorem ask_init_of_present (stores : tree.Stores name held) (present : held.isSome = true) :
    ∃ reason, ask name (.init false) tree = (.failed reason, tree) := by
  have seen : disk.isPresent name tree = (true, tree) := by
    rw [← present, ← stores.isPresent_eq]
    rfl
  refine ⟨.settingsPresent name, ?_⟩
  rw [ask_eq]
  unfold Command.settingsOutput
  simp only [bind, StateT.bind, seen]
  rfl

theorem ask_init (stores : tree.Stores name held) {force : Bool}
    (free : force = true ∨ held.isSome = false) :
    ∃ after, ask name (.init force) tree =
        (.done ("Created config file at " ++ name ++ "\n"), after) ∧
      after.Stores name (some {}) := by
  have seen : disk.isPresent name tree = (held.isSome, tree) := by
    rw [← stores.isPresent_eq]
    rfl
  obtain ⟨after, written, kept⟩ :=
    stores.writeSettings_eq {} ("Created config file at " ++ name ++ "\n")
  refine ⟨after, ?_, kept⟩
  have goesOn : (held.isSome && !force) = false := by
    rcases free with rfl | absent
    · exact Bool.and_false _
    · rw [absent, Bool.false_and]
  rw [ask_eq]
  unfold Command.settingsOutput
  simp only [bind, StateT.bind, seen, goesOn, Bool.false_eq_true, if_false, written]
  rfl

/-- A command goes on from what is kept, and one that fails changes nothing at all. -/
theorem Stores.ask (stores : tree.Stores name held) (command : SettingsCommand) :
    ∃ outcome after next, ask name command tree = (outcome, after) ∧ after.Stores name next ∧
      SettingsEvent.Step held (command, outcome) next ∧ (outcome.Fails → after = tree) := by
  cases command with
  | get key =>
      by_cases known : key ∈ Settings.keys
      · exact ⟨_, tree, held, ask_get stores known, stores, .still rfl, fun _ => rfl⟩
      · exact ⟨_, tree, held, ask_get_unknown known, stores, .still rfl, fun _ => rfl⟩
  | set key value =>
      cases sets : (held.getD {}).set key value with
      | error reason =>
          have refuses := (Settings.refuses_iff _).mp ⟨reason, sets⟩
          obtain ⟨complaint, asked⟩ := ask_set_of_refuses stores refuses
          exact ⟨_, tree, held, asked, stores, .still rfl, fun _ => rfl⟩
      | ok changed =>
          obtain ⟨after, asked, kept⟩ := ask_set stores sets
          exact ⟨_, after, _, asked, kept, .set sets,
            fun fails => absurd fails (Outcome.not_fails_done _)⟩
  | list => exact ⟨_, tree, held, ask_list stores, stores, .still rfl, fun _ => rfl⟩
  | path => exact ⟨_, tree, held, rfl, stores, .still rfl, fun _ => rfl⟩
  | init force =>
      by_cases free : force = true ∨ held.isSome = false
      · obtain ⟨after, asked, kept⟩ := ask_init stores free
        exact ⟨_, after, _, asked, kept, .init,
          fun fails => absurd fails (Outcome.not_fails_done _)⟩
      · simp only [not_or, Bool.not_eq_true, Bool.not_eq_false] at free
        obtain ⟨rfl, present⟩ := free
        obtain ⟨reason, asked⟩ := ask_init_of_present stores present
        exact ⟨_, tree, held, asked, stores, .still rfl, fun _ => rfl⟩

/-! ## Runs -/

/-- Carries out commands one after the other and keeps a log. -/
def converse (name : String) : List SettingsCommand → StateM FileTree (List SettingsEvent)
  | [] => return []
  | command :: rest => do
      let outcome ← ask name command
      return (command, outcome) :: (← converse name rest)

theorem converse_cons (command : SettingsCommand) (rest : List SettingsCommand) {outcome : Outcome}
    {after : FileTree} (asked : ask name command tree = (outcome, after)) :
    converse name (command :: rest) tree =
      ((command, outcome) :: (converse name rest after).1, (converse name rest after).2) := by
  rw [converse]
  simp only [bind, StateT.bind, asked]
  rfl

/-- After a run the settings are kept that its log tells. -/
theorem Stores.converse (stores : tree.Stores name held) {log : List SettingsEvent}
    (recalls : SettingsEvent.Recalls held log) (commands : List SettingsCommand) :
    ∃ next, (converse name commands tree).2.Stores name next ∧
      SettingsEvent.Recalls next (log ++ (converse name commands tree).1) := by
  induction commands generalizing tree held log with
  | nil => exact ⟨held, stores, (List.append_nil log).symm ▸ recalls⟩
  | cons command rest ih =>
      obtain ⟨outcome, after, next, asked, kept, step, -⟩ := stores.ask command
      obtain ⟨last, ends, told⟩ := ih kept (recalls.step step)
      rw [converse_cons command rest asked]
      rw [List.append_assoc] at told
      exact ⟨last, ends, told⟩

/-- The value of a key as a run leaves it to be seen: the last that was set, for the format in small
letters, unless the file has been made anew since. -/
def shown (key : String) (log : List SettingsEvent) : String :=
  ((SettingsEvent.latest? key log).map (Settings.spelled key)).getD "(not set)"

/-- What the commands on the settings do behind a run. -/
structure Remembers (name : String) (log : List SettingsEvent) (tree : FileTree) : Prop where
  get : ∀ key ∈ Settings.keys, ask name (.get key) tree = (.done (shown key log ++ "\n"), tree)
  list : ask name .list tree =
    (.done (Report.ofLines ["Config file: " ++ name, "", "data_file = " ++ shown "data_file" log,
      "format = " ++ shown "format" log]), tree)
  /-- A key that is set leaves the other as it is. -/
  apart : ∀ key value, ∀ other ∈ Settings.keys, other ≠ key →
    (ask name (.get other) (ask name (.set key value) tree).2).1 = (ask name (.get other) tree).1
  set_fails : ∀ key value, (ask name (.set key value) tree).1.Fails ↔
    key ∉ Settings.keys ∨ key = "format" ∧ Text.lower value ∉ ["tree", "json", "matrix"]
  /-- The file is there as soon as a command has written it, and only then. -/
  init_fails : ∀ force, (ask name (.init force) tree).1.Fails ↔
    force = false ∧ ∃ event ∈ log, event.wrote = true
  /-- A failure leaves no trace. -/
  failure : ∀ command, (ask name command tree).1.Fails → (ask name command tree).2 = tree

theorem shownSetting_eq {log : List SettingsEvent} (recalls : SettingsEvent.Recalls held log)
    {key : String} (known : key ∈ Settings.keys) :
    Command.shownSetting (held.getD {}) key = shown key log := by
  rw [Command.shownSetting, recalls.values key known]
  rfl

theorem Stores.remembers (stores : tree.Stores name held) {log : List SettingsEvent}
    (recalls : SettingsEvent.Recalls held log) : Remembers name log tree where
  get key known := by rw [ask_get stores known, shownSetting_eq recalls known]
  list := by
    rw [ask_list stores, shownSetting_eq recalls (by decide), shownSetting_eq recalls (by decide)]
  apart key value other known differs := by
    cases sets : (held.getD {}).set key value with
    | error reason =>
        obtain ⟨_, asked⟩ := ask_set_of_refuses stores ((Settings.refuses_iff _).mp ⟨reason, sets⟩)
        rw [asked]
    | ok changed =>
        obtain ⟨after, asked, kept⟩ := ask_set stores sets
        have same : changed.get? other = (held.getD {}).get? other := by
          rw [Settings.get?_set sets, if_neg differs]
        rw [asked, ask_get kept known, ask_get stores known, Command.shownSetting, Option.getD_some,
          same]
        rfl
  set_fails key value := by
    cases sets : (held.getD {}).set key value with
    | error reason =>
        have refuses := (Settings.refuses_iff _).mp ⟨reason, sets⟩
        obtain ⟨complaint, asked⟩ := ask_set_of_refuses stores refuses
        rw [asked]
        exact iff_of_true (Outcome.fails_failed complaint) refuses
    | ok changed =>
        obtain ⟨after, asked, -⟩ := ask_set stores sets
        rw [asked]
        refine iff_of_false (Outcome.not_fails_done _) fun refuses => ?_
        obtain ⟨reason, turnedDown⟩ := (Settings.refuses_iff _).mpr refuses
        cases sets.symm.trans turnedDown
  init_fails force := by
    rw [← List.any_eq_true, ← recalls.present]
    by_cases free : force = true ∨ held.isSome = false
    · obtain ⟨after, asked, -⟩ := ask_init stores free
      rw [asked]
      refine iff_of_false (Outcome.not_fails_done _) ?_
      rintro ⟨rfl, present⟩
      simp [present] at free
    · simp only [not_or, Bool.not_eq_true, Bool.not_eq_false] at free
      obtain ⟨rfl, present⟩ := free
      obtain ⟨reason, asked⟩ := ask_init_of_present stores present
      rw [asked]
      exact iff_of_true (Outcome.fails_failed reason) ⟨rfl, present⟩
  failure command fails := by
    obtain ⟨outcome, after, next, asked, -, -, silent⟩ := stores.ask command
    rw [asked] at fails ⊢
    exact silent fails

/-- The file keeps the last value that was set for each key, whatever commands were given. -/
theorem settings_remembered (usable : tree.Usable name) (commands : List SettingsCommand) :
    Remembers name (converse name commands tree).1 (converse name commands tree).2 := by
  have fresh : tree.Stores name none := usable
  obtain ⟨held, stores, recalls⟩ := fresh.converse SettingsEvent.recalls_nil commands
  exact stores.remembers recalls

end FileTree

/-- Two settings are made, one of them with quotes in it. Then a format is asked for that there is
not, and the file is not made anew, as it is there. -/
def nodemapCommands : List SettingsCommand :=
  [.set "data_file" "the \"big\" one.json", .set "format" "Matrix", .set "format" "yaml",
    .init false]

/-- At first nothing is on the disk, not even the directory of the settings. -/
theorem settings_remembered_nodemap :
    FileTree.Usable {} "nodemap/config.toml" ∧
      FileTree.Remembers "nodemap/config.toml"
        (FileTree.converse "nodemap/config.toml" nodemapCommands {}).1
        (FileTree.converse "nodemap/config.toml" nodemapCommands {}).2 ∧
      (FileTree.converse "nodemap/config.toml" nodemapCommands {}).1.map SettingsEvent.wrote =
        [true, true, false, false] ∧
      FileTree.shown "data_file" (FileTree.converse "nodemap/config.toml" nodemapCommands {}).1 =
        "the \"big\" one.json" ∧
      FileTree.shown "format" (FileTree.converse "nodemap/config.toml" nodemapCommands {}).1 =
        "matrix" := by
  have usable : FileTree.Usable {} "nodemap/config.toml" := ⟨rfl, "", _, rfl, rfl⟩
  refine ⟨usable, FileTree.settings_remembered usable nodemapCommands, ?_, ?_, ?_⟩
  · decide +kernel
  · decide +kernel
  · decide +kernel

end LinkAtlas
