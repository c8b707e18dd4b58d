import NativeHeaders.CommandLine.Run
import NativeHeaders.Proofs.Generator.Loading
import NativeHeaders.Proofs.Generator.Searches
import NativeHeaders.Proofs.Settings.Tables

/-! # How a run of the command ends

Before headers are generated four stages may fail, one after the other: loading the settings,
finding the target, reading the class names, and opening the search path. The first failure ends the
run (`plan_eq_error_iff`), and nothing has been written then. The exit status tells an ambiguous
target from all other failures, although faults of settings also come from the file they are loaded
from; what that file says is read off its table, key by key. A generation that comes to a file of a
size that no buffer can have ends with a status of its own (`exitStatus_run`), and there are archives
with which this happens (`exists_exitStatus_notMem`). -/

namespace NativeHeaders

/-! ### Settings -/

namespace Settings

/-- The only fault of a target is that there are two of them. -/
theorem target_eq_error_iff {settings : Settings} {cause : SettingsError} :
    settings.target = .error cause ↔
      cause = .ambiguousTarget ∧ settings.outputFile ≠ none ∧ settings.outputDirectory ≠ none := by
  unfold target OutputTarget.ofOptions?
  cases settings.outputFile <;> cases settings.outputDirectory <;> simp [eq_comm]

/-- Settings are loaded from a file that can be read and holds settings. -/
theorem load_eq_ok {files : FileSystem} {path : Path} {settings : Settings} :
    load files path = .ok settings ↔
      ∃ text, files.readText path = .ok text ∧ parse? text = some settings := by
  simp only [load, Fallible.bind_eq_ok, Fallible.mapError_eq_ok]
  refine exists_congr fun text => and_congr_right fun _ => ?_
  cases parse? text with
  | none => exact ⟨nofun, nofun⟩
  | some loaded => simp [pure, Except.pure]

/-- Loading settings finds no fault with their target. -/
theorem load_ne_ambiguousTarget (files : FileSystem) (path : Path) :
    load files path ≠ .error .ambiguousTarget := by
  intro h
  obtain hread | ⟨text, -, hparse⟩ := Fallible.bind_eq_error.mp h
  · obtain ⟨cause, -, hcause⟩ := Fallible.mapError_eq_error.mp hread
    cases hcause
  · split at hparse
    · cases hparse
    · cases hparse

end Settings

namespace CommandLine

variable {arguments : Arguments} {files : FileSystem} {environment : Environment}

namespace Arguments

/-- The settings in the chosen file, or those that hold without one. -/
def chosenSettings (arguments : Arguments) (files : FileSystem) : Except SettingsError Settings :=
  match arguments.settings with
  | none => .ok {}
  | some path => Settings.load files ⟨path⟩

/-- **What configures a run**: the table in the chosen file, if every pair of it is a setting, or an
empty table if no file is chosen. -/
def Configures (arguments : Arguments) (files : FileSystem) (table : List (String × Toml.Value)) :
    Prop :=
  arguments.settings = none ∧ table = [] ∨
    ∃ path text, arguments.settings = some path ∧ files.readText ⟨path⟩ = .ok text ∧
      Toml.parse? text = some table ∧ ∀ pair ∈ table, Settings.IsSetting pair

/-- Every pair of the table is a setting. -/
theorem Configures.isSetting {table : List (String × Toml.Value)}
    (h : arguments.Configures files table) : ∀ pair ∈ table, Settings.IsSetting pair := by
  obtain ⟨-, rfl⟩ | ⟨_, _, _, _, _, hlegal⟩ := h
  · simp
  · exact hlegal

/-- The chosen settings are what the table that configures the run describes. -/
theorem chosenSettings_eq_ok {chosen : Settings} :
    arguments.chosenSettings files = .ok chosen ↔
      ∃ table, arguments.Configures files table ∧ Settings.Describes table {} chosen := by
  unfold chosenSettings Configures
  cases arguments.settings with
  | none =>
    have hempty : Settings.Describes [] {} {} := ⟨rfl, rfl, rfl, rfl, rfl, rfl⟩
    constructor
    · rintro ⟨⟩
      exact ⟨[], .inl ⟨rfl, rfl⟩, hempty⟩
    · rintro ⟨table, ⟨-, rfl⟩ | ⟨_, _, hpath, _⟩, hdescribes⟩
      · exact congrArg Except.ok (hempty.unique hdescribes)
      · cases hpath
  | some path =>
    simp only [Settings.load_eq_ok, Settings.parse?_eq_some]
    constructor
    · rintro ⟨text, hread, table, htable, hlegal, hdescribes⟩
      exact ⟨table, .inr ⟨path, text, rfl, hread, htable, hlegal⟩, hdescribes⟩
    · rintro ⟨table, ⟨hpath, -⟩ | ⟨_, text, hpath, hread, htable, hlegal⟩, hdescribes⟩
      · cases hpath
      · cases hpath
        exact ⟨text, hread, table, htable, hlegal, hdescribes⟩

/-- The settings are loaded exactly if there is a table that configures the run. -/
theorem exists_chosenSettings_eq_error_iff :
    (∃ cause, arguments.chosenSettings files = .error cause) ↔
      ¬∃ table, arguments.Configures files table := by
  constructor
  · rintro ⟨cause, hcause⟩ ⟨table, htable⟩
    obtain ⟨chosen, hdescribes⟩ := Settings.exists_describes table {}
    cases hcause.symm.trans (chosenSettings_eq_ok.mpr ⟨table, htable, hdescribes⟩)
  · intro hnone
    cases hchosen : arguments.chosenSettings files with
    | error cause => exact ⟨cause, rfl⟩
    | ok chosen =>
      obtain ⟨table, htable, -⟩ := chosenSettings_eq_ok.mp hchosen
      exact absurd ⟨table, htable⟩ hnone

/-- Headers are to go into a file and into a directory: both are chosen by arguments, or neither is
and both are set. -/
def IsAmbiguous (arguments : Arguments) (chosen : Settings) : Prop :=
  arguments.output ≠ none ∧ arguments.directory ≠ none ∨
    (arguments.output = none ∧ arguments.directory = none) ∧
      chosen.outputFile ≠ none ∧ chosen.outputDirectory ≠ none

/-- The settings of a run are those in the chosen file, changed by the arguments. -/
theorem settingsIn_eq_ok {settings : Settings} :
    arguments.settingsIn files = .ok settings ↔
      ∃ chosen, arguments.chosenSettings files = .ok chosen ∧
        arguments.override chosen = settings := by
  unfold settingsIn chosenSettings
  cases arguments.settings with
  | none => simp [pure, Except.pure]
  | some path =>
    simp only [Fallible.bind_eq_ok, Fallible.mapError_eq_ok, Fallible.pure_eq_ok]

/-- There are no settings exactly if the chosen file does not give any. -/
theorem settingsIn_eq_error {error : RunError} :
    arguments.settingsIn files = .error error ↔
      ∃ path cause, arguments.settings = some path ∧
        arguments.chosenSettings files = .error cause ∧ .settings path cause = error := by
  unfold settingsIn chosenSettings
  cases arguments.settings with
  | none => simp [pure, Except.pure]
  | some path =>
    simp only [Fallible.bind_eq_error, Fallible.mapError_eq_error, Option.some.injEq]
    constructor
    · rintro (⟨cause, hload, rfl⟩ | ⟨_, _, hpure⟩)
      · exact ⟨path, cause, rfl, hload, rfl⟩
      · cases hpure
    · rintro ⟨_, cause, rfl, hload, rfl⟩
      exact .inl ⟨cause, hload, rfl⟩

/-- **Two targets**: the run is configured, and a file and a directory are both chosen by arguments,
or neither is and the table has the keys `output-file` and `output-dir`. -/
def HasTwoTargets (arguments : Arguments) (files : FileSystem) : Prop :=
  ∃ table, arguments.Configures files table ∧
    (arguments.output ≠ none ∧ arguments.directory ≠ none ∨
      (arguments.output = none ∧ arguments.directory = none) ∧
        "output-file" ∈ table.map Prod.fst ∧ "output-dir" ∈ table.map Prod.fst)

/-- Two targets make the settings ambiguous, and nothing else does. -/
theorem hasTwoTargets_iff :
    arguments.HasTwoTargets files ↔
      ∃ chosen, arguments.chosenSettings files = .ok chosen ∧ arguments.IsAmbiguous chosen := by
  have hkeys : ∀ {table chosen}, arguments.Configures files table →
      Settings.Describes table {} chosen →
      (chosen.outputFile ≠ none ↔ "output-file" ∈ table.map Prod.fst) ∧
        (chosen.outputDirectory ≠ none ↔ "output-dir" ∈ table.map Prod.fst) := by
    intro table chosen htable hdescribes
    exact ⟨hdescribes.outputFile_ne_none_iff htable.isSetting,
      hdescribes.outputDirectory_ne_none_iff htable.isSetting⟩
  constructor
  · rintro ⟨table, htable, htargets⟩
    obtain ⟨chosen, hdescribes⟩ := Settings.exists_describes table {}
    refine ⟨chosen, chosenSettings_eq_ok.mpr ⟨table, htable, hdescribes⟩, ?_⟩
    rwa [IsAmbiguous, (hkeys htable hdescribes).1, (hkeys htable hdescribes).2]
  · rintro ⟨chosen, hchosen, htargets⟩
    obtain ⟨table, htable, hdescribes⟩ := chosenSettings_eq_ok.mp hchosen
    rw [IsAmbiguous, (hkeys htable hdescribes).1, (hkeys htable hdescribes).2] at htargets
    exact ⟨table, htable, htargets⟩

/-- One choice on the command line takes the place of both settings. -/
theorem target_override_eq_error_iff {chosen : Settings} {cause : SettingsError} :
    (arguments.override chosen).target = .error cause ↔
      cause = .ambiguousTarget ∧ arguments.IsAmbiguous chosen := by
  rw [Settings.target_eq_error_iff, IsAmbiguous, override]
  cases arguments.output <;> cases arguments.directory <;> simp

end Arguments

/-! ### Stages -/

/-- The stage at which a run ends before headers are generated, with its error. The stages before it
did not fail. -/
inductive Arguments.FailsWith (arguments : Arguments) (files : FileSystem)
    (environment : Environment) : RunError → Prop where
  /-- The chosen file does not give settings. -/
  | settings {path : String} {cause : SettingsError} (hpath : arguments.settings = some path)
      (hchosen : arguments.chosenSettings files = .error cause) :
      FailsWith arguments files environment (.settings path cause)
  /-- The settings have no target. -/
  | target {chosen : Settings} {cause : SettingsError}
      (hchosen : arguments.chosenSettings files = .ok chosen)
      (htarget : (arguments.override chosen).target = .error cause) :
      FailsWith arguments files environment (.target cause)
  /-- A class argument is neither a file nor a name, and all in front of it are. -/
  | className {chosen : Settings} {target : OutputTarget} {before after : List String}
      {input : String} {cause : NameError}
      (hchosen : arguments.chosenSettings files = .ok chosen)
      (htarget : (arguments.override chosen).target = .ok target)
      (hclasses : arguments.classes = before ++ input :: after)
      (hbefore : ∀ other ∈ before, ∃ request, ClassRequest.parse files other = .ok request)
      (hinput : ClassRequest.parse files input = .error cause) :
      FailsWith arguments files environment (.className input cause)
  /-- The search path cannot be opened. -/
  | searchPath {chosen : Settings} {target : OutputTarget} {requests : List ClassRequest}
      {cause : ResolveError} (hchosen : arguments.chosenSettings files = .ok chosen)
      (htarget : (arguments.override chosen).target = .ok target)
      (hrequests : arguments.requests files = .ok requests)
      (hopen : Generator.ofSettings files environment (arguments.override chosen) = .error cause) :
      FailsWith arguments files environment (.searchPath cause)

/-- Reading the requests fails exactly if there is a first class that cannot be read, and for the
reason for which it cannot. -/
theorem Arguments.requests_eq_error {error : RunError} :
    arguments.requests files = .error error ↔
      ∃ before input after cause, arguments.classes = before ++ input :: after ∧
        (∀ other ∈ before, ∃ request, ClassRequest.parse files other = .ok request) ∧
        ClassRequest.parse files input = .error cause ∧ .className input cause = error := by
  simp only [requests, Fallible.mapM_eq_error, Fallible.mapError_eq_error, Fallible.mapError_eq_ok]
  constructor
  · rintro ⟨before, input, after, hclasses, hbefore, cause, hinput, herror⟩
    exact ⟨before, input, after, cause, hclasses, hbefore, hinput, herror⟩
  · rintro ⟨before, input, after, cause, hclasses, hbefore, hinput, herror⟩
    exact ⟨before, input, after, hclasses, hbefore, cause, hinput, herror⟩

/-- What a plan is made of. -/
theorem Arguments.plan_eq_ok {plan : Plan} :
    arguments.plan files environment = .ok plan ↔
      ∃ chosen, arguments.chosenSettings files = .ok chosen ∧
        (arguments.override chosen).target = .ok plan.target ∧
        arguments.requests files = .ok plan.requests ∧
        Generator.ofSettings files environment (arguments.override chosen) =
          .ok plan.generator := by
  simp only [Arguments.plan, Fallible.bind_eq_ok, Fallible.mapError_eq_ok, Fallible.pure_eq_ok,
    settingsIn_eq_ok]
  constructor
  · rintro ⟨_, ⟨chosen, hchosen, rfl⟩, target, htarget, requests, hrequests, generator, hopen, rfl⟩
    exact ⟨chosen, hchosen, htarget, hrequests, hopen⟩
  · rintro ⟨chosen, hchosen, htarget, hrequests, hopen⟩
    exact ⟨_, ⟨chosen, hchosen, rfl⟩, _, htarget, _, hrequests, _, hopen, rfl⟩

/-- There is no plan exactly if a stage fails. -/
theorem Arguments.plan_eq_error_iff {error : RunError} :
    arguments.plan files environment = .error error ↔
      arguments.FailsWith files environment error := by
  simp only [Arguments.plan, Fallible.bind_eq_error, settingsIn_eq_error, settingsIn_eq_ok,
    Fallible.mapError_eq_error, Fallible.mapError_eq_ok, requests_eq_error]
  constructor
  · rintro (⟨path, cause, hpath, hchosen, rfl⟩ | ⟨_, ⟨chosen, hchosen, rfl⟩, hrest⟩)
    · exact .settings hpath hchosen
    · obtain ⟨cause, htarget, rfl⟩ | ⟨target, htarget, hrest⟩ := hrest
      · exact .target hchosen htarget
      · obtain ⟨before, input, after, cause, hclasses, hbefore, hinput, rfl⟩ |
          ⟨requests, hrequests, hrest⟩ := hrest
        · exact .className hchosen htarget hclasses hbefore hinput
        · obtain ⟨cause, hopen, rfl⟩ | ⟨_, _, hpure⟩ := hrest
          · exact .searchPath hchosen htarget hrequests hopen
          · cases hpure
  · rintro (⟨hpath, hchosen⟩ | ⟨hchosen, htarget⟩ | ⟨hchosen, htarget, hclasses, hbefore, hinput⟩ |
      ⟨hchosen, htarget, hrequests, hopen⟩)
    · exact .inl ⟨_, _, hpath, hchosen, rfl⟩
    · exact .inr ⟨_, ⟨_, hchosen, rfl⟩, .inl ⟨_, htarget, rfl⟩⟩
    · exact .inr ⟨_, ⟨_, hchosen, rfl⟩, .inr ⟨_, htarget,
        .inl ⟨_, _, _, _, hclasses, hbefore, hinput, rfl⟩⟩⟩
    · exact .inr ⟨_, ⟨_, hchosen, rfl⟩, .inr ⟨_, htarget, .inr ⟨_, hrequests,
        .inl ⟨_, hopen, rfl⟩⟩⟩⟩

/-! ### Exit statuses -/

/-- A stage fails, alone or after others that do. -/
inductive Arguments.CannotStart (arguments : Arguments) (files : FileSystem)
    (environment : Environment) : Prop where
  /-- The chosen file cannot be read, or does not hold settings. -/
  | settings (hnone : ¬∃ table, arguments.Configures files table)
  /-- Headers are to go into a file and into a directory. -/
  | target (htargets : arguments.HasTwoTargets files)
  /-- A class argument is neither a file nor a name. -/
  | className {input : String} {cause : NameError} (hclass : input ∈ arguments.classes)
      (hinput : ClassRequest.parse files input = .error cause)
  /-- The search path that the settings describe cannot be opened. -/
  | searchPath {table : List (String × Toml.Value)} {chosen : Settings} {cause : ResolveError}
      (htable : arguments.Configures files table) (hchosen : Settings.Describes table {} chosen)
      (hopen : Generator.ofSettings files environment (arguments.override chosen) = .error cause)

/-- A plan needs all stages. -/
theorem Arguments.CannotStart.plan_ne_ok (h : arguments.CannotStart files environment)
    (plan : Plan) : arguments.plan files environment ≠ .ok plan := by
  intro hplan
  obtain ⟨chosen, hchosen, htarget, hrequests, hopen⟩ := plan_eq_ok.mp hplan
  cases h with
  | settings hnone =>
    obtain ⟨table, htable, -⟩ := chosenSettings_eq_ok.mp hchosen
    exact hnone ⟨table, htable⟩
  | target htargets =>
    obtain ⟨other, hother, hambiguous⟩ := hasTwoTargets_iff.mp htargets
    obtain rfl := Except.ok.inj (hchosen.symm.trans hother)
    cases htarget.symm.trans (target_override_eq_error_iff.mpr ⟨rfl, hambiguous⟩)
  | @className input cause hclass hinput =>
    have hparsed : ∀ input ∈ arguments.classes, ∃ request,
        ClassRequest.parse files input = .ok request :=
      Fallible.forall_mem_right (Fallible.mapM_eq_ok.mp hrequests).flip
        fun request input hrequest => ⟨request, Fallible.mapError_eq_ok.mp hrequest⟩
    obtain ⟨request, hrequest⟩ := hparsed input hclass
    cases hrequest.symm.trans hinput
  | searchPath htable hdescribes hcause =>
    obtain rfl := Except.ok.inj
      (hchosen.symm.trans (chosenSettings_eq_ok.mpr ⟨_, htable, hdescribes⟩))
    cases hopen.symm.trans hcause

/-- The settings that were loaded, and the choices made with the arguments, decide alone whether a
failure is an ambiguous target. -/
theorem Arguments.FailsWith.settingsError?_eq_iff {error : RunError}
    (h : arguments.FailsWith files environment error) :
    error.settingsError? = some .ambiguousTarget ↔ arguments.HasTwoTargets files := by
  rw [hasTwoTargets_iff]
  constructor
  · intro hambiguous
    cases h with
    | settings hpath hchosen =>
      obtain rfl := Option.some.inj hambiguous
      rw [chosenSettings, hpath] at hchosen
      cases Settings.load_ne_ambiguousTarget _ _ hchosen
    | target hchosen htarget => exact ⟨_, hchosen, (target_override_eq_error_iff.mp htarget).2⟩
    | className => cases hambiguous
    | searchPath => cases hambiguous
  · rintro ⟨other, hother, hambiguous⟩
    have htarget := target_override_eq_error_iff.mpr ⟨rfl, hambiguous⟩
    cases h with
    | settings hpath hchosen => cases hchosen.symm.trans hother
    | target hchosen hcause =>
      obtain rfl := Except.ok.inj (hchosen.symm.trans hother)
      rw [(target_override_eq_error_iff.mp hcause).1, RunError.settingsError?]
    | className hchosen hok =>
      obtain rfl := Except.ok.inj (hchosen.symm.trans hother)
      cases hok.symm.trans htarget
    | searchPath hchosen hok =>
      obtain rfl := Except.ok.inj (hchosen.symm.trans hother)
      cases hok.symm.trans htarget

/-- A stage that fails gives the status 2 if there are two targets, and 1 otherwise. -/
theorem Arguments.FailsWith.exitStatus_eq {error : RunError}
    (h : arguments.FailsWith files environment error) :
    exitStatus (.error error) = if error.settingsError? = some .ambiguousTarget then 2 else 1 := by
  cases h <;> rfl

/-- With a plan, the generation decides whether all went well. -/
theorem exitStatus_mapError_eq_zero_iff {result : Except GenerationError Generator.Report} :
    exitStatus (result.mapError .generation) = 0 ↔
      ∃ report, result = .ok report ∧ report.failures = [] := by
  cases result with
  | error cause => simp [Except.mapError, exitStatus, RunError.settingsError?]
  | ok report => simp [Except.mapError, exitStatus, Generator.Report.isSuccess]

/-- A generation that is not interrupted gives the status 0 or 1. -/
theorem exitStatus_mapError_mem (result : Except GenerationError Generator.Report) :
    exitStatus (result.mapError .generation) ∈ [(0 : UInt8), 1] := by
  cases result with
  | error cause => simp [Except.mapError, exitStatus, RunError.settingsError?]
  | ok report =>
    rw [Except.mapError, exitStatus]
    split <;> simp

/-- A plan has one target. -/
theorem Arguments.not_hasTwoTargets_of_plan {plan : Plan}
    (h : arguments.plan files environment = .ok plan) : ¬arguments.HasTwoTargets files :=
  fun htargets => (CannotStart.target htargets).plan_ne_ok plan h

/-- Without a plan the run ends with the error of the stage that fails, and the files are as before. -/
theorem Arguments.FailsWith.run_eq {error : RunError}
    (h : arguments.FailsWith files environment error) :
    arguments.run files environment = (.error error, files) := by
  rw [Arguments.run, plan_eq_error_iff.mpr h]

/-- A generation that is interrupted leaves behind the files as they are then. -/
theorem Arguments.run_of_interruption {plan : Plan} {after : FileSystem}
    (hplan : arguments.plan files environment = .ok plan)
    (h : plan.generator.interruption? files plan.requests plan.target = some after) :
    arguments.run files environment = (.error .interrupted, after) := by
  simp only [Arguments.run, hplan, h]

/-- A generation that is not interrupted gives the result of the run. -/
theorem Arguments.run_of_plan {plan : Plan}
    (hplan : arguments.plan files environment = .ok plan)
    (h : ¬plan.generator.IsInterrupted files plan.requests plan.target) :
    (arguments.run files environment).1 =
      (plan.generator.generate files plan.requests plan.target).result.mapError .generation := by
  simp only [Arguments.run, hplan, Generator.interruption?_eq_none.mpr h]

/-- A generation that is interrupted gives the status 101. -/
theorem Arguments.exitStatus_run_of_isInterrupted {plan : Plan}
    (hplan : arguments.plan files environment = .ok plan)
    (h : plan.generator.IsInterrupted files plan.requests plan.target) :
    exitStatus (arguments.run files environment).1 = 101 := by
  cases hinterruption : plan.generator.interruption? files plan.requests plan.target with
  | none => exact absurd h (Generator.interruption?_eq_none.mp hinterruption)
  | some after =>
    rw [run_of_interruption hplan hinterruption]
    rfl

/-- **The command fails before it writes, and its exit status tells what happened.** A run in which a
stage fails ends with the error of the first such stage and leaves the files alone. The exit status
is 2 exactly if the run is configured and there are two targets, 0 exactly if headers were generated
for all classes, and 101 exactly if a search of the generation comes to a file for which its archive
declares more bytes than a buffer can have; otherwise it is 1. -/
theorem exitStatus_run (arguments : Arguments) (files : FileSystem) (environment : Environment) :
    (arguments.CannotStart files environment →
      ∃ error, arguments.FailsWith files environment error ∧
        arguments.run files environment = (.error error, files)) ∧
    (exitStatus (arguments.run files environment).1 = 2 ↔ arguments.HasTwoTargets files) ∧
    (exitStatus (arguments.run files environment).1 = 0 ↔
      ∃ plan report, arguments.plan files environment = .ok plan ∧
        ¬plan.generator.IsInterrupted files plan.requests plan.target ∧
        (plan.generator.generate files plan.requests plan.target).result = .ok report ∧
        report.failures = []) ∧
    (exitStatus (arguments.run files environment).1 = 101 ↔
      ∃ plan, arguments.plan files environment = .ok plan ∧
        plan.generator.IsInterrupted files plan.requests plan.target) ∧
    exitStatus (arguments.run files environment).1 ∈ [0, 1, 2, 101] := by
  cases hplan : arguments.plan files environment with
  | error error =>
    -- A stage fails, and its error alone decides between 1 and 2.
    have hfails := Arguments.plan_eq_error_iff.mp hplan
    rw [hfails.run_eq, ← hfails.settingsError?_eq_iff, hfails.exitStatus_eq]
    refine ⟨fun _ => ⟨error, hfails, rfl⟩, ?_⟩
    by_cases hambiguous : error.settingsError? = some .ambiguousTarget <;> simp [hambiguous]
  | ok plan =>
    refine ⟨fun h => absurd hplan (h.plan_ne_ok plan), ?_⟩
    rw [iff_false_right (Arguments.not_hasTwoTargets_of_plan hplan)]
    simp only [Except.ok.injEq, exists_and_left, exists_eq_left']
    by_cases hinterrupted : plan.generator.IsInterrupted files plan.requests plan.target
    · -- A search ends the generation, whatever the report would have been.
      rw [Arguments.exitStatus_run_of_isInterrupted hplan hinterrupted]
      simp [hinterrupted]
    · -- The report decides between 0 and 1.
      rw [Arguments.run_of_plan hplan hinterrupted, exitStatus_mapError_eq_zero_iff]
      have hmem := exitStatus_mapError_mem
        (plan.generator.generate files plan.requests plan.target).result
      simp only [List.mem_cons, List.not_mem_nil, or_false] at hmem
      obtain hstatus | hstatus := hmem <;> simp [hstatus, hinterrupted]

/-- The table of settings with a file and a directory for headers. -/
def twoTargets : List (String × Toml.Value) :=
  [("output-file", .text "all.h"), ("output-dir", .text "include")]

/-- A file with settings that have two targets. -/
def twoTargetsFiles : FileSystem where
  nodes := [(["jnih.toml"], .file (Toml.written twoTargets).toUTF8 false)]
  workingDirectory := []

/-- The two targets in a file with settings end the run with the status 2 and leave the files alone,
and a directory chosen by arguments takes their place. -/
theorem exitStatus_run_twoTargets :
    Toml.written twoTargets = "output-file = \"all.h\"\noutput-dir = \"include\"\n" ∧
      (Arguments.run { classes := ["p.A"], settings := some "jnih.toml" }
        twoTargetsFiles []).2 = twoTargetsFiles ∧
      exitStatus (Arguments.run { classes := ["p.A"], settings := some "jnih.toml" }
        twoTargetsFiles []).1 = 2 ∧
      exitStatus (Arguments.run
        { classes := ["p.A"], settings := some "jnih.toml", directory := some "include" }
        twoTargetsFiles []).1 ≠ 2 := by
  have hread : twoTargetsFiles.readText ⟨"jnih.toml"⟩ = .ok (Toml.written twoTargets) := by
    decide +kernel
  have hparse : Toml.parse? (Toml.written twoTargets) = some twoTargets :=
    Toml.parse?_written (by decide)
  have hlegal : ∀ pair ∈ twoTargets, Settings.IsSetting pair := by
    rw [twoTargets, List.forall_mem_cons, List.forall_mem_singleton]
    exact ⟨.outputFile _, .outputDirectory _⟩
  have htargets : Arguments.HasTwoTargets { classes := ["p.A"], settings := some "jnih.toml" }
      twoTargetsFiles :=
    ⟨twoTargets, .inr ⟨"jnih.toml", _, rfl, hread, hparse, hlegal⟩,
      .inr ⟨⟨rfl, rfl⟩, by decide⟩⟩
  refine ⟨by decide +kernel, ?_, (exitStatus_run _ _ _).2.1.mpr htargets, fun hstatus => ?_⟩
  · obtain ⟨error, -, hrun⟩ := (exitStatus_run _ _ []).1 (.target htargets)
    rw [hrun]
  · obtain ⟨_, -, ⟨houtput, -⟩ | ⟨⟨-, hdirectory⟩, -⟩⟩ := (exitStatus_run _ _ _).2.1.mp hstatus
    · exact houtput rfl
    · cases hdirectory

/-- If no archive of the search path declares a file longer than a buffer, the exit status is one of
the three that tell of failures and of two targets. -/
theorem exitStatus_mem_of_isModest
    (h : ∀ plan, arguments.plan files environment = .ok plan → plan.generator.searchPath.IsModest) :
    exitStatus (arguments.run files environment).1 ∈ [0, 1, 2] := by
  cases hplan : arguments.plan files environment with
  | error error =>
    have hfails := Arguments.plan_eq_error_iff.mp hplan
    rw [hfails.run_eq, hfails.exitStatus_eq]
    split <;> simp
  | ok plan =>
    rw [Arguments.run_of_plan hplan (Generator.not_isInterrupted_of_isModest (h plan hplan))]
    exact List.mem_append_left [2] (exitStatus_mapError_mem _)

/-! ### An archive that declares too much

The class `p.A` stands in this archive as it is, and not packed. Only a further field of its entry
says that it has `2 ^ 63` bytes. -/

/-- The archive. -/
def overlongArchive : ByteArray :=
  let name := "p/A.class".toUTF8.data.toList
  let content := (Generator.exampleClassFile 0).encode
  let facts := Generator.record [(2, 10), (2, 0), (2, Archive.Entry.storedMethod), (2, 0), (2, 33),
    (4, (Archive.checksum ⟨content.toArray⟩).toNat), (4, content.length)]
  let size := Generator.record [(2, 1), (2, 8), (8, 0x8000000000000000)]
  let file := Generator.record [(4, Archive.Entry.localSignature)] ++ facts ++
    Generator.record [(4, content.length), (2, name.length), (2, 0)] ++ name ++ content
  let directory := Generator.record [(4, Archive.Entry.signature), (2, 10)] ++ facts ++
    Generator.record [(4, Archive.Entry.deferred), (2, name.length), (2, size.length), (2, 0),
      (2, 0), (2, 0), (4, 0), (4, 0)] ++ name ++ size
  let ending := Generator.record [(4, Archive.Placement.endSignature), (2, 0), (2, 0), (2, 1),
    (2, 1), (4, directory.length), (4, file.length), (2, 0)]
  ⟨(file ++ directory ++ ending).toArray⟩

/-- A run that looks for the class in the archive can start, and its exit status is none of the three.
-/
theorem exists_exitStatus_notMem :
    ∃ (arguments : Arguments) (files : FileSystem) (environment : Environment),
      (∃ plan, arguments.plan files environment = .ok plan) ∧
        exitStatus (arguments.run files environment).1 ∉ [0, 1, 2] := by
  let arguments : Arguments :=
    { classes := ["p.A"], directory := some "out", classPath := ["lib.jar"], noInstallation := true }
  let files : FileSystem :=
    { nodes := [(["lib.jar"], .file overlongArchive false)], workingDirectory := [] }
  have hplan : (arguments.plan files []).toOption.isSome = true := by decide +kernel
  obtain ⟨plan, hplan⟩ := Option.isSome_iff_exists.mp hplan
  have hstatus : exitStatus (arguments.run files []).1 = 101 := by decide +kernel
  refine ⟨arguments, files, [], ⟨plan, Fallible.toOption_eq_some.mp hplan⟩, ?_⟩
  rw [hstatus]
  decide

end CommandLine

end NativeHeaders
