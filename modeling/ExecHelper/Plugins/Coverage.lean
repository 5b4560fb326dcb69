import ExecHelper.Config.SettingsAdd
import ExecHelper.Plugins.BuiltIn

/-!
# Coverage rounds

The `lcov` plugin goes through the pattern combinations one by one.  Of a round, what
comes before the run commands and what comes after them are registered tasks; in
between the run commands are executed, and a failure there ends the whole plugin.

The settings of the plugin are read before the first round.  All of them have a
default, and one that was overridden by an empty list is dereferenced nevertheless.
-/

namespace ExecHelper.Plugins.Lcov

open ExecHelper.Library
open ExecHelper.Config
open ExecHelper.Core
open CommandLineCommand (registerAll registerAll_injective)

/-! ## Settings -/

/-- The settings of the report. -/
structure GenHtml where
  output : Path
  title : String
  commandLine : TaskCollection

/-- The settings the plugin reads next to the run commands. Those of the report are only
read when it is enabled. -/
structure Settings where
  infoFile : Path
  baseDirectory : Path
  directory : Path
  commandLine : TaskCollection
  zeroCounters : Bool
  genHtml : Option GenHtml
  excludes : SettingsValues

def readGenHtml (variablesMap : VariablesMap) : Option GenHtml := do
  let output ← variablesMap.getPath [GEN_HTML_OUTPUT_KEY]
  let title ← variablesMap.getString [GEN_HTML_TITLE_KEY]
  let commandLine ← variablesMap.getValues [GEN_HTML_COMMAND_LINE_KEY]
  return { output, title, commandLine }

/-- The settings of the report, if it is enabled. -/
def readReport (variablesMap : VariablesMap) : Bool → Option (Option GenHtml)
  | true => do
      let genHtml ← readGenHtml variablesMap
      return some genHtml
  | false => pure none

/-- The settings, unless one of them has no value to read. -/
def readSettings (variablesMap : VariablesMap) : Option Settings := do
  let infoFile ← variablesMap.getPath [INFO_FILE_KEY]
  let baseDirectory ← variablesMap.getPath [BASE_DIR_KEY]
  let directory ← variablesMap.getPath [DIR_KEY]
  let commandLine ← variablesMap.getValues [COMMAND_LINE_KEY]
  let zeroCounters ← variablesMap.getBool [ZERO_COUNTERS_KEY]
  let genHtml ← (variablesMap.getBool [GEN_HTML_KEY]).bind (readReport variablesMap)
  let excludes ← variablesMap.getValues [EXCLUDES_KEY]
  return { infoFile, baseDirectory, directory, commandLine, zeroCounters, genHtml, excludes }

/-- Every setting with a default is there, with a value if the default has one. -/
def DefaultsPresent (variablesMap : VariablesMap) : Prop :=
  ∀ key values, (getVariablesMap {}).getValues [key] = some values →
    ∃ given, variablesMap.getValues [key] = some given ∧ (values ≠ [] → given ≠ [])

/-! ## Rounds -/

namespace Settings

variable (settings : Settings)

/-- What resets the counters. -/
def zeroCountersArguments : TaskCollection :=
  [PLUGIN_NAME, "--base-directory", settings.baseDirectory, "--directory",
    settings.directory, "--zerocounters"] ++ settings.commandLine

/-- What captures the coverage. -/
def captureArguments : TaskCollection :=
  [PLUGIN_NAME, "--base-directory", settings.baseDirectory, "--directory",
    settings.directory, "--capture", "--output", settings.infoFile] ++ settings.commandLine

/-- What removes the excludes from the captured coverage. -/
def excludeArguments : TaskCollection :=
  [PLUGIN_NAME, "--remove", settings.infoFile] ++
    (settings.excludes.map fun exclude => "\"" ++ exclude ++ "\"") ++
    ["--output-file", settings.infoFile] ++ settings.commandLine

/-- What generates the report. -/
def genHtmlArguments (genHtml : GenHtml) : TaskCollection :=
  ["genhtml", "--output-directory", genHtml.output, "--title", genHtml.title] ++
    genHtml.commandLine ++ [settings.infoFile]

/-- The tasks of a round before the run commands. -/
def tasksBefore (task : Task) : List Task :=
  if settings.zeroCounters then [task.append settings.zeroCountersArguments] else []

/-- The tasks of a round after the run commands. -/
def tasksAfter (task : Task) : List Task :=
  [task.append settings.captureArguments] ++
    (if settings.excludes = [] then [] else [task.append settings.excludeArguments]) ++
    settings.genHtml.toList.map fun genHtml => task.append (settings.genHtmlArguments genHtml)

/-- The tasks of a round are the task with arguments behind it. -/
theorem forall_tasksBefore {property : Task → Prop} {task : Task}
    (append : ∀ arguments, property (task.append arguments)) :
    ∀ earlier ∈ settings.tasksBefore task, property earlier := by
  intro earlier member
  rw [tasksBefore] at member
  split at member
  · rw [List.mem_singleton.mp member]
    exact append _
  · cases member

theorem forall_tasksAfter {property : Task → Prop} {task : Task}
    (append : ∀ arguments, property (task.append arguments)) :
    ∀ later ∈ settings.tasksAfter task, property later := by
  intro later member
  rw [tasksAfter, List.append_assoc, List.singleton_append, List.mem_cons,
    List.mem_append] at member
  rcases member with rfl | excludes | genHtml
  · exact append _
  · split at excludes
    · cases excludes
    · rw [List.mem_singleton.mp excludes]
      exact append _
  · obtain ⟨report, -, rfl⟩ := List.mem_map.mp genHtml
    exact append _

end Settings

/-- Register tasks with a combination substituted. -/
def registerTasks (currentPath : CurrentPath) (combination : PatternCombinations)
    (tasks : List Task) : PluginProgram Unit :=
  tasks.forM fun task => do
    let newTask ← orTerminate (replacePatternCombinations currentPath task combination)
    host (.registerTask newTask)

/-- One round. The tasks after the run commands are only registered when these succeed. -/
def round (currentPath : CurrentPath) (task : Task) (runCommands : CommandCollection)
    (settings : Settings) (combination : PatternCombinations) : PluginProgram Bool := do
  registerTasks currentPath combination (settings.tasksBefore task)
  match ← execute runCommands task with
  | true => do
      registerTasks currentPath combination (settings.tasksAfter task)
      return true
  | false => return false

section Rounds

variable {currentPath : CurrentPath} {combination : PatternCombinations}
variable {variablesMap : VariablesMap}

/-- Dereferencing one optional after the other is dereferencing what they yield together. -/
theorem dereference_bind {α β : Type} (site : Dereference) (value : Option α)
    (next : α → Option β) :
    dereference site (value >>= next) =
      dereference site value >>= fun value => dereference site (next value) := by
  cases value <;> rfl

theorem registerTasks_append (front back : List Task) :
    registerTasks currentPath combination (front ++ back) = (do
      registerTasks currentPath combination front
      registerTasks currentPath combination back) :=
  List.forM_append

theorem registerTasks_singleton (task : Task) :
    registerTasks currentPath combination [task] = (do
      let newTask ← orTerminate (replacePatternCombinations currentPath task combination)
      host (.registerTask newTask)) := by
  rw [registerTasks, List.forM_eq_forM, List.forM_cons, List.forM_nil]
  exact bind_pure _

theorem runTask_eq (task : Task) :
    runTask currentPath task combination = (do
      registerTasks currentPath combination [task]
      return true) := by
  rw [runTask, registerTasks_singleton]
  cases replacePatternCombinations currentPath task combination <;> rfl

/-- A step that only registers tasks always succeeds. -/
theorem ifSucceeds_registerTasks {step : PluginProgram Bool} {tasks : List Task}
    (registers : step = (do
      registerTasks currentPath combination tasks
      return true)) (rest : PluginProgram Bool) :
    ifSucceeds step rest = (do
      registerTasks currentPath combination tasks
      rest) := by
  rw [registers, ifSucceeds, bind_assoc]
  rfl

/-- The exclude task of a non-empty list of excludes. -/
theorem generateExcludeTask_eq {excludes : SettingsValues}
    (configured : variablesMap.getValues [EXCLUDES_KEY] = some excludes)
    (given : excludes ≠ []) (infoFile : Path) (commandLine : TaskCollection) (task : Task) :
    generateExcludeTask variablesMap infoFile commandLine task =
      task.append ([PLUGIN_NAME, "--remove", infoFile] ++
        (excludes.map fun exclude => "\"" ++ exclude ++ "\"") ++
        ["--output-file", infoFile] ++ commandLine) := by
  have quoted : getExcludes variablesMap = excludes.map fun exclude =>
      "\"" ++ exclude ++ "\"" := by
    rw [getExcludes, configured, Option.getD_some]
  have nonempty : (excludes.map fun exclude => "\"" ++ exclude ++ "\"").isEmpty = false := by
    simpa using given
  rw [generateExcludeTask, quoted, nonempty]
  simp only [Bool.false_eq_true, if_false, Task.append_append]

variable {task : Task} {runCommands : CommandCollection}

/-- The optional tasks of a round are lists of at most one task. -/
private theorem round_eq (settings : Settings)
    (zeroCountersTask captureTask excludeTask genHtmlTask : Task)
    (zeroCounters : zeroCountersTask = task.append settings.zeroCountersArguments)
    (capture : captureTask = task.append settings.captureArguments)
    (exclude : settings.excludes ≠ [] → excludeTask = task.append settings.excludeArguments)
    (genHtml : ∀ genHtml, settings.genHtml = some genHtml →
      genHtmlTask = task.append (settings.genHtmlArguments genHtml)) :
    (ifSucceeds
        (if settings.zeroCounters then runTask currentPath zeroCountersTask combination
          else pure true) <|
      ifSucceeds (execute runCommands task) <|
      ifSucceeds (runTask currentPath captureTask combination) <|
      ifSucceeds
        (if settings.excludes.isEmpty then pure true
          else runTask currentPath excludeTask combination) <|
      ifSucceeds
        (if settings.genHtml.isSome then runTask currentPath genHtmlTask combination
          else pure true) <|
      pure true) = round currentPath task runCommands settings combination := by
  have before : (if settings.zeroCounters then runTask currentPath zeroCountersTask combination
      else pure true) = (do
        registerTasks currentPath combination (settings.tasksBefore task)
        return true) := by
    rw [Settings.tasksBefore, ← zeroCounters]
    cases settings.zeroCounters with
    | false => rfl
    | true => exact runTask_eq zeroCountersTask
  have captures : runTask currentPath captureTask combination = (do
      registerTasks currentPath combination [task.append settings.captureArguments]
      return true) := by
    rw [← capture]
    exact runTask_eq captureTask
  have excludes : (if settings.excludes.isEmpty then pure true
      else runTask currentPath excludeTask combination) = (do
        registerTasks currentPath combination
          (if settings.excludes = [] then [] else [task.append settings.excludeArguments])
        return true) := by
    cases configured : settings.excludes with
    | nil => rfl
    | cons first rest =>
        rw [exclude (by simp [configured])]
        exact runTask_eq _
  have reports : (if settings.genHtml.isSome then runTask currentPath genHtmlTask combination
      else pure true) = (do
        registerTasks currentPath combination (settings.genHtml.toList.map fun genHtml =>
          task.append (settings.genHtmlArguments genHtml))
        return true) := by
    cases enabled : settings.genHtml with
    | none => rfl
    | some own =>
        rw [genHtml own enabled]
        exact runTask_eq _
  rw [ifSucceeds_registerTasks before, ifSucceeds_registerTasks captures,
    ifSucceeds_registerTasks excludes, ifSucceeds_registerTasks reports, round,
    Settings.tasksAfter, registerTasks_append, registerTasks_append]
  simp only [bind_assoc]
  rfl

theorem generateGenHtmlTask_eq (infoFile : Path) (task : Task) :
    generateGenHtmlTask infoFile variablesMap task = (do
      let genHtml ← dereference .lcov (readGenHtml variablesMap)
      return task.append (["genhtml", "--output-directory", genHtml.output, "--title",
        genHtml.title] ++ genHtml.commandLine ++ [infoFile])) := by
  simp only [generateGenHtmlTask, readGenHtml, dereference_bind, bind_assoc, Task.append_append]
  simp only [Option.pure_def, dereference_some, pure_bind]

/-- With run commands the plugin reads its settings and goes through the rounds. -/
theorem apply_eq (fuel : Nat) (patterns : Patterns)
    (configured : variablesMap.getValues [RUN_COMMAND] = some runCommands)
    (given : runCommands ≠ []) :
    apply currentPath fuel task variablesMap patterns = (do
      let settings ← dereference .lcov (readSettings variablesMap)
      forEachCombination fuel patterns (round currentPath task runCommands settings)) := by
  rcases List.exists_cons_of_ne_nil given with ⟨command, rest, rfl⟩
  rw [apply, configured]
  simp only [readSettings, dereference_bind, bind_assoc, ← Option.bind_eq_bind]
  refine bind_congr fun infoFile => ?_
  refine bind_congr fun baseDirectory => ?_
  refine bind_congr fun directory => ?_
  refine bind_congr fun commandLine => ?_
  refine bind_congr fun zeroCounters => ?_
  refine bind_congr fun genHtml => ?_
  cases genHtml with
  | false =>
      simp only [Bool.false_eq_true, if_false, pure_bind, Option.pure_def, dereference_some,
        readReport]
      cases excludes : variablesMap.getValues [EXCLUDES_KEY] with
      | none => rfl
      | some values =>
          refine congrArg (forEachCombination fuel patterns) (funext fun combination => ?_)
          exact round_eq ⟨infoFile, baseDirectory, directory, commandLine, zeroCounters, none,
              values⟩ _ _ _ (Task.empty currentPath)
            (Task.append_append ..) (Task.append_append ..)
            (fun given => generateExcludeTask_eq excludes given infoFile commandLine task)
            (fun _ disabled => nomatch disabled)
  | true =>
      simp only [if_true, generateGenHtmlTask_eq, bind_assoc, pure_bind, Option.pure_def,
        dereference_some, dereference_bind, readReport]
      refine bind_congr fun genHtml => ?_
      cases excludes : variablesMap.getValues [EXCLUDES_KEY] with
      | none => rfl
      | some values =>
          refine congrArg (forEachCombination fuel patterns) (funext fun combination => ?_)
          refine round_eq ⟨infoFile, baseDirectory, directory, commandLine, zeroCounters,
              some genHtml, values⟩ _ _ _ _
            (Task.append_append ..) (Task.append_append ..)
            (fun given => generateExcludeTask_eq excludes given infoFile commandLine task) ?_
          rintro _ ⟨⟩
          rfl

/-- A value that is read from a non-empty list. -/
private theorem exists_get_of_present {τ : Type} {cast : SettingsValues → Option τ}
    (total : ∀ values : SettingsValues, values ≠ [] → ∃ value, cast values = some value)
    (present : DefaultsPresent variablesMap) (key : SettingsKey) (value : SettingsValue)
    (default : (getVariablesMap {}).getValues [key] = some [value]) :
    ∃ value, variablesMap.get cast [key] = some value := by
  rcases present key _ default with ⟨given, found, nonempty⟩
  rw [SettingsNode.get_eq_getValues_bind, found]
  exact total given (nonempty (List.cons_ne_nil _ _))

private theorem exists_string (values : SettingsValues) (given : values ≠ []) :
    ∃ value, Cast.string values = some value :=
  ⟨_, List.getLast?_eq_some_getLast given⟩

private theorem exists_bool (values : SettingsValues) (given : values ≠ []) :
    ∃ value, Cast.bool values = some value := by
  rw [Cast.bool, List.getLast?_eq_some_getLast given]
  exact ⟨_, rfl⟩

private theorem exists_readReport (present : DefaultsPresent variablesMap) (enabled : Bool) :
    ∃ report, readReport variablesMap enabled = some report := by
  cases enabled with
  | false => exact ⟨none, rfl⟩
  | true =>
      have output : ∃ value, variablesMap.getPath [GEN_HTML_OUTPUT_KEY] = some value :=
        exists_get_of_present exists_string present GEN_HTML_OUTPUT_KEY "."
          (by decide)
      have title : ∃ value, variablesMap.getString [GEN_HTML_TITLE_KEY] = some value :=
        exists_get_of_present exists_string present GEN_HTML_TITLE_KEY "Hello"
          (by decide)
      rcases output with ⟨output, outputRead⟩
      rcases title with ⟨title, titleRead⟩
      rcases present GEN_HTML_COMMAND_LINE_KEY [] (by decide) with ⟨commandLine, found, _⟩
      rw [readReport, readGenHtml, outputRead, titleRead, found]
      exact ⟨_, rfl⟩

/-- With its defaults the plugin can read all of its settings. -/
theorem exists_readSettings (present : DefaultsPresent variablesMap) :
    ∃ settings, readSettings variablesMap = some settings := by
  have path : ∀ key value, (getVariablesMap {}).getValues [key] = some [value] →
      ∃ value, variablesMap.getPath [key] = some value :=
    exists_get_of_present exists_string present
  have bool : ∀ key value, (getVariablesMap {}).getValues [key] = some [value] →
      ∃ value, variablesMap.getBool [key] = some value :=
    exists_get_of_present exists_bool present
  rcases path INFO_FILE_KEY "lcov-plugin.info" (by decide) with ⟨infoFile, infoFileRead⟩
  rcases path BASE_DIR_KEY "." (by decide) with ⟨baseDirectory, baseDirectoryRead⟩
  rcases path DIR_KEY "." (by decide) with ⟨directory, directoryRead⟩
  rcases present COMMAND_LINE_KEY [] (by decide) with ⟨commandLine, commandLineRead, _⟩
  rcases bool ZERO_COUNTERS_KEY "no" (by decide) with ⟨zeroCounters, zeroCountersRead⟩
  rcases bool GEN_HTML_KEY "no" (by decide) with ⟨genHtml, genHtmlRead⟩
  rcases exists_readReport present genHtml with ⟨report, reportRead⟩
  rcases present EXCLUDES_KEY [] (by decide) with ⟨excludes, excludesRead, _⟩
  rw [readSettings, infoFileRead, baseDirectoryRead, directoryRead, commandLineRead,
    zeroCountersRead, genHtmlRead, Option.bind_some, reportRead, excludesRead]
  exact ⟨_, rfl⟩

end Rounds

/-- Where the value lists can be indexed, or one of them is empty, the plugin goes through
one round for every combination, in order, up to the first failure. Without run commands
it only reports that. -/
theorem apply_rounds (currentPath : CurrentPath) (task : Task) (variablesMap : VariablesMap)
    (patterns : Patterns)
    (permutable : (∀ column ∈ patternColumns patterns, column.2.length < 2 ^ 32) ∨
      ∃ column ∈ patternColumns patterns, column.2 = []) :
    (∀ runCommands, variablesMap.getValues [RUN_COMMAND] = some runCommands →
      runCommands ≠ [] → DefaultsPresent variablesMap →
      ∃ settings, readSettings variablesMap = some settings ∧
        ∃ enough, ∀ fuel, enough ≤ fuel →
          apply currentPath fuel task variablesMap patterns =
            (combinations patterns).allM (round currentPath task runCommands settings)) ∧
      (variablesMap.getValues [RUN_COMMAND] = none ∨
          variablesMap.getValues [RUN_COMMAND] = some [] →
        ∃ message, ∀ fuel, apply currentPath fuel task variablesMap patterns = (do
          feedbackError message
          return false)) := by
  have loops : Permutable patterns := by
    cases patterns with
    | nil => exact permutable_nil
    | cons pattern rest => exact permutable_of_columns (List.cons_ne_nil _ _) permutable
  constructor
  · intro runCommands configured given present
    rcases exists_readSettings present with ⟨settings, read⟩
    refine ⟨settings, read, (combinations patterns).length + 1, ?_⟩
    intro fuel enough
    rw [apply_eq fuel patterns configured given, read, dereference_some, pure_bind,
      forEachCombination_eq loops _ enough]
  · rintro (missing | empty)
    · refine ⟨"Could not find the 'run-command' setting in the 'lcov' settings", ?_⟩
      intro fuel
      rw [apply, missing]
      rfl
    · refine ⟨"The 'run-command' list is empty", ?_⟩
      intro fuel
      rw [apply, empty]
      rfl

/-- Variables with the defaults and the run command `check`. -/
def checkVariables : VariablesMap := (getVariablesMap {}).add [RUN_COMMAND] ["check"]

private theorem checkVariables_defaultsPresent : DefaultsPresent checkVariables := by
  intro key values default
  refine ⟨values, ?_, id⟩
  rw [checkVariables, SettingsNode.getValues_add_of_ne, default]
  · intro same
    have absent : (getVariablesMap {}).getValues [RUN_COMMAND] = none := by decide
    rw [same, absent] at default
    cases default
  · intro child rest path
    exact absurd (congrArg List.length path) (by simp)

private theorem checkVariables_runCommand :
    checkVariables.getValues [RUN_COMMAND] = some ["check"] := by decide

/-- The coverage of `check` is measured for every value of a pattern. -/
theorem apply_rounds_check :
    ∃ settings, readSettings checkVariables = some settings ∧
      ∃ enough, ∀ fuel, enough ≤ fuel →
        apply .root fuel ⟨[], ∅, "/work"⟩ checkVariables
            [{ key := "MODE", values := ["debug", "release"] }] =
          (combinations [{ key := "MODE", values := ["debug", "release"] }]).allM
            (round .root ⟨[], ∅, "/work"⟩ ["check"] settings) :=
  (apply_rounds .root ⟨[], ∅, "/work"⟩ checkVariables
    [{ key := "MODE", values := ["debug", "release"] }]
    (by rw [patternColumns_singleton]; decide)).1 ["check"] checkVariables_runCommand
      (List.cons_ne_nil _ _) checkVariables_defaultsPresent

/-- A round performs an operation before it returns. -/
private theorem allM_round_ne_pure {currentPath : CurrentPath} {task : Task}
    {runCommands : CommandCollection} {settings : Settings}
    {inputs : List PatternCombinations} (given : inputs ≠ []) :
    inputs.allM (round currentPath task runCommands settings) ≠ pure true := by
  rcases List.exists_cons_of_ne_nil given with ⟨combination, rest, rfl⟩
  rw [List.allM_cons, round, Settings.tasksBefore]
  intro same
  split at same
  · rw [registerTasks_singleton] at same
    cases replaced : replacePatternCombinations currentPath
        (task.append settings.zeroCountersArguments) combination <;>
      rw [replaced] at same <;> cases same
  · cases same

private theorem not_rounds_replicate (count : Nat) (positive : 0 < count)
    (wraps : UInt32.ofNat count = 0) {settings : Settings} :
    ¬∃ enough, ∀ fuel, enough ≤ fuel →
      apply .root fuel ⟨[], ∅, "/work"⟩ checkVariables
          [{ key := "MODE", values := List.replicate count "debug" }] =
        (combinations [{ key := "MODE", values := List.replicate count "debug" }]).allM
          (round .root ⟨[], ∅, "/work"⟩ ["check"] settings) := by
  have nonempty : List.replicate count "debug" ≠ [] :=
    List.ne_nil_of_length_pos (by rwa [List.length_replicate])
  rintro ⟨enough, rounds⟩
  rcases exists_readSettings checkVariables_defaultsPresent with ⟨own, read⟩
  have same := rounds (enough + 1) (Nat.le_succ enough)
  rw [apply_eq (enough + 1) _ checkVariables_runCommand (List.cons_ne_nil _ _), read,
    dereference_some, pure_bind,
    forEachCombination_wrapping nonempty (by rwa [List.length_replicate])] at same
  apply allM_round_ne_pure _ same.symm
  rw [combinations, MapPermutator.combinations, MapPermutator.columns,
    toList_patternValuesMap (List.cons_ne_nil _ _), patternColumns_singleton]
  rcases List.exists_cons_of_ne_nil nonempty with ⟨value, rest, values⟩
  dsimp only
  rw [values]
  simp [Odometer.product]

/-- For a pattern with `2 ^ 32` values there is not a single round. -/
theorem apply_rounds_counterexample :
    ¬∀ (currentPath : CurrentPath) (task : Task) (variablesMap : VariablesMap)
        (patterns : Patterns) (runCommands : CommandCollection),
        variablesMap.getValues [RUN_COMMAND] = some runCommands → runCommands ≠ [] →
        DefaultsPresent variablesMap →
        ∃ settings, readSettings variablesMap = some settings ∧
          ∃ enough, ∀ fuel, enough ≤ fuel →
            apply currentPath fuel task variablesMap patterns =
              (combinations patterns).allM (round currentPath task runCommands settings) := by
  intro claimed
  rcases claimed .root ⟨[], ∅, "/work"⟩ checkVariables
      [{ key := "MODE", values := List.replicate (2 ^ 32) "debug" }] ["check"]
      checkVariables_runCommand (List.cons_ne_nil _ _) checkVariables_defaultsPresent with
    ⟨settings, _, rounds⟩
  exact not_rounds_replicate (2 ^ 32) (by decide) rfl rounds

end ExecHelper.Plugins.Lcov
