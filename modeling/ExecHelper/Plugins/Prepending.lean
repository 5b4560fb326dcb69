import ExecHelper.Plugins.BundledScripts
import ExecHelper.Plugins.Correspondence

/-!
# Words in front of a task

A wrapper has commands executed with a task that already starts a tool.  Whatever these
commands come to, they add to the task and substitute patterns in it, so they do with it
what they do without the tool.  The only things in a task a plugin could find anything out
about are placeholders, which words without an opening brace do not have.
-/

namespace ExecHelper.Plugins

open Std (ExtTreeMap)
open ExecHelper.Library
open ExecHelper.Config
open ExecHelper.Core

/-! ## Changes plugins do not notice -/

/-- It makes no difference whether tasks are changed before or after what plugins do with
them. -/
structure Unnoticed (currentPath : CurrentPath) (change : Task → Task) : Prop where
  append : ∀ task taskPart, change (task.append taskPart) = (change task).append taskPart
  appendToEnvironment : ∀ task newValue,
    change (task.appendToEnvironment newValue) = (change task).appendToEnvironment newValue
  setWorkingDirectory : ∀ task workingDirectory,
    (task.setWorkingDirectory currentPath workingDirectory).map change =
      (change task).setWorkingDirectory currentPath workingDirectory
  replacePatternCombinations : ∀ task combination,
    (replacePatternCombinations currentPath task combination).map change =
      replacePatternCombinations currentPath (change task) combination

section Translate

variable {α β : Type} {change : Task → Task}

@[simp] theorem translate_host (event : HostEvent) :
    (host event).translate (taskTranslation change) = host (event.mapTask change) := rfl

@[simp] theorem translate_execute (commands : CommandCollection) (task : Task) :
    (execute commands task).translate (taskTranslation change) =
      execute commands (change task) := rfl

@[simp] theorem translate_registerTask (task : Task) :
    (registerTask task).translate (taskTranslation change) = registerTask (change task) := rfl

@[simp] theorem translate_feedbackError (text : String) :
    (feedbackError text).translate (taskTranslation change) = feedbackError text := rfl

@[simp] theorem translate_dereference (site : Dereference) (value : Option α) :
    (dereference site value).translate (taskTranslation change) = dereference site value := by
  cases value <;> rfl

/-- A program goes on with a changed task as it does with the task, and ends without one. -/
theorem translate_orTerminate {task changedTask : Option Task}
    (same : task.map change = changedTask) {next changedNext : Task → PluginProgram α}
    (nextSame : ∀ task, (next task).translate (taskTranslation change) =
      changedNext (change task)) :
    (orTerminate task >>= next).translate (taskTranslation change) =
      orTerminate changedTask >>= changedNext := by
  subst same
  cases task with
  | none => rfl
  | some task => exact nextSame task

@[simp] theorem translate_ifSucceeds (step rest : PluginProgram Bool) :
    (ifSucceeds step rest).translate (taskTranslation change) =
      ifSucceeds (step.translate (taskTranslation change))
        (rest.translate (taskTranslation change)) := by
  rw [ifSucceeds, ifSucceeds, Program.translate_bind]
  congr 1
  funext succeeded
  cases succeeded <;> rfl

@[simp] theorem translate_ite (condition : Prop) [Decidable condition]
    (left right : PluginProgram α) :
    (if condition then left else right).translate (taskTranslation change) =
      if condition then left.translate (taskTranslation change)
      else right.translate (taskTranslation change) := by
  split <;> rfl

@[simp] theorem translate_forEachCombination (fuel : Nat) (patterns : Patterns)
    (body : PatternCombinations → PluginProgram Bool) :
    (forEachCombination fuel patterns body).translate (taskTranslation change) =
      forEachCombination fuel patterns fun combination =>
        (body combination).translate (taskTranslation change) := by
  rw [forEachCombination, forEachCombination]
  generalize MapPermutator.first (patternValuesMap patterns) = iterator
  induction fuel generalizing iterator with
  | zero => rfl
  | succ fuel inductionHypothesis =>
      rw [MapPermutator.loop, MapPermutator.loop]
      split
      · rfl
      · cases iterator.deref with
        | none => rfl
        | some combination =>
            dsimp only
            rw [Program.translate_bind]
            congr 1
            funext succeeded
            cases succeeded with
            | true => exact inductionHypothesis iterator.next
            | false => rfl

theorem allM_cons (body : β → PluginProgram Bool) (input : β) (rest : List β) :
    (input :: rest).allM body = ifSucceeds (body input) (rest.allM body) := by
  rw [List.allM, ifSucceeds]
  rfl

/-- A loop over tasks that a body leaves with `false`. -/
theorem translate_allM {body : Task → PluginProgram Bool}
    (same : ∀ task, (body task).translate (taskTranslation change) = body (change task))
    (tasks : List Task) :
    (tasks.allM body).translate (taskTranslation change) = (tasks.map change).allM body := by
  induction tasks with
  | nil => rfl
  | cons task rest inductionHypothesis =>
      rw [allM_cons, List.map_cons, allM_cons, translate_ifSucceeds, inductionHypothesis, same]

end Translate

/-! ## The built-in plugins -/

section BuiltIn

variable {currentPath : CurrentPath} {change : Task → Task}

theorem Unnoticed.foldl_append {α : Type} (unnoticed : Unnoticed currentPath change)
    (part : α → TaskCollection) (values : List α) (task : Task) :
    change (values.foldl (fun task value => task.append (part value)) task) =
      values.foldl (fun task value => task.append (part value)) (change task) := by
  induction values generalizing task with
  | nil => rfl
  | cons value rest inductionHypothesis =>
      rw [List.foldl_cons, List.foldl_cons, inductionHypothesis, unnoticed.append]

/-- Register a task for every combination. -/
private theorem translate_registration (unnoticed : Unnoticed currentPath change) (task : Task)
    (combination : PatternCombinations) :
    Program.translate (taskTranslation change) (do
      let newTask ← orTerminate (replacePatternCombinations currentPath task combination)
      registerTask newTask) = (do
      let newTask ← orTerminate (replacePatternCombinations currentPath (change task) combination)
      registerTask newTask) :=
  translate_orTerminate (unnoticed.replacePatternCombinations task combination) fun _ => rfl

/-- Execute commands with the task for every combination. -/
private theorem translate_execution (unnoticed : Unnoticed currentPath change) (task : Task)
    (combination : PatternCombinations) (commands : CommandCollection) :
    Program.translate (taskTranslation change) (do
      let newTask ← orTerminate (replacePatternCombinations currentPath task combination)
      execute commands newTask) = (do
      let newTask ← orTerminate (replacePatternCombinations currentPath (change task) combination)
      execute commands newTask) :=
  translate_orTerminate (unnoticed.replacePatternCombinations task combination) fun _ => rfl

/-- Register a task of a round. -/
private theorem translate_runTask (unnoticed : Unnoticed currentPath change) (task : Task)
    (combination : PatternCombinations) :
    (Lcov.runTask currentPath task combination).translate (taskTranslation change) =
      Lcov.runTask currentPath (change task) combination :=
  translate_registration unnoticed task combination

theorem carries_memory (returnCode : Bool) :
    (Plugin.memory returnCode).Carries currentPath change := by
  intro fuel task variablesMap patterns
  rfl

theorem carries_commandPlugin : Plugin.commandPlugin.Carries currentPath change := by
  intro fuel task variablesMap patterns
  simp only [Plugin.apply, CommandPlugin.apply, Program.translate_bind, translate_dereference,
    translate_execute]

theorem carries_pmd (unnoticed : Unnoticed currentPath change) :
    Plugin.pmd.Carries currentPath change := by
  intro fuel task variablesMap patterns
  simp only [Plugin.apply, Pmd.apply, Program.translate_bind, translate_dereference,
    translate_forEachCombination]
  apply bind_congr
  intro binaryName
  apply bind_congr
  intro tool
  apply bind_congr
  intro verbosity
  apply bind_congr
  intro commandLine
  congr 1
  funext combination
  rw [← Program.translate_bind, translate_registration unnoticed]
  congr 3
  cases variablesMap.getString [Pmd.LANGUAGE_KEY] <;>
    cases variablesMap.getString [Pmd.MINIMUM_TOKENS_KEY] <;>
      simp only [unnoticed.append, unnoticed.foldl_append, apply_ite change]

theorem carries_valgrind (unnoticed : Unnoticed currentPath change) :
    Plugin.valgrind.Carries currentPath change := by
  intro fuel task variablesMap patterns
  rw [Plugin.apply, Plugin.apply, Valgrind.apply, Valgrind.apply]
  cases variablesMap.getValues [Valgrind.RUN_COMMAND_KEY] with
  | none => rfl
  | some runCommand =>
      cases variablesMap.getString [Valgrind.TOOL_KEY] <;>
        simp only [Program.translate_bind, translate_dereference, translate_forEachCombination,
          translate_execution unnoticed, unnoticed.append, apply_ite change]

theorem carries_lcov (unnoticed : Unnoticed currentPath change) :
    Plugin.lcov.Carries currentPath change := by
  intro fuel task variablesMap patterns
  rw [Plugin.apply, Plugin.apply, Lcov.apply, Lcov.apply]
  cases variablesMap.getValues [Lcov.RUN_COMMAND] with
  | none => rfl
  | some runCommands =>
      cases runCommands with
      | nil => rfl
      | cons front rest =>
          simp only [Program.translate_bind, translate_dereference]
          apply bind_congr
          intro infoFile
          apply bind_congr
          intro baseDirectory
          apply bind_congr
          intro directory
          apply bind_congr
          intro commandLine
          apply bind_congr
          intro zeroCounters
          apply bind_congr
          intro genHtml
          -- The empty task that stands for a report is not registered.
          cases genHtml <;>
            simp only [Lcov.generateGenHtmlTask, Lcov.generateZeroCountersTask,
              Lcov.generateCaptureTask, Lcov.generateExcludeTask, bind_assoc, pure_bind,
              Bool.false_eq_true, if_true, if_false, Program.translate_bind,
              Program.translate_pure, translate_dereference, translate_forEachCombination,
              translate_execute, translate_ifSucceeds, translate_ite,
              translate_runTask unnoticed, unnoticed.append, apply_ite change]

private theorem mapM_bind_pure {α β γ : Type} (body : α → PluginProgram β) (image : β → γ)
    (inputs : List α) :
    (inputs.mapM fun input => do
      let output ← body input
      return image output) = (do
      let outputs ← inputs.mapM body
      return outputs.map image) := by
  induction inputs with
  | nil => rfl
  | cons input rest inductionHypothesis =>
      simp only [List.mapM_cons, inductionHypothesis, bind_assoc, pure_bind, List.map_cons]

/-- The tasks of the command lines: the command line itself, or the arguments of every
identifier. -/
private def commandLineTasks (task : Task) (plain : Bool) (commandLine keys : TaskCollection)
    (arguments : String → Option TaskCollection) : PluginProgram (List Task) :=
  if plain then pure [task.append commandLine]
  else keys.mapM fun commandKey => do
    let arguments ← dereference .commandLineCommand (arguments commandKey)
    return task.append arguments

private theorem commandLineTasks_change (unnoticed : Unnoticed currentPath change) (task : Task)
    (plain : Bool) (commandLine keys : TaskCollection)
    (arguments : String → Option TaskCollection) :
    commandLineTasks (change task) plain commandLine keys arguments = (do
      let tasks ← (commandLineTasks task plain commandLine keys arguments).translate
        (taskTranslation change)
      return tasks.map change) := by
  cases plain with
  | true => exact congrArg (fun changed => pure [changed]) (unnoticed.append task commandLine).symm
  | false =>
      simp only [commandLineTasks, Bool.false_eq_true, if_false, Program.translate_mapM,
        Program.translate_bind, translate_dereference, Program.translate_pure, mapM_bind_pure,
        bind_assoc, pure_bind, List.map_map, Function.comp_def, unnoticed.append]

theorem carries_commandLineCommand (unnoticed : Unnoticed currentPath change) :
    Plugin.commandLineCommand.Carries currentPath change := by
  intro fuel task variablesMap patterns
  have configured : (CommandLineCommand.configuredTask currentPath task variablesMap).map change =
      CommandLineCommand.configuredTask currentPath (change task) variablesMap := by
    rw [CommandLineCommand.configuredTask, CommandLineCommand.configuredTask]
    cases variablesMap.getString [WORKING_DIR_KEY] with
    | none => exact congrArg some (unnoticed.appendToEnvironment task _)
    | some workingDir =>
        exact (unnoticed.setWorkingDirectory _ workingDir).trans
          (congrArg (·.setWorkingDirectory currentPath workingDir)
            (unnoticed.appendToEnvironment task _))
  -- Everything after the environment and the working directory of the task.
  have rest : ∀ (completed : Task) plain commandLine keys arguments,
      (do
        let tasks ← commandLineTasks (change completed) plain commandLine keys arguments
        forEachCombination fuel patterns fun combination =>
          tasks.allM fun executeTask => do
            let newTask ← orTerminate
              (replacePatternCombinations currentPath executeTask combination)
            registerTask newTask) =
      Program.translate (taskTranslation change) (do
        let tasks ← commandLineTasks completed plain commandLine keys arguments
        forEachCombination fuel patterns fun combination =>
          tasks.allM fun executeTask => do
            let newTask ← orTerminate
              (replacePatternCombinations currentPath executeTask combination)
            registerTask newTask) := by
    intro completed plain commandLine keys arguments
    rw [commandLineTasks_change unnoticed, Program.translate_bind, bind_assoc]
    congr 1
    funext tasks
    rw [pure_bind, translate_forEachCombination]
    congr 1
    funext combination
    exact (translate_allM (fun task => translate_registration unnoticed task combination)
      tasks).symm
  rw [Plugin.apply, Plugin.apply, CommandLineCommand.apply, CommandLineCommand.apply]
  refine (translate_orTerminate configured fun completed => ?_).symm
  rw [Program.translate_bind, translate_dereference]
  congr 1
  funext commandLine
  cases commandLine with
  | nil => rfl
  | cons front others => exact (rest completed _ (front :: others) _ _).symm

end BuiltIn

/-! ## Scripts -/

/-- The run of a script with its tasks changed. -/
def ScriptRun.mapTask (change : Task → Task) : ScriptRun → ScriptRun
  | .finished => .finished
  | .failed error => .failed error
  | .undefined => .undefined
  | .diverged => .diverged
  | .userFeedbackError message next => .userFeedbackError message (next.mapTask change)
  | .registerTask task next => .registerTask (change task) (next.mapTask change)
  | .runTarget task commands next =>
      .runTarget (change task) commands fun result => (next result).mapTask change

/-- The script does with a changed task what it does with the task. -/
def LuaScript.Carries (change : Task → Task) (script : LuaScript) : Prop :=
  ∀ verbose jobs config task patterns,
    script.run verbose jobs config (change task) patterns =
      (script.run verbose jobs config task patterns).mapTask change

section Scripts

variable {currentPath : CurrentPath} {change : Task → Task}

theorem translate_runTarget (unnoticed : Unnoticed currentPath change) (fuel : Nat)
    (patterns : Patterns) (task : Task) (commands : CommandCollection) :
    (LuaPlugin.runTarget currentPath fuel patterns task commands).translate
        (taskTranslation change) =
      LuaPlugin.runTarget currentPath fuel patterns (change task) commands := by
  simp only [LuaPlugin.runTarget, translate_forEachCombination, translate_execution unnoticed]

theorem translate_registerTasks (unnoticed : Unnoticed currentPath change) (fuel : Nat)
    (patterns : Patterns) (tasks : List Task) :
    (LuaPlugin.registerTasks currentPath fuel patterns tasks).translate (taskTranslation change) =
      LuaPlugin.registerTasks currentPath fuel patterns (tasks.map change) := by
  apply translate_allM
  intro task
  rw [translate_forEachCombination]
  simp only [translate_registration unnoticed]

theorem translate_runScript (unnoticed : Unnoticed currentPath change) (fuel : Nat) (path : Path)
    (patterns : Patterns) (run : ScriptRun) (tasks : List Task) (failed : Bool) :
    (LuaPlugin.runScript currentPath fuel path patterns run tasks failed).translate
        (taskTranslation change) =
      LuaPlugin.runScript currentPath fuel path patterns (run.mapTask change)
        (tasks.map change) failed := by
  induction run generalizing tasks failed with
  | finished =>
      rw [ScriptRun.mapTask, LuaPlugin.runScript, LuaPlugin.runScript]
      cases failed <;>
        simp only [Bool.false_eq_true, if_true, if_false, Program.translate_bind, translate_host,
          HostEvent.mapTask, translate_registerTasks unnoticed]
  | failed error =>
      rw [ScriptRun.mapTask, LuaPlugin.runScript, LuaPlugin.runScript]
      cases error.feedback path <;> rfl
  | undefined => rfl
  | diverged => rfl
  | userFeedbackError message next inductionHypothesis =>
      rw [ScriptRun.mapTask, LuaPlugin.runScript, LuaPlugin.runScript, Program.translate_bind,
        translate_feedbackError]
      simp only [inductionHypothesis]
  | registerTask task next inductionHypothesis =>
      rw [ScriptRun.mapTask, LuaPlugin.runScript, LuaPlugin.runScript, inductionHypothesis,
        List.map_append, List.map_singleton]
  | runTarget task commands next inductionHypothesis =>
      rw [ScriptRun.mapTask, LuaPlugin.runScript, LuaPlugin.runScript, Program.translate_bind,
        translate_runTarget unnoticed]
      simp only [inductionHypothesis]

private theorem translate_jobs (config : VariablesMap) :
    (LuaPlugin.jobs config).translate (taskTranslation change) = LuaPlugin.jobs config := by
  rw [LuaPlugin.jobs]
  cases (config.getValues [JOBS_KEY]).bind List.getLast? with
  | none => rfl
  | some back =>
      dsimp only
      cases Cast.parseUInt32 back <;> rfl

theorem carries_luaPlugin (unnoticed : Unnoticed currentPath change) {script : LuaScript}
    (carries : script.Carries change) : (Plugin.luaPlugin script).Carries currentPath change := by
  intro fuel task config patterns
  rw [Plugin.apply, Plugin.apply, LuaPlugin.apply, LuaPlugin.apply]
  refine (translate_orTerminate ?_ fun completed => ?_).symm
  · cases config.getString [WORKING_DIR_KEY] with
    | none => rfl
    | some workingDir => exact unnoticed.setWorkingDirectory task workingDir
  · rw [Program.translate_bind, translate_jobs]
    congr 1
    funext jobs
    rw [translate_runScript unnoticed, ← carries, List.map_nil, unnoticed.appendToEnvironment]

theorem mapTask_after (messages : List String) (run : ScriptRun) :
    (ScriptRun.after messages run).mapTask change = .after messages (run.mapTask change) := by
  induction messages with
  | nil => rfl
  | cons message rest inductionHypothesis =>
      exact congrArg (ScriptRun.userFeedbackError message) inductionHypothesis

/-- An ending hands its task on as it comes, with its arguments behind it. -/
theorem ScriptEnding.run_change (unnoticed : Unnoticed currentPath change) (ending : ScriptEnding)
    (task : Task) : ending.run (change task) = (ending.run task).mapTask change := by
  cases ending <;> simp only [run, ScriptRun.mapTask, unnoticed.append]

/-- No bundled script notices a change of its task. -/
theorem Script.carries_file (unnoticed : Unnoticed currentPath change)
    {entry : String × Script Unit} (member : entry ∈ Script.bundled) (path : Path)
    (pairs : LuaConfig.Table → List (String × String)) (callbackError : String) :
    (entry.2.file path pairs callbackError).Carries change := by
  intro verbose jobs config task patterns
  obtain ⟨messages, ending, ends⟩ := (Script.concludes_of_mem_bundled member).concludes
    { verbose, jobs, config, pairs, callbackError }
  rw [Script.file]
  dsimp only
  rw [ends, ends, mapTask_after, ScriptEnding.run_change unnoticed]

end Scripts

/-! ## Words in front -/

/-- The task with words in front of its own. -/
def prepend (words : TaskCollection) (task : Task) : Task :=
  { task with task := words ++ task.task }

/-- Nothing can be substituted in the words. -/
def Verbatim (words : TaskCollection) : Prop := ∀ word ∈ words, '{' ∉ word.toList

theorem unnoticed_prepend {words : TaskCollection} (verbatim : Verbatim words)
    (currentPath : CurrentPath) : Unnoticed currentPath (prepend words) where
  append task taskPart := by simp [prepend, Task.append]
  appendToEnvironment task newValue := by simp [prepend, Task.appendToEnvironment_eq]
  setWorkingDirectory task workingDirectory := by
    rw [Task.setWorkingDirectory_eq, Task.setWorkingDirectory_eq]
    split <;> rfl
  replacePatternCombinations task combination := by
    have unchanged : words.map (fun word => replaceCombinations word combination) = words := by
      conv_rhs => rw [← List.map_id words]
      apply List.map_congr_left
      intro word member
      exact replaceCombinations_of_notMem (verbatim word member) combination
    have same : prepend words (substitutedTask currentPath task combination) =
        substitutedTask currentPath (prepend words task) combination := by
      simp [prepend, substitutedTask, substituted, withPWD, unchanged]
    rw [replacePatternCombinations_eq, replacePatternCombinations_eq, ← same]
    exact apply_ite (Option.map (prepend words)) _ _ _

/-- The scripts of the plugins that are loaded are bundled ones. -/
def Context.OnlyBundled (context : Context) : Prop :=
  ∀ (name : String) (script : LuaScript), context.plugins[name]? = some (.luaPlugin script) →
    ∃ entry ∈ Script.bundled, ∃ path pairs callbackError,
      script = entry.2.file path pairs callbackError

namespace ExecutePlugin

section Run

variable {σ : Type} {context : Context} {words : TaskCollection} {command : Command}

/-- A script is found in the table of the plugins. -/
theorem getElem?_of_luaPlugin {script : LuaScript}
    (found : getNextStep context command = some (.plugin (.luaPlugin script))) :
    context.plugins[command]? = some (.luaPlugin script) := by
  rw [getNextStep] at found
  split at found
  · rw [getPlugin] at found
    cases loaded : context.plugins[command]? with
    | some plugin => simpa [loaded] using found
    | none =>
        rw [loaded] at found
        change (builtInPlugin command).map NextStep.plugin = _ at found
        rw [builtInPlugin.eq_def] at found
        split at found <;> simp at found
  · simp at found

/-- No plugin a command can resolve to notices the words. -/
theorem carries_prepend (verbatim : Verbatim words) (onlyBundled : context.OnlyBundled)
    {plugin : Plugin} (found : getNextStep context command = some (.plugin plugin)) :
    plugin.Carries context.currentPath (prepend words) := by
  have unnoticed := unnoticed_prepend verbatim context.currentPath
  cases plugin with
  | commandLineCommand => exact carries_commandLineCommand unnoticed
  | memory returnCode => exact carries_memory returnCode
  | valgrind => exact carries_valgrind unnoticed
  | pmd => exact carries_pmd unnoticed
  | lcov => exact carries_lcov unnoticed
  | commandPlugin => exact carries_commandPlugin
  | luaPlugin script =>
      obtain ⟨entry, member, path, pairs, callbackError, rfl⟩ :=
        onlyBundled command script (getElem?_of_luaPlugin found)
      exact carries_luaPlugin unnoticed (Script.carries_file unnoticed member path pairs _)

/-- The surroundings see changed tasks. -/
def changed (host : RunEvent → EStateM Stop σ Unit) (change : Task → Task) (event : RunEvent) :
    EStateM Stop σ Unit :=
  host (event.mapTask change)

theorem stepInto_changed (host : RunEvent → EStateM Stop σ Unit) (change : Task → Task)
    (command initialCommand : Command)
    {rest changedRest : NextStep → VariablesMap → Patterns → EStateM Stop σ Bool}
    (same : ∀ step, getNextStep context command = some step → ∀ variablesMap patterns,
      changedRest step variablesMap patterns = rest step variablesMap patterns) :
    stepInto (changed host change) context command initialCommand changedRest =
      stepInto host context command initialCommand rest := by
  have reported : ∀ variablesMap, getNextPatterns (changed host change) context variablesMap =
      getNextPatterns host context variablesMap := by
    intro variablesMap
    rw [getNextPatterns, getNextPatterns]
    generalize (variablesMap.getValues [patternsKey]).getD [] = keys
    induction keys with
    | nil => rfl
    | cons key rest inductionHypothesis =>
        rw [getNextPatterns.go, getNextPatterns.go, inductionHypothesis]
        rfl
  rw [stepInto, stepInto]
  cases found : getNextStep context command with
  | none => rfl
  | some step =>
      have related : changedRest step = rest step :=
        funext fun variablesMap => funext (same step found variablesMap)
      simp only [reported, related]
      rfl

/-- A run with words in front of its task goes as it does without them, and hands over the
same tasks with the words in front. -/
theorem run_prepend (host : RunEvent → EStateM Stop σ Unit) (context : Context)
    (onlyBundled : context.OnlyBundled) (words : TaskCollection) (verbatim : Verbatim words)
    (fuel : Nat) (executePlugin : ExecutePlugin) (task : Task) :
    run host context fuel executePlugin (prepend words task) =
      run (changed host (prepend words)) context fuel executePlugin task := by
  have corresponds : Corresponds identical (prepend words) context context
      (changed host (prepend words)) host :=
    { host := fun _ => rfl
      applied := fun _ => rfl
      step := fun command initialCommand _ _ => stepInto_changed host _ command initialCommand
      stops := fun _ _ => rfl
      currentPath := rfl
      plugins := fun _ _ => carries_prepend verbatim onlyBundled }
  exact (run_corresponds corresponds fuel executePlugin task).symm

/-- `make` behind `valgrind`. -/
theorem run_prepend_make :
    run record
        { fleeting := {}, settings := ⟨"settings", none⟩, patterns := ∅,
          plugins := (∅ : PluginMap).insert "make"
            (.luaPlugin (Script.make.file "make.lua" ExtTreeMap.toList "")),
          currentPath := .root }
        3 (.ofCommands ["make"]) (prepend ["valgrind"] ⟨[], ∅, "/"⟩) =
      run (changed record (prepend ["valgrind"]))
        { fleeting := {}, settings := ⟨"settings", none⟩, patterns := ∅,
          plugins := (∅ : PluginMap).insert "make"
            (.luaPlugin (Script.make.file "make.lua" ExtTreeMap.toList "")),
          currentPath := .root }
        3 (.ofCommands ["make"]) ⟨[], ∅, "/"⟩ := by
  apply run_prepend
  · intro name script loaded
    rw [ExtTreeMap.getElem?_insert] at loaded
    split at loaded
    · obtain rfl := Plugin.luaPlugin.inj (Option.some.inj loaded)
      exact ⟨("make", Script.make), by simp [Script.bundled], "make.lua", ExtTreeMap.toList, "",
        rfl⟩
    · simp at loaded
  · intro word member
    obtain rfl := List.mem_singleton.mp member
    simp

end Run

end ExecutePlugin

end ExecHelper.Plugins
