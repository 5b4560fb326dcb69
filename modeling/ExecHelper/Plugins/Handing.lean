import ExecHelper.Plugins.BundledScripts
import ExecHelper.Plugins.Correspondence
import ExecHelper.Plugins.Coverage
import ExecHelper.Plugins.Expansion

/-!
# Tasks on their way through a run

A run starts with one task.  Whatever is registered in it was made from that task step by
step: plugins append words, add the configured environment, move to the configured
directory and substitute patterns, and have commands executed with what they made.  A
property of tasks that survives these changes therefore holds of every task of a run, and
a task is not registered before patterns have been substituted in it.
-/

namespace ExecHelper.Plugins

open ExecHelper.Library
open ExecHelper.Config
open ExecHelper.Core

/-! ## Changes to tasks -/

/-- A property that survives what plugins do to tasks, when they are called with these
variables. -/
structure KeptByPlugins (currentPath : CurrentPath) (available : VariablesMap → Prop)
    (property : Task → Prop) : Prop where
  append : ∀ task taskPart, property task → property (task.append taskPart)
  appendToEnvironment : ∀ task variablesMap, available variablesMap → property task →
    property (task.appendToEnvironment (getEnvironment variablesMap))
  setWorkingDirectory : ∀ task new variablesMap workingDir, available variablesMap →
    variablesMap.getString [WORKING_DIR_KEY] = some workingDir →
    task.setWorkingDirectory currentPath workingDir = some new → property task → property new
  replacePatternCombinations : ∀ task new combination,
    replacePatternCombinations currentPath task combination = some new → property task →
    property new

/-- The task comes from one with the property, and patterns have been substituted in it. -/
def SubstitutedFrom (currentPath : CurrentPath) (property : Task → Prop) (task : Task) : Prop :=
  ∃ queued combination, property queued ∧
    replacePatternCombinations currentPath queued combination = some task

theorem KeptByPlugins.of_substitutedFrom {currentPath : CurrentPath}
    {available : VariablesMap → Prop} {property : Task → Prop} {task : Task}
    (kept : KeptByPlugins currentPath available property)
    (substituted : SubstitutedFrom currentPath property task) : property task := by
  obtain ⟨queued, combination, holds, replaced⟩ := substituted
  exact kept.replacePatternCombinations queued task combination replaced holds

/-- Tasks are registered after a substitution, and commands are executed with tasks that
have the property. -/
def handingProtocol (currentPath : CurrentPath) (property : Task → Prop) :
    Protocol Stop pluginInterface where
  Phase := Unit
  allowed _ := True
  permitted _ op :=
    match op with
    | .host (.registerTask task) => SubstitutedFrom currentPath property task
    | .host _ => True
    | .execute _ task => property task
  advance _ _ _ := ()

/-- The program hands on only such tasks. -/
def Hands {α : Type} (currentPath : CurrentPath) (property : Task → Prop)
    (program : PluginProgram α) : Prop :=
  (handingProtocol currentPath property).Conforms (fun _ _ => True) program ()

/-- Called with a task with the property, the plugin hands on only such tasks. -/
def Plugin.Hands (currentPath : CurrentPath) (available : VariablesMap → Prop)
    (property : Task → Prop) (plugin : Plugin) : Prop :=
  ∀ fuel task variablesMap patterns, available variablesMap → property task →
    Plugins.Hands currentPath property (plugin.apply currentPath fuel task variablesMap patterns)

section Parts

variable {α β : Type} {currentPath : CurrentPath} {property : Task → Prop}

theorem hands_pure (value : α) : Hands currentPath property (pure value : PluginProgram α) :=
  trivial

theorem hands_stop (reason : Stop) :
    Hands currentPath property (.stop reason : PluginProgram α) := trivial

theorem Hands.bind {first : PluginProgram α} {second : α → PluginProgram β}
    (firstHands : Hands currentPath property first)
    (secondHands : ∀ value, Hands currentPath property (second value)) :
    Hands currentPath property (first >>= second) :=
  Protocol.Conforms.bind firstHands fun value _ _ => secondHands value

theorem hands_feedbackError (text : String) :
    Hands currentPath property (feedbackError text) := ⟨trivial, fun _ => trivial⟩

theorem hands_failureDropped :
    Hands currentPath property (host .failureDropped) := ⟨trivial, fun _ => trivial⟩

/-- What follows is reached with a value only. -/
theorem hands_orTerminate {value : Option α} {next : α → PluginProgram β}
    (nextHands : ∀ result, value = some result → Hands currentPath property (next result)) :
    Hands currentPath property (orTerminate value >>= next) := by
  cases value with
  | none => exact hands_stop _
  | some value => exact nextHands value rfl

theorem hands_registerReplaced {task : Task} (holds : property task)
    (combination : PatternCombinations) :
    Hands currentPath property (do
      let newTask ← orTerminate (replacePatternCombinations currentPath task combination)
      registerTask newTask) :=
  hands_orTerminate fun _ replaced => ⟨⟨task, combination, holds, replaced⟩, fun _ => trivial⟩

theorem hands_execute {task : Task} (holds : property task) (commands : CommandCollection) :
    Hands currentPath property (execute commands task) :=
  ⟨holds, fun _ => trivial⟩

/-- What commands are executed with has the property. -/
theorem Hands.of_performs {program : PluginProgram α} (hands : Hands currentPath property program)
    {commands : CommandCollection} {task : Task}
    (performs : program.Performs (PluginOp.execute commands task)) : property task := by
  obtain ⟨_, permitted⟩ := Protocol.Conforms.exists_permitted hands performs
  exact permitted

theorem hands_dereference (site : Dereference) (value : Option α) :
    Hands currentPath property (dereference site value) := by
  cases value with
  | none => exact hands_stop _
  | some value => exact hands_pure value

/-- There is only one phase to end in. -/
private theorem hands_iff_endsIn {program : PluginProgram Bool} :
    Hands currentPath property program ↔
      (handingProtocol currentPath property).Conforms
        ((handingProtocol currentPath property).EndsIn () fun _ => True) program () := by
  constructor
  · intro hands
    apply hands.imp
    intro value _ _
    cases value with
    | true => rfl
    | false => trivial
  · exact fun conforms => conforms.imp fun _ _ _ => trivial

theorem hands_allM {body : α → PluginProgram Bool} {inputs : List α}
    (bodies : ∀ input ∈ inputs, Hands currentPath property (body input)) :
    Hands currentPath property (inputs.allM body) := by
  rw [hands_iff_endsIn]
  exact conforms_allM fun input member => hands_iff_endsIn.mp (bodies input member)

theorem hands_forEachCombination (fuel : Nat) (patterns : Patterns)
    {body : PatternCombinations → PluginProgram Bool}
    (bodies : ∀ combination, Hands currentPath property (body combination)) :
    Hands currentPath property (forEachCombination fuel patterns body) := by
  rw [hands_iff_endsIn]
  apply conforms_forEachCombination trivial trivial
  exact fun combination => hands_iff_endsIn.mp (bodies combination)

end Parts

/-! ## The built-in plugins -/

section BuiltIn

variable {currentPath : CurrentPath} {available : VariablesMap → Prop} {property : Task → Prop}
variable {variablesMap : VariablesMap} {task : Task}

theorem KeptByPlugins.foldl_append {α : Type}
    (kept : KeptByPlugins currentPath available property) (part : α → TaskCollection)
    (values : List α) (holds : property task) :
    property (values.foldl (fun task value => task.append (part value)) task) := by
  induction values generalizing task with
  | nil => exact holds
  | cons value rest inductionHypothesis =>
      rw [List.foldl_cons]
      exact inductionHypothesis (kept.append task (part value) holds)

theorem KeptByPlugins.configuredTask (kept : KeptByPlugins currentPath available property)
    (resolved : available variablesMap) (holds : property task) {new : Task}
    (sets : CommandLineCommand.configuredTask currentPath task variablesMap = some new) :
    property new := by
  have inEnvironment := kept.appendToEnvironment task variablesMap resolved holds
  rw [CommandLineCommand.configuredTask] at sets
  cases configured : variablesMap.getString [WORKING_DIR_KEY] with
  | none =>
      rw [configured] at sets
      rw [← Option.some.inj sets]
      exact inEnvironment
  | some workingDir =>
      rw [configured] at sets
      exact kept.setWorkingDirectory _ new variablesMap workingDir resolved configured sets
        inEnvironment

theorem hands_commandLineCommand (kept : KeptByPlugins currentPath available property) :
    Plugin.commandLineCommand.Hands currentPath available property := by
  intro fuel task variablesMap patterns resolved holds
  rw [Plugin.apply]
  rcases CommandLineCommand.apply_cases currentPath task variablesMap patterns with
    ⟨-, stops⟩ | ⟨-, stops⟩ | reports | ⟨configured, commandLines, sets, registers⟩
  · rw [stops]
    exact hands_stop _
  · rw [stops]
    exact hands_stop _
  · rw [reports]
    exact (hands_feedbackError _).bind fun _ => hands_pure _
  · rw [registers]
    apply hands_forEachCombination
    intro combination
    apply hands_allM
    intro executeTask member
    obtain ⟨commandLine, -, rfl⟩ := List.mem_map.mp member
    apply hands_registerReplaced
    exact kept.append _ _ (kept.configuredTask resolved holds sets)

theorem hands_memory (returnCode : Bool) :
    (Plugin.memory returnCode).Hands currentPath available property :=
  fun _ _ _ _ _ _ => ⟨trivial, fun _ => trivial⟩

theorem hands_commandPlugin : Plugin.commandPlugin.Hands currentPath available property := by
  intro fuel task variablesMap patterns _ holds
  rw [Plugin.apply, CommandPlugin.apply]
  apply (hands_dereference _ _).bind
  exact hands_execute holds

/-- The task of the source code analyser. -/
def Pmd.analysis (binaryName tool verbosity : String) (commandLine : TaskCollection)
    (variablesMap : VariablesMap) (task : Task) : Task :=
  let task := task.append [binaryName ++ "-" ++ tool]
  let task :=
    match variablesMap.getString [Pmd.LANGUAGE_KEY] with
    | some language => task.append ["--language", language]
    | none => task
  let task := if verbosity = "yes" then task.append ["-verbose"] else task
  let task :=
    if tool = "cpd" then
      let task :=
        match variablesMap.getString [Pmd.MINIMUM_TOKENS_KEY] with
        | some minimumTokens => task.append ["--minimum-tokens", minimumTokens]
        | none => task
      ((variablesMap.getValues [Pmd.FILES_KEY]).getD []).foldl
        (fun task file => task.append ["--files", file]) task
    else task
  task.append commandLine

theorem KeptByPlugins.pmdAnalysis (kept : KeptByPlugins currentPath available property)
    (binaryName tool verbosity : String) (commandLine : TaskCollection) (holds : property task) :
    property (Pmd.analysis binaryName tool verbosity commandLine variablesMap task) := by
  rw [Pmd.analysis]
  apply kept.append
  have named := kept.append task [binaryName ++ "-" ++ tool] holds
  have files : ∀ task, property task →
      property (((variablesMap.getValues [Pmd.FILES_KEY]).getD []).foldl
        (fun task file => task.append ["--files", file]) task) :=
    fun _ => kept.foldl_append (fun file => ["--files", file]) _
  cases variablesMap.getString [Pmd.LANGUAGE_KEY] <;>
    cases variablesMap.getString [Pmd.MINIMUM_TOKENS_KEY] <;>
      split_ifs <;>
        apply_rules [named, kept.append, files]

theorem hands_pmd (kept : KeptByPlugins currentPath available property) :
    Plugin.pmd.Hands currentPath available property := by
  intro fuel task variablesMap patterns _ holds
  rw [Plugin.apply, Pmd.apply]
  apply (hands_dereference _ _).bind
  intro binaryName
  apply (hands_dereference _ _).bind
  intro tool
  apply (hands_dereference _ _).bind
  intro verbosity
  apply (hands_dereference _ _).bind
  intro commandLine
  apply hands_forEachCombination
  exact hands_registerReplaced (kept.pmdAnalysis binaryName tool verbosity commandLine holds)

/-- The task that starts the memory analyser. -/
def Valgrind.analysis (verbosity : Bool) (commandLine : TaskCollection)
    (variablesMap : VariablesMap) (task : Task) : Task :=
  let task := task.append [Valgrind.PLUGIN_NAME]
  let task :=
    match variablesMap.getString [Valgrind.TOOL_KEY] with
    | some tool => task.append ["--tool=" ++ tool]
    | none => task
  let task := if verbosity then task.append ["--verbose"] else task
  task.append commandLine

theorem KeptByPlugins.valgrindAnalysis (kept : KeptByPlugins currentPath available property)
    (verbosity : Bool) (commandLine : TaskCollection) (holds : property task) :
    property (Valgrind.analysis verbosity commandLine variablesMap task) := by
  rw [Valgrind.analysis]
  have named := kept.append task [Valgrind.PLUGIN_NAME] holds
  cases variablesMap.getString [Valgrind.TOOL_KEY] <;> cases verbosity <;>
    apply_rules [named, kept.append]

theorem hands_valgrind (kept : KeptByPlugins currentPath available property) :
    Plugin.valgrind.Hands currentPath available property := by
  intro fuel task variablesMap patterns _ holds
  rw [Plugin.apply, Valgrind.apply]
  cases variablesMap.getValues [Valgrind.RUN_COMMAND_KEY] with
  | none => exact (hands_feedbackError _).bind fun _ => hands_pure _
  | some runCommand =>
      apply (hands_dereference _ _).bind
      intro verbosity
      apply (hands_dereference _ _).bind
      intro commandLine
      apply hands_forEachCombination
      intro combination
      apply hands_orTerminate
      intro newTask replaced
      apply hands_execute
      exact kept.replacePatternCombinations _ newTask combination replaced
        (kept.valgrindAnalysis verbosity commandLine holds)

theorem hands_registerTasks (combination : PatternCombinations) {tasks : List Task}
    (holds : ∀ task ∈ tasks, property task) :
    Hands currentPath property (Lcov.registerTasks currentPath combination tasks) := by
  rw [Lcov.registerTasks]
  induction tasks with
  | nil => exact hands_pure ()
  | cons task rest inductionHypothesis =>
      obtain ⟨first, later⟩ := List.forall_mem_cons.mp holds
      rw [List.forM_eq_forM, List.forM_cons]
      refine Hands.bind (hands_orTerminate fun newTask replaced => ?_)
        fun _ => inductionHypothesis later
      exact ⟨⟨task, combination, first, replaced⟩, fun _ => trivial⟩

theorem hands_lcov (kept : KeptByPlugins currentPath available property) :
    Plugin.lcov.Hands currentPath available property := by
  intro fuel task variablesMap patterns _ holds
  rw [Plugin.apply]
  cases configured : variablesMap.getValues [Lcov.RUN_COMMAND] with
  | none =>
      rw [Lcov.apply, configured]
      exact (hands_feedbackError _).bind fun _ => hands_pure _
  | some runCommands =>
      by_cases given : runCommands = []
      · rw [Lcov.apply, configured, given]
        exact (hands_feedbackError _).bind fun _ => hands_pure _
      · rw [Lcov.apply_eq fuel patterns configured given]
        apply (hands_dereference _ _).bind
        intro settings
        apply hands_forEachCombination
        intro combination
        have appended : ∀ arguments, property (task.append arguments) :=
          fun arguments => kept.append task arguments holds
        apply (hands_registerTasks combination (settings.forall_tasksBefore appended)).bind
        intro _
        apply (hands_execute holds runCommands).bind
        intro succeeded
        cases succeeded with
        | false => exact hands_pure false
        | true =>
            exact (hands_registerTasks combination (settings.forall_tasksAfter appended)).bind
              fun _ => hands_pure true

end BuiltIn

/-! ## Scripts -/

/-- The script registers, and executes commands with, only tasks with the property, whatever
it is answered. -/
def ScriptRun.Uses (property : Task → Prop) : ScriptRun → Prop
  | .registerTask task next => property task ∧ next.Uses property
  | .runTarget task _ next => property task ∧ ∀ succeeded, (next succeeded).Uses property
  | .userFeedbackError _ next => next.Uses property
  | _ => True

/-- Called with a task with the property, the script uses only such tasks. -/
def LuaScript.Keeps (property : Task → Prop) (script : LuaScript) : Prop :=
  ∀ verbose jobs config task patterns, property task →
    (script.run verbose jobs config task patterns).Uses property

section Scripts

variable {currentPath : CurrentPath} {available : VariablesMap → Prop} {property : Task → Prop}

theorem uses_of_forall (holds : ∀ task, property task) (run : ScriptRun) :
    run.Uses property := by
  induction run with
  | registerTask task next inductionHypothesis => exact ⟨holds task, inductionHypothesis⟩
  | runTarget task commands next inductionHypothesis => exact ⟨holds task, inductionHypothesis⟩
  | userFeedbackError message next inductionHypothesis => exact inductionHypothesis
  | finished => trivial
  | failed error => trivial
  | undefined => trivial
  | diverged => trivial

theorem hands_runScript (kept : KeptByPlugins currentPath available property) (fuel : Nat)
    (script : Path) (patterns : Patterns) {run : ScriptRun} (uses : run.Uses property)
    {tasks : List Task} (queued : ∀ task ∈ tasks, property task) (failed : Bool) :
    Hands currentPath property
      (LuaPlugin.runScript currentPath fuel script patterns run tasks failed) := by
  induction run generalizing tasks failed with
  | finished =>
      rw [LuaPlugin.runScript]
      have registers : Hands currentPath property
          (LuaPlugin.registerTasks currentPath fuel patterns tasks) := by
        apply hands_allM
        intro task member
        exact hands_forEachCombination fuel patterns (hands_registerReplaced (queued task member))
      cases failed with
      | true => exact hands_failureDropped.bind fun _ => registers
      | false => exact registers
  | failed error =>
      rw [LuaPlugin.runScript]
      cases error.feedback script with
      | none => exact hands_pure false
      | some message => exact (hands_feedbackError message).bind fun _ => hands_pure false
  | undefined => exact hands_stop _
  | diverged => exact hands_stop _
  | userFeedbackError message next inductionHypothesis =>
      rw [LuaPlugin.runScript]
      exact (hands_feedbackError message).bind fun _ => inductionHypothesis uses queued failed
  | registerTask task next inductionHypothesis =>
      rw [LuaPlugin.runScript]
      apply inductionHypothesis uses.2
      intro other member
      rcases List.mem_append.mp member with earlier | last
      · exact queued other earlier
      · rw [List.mem_singleton.mp last]
        exact uses.1
  | runTarget task commands next inductionHypothesis =>
      rw [LuaPlugin.runScript]
      have target : Hands currentPath property
          (LuaPlugin.runTarget currentPath fuel patterns task commands) := by
        apply hands_forEachCombination
        intro combination
        apply hands_orTerminate
        intro newTask replaced
        exact hands_execute
          (kept.replacePatternCombinations task newTask combination replaced uses.1) _
      apply target.bind
      exact fun result => inductionHypothesis result (uses.2 result) queued _

/-- The task a script is started with. -/
theorem KeptByPlugins.scriptTask (kept : KeptByPlugins currentPath available property)
    {config : VariablesMap} (resolved : available config) {task new : Task}
    (holds : property task)
    (sets : (match config.getString [WORKING_DIR_KEY] with
      | some workingDir => task.setWorkingDirectory currentPath workingDir
      | none => some task) = some new) :
    property (new.appendToEnvironment (getEnvironment config)) := by
  apply kept.appendToEnvironment _ config resolved
  cases directory : config.getString [WORKING_DIR_KEY] with
  | none =>
      rw [directory] at sets
      rw [← Option.some.inj sets]
      exact holds
  | some workingDir =>
      rw [directory] at sets
      exact kept.setWorkingDirectory task new config workingDir resolved directory sets holds

theorem hands_luaPlugin (kept : KeptByPlugins currentPath available property)
    {script : LuaScript} (keeps : script.Keeps property) :
    (Plugin.luaPlugin script).Hands currentPath available property := by
  intro fuel task config patterns resolved holds
  rw [Plugin.apply, LuaPlugin.apply]
  apply hands_orTerminate
  intro configured sets
  have jobs : Hands currentPath property (LuaPlugin.jobs config) := by
    rw [LuaPlugin.jobs]
    split
    · exact hands_pure _
    · split
      · exact hands_pure _
      · exact (hands_feedbackError _).bind fun _ => hands_pure _
  apply jobs.bind
  intro jobs
  apply hands_runScript kept fuel script.path patterns _ (List.forall_mem_nil _)
  apply keeps
  exact kept.scriptTask resolved holds sets

theorem ScriptRun.uses_after (messages : List String) {run : ScriptRun}
    (uses : run.Uses property) : (ScriptRun.after messages run).Uses property := by
  induction messages with
  | nil => exact uses
  | cons message rest inductionHypothesis => exact inductionHypothesis

/-- The bundled scripts use the task they are called with, with arguments behind it. -/
theorem Script.keeps_file
    (append : ∀ task taskPart, property task → property (task.append taskPart))
    {entry : String × Script Unit} (member : entry ∈ Script.bundled) (path : Path)
    (pairs : LuaConfig.Table → List (String × String)) (callbackError : String) :
    (entry.2.file path pairs callbackError).Keeps property := by
  intro verbose jobs config task patterns holds
  obtain ⟨messages, ending, ends⟩ := (Script.concludes_of_mem_bundled member).concludes
    { verbose, jobs, config, pairs, callbackError }
  rw [Script.file]
  dsimp only
  rw [ends]
  apply ScriptRun.uses_after
  cases ending with
  | undefined => trivial
  | failed error => trivial
  | registers arguments => exact ⟨append task arguments holds, trivial⟩
  | executes arguments commands => exact ⟨append task arguments holds, fun _ => trivial⟩

theorem Plugin.hands (kept : KeptByPlugins currentPath available property) {plugin : Plugin}
    (scripts : ∀ script, plugin = .luaPlugin script → script.Keeps property) :
    plugin.Hands currentPath available property := by
  cases plugin with
  | commandLineCommand => exact hands_commandLineCommand kept
  | memory returnCode => exact hands_memory returnCode
  | valgrind => exact hands_valgrind kept
  | pmd => exact hands_pmd kept
  | lcov => exact hands_lcov kept
  | commandPlugin => exact hands_commandPlugin
  | luaPlugin script => exact hands_luaPlugin kept (scripts script rfl)

end Scripts

/-! ## Steps of an execution -/

/-- The command, executed for an initial one, is resolved to the step with the variables. -/
def Context.ResolvesTo (context : Context) (command initialCommand : Command) (step : NextStep)
    (variablesMap : VariablesMap) : Prop :=
  ExecutePlugin.getNextStep context command = some step ∧
    ExecutePlugin.getVariablesMap (ExecutePlugin.stepVariables context.fleeting step)
      (ExecutePlugin.sectionKeys command initialCommand) context.settings = .ok variablesMap

/-- Some command is resolved to these variables. -/
def Context.Resolves (context : Context) (variablesMap : VariablesMap) : Prop :=
  ∃ command initialCommand step, context.ResolvesTo command initialCommand step variablesMap

namespace ExecutePlugin

section Steps

variable {σ τ : Type} {simulation : Simulation Stop σ τ} {context : Context}
variable {left : RunEvent → EStateM Stop σ Unit} {right : RunEvent → EStateM Stop τ Unit}

/-- What an execution does besides its steps is related: its messages and marks. -/
structure RelatesMarks (simulation : Simulation Stop σ τ) (left : RunEvent → EStateM Stop σ Unit)
    (right : RunEvent → EStateM Stop τ Unit) : Prop where
  feedbackError : ∀ text, simulation.Related (left (.host (.feedbackError text)))
    (right (.host (.feedbackError text)))
  resolving : ∀ command initialCommand, simulation.Related
    (left (.resolving command initialCommand)) (right (.resolving command initialCommand))
  applied : ∀ result, simulation.Related (left (.applied result)) (right (.applied result))

theorem RelatesMarks.relates_getNextPatterns (marks : RelatesMarks simulation left right)
    (variablesMap : VariablesMap) {leftRest : Patterns → EStateM Stop σ Bool}
    {rightRest : Patterns → EStateM Stop τ Bool}
    (continues : simulation.Related (leftRest (knownPatterns context variablesMap))
      (rightRest (knownPatterns context variablesMap))) :
    simulation.Related (getNextPatterns left context variablesMap >>= leftRest)
      (getNextPatterns right context variablesMap >>= rightRest) := by
  revert continues
  rw [getNextPatterns, getNextPatterns, knownPatterns]
  generalize (variablesMap.getValues [patternsKey]).getD [] = keys
  intro continues
  induction keys generalizing leftRest rightRest with
  | nil => exact continues
  | cons key rest inductionHypothesis =>
      rw [List.filterMap_cons] at continues
      rw [getNextPatterns.go, getNextPatterns.go]
      cases found : context.patterns[key]? with
      | some pattern =>
          rw [found] at continues
          dsimp only
          rw [bind_assoc, bind_assoc]
          simp only [pure_bind]
          exact inductionHypothesis continues
      | none =>
          rw [found] at continues
          dsimp only
          rw [bind_assoc, bind_assoc]
          apply simulation.bind (marks.feedbackError _)
          intro _
          exact inductionHypothesis continues

theorem RelatesMarks.relates_stepInto (marks : RelatesMarks simulation left right)
    {command initialCommand : Command}
    {leftRest : NextStep → VariablesMap → Patterns → EStateM Stop σ Bool}
    {rightRest : NextStep → VariablesMap → Patterns → EStateM Stop τ Bool}
    (index : getNextStep context command ≠ none →
      ¬Resolvable context.settings command initialCommand →
        simulation.RelatesStop (.emptyOptional .index))
    (continues : ∀ step variablesMap,
      context.ResolvesTo command initialCommand step variablesMap → simulation.Related
        (leftRest step variablesMap (knownPatterns context variablesMap))
        (rightRest step variablesMap (knownPatterns context variablesMap))) :
    simulation.Related (stepInto left context command initialCommand leftRest)
      (stepInto right context command initialCommand rightRest) := by
  rw [stepInto, stepInto]
  cases found : getNextStep context command with
  | none => exact simulation.bind (marks.feedbackError _) fun _ => simulation.pure false
  | some step =>
      dsimp only
      rw [resolve, resolve, bind_assoc, bind_assoc]
      apply simulation.bind (marks.resolving command initialCommand)
      intro _
      rw [stepVariablesMap, stepVariablesMap]
      cases resolved : getVariablesMap (stepVariables context.fleeting step)
          (sectionKeys command initialCommand) context.settings with
      | error reason =>
          have missing : ¬Resolvable context.settings command initialCommand := by
            rw [← getVariablesMap_isOk_iff (stepVariables context.fleeting step), resolved]
            rintro ⟨_, impossible⟩
            cases impossible
          rw [getVariablesMap_error resolved]
          exact index (by simp [found]) missing
      | ok variablesMap =>
          dsimp only
          rw [pure_bind, pure_bind]
          apply marks.relates_getNextPatterns variablesMap
          exact continues step variablesMap ⟨found, resolved⟩

section Calls

variable {leftCall : Plugin → Task → VariablesMap → Patterns → EStateM Stop σ Bool}
variable {rightCall : Plugin → Task → VariablesMap → Patterns → EStateM Stop τ Bool}
variable {leftNested : ExecutePlugin → Task → EStateM Stop σ Bool}
variable {rightNested : ExecutePlugin → Task → EStateM Stop τ Bool}

theorem RelatesMarks.relates_applyCommands (marks : RelatesMarks simulation left right)
    (task : Task) {pairs : List (Command × Command)}
    (index : ∀ pair ∈ pairs, getNextStep context pair.1 ≠ none →
      ¬Resolvable context.settings pair.1 pair.2 →
        simulation.RelatesStop (.emptyOptional .index))
    (steps : ∀ pair ∈ pairs, ∀ step variablesMap,
      context.ResolvesTo pair.1 pair.2 step variablesMap → simulation.Related
        (applyStep leftCall leftNested step task variablesMap (knownPatterns context variablesMap))
        (applyStep rightCall rightNested step task variablesMap
          (knownPatterns context variablesMap))) :
    simulation.Related (applyCommands left context leftCall leftNested task pairs)
      (applyCommands right context rightCall rightNested task pairs) := by
  induction pairs with
  | nil => exact simulation.pure true
  | cons pair rest inductionHypothesis =>
      obtain ⟨first, later⟩ := List.forall_mem_cons.mp steps
      obtain ⟨firstIndex, laterIndex⟩ := List.forall_mem_cons.mp index
      rcases pair with ⟨command, initialCommand⟩
      rw [applyCommands_eq_stepInto, applyCommands_eq_stepInto]
      apply marks.relates_stepInto firstIndex
      intro step variablesMap resolves
      apply simulation.bind (first step variablesMap resolves)
      intro succeeded
      cases succeeded with
      | true => exact inductionHypothesis laterIndex later
      | false => exact simulation.bind (marks.feedbackError _) fun _ => simulation.pure false

/-- An execution is related as soon as the steps of its commands are. -/
theorem RelatesMarks.relates_apply (marks : RelatesMarks simulation left right) (task : Task)
    {leftFuel rightFuel : Nat} {executePlugin : ExecutePlugin}
    (index : ∀ pair ∈ executePlugin.pairs, getNextStep context pair.1 ≠ none →
      ¬Resolvable context.settings pair.1 pair.2 →
        simulation.RelatesStop (.emptyOptional .index))
    (steps : ∀ pair ∈ executePlugin.pairs, ∀ step variablesMap,
      context.ResolvesTo pair.1 pair.2 step variablesMap → simulation.Related
        (applyStep leftCall (apply left context leftCall leftFuel) step task variablesMap
          (knownPatterns context variablesMap))
        (applyStep rightCall (apply right context rightCall rightFuel) step task variablesMap
          (knownPatterns context variablesMap))) :
    simulation.Related (apply left context leftCall (leftFuel + 1) executePlugin task)
      (apply right context rightCall (rightFuel + 1) executePlugin task) := by
  have completed : simulation.Related
      (do
        let result ← applyCommands left context leftCall (apply left context leftCall leftFuel)
          task executePlugin.pairs
        left (.applied result)
        return result)
      (do
        let result ← applyCommands right context rightCall
          (apply right context rightCall rightFuel) task executePlugin.pairs
        right (.applied result)
        return result) := by
    apply simulation.bind (marks.relates_applyCommands task index steps)
    intro result
    exact simulation.bind (marks.applied result) fun _ => simulation.pure result
  rw [apply, apply]
  split
  · exact simulation.bind (marks.feedbackError _) fun _ => completed
  · exact completed

end Calls

end Steps

/-! ## Runs -/

section Runs

variable {σ : Type} {contract : Contract Stop σ} {context : Context} {property : Task → Prop}
variable {host : RunEvent → EStateM Stop σ Unit}

/-- What has to respect a contract so that whole runs do: the effects of a run, but only
with registered tasks that come from ones with the property. -/
structure Respects (contract : Contract Stop σ) (context : Context) (property : Task → Prop)
    (host : RunEvent → EStateM Stop σ Unit) : Prop where
  events : ∀ event,
    (∀ task, event = .host (.registerTask task) →
      SubstitutedFrom context.currentPath property task) → contract.Holds (host event)
  stops : ∀ reason start, contract.stops start reason start
  plugins : ∀ command plugin, getNextStep context command = some (.plugin plugin) →
    plugin.Hands context.currentPath context.Resolves property

theorem Respects.throw (respects : Respects contract context property host) {α : Type}
    (reason : Stop) : contract.Holds (throw reason : EStateM Stop σ α) :=
  fun start => respects.stops reason start

theorem Respects.marks (respects : Respects contract context property host) :
    RelatesMarks contract.simulation host host where
  feedbackError text := respects.events _ (by rintro task ⟨⟩)
  resolving command initialCommand := respects.events _ (by rintro task ⟨⟩)
  applied result := respects.events _ (by rintro task ⟨⟩)

variable {call : Plugin → Task → VariablesMap → Patterns → EStateM Stop σ Bool}

theorem holds_apply (respects : Respects contract context property host)
    (calls : ∀ command plugin, getNextStep context command = some (.plugin plugin) →
      ∀ task variablesMap patterns, property task → context.Resolves variablesMap →
        contract.Holds (call plugin task variablesMap patterns))
    (fuel : Nat) (executePlugin : ExecutePlugin) {task : Task} (holds : property task) :
    contract.Holds (apply host context call fuel executePlugin task) := by
  induction fuel generalizing executePlugin with
  | zero => exact respects.throw .outOfFuel
  | succ fuel inductionHypothesis =>
      have related : contract.simulation.Related
          (apply host context call (fuel + 1) executePlugin task)
          (apply host context call (fuel + 1) executePlugin task) := by
        apply respects.marks.relates_apply task
        · intro pair _ _ _ _ start
          exact respects.stops (.emptyOptional .index) start
        · intro pair _ step variablesMap resolves
          cases step with
          | plugin plugin =>
              exact calls pair.1 plugin resolves.1 task variablesMap _ holds ⟨_, _, _, resolves⟩
          | commands nested => exact inductionHypothesis nested
      exact related

theorem holds_callPlugin (respects : Respects contract context property host) (fuel level : Nat)
    {command : Command} {plugin : Plugin}
    (found : getNextStep context command = some (.plugin plugin)) {task : Task}
    {variablesMap : VariablesMap} (patterns : Patterns) (holds : property task)
    (resolves : context.Resolves variablesMap) :
    contract.Holds (callPlugin host context fuel level plugin task variablesMap patterns) := by
  induction level generalizing command plugin task variablesMap patterns with
  | zero => exact respects.throw .outOfFuel
  | succ level inductionHypothesis =>
      rw [callPlugin]
      apply contract.holds_interpret _ (fun reason _ => respects.stops reason)
        (respects.plugins command plugin found fuel task variablesMap patterns resolves holds)
      intro _ op permitted
      cases op with
      | execute commands other =>
          apply holds_apply respects _ fuel _ permitted
          intro command plugin found task variablesMap patterns holds resolves
          exact inductionHypothesis found patterns holds resolves
      | host event =>
          apply respects.events
          rintro registered ⟨⟩
          exact permitted

/-- A run that starts with a task with the property respects the contract. -/
theorem holds_run (respects : Respects contract context property host) (fuel : Nat)
    (executePlugin : ExecutePlugin) {task : Task} (holds : property task) :
    contract.Holds (run host context fuel executePlugin task) := by
  apply holds_apply respects _ fuel executePlugin holds
  intro command plugin found task variablesMap patterns holds resolves
  exact holds_callPlugin respects fuel fuel found patterns holds resolves

end Runs

end ExecutePlugin

end ExecHelper.Plugins
