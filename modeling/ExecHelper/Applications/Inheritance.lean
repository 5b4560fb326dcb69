import ExecHelper.Applications.DryRun
import ExecHelper.Applications.Options
import ExecHelper.Core.PosixShell
import ExecHelper.Core.TaskOperations
import ExecHelper.Plugins.Handing
import ExecHelper.Plugins.Prepending
import Mathlib.Data.List.Find

/-!
# What processes inherit

The process of a task is started in the working directory of the task, with the variables
of the task put over the environment of the program.  `PWD` always says where that is,
whatever the configured environment says about it.  A variable that no section sets, and
the directory of the settings file where no section sets another one, reach the processes
as they are.
-/

namespace ExecHelper.Applications

open Std (ExtTreeMap)
open ExecHelper.Library
open ExecHelper.Config
open ExecHelper.Core
open ExecHelper.Plugins
open ExecHelper.Commander
open ExecHelper.Plugins.ExecutePlugin (Respects finalState)

/-! ## The tasks of an invocation -/

/-- What executions read while the invocation runs. -/
def Invocation.context (invocation : Invocation) : Context :=
  runContext invocation.currentPath invocation.fleetingOptions invocation.settings
    invocation.patterns invocation.plugins

/-- The task a run starts with, unless the process ends for the lack of a directory. -/
def Invocation.task (invocation : Invocation) : Option Task :=
  Task.make invocation.currentPath [] invocation.env invocation.settingsFileParentPath

/-- An invocation of the bundled `make` script without any settings. -/
def bundledInvocation : Invocation where
  fleetingOptions := { commands := ["make"] }
  settings := .ofKey "settings"
  patterns := []
  settingsFileParentPath := "/work"
  env := (∅ : EnvironmentCollection).insert "HOME" "/root"
  plugins := (∅ : PluginMap).insert "make"
    (.luaPlugin (Script.make.file "make.lua" ExtTreeMap.toList ""))
  currentPath := ⟨"/work", rfl⟩

/-- Only such tasks are handed over. -/
private def handsOnly (registrable : Task → Prop) : Contract Stop System where
  returns start final :=
    (∀ task ∈ start.handed, registrable task) → ∀ task ∈ final.handed, registrable task
  stops start _ final :=
    (∀ task ∈ start.handed, registrable task) → ∀ task ∈ final.handed, registrable task
  refl _ earlier := earlier
  trans first second earlier := second (first earlier)
  after first second earlier := second (first earlier)

section Handed

variable {invocation : Invocation} {property registrable : Task → Prop} {fuel : Nat}

/-- A registration hands over one more task, however it ends. -/
theorem registerTask_handed (fleetingOptions : FleetingOptions) (shell : Shell) (task : Task)
    (system : System) :
    (finalState (registerTask fleetingOptions shell task system)).handed =
      system.handed ++ [task] := by
  cases dryRun : fleetingOptions.dryRun with
  | true =>
      rw [registerTask_of_dryRun dryRun]
      rfl
  | false =>
      obtain ⟨final, -, handed, goesOn | ⟨reason, stops⟩⟩ :=
        registerTask_gives dryRun shell task system
      · rw [goesOn]
        exact handed
      · rw [stops]
        exact handed

private theorem holds_iff_finalState {α : Type} {computation : EStateM Stop System α} :
    (handsOnly registrable).Holds computation ↔ ∀ start : System,
      (∀ task ∈ start.handed, registrable task) →
        ∀ task ∈ (finalState (computation start)).handed, registrable task := by
  apply forall_congr'
  intro start
  cases computation start <;> exact Iff.rfl

private theorem handsOnly_answer (fleetingOptions : FleetingOptions) (shell : Shell)
    (event : RunEvent) (registers : ∀ task, registeredTask event = some task → registrable task) :
    (handsOnly registrable).Holds (answer fleetingOptions shell event) := by
  rw [holds_iff_finalState]
  intro system earlier
  cases registered : registeredTask event with
  | none =>
      obtain ⟨feedback, memories, answered⟩ :=
        answer_of_no_task registered fleetingOptions shell system
      rw [answered]
      exact earlier
  | some own =>
      obtain rfl := registeredTask_eq_some registered
      have handed : (finalState (answer fleetingOptions shell (.host (.registerTask own))
          system)).handed = system.handed ++ [own] :=
        registerTask_handed fleetingOptions shell own system
      rw [handed]
      intro task member
      rcases List.mem_append.mp member with before | last
      · exact earlier task before
      · rw [List.mem_singleton.mp last]
        exact registers own registered

/-- In a run there are only tasks that come from ones with a property plugins and scripts
keep, if the run starts with one. -/
theorem handedTasks_substitutedFrom
    (kept : KeptByPlugins invocation.currentPath invocation.context.Resolves property)
    (scripts : ∀ (name : String) script, invocation.plugins[name]? = some (.luaPlugin script) →
      script.Keeps property)
    (starts : ∀ start, invocation.task = some start → property start) (shell : Shell)
    {task : Task}
    (handed : task ∈ handedTasks (execHelperMain invocation shell fuel started)) :
    SubstitutedFrom invocation.currentPath property task := by
  let host := answer invocation.fleetingOptions shell
  have respects : Respects
      (handsOnly (SubstitutedFrom invocation.currentPath property)) invocation.context property
      host :=
    { events := by
        intro event registers
        apply handsOnly_answer
        intro task registered
        exact registers task (registeredTask_eq_some registered)
      stops := fun _ _ earlier => earlier
      plugins := by
        intro command plugin found
        apply Plugin.hands kept
        rintro script rfl
        exact scripts command script (ExecutePlugin.getElem?_of_luaPlugin found) }
  cases made : invocation.task with
  | none =>
      have stopped : runCommander invocation shell fuel started = _ :=
        run_of_no_task made started
      rw [execHelperMain_of_error stopped] at handed
      cases handed
  | some start =>
      have ran := ExecutePlugin.holds_run respects fuel
        (.ofCommands invocation.fleetingOptions.commands) (starts start made)
      rw [holds_iff_finalState] at ran
      have all := ran {} (List.forall_mem_nil _)
      by_cases noCommand : invocation.fleetingOptions.commands = []
      · have reported : runCommander invocation shell fuel started =
            .ok false ⟨_, { feedback := [.error "You must define at least one command"] }⟩ :=
          (run_of_no_command made noCommand started).trans rfl
        obtain ⟨feedback, returned⟩ := execHelperMain_of_false reported
        rw [returned] at handed
        cases handed
      · cases outcome : ExecutePlugin.run host invocation.context fuel
            (.ofCommands invocation.fleetingOptions.commands) start {} with
        | error reason final =>
            rw [outcome] at all
            have stopped : runCommander invocation shell fuel started = _ :=
              run_of_error made noCommand outcome
            rw [execHelperMain_of_error stopped] at handed
            exact all task handed
        | ok result final =>
            rw [outcome] at all
            have returned : runCommander invocation shell fuel started = _ :=
              run_of_ok made noCommand outcome
            cases result with
            | true =>
                rw [execHelperMain_of_true returned] at handed
                exact all task handed
            | false =>
                obtain ⟨feedback, same⟩ := execHelperMain_of_false returned
                rw [same] at handed
                exact all task handed

theorem keeps_of_onlyBundled {context : Context} (bundled : context.OnlyBundled)
    (kept : KeptByPlugins context.currentPath context.Resolves property) :
    ∀ (name : String) script, context.plugins[name]? = some (.luaPlugin script) →
      script.Keeps property := by
  intro name script loaded
  obtain ⟨entry, member, path, pairs, callbackError, rfl⟩ := bundled name script loaded
  exact Script.keeps_file kept.append member path pairs callbackError

theorem onlyBundled_bundledInvocation : bundledInvocation.context.OnlyBundled := by
  intro name script loaded
  have inserted : ((∅ : PluginMap).insert "make" (.luaPlugin
      (Script.make.file "make.lua" ExtTreeMap.toList "")))[name]? = some (.luaPlugin script) :=
    loaded
  rw [ExtTreeMap.getElem?_insert] at inserted
  split at inserted
  · obtain rfl := Plugin.luaPlugin.inj (Option.some.inj inserted)
    exact ⟨("make", Script.make), by simp [Script.bundled], "make.lua", ExtTreeMap.toList, "", rfl⟩
  · simp at inserted

end Handed

/-! ## `PWD` -/

theorem holdsPwd_of_substitutedFrom {currentPath : CurrentPath} {property : Task → Prop}
    {task : Task} (substituted : SubstitutedFrom currentPath property task) :
    task.HoldsPwd currentPath := by
  obtain ⟨queued, combination, -, replaced⟩ := substituted
  obtain ⟨nonempty, rfl⟩ := replacePatternCombinations_eq_some_iff.mp replaced
  exact ⟨_, Path.absolute_of_nonempty nonempty currentPath, ExtTreeMap.getElem?_insert_self⟩

/-- The process of a task has the variables of the task. -/
theorem getElem?_childEnvironment (platform : Core.PosixShell.Platform) (task : Task)
    (name : String) :
    (Core.PosixShell.childEnvironment platform task)[name]? =
      task.env[name]?.or platform.environment[name]? := by
  rw [Core.PosixShell.childEnvironment, ← ExtTreeMap.insertMany_list_eq_foldl]
  have appended := Task.getElem?_appendToEnvironment ⟨[], platform.environment, ""⟩ task.env name
  rw [Task.appendToEnvironment_eq] at appended
  exact appended

/-- A process is started where the task is executed, with the environment of the task. -/
theorem system_of_execute {platform : Core.PosixShell.Platform} {task : Task} {binary : Path}
    {args : TaskCollection} {startDir : Path} {env : EnvironmentCollection}
    (started : (Core.PosixShell.execute platform task).outcome =
      .system binary args startDir env) :
    startDir = task.workingDirectory ∧
      env = Core.PosixShell.childEnvironment platform task := by
  by_cases given : task.task = []
  · rw [Core.PosixShell.execute, given] at started
    cases started
  · rw [Core.PosixShell.execute_outcome given] at started
    cases words : Core.PosixShell.expanded platform task with
    | nil =>
        rw [words] at started
        cases started
    | cons front rest =>
        rw [words] at started
        dsimp only at started
        split at started
        · cases started
        · cases started
        · cases started
          exact ⟨rfl, rfl⟩

/-- In every run, whatever the configured environments say about it, `PWD` is the absolute
path of the directory a task is executed in, for the task as for a process that the shell
starts for it. -/
theorem handedTasks_holdsPwd (invocation : Invocation) (shell : Shell) (fuel : Nat) :
    ∀ task ∈ handedTasks (execHelperMain invocation shell fuel started),
      task.HoldsPwd invocation.currentPath ∧
        ∀ platform binary args startDir env,
          (Core.PosixShell.execute platform task).outcome = .system binary args startDir env →
            ∃ directory, Path.absolute invocation.currentPath startDir = some directory ∧
              env["PWD"]? = some directory := by
  intro task handed
  have anything : KeptByPlugins invocation.currentPath invocation.context.Resolves
      fun _ => True := by
    constructor <;> intros <;> trivial
  have holds : task.HoldsPwd invocation.currentPath :=
    holdsPwd_of_substitutedFrom (handedTasks_substitutedFrom anything
      (fun _ script _ _ _ _ _ _ _ => uses_of_forall (fun _ => trivial) _)
      (fun _ _ => trivial) shell handed)
  refine ⟨holds, ?_⟩
  intro platform binary args startDir env outcome
  obtain ⟨rfl, rfl⟩ := system_of_execute outcome
  obtain ⟨directory, absolute, holds⟩ := holds
  refine ⟨directory, absolute, ?_⟩
  rw [getElem?_childEnvironment, holds, Option.some_or]

/-- The task of `make` says where it is executed. -/
theorem handedTasks_holdsPwd_make :
    ((handedTasks (execHelperMain bundledInvocation succeeding 5 started)).map fun task =>
      (task.task.head?, task.env["PWD"]?)) = [(some "make", some "/work")] := by
  have handed : handedTasks (execHelperMain bundledInvocation succeeding 5 started) = [_] := rfl
  obtain ⟨directory, absolute, holds⟩ := (handedTasks_holdsPwd bundledInvocation succeeding 5 _
    (by rw [handed]; exact List.mem_cons_self)).1
  rw [handed, List.map_singleton, holds]
  rw [← absolute]
  rfl

/-! ## Where variables are set -/

/-- The settings list the value under the key, somewhere. -/
def Lists (settings : SettingsNode) (key : SettingsKey) (value : SettingsValue) : Prop :=
  ∃ path values, settings.getValues (path ++ [key]) = some values ∧ value ∈ values

section Resolved

variable {settings variablesMap resolved : SettingsNode} {option : SettingsKey}

private theorem notMem_values_of_containsKey {node : SettingsNode} {key : SettingsKey}
    (missing : ¬node.containsKey key) : key ∉ node.values.getD [] := by
  intro member
  apply missing
  rw [SettingsNode.containsKey_eq, SettingsNode.at?, FirstMatch.lookup_isSome_iff]
  rw [SettingsNode.values] at member
  cases carried : node.mValues with
  | none => simp [carried] at member
  | some children => simpa [carried] using member

theorem DistinctKeys.concat {node : SettingsNode} {key : SettingsKey}
    (distinct : DistinctKeys node) (missing : ¬node.containsKey key) :
    (node.values.getD [] ++ [key]).Nodup := by
  rw [List.nodup_append]
  refine ⟨distinct, List.nodup_singleton key, ?_⟩
  rintro own member _ last rfl
  rw [List.mem_singleton.mp last] at member
  exact notMem_values_of_containsKey missing member

theorem DistinctKeys.add {node : SettingsNode} (distinct : DistinctKeys node)
    (key : SettingsKey) (rest : SettingsKeys) (newValue : SettingsValues) :
    DistinctKeys (node.add (key :: rest) newValue) := by
  rw [DistinctKeys, SettingsNode.values_add_cons]
  split_ifs with present
  · exact distinct
  · exact distinct.concat present

private theorem DistinctKeys.subscript {node entry : SettingsNode} {key : SettingsKey}
    (distinct : DistinctKeys node) (named : entry.mKey = key) :
    DistinctKeys (node.subscript key fun current => current.assign entry) := by
  rw [SettingsNode.subscript]
  split_ifs with present
  · rw [DistinctKeys, SettingsNode.values_modifyAt]
    · exact distinct
    · intro child _
      rw [ExecutePlugin.mKey_assign, named]
  · have values : SettingsNode.values { node with mValues := some (node.mValues.getD [] ++
        [(SettingsNode.ofKey key).assign entry]) } = some (node.values.getD [] ++ [key]) := by
      rcases node with ⟨own, _ | children⟩ <;>
        simp [SettingsNode.values, ExecutePlugin.mKey_assign, named]
    rw [DistinctKeys, values]
    exact distinct.concat present

theorem DistinctKeys.assignEntries (distinct : DistinctKeys variablesMap)
    (currentDepth : SettingsNode) :
    DistinctKeys (ExecutePlugin.assignEntries variablesMap currentDepth) := by
  rw [ExecutePlugin.assignEntries]
  generalize (currentDepth.getValues []).getD [] = names
  induction names generalizing variablesMap with
  | nil => exact distinct
  | cons name rest inductionHypothesis =>
      rw [List.foldl_cons]
      apply inductionHypothesis
      cases found : currentDepth.at? name with
      | none => exact distinct
      | some entry => exact distinct.subscript (SettingsNode.mKey_of_at? found)

/-- A section that was laid over the variables is missing, or was there with its values. -/
theorem index_cases {key : SettingsKeys}
    (laid : ExecutePlugin.index variablesMap settings key = .ok resolved) :
    resolved = variablesMap ∨ ∃ front back values currentDepth, key = front ++ [back] ∧
      settings.getValues key = some values ∧ settings.atPath? key = some currentDepth ∧
        resolved = ExecutePlugin.assignEntries (variablesMap.replace [back] values)
          currentDepth := by
  rw [ExecutePlugin.index] at laid
  split_ifs at laid
  · exact Or.inl (Except.ok.inj laid).symm
  · split at laid
    · rename_i back values currentDepth last listed found
      exact Or.inr ⟨key.dropLast, back, values, currentDepth,
        (List.dropLast_append_getLast? back last).symm, listed, found, (Except.ok.inj laid).symm⟩
    · cases laid
    · cases laid

/-- What is listed under an option after a section was laid over the variables was listed
there before, or is in the settings. -/
private theorem index_lists (distinct : DistinctKeys variablesMap) {key : SettingsKeys}
    (laid : ExecutePlugin.index variablesMap settings key = .ok resolved) :
    DistinctKeys resolved ∧ ∀ option, ∀ value ∈ (resolved.getValues [option]).getD [],
      value ∈ (variablesMap.getValues [option]).getD [] ∨ Lists settings option value := by
  rcases index_cases laid with rfl | ⟨front, back, values, currentDepth, rfl, listed, found, rfl⟩
  · exact ⟨distinct, fun _ _ => Or.inl⟩
  · refine ⟨(distinct.replace back values).assignEntries currentDepth, ?_⟩
    intro option value member
    rw [SettingsNode.getValues_eq_subtree, ExecutePlugin.subtree_assignEntries] at member
    cases below : currentDepth.subtree [option] with
    | some children =>
        refine Or.inr ⟨front ++ [back], _, ?_, member⟩
        rw [SettingsNode.getValues_eq_subtree, SettingsNode.subtree_append, found,
          Option.bind_some, below, Option.some_or, Option.map_some, Option.getD_some]
    | none =>
        rw [below, Option.none_or, ← SettingsNode.getValues_eq_subtree,
          distinct.getValues_replace] at member
        split_ifs at member with same
        · subst same
          exact Or.inr ⟨front, values, listed, member⟩
        · exact Or.inl member

private theorem getVariablesMap_lists (distinct : DistinctKeys variablesMap)
    {keys : List SettingsKeys}
    (laid : ExecutePlugin.getVariablesMap variablesMap keys settings = .ok resolved) :
    ∀ option, ∀ value ∈ (resolved.getValues [option]).getD [],
      value ∈ (variablesMap.getValues [option]).getD [] ∨ Lists settings option value := by
  induction keys generalizing variablesMap with
  | nil =>
      obtain rfl := Except.ok.inj laid
      exact fun _ _ => Or.inl
  | cons key rest inductionHypothesis =>
      rw [ExecutePlugin.getVariablesMap_cons] at laid
      cases indexed : ExecutePlugin.index variablesMap settings key with
      | error reason =>
          rw [indexed] at laid
          cases laid
      | ok next =>
          rw [indexed] at laid
          obtain ⟨nextDistinct, listed⟩ := index_lists distinct indexed
          intro option value member
          rcases inductionHypothesis nextDistinct laid option value member with earlier | later
          · exact listed option value earlier
          · exact Or.inr later

/-- By default no plugin sets a variable or a working directory. -/
theorem stepVariables_default (fleetingOptions : FleetingOptions) (step : NextStep)
    (own : option = ENVIRONMENT_KEY ∨ option = WORKING_DIR_KEY) :
    DistinctKeys (ExecutePlugin.stepVariables fleetingOptions step) ∧
      ((ExecutePlugin.stepVariables fleetingOptions step).getValues [option]).getD [] = [] := by
  have empty : ∀ key, DistinctKeys (.ofKey key) := fun _ => List.nodup_nil
  cases step with
  | commands executePlugin => exact ⟨empty _, by rw [ExecutePlugin.stepVariables]; simp⟩
  | plugin plugin =>
      constructor
      · cases plugin <;>
          (rw [ExecutePlugin.stepVariables, Plugin.getVariablesMap]
           apply_rules [DistinctKeys.add, empty])
      · rcases own with rfl | rfl <;> cases plugin <;> rfl

/-- What a command is resolved to sets only what the settings list. -/
theorem lists_of_resolves {context : Context} (resolves : context.Resolves variablesMap)
    (own : option = ENVIRONMENT_KEY ∨ option = WORKING_DIR_KEY) {value : SettingsValue}
    (given : value ∈ (variablesMap.getValues [option]).getD []) :
    Lists context.settings option value := by
  obtain ⟨command, initialCommand, step, -, laid⟩ := resolves
  obtain ⟨distinct, unset⟩ := stepVariables_default context.fleeting step own
  rcases getVariablesMap_lists distinct laid option value given with default | listed
  · rw [unset] at default
    cases default
  · exact listed

end Resolved

/-! ## Variables -/

section Variables

variable {env : EnvironmentCollection} {name : String} {value : Option String}

end Variables

/-! ## The settings directory -/

section Directory

variable {directory : Path}

/-- Plugins keep a working directory in which no pattern is substituted, when the settings
have no other one. -/
theorem kept_workingDirectory {context : Context}
    (unset : ∀ value, ¬Lists context.settings WORKING_DIR_KEY value)
    (plain : '{' ∉ directory.toList) :
    KeptByPlugins context.currentPath context.Resolves
      fun task => task.workingDirectory = directory where
  append _ _ same := same
  appendToEnvironment _ _ _ same := by rwa [Task.appendToEnvironment_eq]
  setWorkingDirectory task _ variablesMap workingDir resolves configured _ _ := by
    rw [SettingsNode.getString, SettingsNode.get_eq_getValues_bind] at configured
    obtain ⟨values, listed, last⟩ := Option.bind_eq_some_iff.mp configured
    have member : workingDir ∈ (variablesMap.getValues [WORKING_DIR_KEY]).getD [] := by
      rw [listed]
      exact List.mem_of_getLast? last
    exact absurd (lists_of_resolves resolves (Or.inr rfl) member) (unset workingDir)
  replacePatternCombinations task new combination replaced same := by
    obtain ⟨-, rfl⟩ := replacePatternCombinations_eq_some_iff.mp replaced
    rw [substitutedTask, withPWD, substituted, same, replaceCombinations_of_notMem plain]

/-- Where the settings nowhere set a working directory, every task of a run is executed, and
every process started, in the directory of the settings file. -/
theorem handedTasks_inSettingsDirectory (invocation : Invocation)
    (bundled : invocation.context.OnlyBundled)
    (unset : ∀ value, ¬Lists invocation.settings WORKING_DIR_KEY value)
    (plain : '{' ∉ invocation.settingsFileParentPath.toList) (shell : Shell) (fuel : Nat) :
    ∀ task ∈ handedTasks (execHelperMain invocation shell fuel started),
      task.workingDirectory = invocation.settingsFileParentPath ∧
        ∀ platform binary args startDir env,
          (Core.PosixShell.execute platform task).outcome = .system binary args startDir env →
            startDir = invocation.settingsFileParentPath := by
  intro task handed
  have kept := @kept_workingDirectory _ invocation.context unset plain
  have starts : ∀ start, invocation.task = some start →
      start.workingDirectory = invocation.settingsFileParentPath := by
    intro start made
    obtain ⟨-, rfl⟩ := Task.setWorkingDirectory_eq_some_iff.mp made
    rfl
  have same := kept.of_substitutedFrom
    (handedTasks_substitutedFrom kept (keeps_of_onlyBundled bundled kept) starts shell handed)
  refine ⟨same, ?_⟩
  intro platform binary args startDir env outcome
  rw [(system_of_execute outcome).1, same]

/-- `make` is executed next to the settings file. -/
theorem handedTasks_inSettingsDirectory_make :
    ((handedTasks (execHelperMain bundledInvocation succeeding 5 started)).map fun task =>
      (task.task.head?, task.workingDirectory)) = [(some "make", "/work")] := by
  have handed : handedTasks (execHelperMain bundledInvocation succeeding 5 started) = [_] := rfl
  have inDirectory := (handedTasks_inSettingsDirectory bundledInvocation
    onlyBundled_bundledInvocation
    (by
      rintro key ⟨path, values, listed, -⟩
      rw [bundledInvocation, SettingsNode.getValues_ofKey] at listed
      cases listed)
    (by decide) succeeding 5 _
    (by rw [handed]; exact List.mem_cons_self)).1
  rw [handed, List.map_singleton, inDirectory]
  rfl

end Directory

end ExecHelper.Applications
