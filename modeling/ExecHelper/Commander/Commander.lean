import ExecHelper.Plugins.BundledScripts
import ExecHelper.Plugins.Failures

/-!
# The commander

The commander puts what a run reads on top of four static stacks, has the commands
of the invocation executed and takes everything off again.  Executions read the
elements on top of the stacks and nothing below them.

A run that is given no command leaves before it has taken anything off.
-/

namespace ExecHelper.Commander

open ExecHelper.Library
open ExecHelper.Config
open ExecHelper.Core
open ExecHelper.Plugins
open ExecHelper.Plugins.ExecutePlugin (record run_honest)

/-! ## The static stacks -/

/-- The static members of `ExecutePlugin`, each with its last element first. -/
structure Statics where
  fleeting : List FleetingOptions := []
  settings : List SettingsNode := []
  patterns : List PatternsHandler := []
  plugins : List PluginMap := []

/-- What executions read: the last elements (`back()`). -/
def Statics.context (statics : Statics) (currentPath : CurrentPath) : Option Context := do
  let fleeting ← statics.fleeting.head?
  let settings ← statics.settings.head?
  let patterns ← statics.patterns.head?
  let plugins ← statics.plugins.head?
  return { fleeting, settings, patterns, plugins, currentPath }

/-- The process: the static stacks and whatever else a run changes. -/
structure Process (σ : Type) where
  statics : Statics
  surroundings : σ

section Run

variable {σ : Type}

/-- A computation that leaves the stacks alone. -/
def onSurroundings {α : Type} (computation : EStateM Stop σ α) :
    EStateM Stop (Process σ) α := fun process =>
  match computation process.surroundings with
  | .ok value final => .ok value { process with surroundings := final }
  | .error reason final => .error reason { process with surroundings := final }

theorem onSurroundings_of_ok {α : Type} {computation : EStateM Stop σ α}
    {process : Process σ} {value : α} {final : σ}
    (run : computation process.surroundings = .ok value final) :
    onSurroundings computation process = .ok value { process with surroundings := final } := by
  rw [onSurroundings, run]

theorem onSurroundings_of_error {α : Type} {computation : EStateM Stop σ α}
    {process : Process σ} {reason : Stop} {final : σ}
    (run : computation process.surroundings = .error reason final) :
    onSurroundings computation process =
      .error reason { process with surroundings := final } := by
  rw [onSurroundings, run]

theorem onSurroundings_statics {α : Type} {computation : EStateM Stop σ α}
    {process final : Process σ} {value : α}
    (run : onSurroundings computation process = .ok value final) :
    final.statics = process.statics := by
  rw [onSurroundings] at run
  split at run
  · rcases EStateM.Result.ok.inj run with ⟨-, rfl⟩
    rfl
  · cases run

/-- Change the stacks. -/
def onStatics (change : Statics → Statics) : EStateM Stop (Process σ) Unit :=
  modify fun process => { process with statics := change process.statics }

def pushFleetingOptions (fleetingOptions : FleetingOptions) :
    EStateM Stop (Process σ) Unit :=
  onStatics fun statics => { statics with fleeting := fleetingOptions :: statics.fleeting }

def pushSettingsNode (settings : SettingsNode) : EStateM Stop (Process σ) Unit :=
  onStatics fun statics => { statics with settings := settings :: statics.settings }

def pushPatterns (patterns : Patterns) : EStateM Stop (Process σ) Unit :=
  onStatics fun statics =>
    { statics with patterns := PatternsHandler.ofPatterns patterns :: statics.patterns }

def pushPlugins (plugins : PluginMap) : EStateM Stop (Process σ) Unit :=
  onStatics fun statics => { statics with plugins := plugins :: statics.plugins }

/-- Take the last element off a stack that must not be empty
(`Expects(!stack.empty())`). -/
def pop {α : Type} (stack : Statics → List α) (change : Statics → Statics) :
    EStateM Stop (Process σ) Unit := do
  let process ← get
  match stack process.statics with
  | [] => throw .terminate
  | _ :: _ => onStatics change

def popFleetingOptions : EStateM Stop (Process σ) Unit :=
  pop Statics.fleeting fun statics => { statics with fleeting := statics.fleeting.tail }

def popSettingsNode : EStateM Stop (Process σ) Unit :=
  pop Statics.settings fun statics => { statics with settings := statics.settings.tail }

def popPatterns : EStateM Stop (Process σ) Unit :=
  pop Statics.patterns fun statics => { statics with patterns := statics.patterns.tail }

def popPlugins : EStateM Stop (Process σ) Unit :=
  pop Statics.plugins fun statics => { statics with plugins := statics.plugins.tail }

/-! ## Running commands -/

def WORKING_DIR_PATTERN_KEY : PatternKey := "EH_WORKING_DIR"

/-- Add the pattern with the current directory of the process. -/
def addPredefinedPatterns (currentPath : CurrentPath) (patterns : Patterns) : Patterns :=
  patterns ++ [{ key := WORKING_DIR_PATTERN_KEY, values := [currentPath.path] }]

variable (host : RunEvent → EStateM Stop σ Unit) (currentPath : CurrentPath) (fuel : Nat)

/-- Execute commands in the context the stacks give (`ExecutePlugin::apply`). -/
def applyExecutePlugin (executePlugin : ExecutePlugin) (task : Task) :
    EStateM Stop (Process σ) Bool := do
  let process ← get
  match process.statics.context currentPath with
  | none => throw .outOfBounds
  | some context => onSurroundings (executePlugin.run host context fuel task)

/-- Run the commands of an invocation (`Commander::run`). -/
def run (fleetingOptions : FleetingOptions) (settings : SettingsNode) (patterns : Patterns)
    (workingDirectory : Path) (env : EnvironmentCollection) (plugins : PluginMap) :
    EStateM Stop (Process σ) Bool := do
  pushFleetingOptions fleetingOptions
  pushSettingsNode settings
  pushPatterns (addPredefinedPatterns currentPath patterns)
  pushPlugins plugins
  match Task.make currentPath [] env workingDirectory with
  | none => throw .terminate
  | some task =>
      if fleetingOptions.commands.isEmpty then
        onSurroundings (host (.host (.feedbackError "You must define at least one command")))
        return false
      else
        let returnCode ← applyExecutePlugin host currentPath fuel
          (.ofCommands fleetingOptions.commands) task
        popPlugins
        popFleetingOptions
        popSettingsNode
        popPatterns
        return returnCode

/-! ## The effect on the process -/

section Effect

variable {host currentPath fuel}
variable {fleetingOptions : FleetingOptions} {settings : SettingsNode} {patterns : Patterns}
variable {workingDirectory : Path} {env : EnvironmentCollection} {plugins : PluginMap}
variable {task : Task}

/-- What executions read while the commander runs. -/
def runContext (currentPath : CurrentPath) (fleetingOptions : FleetingOptions)
    (settings : SettingsNode) (patterns : Patterns) (plugins : PluginMap) : Context where
  fleeting := fleetingOptions
  settings := settings
  patterns := PatternsHandler.ofPatterns (addPredefinedPatterns currentPath patterns)
  plugins := plugins
  currentPath := currentPath

/-- The stacks while the commander runs. -/
def Statics.pushed (statics : Statics) (context : Context) : Statics where
  fleeting := context.fleeting :: statics.fleeting
  settings := context.settings :: statics.settings
  patterns := context.patterns :: statics.patterns
  plugins := context.plugins :: statics.plugins

def Process.pushed (process : Process σ) (context : Context) : Process σ :=
  { process with statics := process.statics.pushed context }

theorem Statics.pushed_ne (statics : Statics) (context : Context) :
    statics.pushed context ≠ statics := by
  intro same
  exact List.cons_ne_self _ _ (congrArg Statics.fleeting same)

/-- In an empty directory no task can be made. -/
theorem run_of_no_task (unmade : Task.make currentPath [] env workingDirectory = none)
    (process : Process σ) :
    run host currentPath fuel fleetingOptions settings patterns workingDirectory env plugins
        process =
      .error .terminate (process.pushed
        (runContext currentPath fleetingOptions settings patterns plugins)) := by
  rw [run, unmade]
  rfl

/-- Without a command, the commander leaves with everything on the stacks. -/
theorem run_of_no_command (made : Task.make currentPath [] env workingDirectory = some task)
    (noCommand : fleetingOptions.commands = []) (process : Process σ) :
    run host currentPath fuel fleetingOptions settings patterns workingDirectory env plugins
        process =
      (do
        onSurroundings (host (.host (.feedbackError "You must define at least one command")))
        return false)
      (process.pushed
        (runContext currentPath fleetingOptions settings patterns plugins)) := by
  rw [run, made, noCommand]
  rfl

/-- With commands, the commander executes them and leaves the stacks as they were. -/
theorem run_of_commands (made : Task.make currentPath [] env workingDirectory = some task)
    (commands : fleetingOptions.commands ≠ []) (process : Process σ) :
    run host currentPath fuel fleetingOptions settings patterns workingDirectory env plugins
        process =
      match ExecutePlugin.run host
          (runContext currentPath fleetingOptions settings patterns plugins) fuel
          (.ofCommands fleetingOptions.commands) task process.surroundings with
      | .ok result final => .ok result { process with surroundings := final }
      | .error reason final => .error reason
          { process.pushed
              (runContext currentPath fleetingOptions settings patterns plugins) with
            surroundings := final } := by
  have given : fleetingOptions.commands.isEmpty = false := by
    rw [List.isEmpty_eq_false_iff]
    exact commands
  rw [run, made, given]
  let context := runContext currentPath fleetingOptions settings patterns plugins
  -- Everything is pushed: the context of the execution is the one of this run.
  change (do
    let returnCode ← onSurroundings (ExecutePlugin.run host context fuel
      (.ofCommands fleetingOptions.commands) task)
    popPlugins
    popFleetingOptions
    popSettingsNode
    popPatterns
    return returnCode) (process.pushed context) = _
  cases outcome : ExecutePlugin.run host context fuel (.ofCommands fleetingOptions.commands)
      task process.surroundings with
  | ok result final =>
      have returned : onSurroundings _ (process.pushed context) = _ :=
        onSurroundings_of_ok outcome
      rw [bind_of_eq_ok returned]
      rfl
  | error reason final =>
      have stopped : onSurroundings _ (process.pushed context) = _ :=
        onSurroundings_of_error outcome
      rw [bind_of_eq_error stopped]

theorem run_of_ok (made : Task.make currentPath [] env workingDirectory = some task)
    (commands : fleetingOptions.commands ≠ []) {process : Process σ} {result : Bool} {final : σ}
    (ran : ExecutePlugin.run host
      (runContext currentPath fleetingOptions settings patterns plugins) fuel
      (.ofCommands fleetingOptions.commands) task process.surroundings = .ok result final) :
    run host currentPath fuel fleetingOptions settings patterns workingDirectory env plugins
      process = .ok result { process with surroundings := final } := by
  rw [run_of_commands made commands, ran]

theorem run_of_error (made : Task.make currentPath [] env workingDirectory = some task)
    (commands : fleetingOptions.commands ≠ []) {process : Process σ} {reason : Stop} {final : σ}
    (ran : ExecutePlugin.run host
      (runContext currentPath fleetingOptions settings patterns plugins) fuel
      (.ofCommands fleetingOptions.commands) task process.surroundings = .error reason final) :
    run host currentPath fuel fleetingOptions settings patterns workingDirectory env plugins
      process = .error reason
        { process.pushed
            (runContext currentPath fleetingOptions settings patterns plugins) with
          surroundings := final } := by
  rw [run_of_commands made commands, ran]

/-- A run that returns has made its task. -/
theorem exists_task_of_run {process final : Process σ} {result : Bool}
    (returned : run host currentPath fuel fleetingOptions settings patterns workingDirectory
      env plugins process = .ok result final) :
    ∃ task, Task.make currentPath [] env workingDirectory = some task := by
  cases made : Task.make currentPath [] env workingDirectory with
  | none =>
      rw [run_of_no_task made] at returned
      cases returned
  | some task => exact ⟨task, rfl⟩

/-- A run leaves the stacks as they were if and only if it is given a command. -/
theorem run_statics_iff (host : RunEvent → EStateM Stop σ Unit) (currentPath : CurrentPath)
    (fuel : Nat) (fleetingOptions : FleetingOptions) (settings : SettingsNode)
    (patterns : Patterns) (workingDirectory : Path) (env : EnvironmentCollection)
    (plugins : PluginMap) (process final : Process σ) (result : Bool)
    (returned : run host currentPath fuel fleetingOptions settings patterns workingDirectory
      env plugins process = .ok result final) :
    final.statics = process.statics ↔ fleetingOptions.commands ≠ [] := by
  obtain ⟨task, made⟩ := exists_task_of_run returned
  by_cases noCommand : fleetingOptions.commands = []
  · rw [run_of_no_command made noCommand] at returned
    rcases exists_of_bind_eq_ok returned with ⟨_, middle, reported, rest⟩
    rcases EStateM.Result.ok.inj rest with ⟨-, rfl⟩
    rw [onSurroundings_statics reported]
    exact iff_of_false (Statics.pushed_ne _ _) (not_not_intro noCommand)
  · rw [run_of_commands made noCommand] at returned
    split at returned
    · rcases EStateM.Result.ok.inj returned with ⟨-, rfl⟩
      exact ⟨fun _ => noCommand, fun _ => rfl⟩
    · cases returned

end Effect

end Run

/-- A run without a command, from empty stacks. -/
theorem run_statics_no_command :
    ∃ final, run record .root 1 {} (.ofKey "settings") [] "/" ∅ ∅ ⟨{}, []⟩ = .ok false final ∧
      (final.statics = {} ↔ ({} : FleetingOptions).commands ≠ []) :=
  ⟨_, rfl, run_statics_iff record .root 1 {} (.ofKey "settings") [] "/" ∅ ∅ ⟨{}, []⟩ _ false rfl⟩

/-- It leaves all four elements behind. -/
theorem run_statics_counterexample :
    ¬∀ (currentPath : CurrentPath) (fuel : Nat) (fleetingOptions : FleetingOptions)
      (settings : SettingsNode) (patterns : Patterns) (workingDirectory : Path)
      (env : EnvironmentCollection) (plugins : PluginMap)
      (process final : Process (List RunEvent)) (result : Bool),
      run record currentPath fuel fleetingOptions settings patterns workingDirectory env plugins
        process = .ok result final → final.statics = process.statics := by
  intro claimed
  have same := claimed .root 1 {} (.ofKey "settings") [] "/" ∅ ∅ ⟨{}, []⟩ _ false rfl
  exact List.cons_ne_nil _ _ (congrArg Statics.fleeting same)

/-! ## Failures -/

/-- The commander does not return success after an execution failed, unless a script
dropped the failure; and a script that drops one has seen an execution fail. -/
theorem run_failures (currentPath : CurrentPath) (fuel : Nat) (fleetingOptions : FleetingOptions)
    (settings : SettingsNode) (patterns : Patterns) (workingDirectory : Path)
    (env : EnvironmentCollection) (plugins : PluginMap) (statics : Statics)
    (final : Process (List RunEvent)) (result : Bool)
    (returned : run record currentPath fuel fleetingOptions settings patterns workingDirectory
      env plugins ⟨statics, []⟩ = .ok result final) :
    (.host .failureDropped ∉ final.surroundings → .applied false ∈ final.surroundings →
      result = false) ∧
    (result = true → .host .failureDropped ∈ final.surroundings →
      .applied false ∈ final.surroundings) := by
  obtain ⟨task, made⟩ := exists_task_of_run returned
  by_cases noCommand : fleetingOptions.commands = []
  · rw [run_of_no_command made noCommand] at returned
    rcases exists_of_bind_eq_ok returned with ⟨_, middle, -, rest⟩
    rcases EStateM.Result.ok.inj rest with ⟨rfl, rfl⟩
    exact ⟨fun _ _ => rfl, fun success => nomatch success⟩
  · rw [run_of_commands made noCommand] at returned
    split at returned
    · rename_i executed log ran
      rcases EStateM.Result.ok.inj returned with ⟨rfl, rfl⟩
      have nothingYet : ExecutePlugin.Balanced [] := by simp [ExecutePlugin.Balanced]
      have outcome := run_honest _ fuel _ _ nothingYet ran
      cases executed with
      | true =>
          have balanced : ExecutePlugin.Balanced log := outcome
          exact ⟨fun kept failed => absurd (balanced.mp failed) kept,
            fun _ dropped => balanced.mpr dropped⟩
      | false => exact ⟨fun _ _ => rfl, fun success => nomatch success⟩
    · cases returned

/-- A selector with a target that is neither a command nor a plugin. -/
private def selectorSettings : SettingsNode :=
  ⟨"settings", some [⟨"selector", some [⟨"targets", some [.ofKey "missing"]⟩]⟩]⟩

private def selectorPlugins : PluginMap :=
  (∅ : PluginMap).insert "selector"
    (.luaPlugin (Script.selector.file "selector.lua" (fun _ => []) ""))

/-- A command in a command, which has another plugin run a command that does not exist. -/
private def wrapperSettings : SettingsNode :=
  ⟨"settings", some [⟨"all", some [.ofKey "analyse"]⟩, ⟨"analyse", some [.ofKey "valgrind"]⟩,
    ⟨"valgrind", some [⟨"run-command", some [.ofKey "missing"]⟩]⟩]⟩

/-- The failure of the run command is handed on to the commander. -/
theorem run_failures_wrapper :
    ∃ result final, run record .root 5 { commands := ["all"] } wrapperSettings [] "/" ∅ ∅
        ⟨{}, []⟩ = .ok result final ∧
      .applied false ∈ final.surroundings ∧ result = false := by
  have ran : ∃ events, run record .root 5 { commands := ["all"] } wrapperSettings [] "/" ∅ ∅
      ⟨{}, []⟩ = .ok false ⟨{}, events⟩ ∧
        .applied false ∈ events ∧ .host .failureDropped ∉ events :=
    ⟨_, rfl, by simp, by simp⟩
  obtain ⟨events, returned, failed, kept⟩ := ran
  have reported := run_failures .root 5 { commands := ["all"] } wrapperSettings [] "/" ∅ ∅ {}
    ⟨{}, events⟩ false returned
  exact ⟨false, _, returned, failed, reported.1 kept failed⟩

/-- The target of the selector cannot be resolved, and the commander returns success. -/
theorem run_failures_counterexample :
    ¬∀ (currentPath : CurrentPath) (fuel : Nat) (fleetingOptions : FleetingOptions)
      (settings : SettingsNode) (patterns : Patterns) (workingDirectory : Path)
      (env : EnvironmentCollection) (plugins : PluginMap) (statics : Statics)
      (final : Process (List RunEvent)) (result : Bool),
      run record currentPath fuel fleetingOptions settings patterns workingDirectory env plugins
        ⟨statics, []⟩ = .ok result final →
      .applied false ∈ final.surroundings → result = false := by
  intro claimed
  have reported := claimed .root 5 { commands := ["selector"] } selectorSettings [] "/" ∅
    selectorPlugins {} _ true rfl (by simp)
  cases reported

end ExecHelper.Commander
