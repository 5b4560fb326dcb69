import ExecHelper.Plugins.LuaPlugin
import ExecHelper.Plugins.Variables

/-!
# The execute plugin

Executing a list of commands resolves each of them to its next step: a plugin, or
the list of values the settings give for the name, which is executed in its turn.
The variables of a step are resolved for the command it is called from.

A plugin may have commands executed itself, so plugin calls and executions nest in
each other without a bound; the model counts both kinds of nesting and the
iterations of a loop, and stops when a count is used up.  How a plugin is called
is a parameter of the execution, so that what holds of an execution for any
outcome of its plugin calls can be stated before the calls themselves are.

Two marks that leave no trace in the source tell when the variables of a command
are about to be resolved and with which result an execution ended.
-/

namespace ExecHelper.Plugins

open Std (ExtTreeMap)
open ExecHelper.Library
open ExecHelper.Config
open ExecHelper.Core

/-! ## Plugins -/

/-- The plugins, by their classes. The result of a memory plugin is set from
outside. -/
inductive Plugin where
  | commandLineCommand
  | memory (returnCode : Bool)
  | valgrind
  | pmd
  | lcov
  | commandPlugin
  | luaPlugin (script : LuaScript)

namespace Plugin

/-- The default variables of a plugin. -/
def getVariablesMap : Plugin → FleetingOptions → VariablesMap
  | .commandLineCommand => CommandLineCommand.getVariablesMap
  | .memory _ => Memory.getVariablesMap
  | .valgrind => Valgrind.getVariablesMap
  | .pmd => Pmd.getVariablesMap
  | .lcov => Lcov.getVariablesMap
  | .commandPlugin => CommandPlugin.getVariablesMap
  | .luaPlugin _ => LuaPlugin.getVariablesMap

/-- Call a plugin. -/
def apply (currentPath : CurrentPath) (fuel : Nat) (plugin : Plugin) (task : Task)
    (variablesMap : VariablesMap) (patterns : Patterns) : PluginProgram Bool :=
  match plugin with
  | .commandLineCommand => CommandLineCommand.apply currentPath fuel task variablesMap patterns
  | .memory returnCode => Memory.apply returnCode task variablesMap patterns
  | .valgrind => Valgrind.apply currentPath fuel task variablesMap patterns
  | .pmd => Pmd.apply currentPath fuel task variablesMap patterns
  | .lcov => Lcov.apply currentPath fuel task variablesMap patterns
  | .commandPlugin => CommandPlugin.apply task variablesMap
  | .luaPlugin script => LuaPlugin.apply script currentPath fuel task variablesMap patterns

end Plugin

/-- The plugins by their names (`Plugins`). -/
abbrev PluginMap := ExtTreeMap String Plugin

/-- What an execution reads: the elements on top of the four stacks, and the
current directory of the process. -/
structure Context where
  fleeting : FleetingOptions
  settings : SettingsNode
  patterns : PatternsHandler
  plugins : PluginMap
  currentPath : CurrentPath

/-- Commands to execute, each with the command it is executed for. -/
structure ExecutePlugin where
  commands : CommandCollection
  initialCommands : CommandCollection
  sameSize : commands.length = initialCommands.length

/-- One effect of a run on its surroundings, or a mark it sets. -/
inductive RunEvent where
  | host (event : HostEvent)
  /-- Mark: the variables of a command are about to be resolved. -/
  | resolving (command initialCommand : Command)
  /-- Mark: an execution of commands ended with this result. -/
  | applied (result : Bool)

/-- The next step of a command. -/
inductive NextStep where
  | plugin (plugin : Plugin)
  | commands (executePlugin : ExecutePlugin)

namespace ExecutePlugin

/-- Execute commands on their own behalf. -/
def ofCommands (commandsToExecute : CommandCollection) : ExecutePlugin :=
  ⟨commandsToExecute, commandsToExecute, rfl⟩

/-- Execute commands on behalf of an initial command. -/
def ofInitialCommand (commandsToExecute : CommandCollection) (initialCommand : Command) :
    ExecutePlugin :=
  ⟨commandsToExecute, List.replicate commandsToExecute.length initialCommand, by simp⟩

/-- Both iterators of `apply` at once. -/
def pairs (executePlugin : ExecutePlugin) : List (Command × Command) :=
  executePlugin.commands.zip executePlugin.initialCommands

theorem pairs_ofInitialCommand (commandsToExecute : CommandCollection)
    (initialCommand : Command) :
    (ofInitialCommand commandsToExecute initialCommand).pairs =
      commandsToExecute.map fun command => (command, initialCommand) := by
  rw [pairs, ofInitialCommand]
  dsimp only
  induction commandsToExecute with
  | nil => rfl
  | cons command rest inductionHypothesis =>
      rw [List.length_cons, List.replicate_succ, List.zip_cons_cons, List.map_cons]
      rw [inductionHypothesis]

/-! ## The next step -/

/-- The plugins that are available without being in the table. -/
def builtInPlugin : String → Option Plugin
  | "command-line-command" => some .commandLineCommand
  | "memory" => some (.memory true)
  | "valgrind" => some .valgrind
  | "pmd" => some .pmd
  | "lcov" => some .lcov
  | _ => none

/-- The names of all known plugins. -/
def getPluginNames (plugins : PluginMap) : List String :=
  ["command-line-command", "memory", "valgrind", "pmd", "lcov"] ++ plugins.keys

/-- The plugin with the given name, if there is one. -/
def getPlugin (plugins : PluginMap) (pluginName : String) : Option Plugin :=
  match plugins[pluginName]? with
  | some plugin => some plugin
  | none => builtInPlugin pluginName

/-- Resolve a command: a plugin name is that plugin, any other name stands for its
values in the settings. -/
def getNextStep (context : Context) (command : Command) : Option NextStep :=
  if command ∈ getPluginNames context.plugins then
    (getPlugin context.plugins command).map .plugin
  else
    (context.settings.getValues [command]).map fun commandsToExecute =>
      .commands (.ofInitialCommand commandsToExecute command)

/-- The default variables of a step (`plugin->getVariablesMap`). -/
def stepVariables (fleeting : FleetingOptions) : NextStep → VariablesMap
  | .plugin plugin => plugin.getVariablesMap fleeting
  | .commands _ => .ofKey "execute-plugin"

/-! ## Execution -/

section Execution

variable {σ : Type} (host : RunEvent → EStateM Stop σ Unit) (context : Context)

/-- The patterns a step is called with; keys that are no pattern are reported. -/
def getNextPatterns (variablesMap : VariablesMap) : EStateM Stop σ Patterns :=
  go ((variablesMap.getValues [patternsKey]).getD [])
where
  go : PatternKeys → EStateM Stop σ Patterns
    | [] => pure []
    | key :: rest =>
        match context.patterns[key]? with
        | some pattern => do
            let patterns ← go rest
            return pattern :: patterns
        | none => do
            host (.host <| .feedbackError
              ("Unknown pattern key '" ++ key ++ "' is ignored."))
            go rest

/-- The variables of a step with the given defaults, resolved for the command it is
listed in. -/
def stepVariablesMap (defaults : VariablesMap) (command initialCommand : Command) :
    EStateM Stop σ VariablesMap :=
  match getVariablesMap defaults (sectionKeys command initialCommand) context.settings with
  | .ok variablesMap => return variablesMap
  | .error reason => throw reason

/-- Resolve the variables of a step. -/
def resolve (step : NextStep) (command initialCommand : Command) :
    EStateM Stop σ VariablesMap := do
  host (.resolving command initialCommand)
  stepVariablesMap context (stepVariables context.fleeting step) command initialCommand

variable (call : Plugin → Task → VariablesMap → Patterns → EStateM Stop σ Bool)
variable (executeNested : ExecutePlugin → Task → EStateM Stop σ Bool)

/-- Apply a step (`plugin->apply`). -/
def applyStep (step : NextStep) (task : Task) (variablesMap : VariablesMap)
    (patterns : Patterns) : EStateM Stop σ Bool :=
  match step with
  | .plugin plugin => call plugin task variablesMap patterns
  | .commands executePlugin => executeNested executePlugin task

/-- Execute the commands one after the other until one fails. -/
def applyCommands (task : Task) : List (Command × Command) → EStateM Stop σ Bool
  | [] => return true
  | (command, initialCommand) :: rest =>
      match getNextStep context command with
      | none => do
          host (.host <| .feedbackError
            ("Could not find a command or plugin called '" ++ command ++ "'"))
          return false
      | some step => do
          let variablesMap ← resolve host context step command initialCommand
          let patterns ← getNextPatterns host context variablesMap
          match ← applyStep call executeNested step task variablesMap patterns with
          | true => applyCommands task rest
          | false => do
              host (.host <| .feedbackError
                ("An error occured executing the '" ++ command ++ "' command"))
              return false

/-- Execute the commands with a task, in at most the given nesting of commands. -/
def apply : Nat → ExecutePlugin → Task → EStateM Stop σ Bool
  | 0, _, _ => throw .outOfFuel
  | fuel + 1, executePlugin, task => do
      if executePlugin.commands.isEmpty then
        host (.host <| .feedbackError "No commands configured to execute")
      let result ←
        applyCommands host context call (apply fuel) task executePlugin.pairs
      host (.applied result)
      return result

end Execution

/-- Answer the operations of a plugin. -/
def handler {σ : Type} (host : RunEvent → EStateM Stop σ Unit)
    (executeCommands : CommandCollection → Task → EStateM Stop σ Bool) :
    (op : pluginInterface.Op) → EStateM Stop σ (pluginInterface.Answer op)
  | .host event => host (.host event)
  | .execute commands task => executeCommands commands task

/-- Call a plugin, in at most the given nesting of calls, each of which executes
commands in at most `fuel` iterations of a loop and nestings of commands. -/
def callPlugin {σ : Type} (host : RunEvent → EStateM Stop σ Unit) (context : Context)
    (fuel : Nat) :
    Nat → Plugin → Task → VariablesMap → Patterns → EStateM Stop σ Bool
  | 0, _, _, _, _ => throw .outOfFuel
  | level + 1, plugin, task, variablesMap, patterns =>
      (plugin.apply context.currentPath fuel task variablesMap patterns).interpret
        (handler host fun commands task =>
          apply host context (callPlugin host context fuel level) fuel
            (.ofCommands commands) task)

/-- Execute commands in the whole system. -/
def run {σ : Type} (host : RunEvent → EStateM Stop σ Unit) (context : Context)
    (fuel : Nat) (executePlugin : ExecutePlugin) (task : Task) : EStateM Stop σ Bool :=
  apply host context (callPlugin host context fuel fuel) fuel executePlugin task

end ExecutePlugin

end ExecHelper.Plugins
