import ExecHelper.Plugins.BuiltIn

/-!
# Lua plugins

A Lua plugin runs a script that configures the task it was called with.  The
script reads the variables through the configuration object, queues tasks that
are registered when it has ended, and has commands executed immediately.  Whether
an execution succeeded is handed to the script, which may use it or not.

A script is whatever its reading of the arguments makes it do; of the bundled
ones the selector is written out.
-/

namespace ExecHelper.Plugins

open Std (ExtTreeMap)
open ExecHelper.Library
open ExecHelper.Config
open ExecHelper.Core

/-- How a script can fail. -/
inductive ScriptError where
  /-- The script is not Lua. -/
  | syntaxError (what : String)
  /-- A registered function threw a runtime error, as `input_error` does. -/
  | runtime (what : String)
  /-- A registered function threw another exception. -/
  | module (what : String)
  /-- An error of the script itself. -/
  | script

/-- The message of a failure for the user, if there is one. -/
def ScriptError.feedback (script : Path) : ScriptError → Option String
  | .syntaxError what => some ("Syntax error detected in lua file '" ++ script ++ "': " ++ what)
  | .runtime what => some what
  | .module what => some ("Module '" ++ script ++ "' reported an error: " ++ what)
  | .script => none

/-- What a script does, step by step. -/
inductive ScriptRun where
  | finished
  | failed (error : ScriptError)
  /-- The configuration object dereferenced an empty optional. -/
  | undefined
  /-- The script never ends. -/
  | diverged
  | userFeedbackError (message : String) (next : ScriptRun)
  | registerTask (task : Task) (next : ScriptRun)
  | runTarget (task : Task) (commands : CommandCollection) (next : Bool → ScriptRun)

/-- A script file with what it does for the value of `verbose`, the number of jobs,
the configuration, the task and the patterns. -/
structure LuaScript where
  path : Path
  run : Bool → UInt32 → VariablesMap → Task → Patterns → ScriptRun

/-! ## The configuration object -/

namespace LuaConfig

/-- A Lua table of strings. -/
abbrev Table := ExtTreeMap String String

/-- The table under a key (`Config::get`): a map when the first value has values
itself, else an array with the indices as keys. -/
def get (config : VariablesMap) (key : SettingsKey) : Except Stop (Option Table) :=
  match config.at? key with
  | none => pure none
  | some subnode =>
      match subnode.values with
      | none => pure (some ∅)
      | some [] => pure (some ∅)
      | some (front :: rest) =>
          if ((subnode.at? front).bind SettingsNode.values).isSome then do
            let table ← (front :: rest).foldlM
              (fun (table : Table) value =>
                match subnode.getString [value] with
                | some text => pure (table.insert value text)
                | none => throw (.emptyOptional .luaConfig))
              ∅
            return some table
          else
            pure (some ((front :: rest).zipIdx.foldl
              (fun (table : Table) value => table.insert (toString value.2) value.1) ∅))

/-- One round of the loop of `list`: the value at an index gets the next number. -/
def appendNumbered (table : Table) (result : Nat × List (Nat × String)) (index : Nat) :
    Except Unit (Nat × List (Nat × String)) :=
  match table[toString index]? with
  | some value => pure (result.1 + 1, result.2 ++ [(result.1, value)])
  | none => throw ()

/-- The values of a table at its indices with their numbers (`list`), which are those of a
Lua array. An index without a value makes the function throw. -/
def list : Option Table → Except Unit (Option (List (Nat × String)))
  | none => pure none
  | some table => do
      let result ← (List.range table.size).foldlM (appendNumbered table) (1, [])
      return some result.2

end LuaConfig

/-! ## The plugin -/

namespace LuaPlugin

def getVariablesMap (fleetingOptions : FleetingOptions) : VariablesMap :=
  let defaults := (SettingsNode.ofKey "luaPlugin").add [VERBOSITY_KEY]
    [verbosityValue fleetingOptions]
  defaults.add [JOBS_KEY] [toString fleetingOptions.jobs.toNat]

/-- The number of jobs; a value that is no number is reported and ignored. -/
def jobs (config : VariablesMap) : PluginProgram UInt32 := do
  match (config.getValues [JOBS_KEY]).bind List.getLast? with
  | none => return 1
  | some back =>
      match Cast.parseUInt32 back with
      | some number => return number
      | none =>
          feedbackError "Internal error"
          return 1

/-- Execute the target commands for every combination (`run_target`). -/
def runTarget (currentPath : CurrentPath) (fuel : Nat) (patterns : Patterns) (task : Task)
    (commands : CommandCollection) : PluginProgram Bool :=
  forEachCombination fuel patterns fun combination => do
    let newTask ← orTerminate (replacePatternCombinations currentPath task combination)
    execute (commands.map fun command => replaceCombinations command combination) newTask

/-- Register the queued tasks, each for every combination. -/
def registerTasks (currentPath : CurrentPath) (fuel : Nat) (patterns : Patterns)
    (tasks : List Task) : PluginProgram Bool :=
  tasks.allM fun task =>
    forEachCombination fuel patterns fun combination => do
      let newTask ← orTerminate (replacePatternCombinations currentPath task combination)
      registerTask newTask

/-- Follow a script. `failed` tells whether one of its executions failed so far. -/
def runScript (currentPath : CurrentPath) (fuel : Nat) (script : Path) (patterns : Patterns) :
    ScriptRun → List Task → Bool → PluginProgram Bool
  | .finished, tasks, failed => do
      if failed then host .failureDropped
      registerTasks currentPath fuel patterns tasks
  | .failed error, _, _ => do
      match error.feedback script with
      | some message => feedbackError message
      | none => pure ()
      return false
  | .undefined, _, _ => .stop (.emptyOptional .luaConfig)
  | .diverged, _, _ => .stop .outOfFuel
  | .userFeedbackError message next, tasks, failed => do
      feedbackError message
      runScript currentPath fuel script patterns next tasks failed
  | .registerTask task next, tasks, failed =>
      runScript currentPath fuel script patterns next (tasks ++ [task]) failed
  | .runTarget task commands next, tasks, failed => do
      let result ← runTarget currentPath fuel patterns task commands
      runScript currentPath fuel script patterns (next result) tasks (failed || !result)

/-- Run the script with the configured task. -/
def apply (script : LuaScript) (currentPath : CurrentPath) (fuel : Nat) (task : Task)
    (config : VariablesMap) (patterns : Patterns) : PluginProgram Bool := do
  let task ← orTerminate
    (match config.getString [WORKING_DIR_KEY] with
      | some workingDir => task.setWorkingDirectory currentPath workingDir
      | none => some task)
  let task := task.appendToEnvironment (getEnvironment config)
  let verbose := (config.getBool [VERBOSITY_KEY]).getD false
  let jobs ← jobs config
  runScript currentPath fuel script.path patterns
    (script.run verbose jobs config task patterns) [] false

end LuaPlugin

end ExecHelper.Plugins
