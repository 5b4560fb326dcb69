import ExecHelper.Plugins.LuaConfig
import ExecHelper.Plugins.ScriptOrder

/-!
# The bundled scripts

Every bundled script builds the command line of a tool piece by piece and ends by
registering its task or by executing target commands with it.  It is written here as
a sequence of the calls it makes.  A call changes the task of the script, ends the
script, or hands a value to what follows.

Whatever the configuration is, a script comes to one ending, and neither this ending
nor the arguments it adds depend on the task it was called with.
-/

namespace ExecHelper.Plugins

open Std (ExtTreeMap)
open ExecHelper.Library
open ExecHelper.Config
open ExecHelper.Core

/-! ## Calls of a script -/

/-- What is given to a script besides its task. In which order `pairs` goes over a table is
not specified, and the wrapper chooses the text for an exception of a registered function. -/
structure LuaContext where
  verbose : Bool
  jobs : UInt32
  config : VariablesMap
  pairs : LuaConfig.Table → List (String × String)
  callbackError : String

/-- A part of a script, with the values it computes for the rest. -/
def Script (α : Type) : Type := LuaContext → (α → Task → ScriptRun) → Task → ScriptRun

namespace Script

instance : Monad Script where
  pure value := fun _ next task => next value task
  bind script rest := fun lua next task =>
    script lua (fun value changed => rest value lua next changed) task

/-- Read the configuration (`config[key]`). -/
def config (key : SettingsKey) : Script (Option LuaConfig.Table) := fun lua next task =>
  match LuaConfig.get lua.config key with
  | .ok table => next table task
  | .error _ => .undefined

/-- A registered function throws an exception that is no runtime error. -/
def callbackFails {α : Type} : Script α := fun lua _ _ => .failed (.module lua.callbackError)

/-- The first value of a table. -/
def one : Option LuaConfig.Table → Script (Option String)
  | none => pure none
  | some values =>
      match values["0"]? with
      | some value => pure (some value)
      | none => callbackFails

/-- The values of a table. No bundled script uses their numbers. -/
def list (values : Option LuaConfig.Table) : Script (Option (List String)) :=
  match LuaConfig.list values with
  | .ok result => pure (result.map fun values => values.map Prod.snd)
  | .error _ => callbackFails

/-- The variable `jobs`, as the text it becomes in an argument. -/
def jobs : Script String := fun lua next task => next (toString lua.jobs.toNat) task

def verbose : Script Bool := fun lua next task => next lua.verbose task

def pairs (table : LuaConfig.Table) : Script (List (String × String)) :=
  fun lua next task => next (lua.pairs table) task

/-- Add arguments to the task (`task:add_args`). -/
def addArgs (args : TaskCollection) : Script Unit := fun _ next task => next () (task.append args)

def userFeedbackError (message : String) : Script Unit :=
  fun _ next task => .userFeedbackError message (next () task)

/-- Throw a runtime error. -/
def inputError {α : Type} (message : String) : Script α := fun _ _ _ => .failed (.runtime message)

/-- An error of Lua itself, for which nothing is printed. -/
def luaError {α : Type} : Script α := fun _ _ _ => .failed .script

def registerTask : Script Unit := fun _ next task => .registerTask task (next () task)

/-- Execute commands. No bundled script uses the result. -/
def runTarget (commands : CommandCollection) : Script Unit :=
  fun _ next task => .runTarget task commands fun _ => next () task

def onlyIf (condition : Prop) [Decidable condition] (part : Script Unit) : Script Unit :=
  if condition then part else pure ()

def forSome {α : Type} (value : Option α) (part : α → Script Unit) : Script Unit :=
  match value with
  | some value => part value
  | none => pure ()

def forEach {α : Type} (values : List α) (part : α → Script Unit) : Script Unit :=
  match values with
  | [] => pure ()
  | value :: rest => do
      part value
      forEach rest part

/-- Join texts with commas (`table.concat`). There is nothing to join in `nil`. -/
def concat : Option (List String) → Script String
  | some values => pure (",".intercalate values)
  | none => luaError

/-- The first value of a key (`one(config[key])`). -/
def oneOf (key : SettingsKey) : Script (Option String) := do one (← config key)

/-- The values of a key (`list(config[key])`). -/
def listOf (key : SettingsKey) : Script (Option (List String)) := do list (← config key)

def getCommandline : Script (List String) := do
  return (← listOf COMMAND_LINE_KEY).getD []

/-- The argument that makes a tool verbose. The configuration decides where it says
anything, and the option otherwise. -/
def getVerbose (verboseCommand : String) : Script (List String) := do
  match ← oneOf VERBOSITY_KEY with
  | some value => return if value = "yes" then [verboseCommand] else []
  | none => return if ← verbose then [verboseCommand] else []

/-- The first value of a key, or the default (`one(config[key]) or default`). -/
def oneOr (key : SettingsKey) (default : String) : Script String := do
  return (← oneOf key).getD default

/-- The number of jobs (`one(config['jobs']) or jobs`). -/
def jobsText : Script String := do
  match ← oneOf JOBS_KEY with
  | some value => return value
  | none => jobs

/-- Add an option with its value where one is configured. -/
def addOption (key : SettingsKey) (option : String) : Script Unit := do
  forSome (← oneOf key) fun value => addArgs [option, value]

/-- Add arguments for every entry of a table. -/
def addEntries (key : SettingsKey) (args : String × String → TaskCollection) : Script Unit := do
  forSome (← config key) fun table => do
    forEach (← pairs table) fun entry => addArgs (args entry)

/-- A setting that has to be there; the message about it is written twice. -/
def required (key : SettingsKey) (message : String) : Script String := do
  match ← oneOf key with
  | some value => return value
  | none =>
      userFeedbackError message
      inputError message

/-! ## The scripts -/

def bootstrap : Script Unit := do
  addArgs [← oneOr "filename" "bootstrap.sh"]
  addArgs (← getCommandline)
  registerTask

/-- A tool that builds in a directory with a number of jobs. -/
def buildTool (tool directoryOption verboseCommand jobsOption : String) : Script Unit := do
  addArgs [tool]
  addArgs [directoryOption, ← oneOr "build-dir" "."]
  addArgs (← getVerbose verboseCommand)
  addArgs [jobsOption, ← jobsText]
  addArgs (← getCommandline)
  registerTask

def make : Script Unit := buildTool "make" "--directory" "--debug" "--jobs"

def ninja : Script Unit := buildTool "ninja" "-C" "--verbose" "-j"

def scons : Script Unit := buildTool "scons" "--directory" "--debug=explain" "--jobs"

def cppcheck : Script Unit := do
  addArgs ["cppcheck"]
  let enableChecks ← listOf "enable-checks"
  addArgs ["--enable=" ++ (← concat (some (enableChecks.getD ["all"])))]
  addArgs (← getVerbose "--verbose")
  addArgs ["-j", ← jobsText]
  addArgs (← getCommandline)
  addArgs ((← listOf "src-dir").getD ["."])
  registerTask

def clangTidy : Script Unit := do
  addArgs ["clang-tidy"]
  addArgs ["-p", ← oneOr "build-dir" "."]
  let checks ← listOf "checks"
  forSome checks fun checks => do
    addArgs ["-checks=" ++ (← concat (some checks))]
  forSome (← listOf "warning-as-errors") fun warningAsErrors =>
    if warningAsErrors.head? = some "auto" then do
      -- Without checks there is nothing to mirror.
      addArgs ["-warning-as-errors=" ++ (← concat checks)]
    else do
      addArgs ["-warning-as-errors=" ++ (← concat (some warningAsErrors))]
  addArgs (← getCommandline)
  addArgs ((← listOf "sources").getD ["*.cpp"])
  registerTask

/-- The arguments of `cmake` that generate a build directory. -/
def cmakeGenerate : Script Unit := do
  addArgs ["-S", ← oneOr "source-dir" "."]
  addArgs ["-B", ← oneOr "build-dir" "."]
  addOption "generator" "-G"
  addEntries "defines" fun define => ["-D", "\"" ++ define.1 ++ "=" ++ define.2 ++ "\""]
  addArgs (← getVerbose "--log-level=VERBOSE")

/-- The arguments of `cmake` that build a target. -/
def cmakeBuild : Script Unit := do
  addArgs ["--build", ← oneOr "build-dir" "."]
  addOption "target" "--target"
  addOption "configuration" "--config"
  addArgs ["--parallel", ← jobsText]
  addArgs (← getVerbose "--verbose")

/-- The arguments of `cmake` that install what was built. -/
def cmakeInstall : Script Unit := do
  addArgs ["--install", ← oneOr "build-dir" "."]
  addOption "configuration" "--config"
  addOption "prefix" "--prefix"
  addOption "component" "--component"
  addArgs (← getVerbose "--verbose")

def cmake : Script Unit := do
  addArgs ["cmake"]
  let mode ← oneOr "mode" "generate"
  onlyIf (mode ≠ "generate" ∧ mode ≠ "build" ∧ mode ≠ "install") do
    userFeedbackError
      "You must define a valid mode! Options are: generate, build or install."
    inputError "You must define a valid mode!"
  onlyIf (mode = "generate") cmakeGenerate
  onlyIf (mode = "build") cmakeBuild
  onlyIf (mode = "install") cmakeInstall
  addArgs (← getCommandline)
  registerTask

/-- The arguments of `docker` before the container or image. -/
def dockerOptions (mode : String) : Script Unit := do
  let interactive ← oneOf "interactive"
  let tty ← oneOf "tty"
  addArgs [mode, "--interactive=" ++ (if interactive = some "yes" then "true" else "false"),
    "--tty=" ++ (if tty = some "yes" then "true" else "false")]
  let privileged ← oneOf "privileged"
  onlyIf (privileged = some "yes") (addArgs ["--privileged"])
  forSome (← oneOf "user") fun user => addArgs ["--user=\"" ++ user ++ "\""]
  addEntries "env" fun entry => ["\"--env=" ++ entry.1 ++ "=" ++ entry.2 ++ "\""]
  addArgs (← getCommandline)

def dockerVolumes : Script Unit := do
  forSome (← listOf "volumes") fun volumes =>
    forEach volumes fun volume => addArgs ["\"--volume=" ++ volume ++ "\""]

def docker : Script Unit := do
  addArgs ["docker"]
  let mode ← oneOr "mode" "exec"
  dockerOptions mode
  onlyIf (mode = "run") do
    dockerVolumes
    addArgs [← required "image"
      "You must define an image when you define the docker plugin in \"run\" mode!"]
  onlyIf (mode = "exec") do
    addArgs [← required "container"
      "You must define an container when you define the docker plugin in \"exec\" mode!"]
  match ← listOf "targets" with
  | some targets => runTarget targets
  | none => registerTask

def clangStaticAnalyzer : Script Unit := do
  addArgs ["scan-build"]
  addArgs (← getVerbose "-v")
  addArgs (← getCommandline)
  match ← listOf "build-command" with
  | none => inputError "Clang-static-analyzer: one must define at least one build command"
  | some [] =>
      userFeedbackError "Clang-static-analyzer: one must define at least one build command"
      inputError "Clang-static-analyzer: one must define at least one build command"
  | some buildCommands => runTarget buildCommands

def selector : Script Unit := do
  match ← listOf "targets" with
  | none =>
      inputError ("Undefined selector target: you must define at least one target to " ++
        "select using the \"targets\" keyword.")
  | some targets => runTarget targets

/-- The bundled scripts with the names of their files. -/
def bundled : List (String × Script Unit) :=
  [("bootstrap", bootstrap), ("clang-static-analyzer", clangStaticAnalyzer),
    ("clang-tidy", clangTidy), ("cmake", cmake), ("cppcheck", cppcheck), ("docker", docker),
    ("make", make), ("ninja", ninja), ("scons", scons), ("selector", selector)]

/-- Run the script with a task. -/
def run (script : Script Unit) (lua : LuaContext) (task : Task) : ScriptRun :=
  script lua (fun _ _ => .finished) task

end Script

/-! ## Endings -/

/-- How a script ends. The arguments are those it has added to its task. -/
inductive ScriptEnding where
  | undefined
  | failed (error : ScriptError)
  | registers (arguments : TaskCollection)
  | executes (arguments : TaskCollection) (commands : CommandCollection)

def ScriptEnding.run (task : Task) : ScriptEnding → ScriptRun
  | .undefined => .undefined
  | .failed error => .failed error
  | .registers arguments => .registerTask (task.append arguments) .finished
  | .executes arguments commands =>
      .runTarget (task.append arguments) commands fun _ => .finished

/-- The ending of the script that it comes to after some more arguments. -/
def ScriptEnding.afterArguments (earlier : TaskCollection) : ScriptEnding → ScriptEnding
  | .registers arguments => .registers (earlier ++ arguments)
  | .executes arguments commands => .executes (earlier ++ arguments) commands
  | ending => ending

theorem ScriptEnding.run_append (task : Task) (arguments : TaskCollection)
    (ending : ScriptEnding) :
    ending.run (task.append arguments) = (ending.afterArguments arguments).run task := by
  cases ending <;> simp [run, afterArguments, Task.append_append]

/-- The script writes messages before it goes on. -/
def ScriptRun.after (messages : List String) (run : ScriptRun) : ScriptRun :=
  messages.foldr .userFeedbackError run

/-- The script has failed, or its behaviour is undefined since its configuration object has
dereferenced an empty optional. -/
def ScriptRun.HasFailed (run : ScriptRun) : Prop := run = .undefined ∨ ∃ error, run = .failed error

namespace Script

/-- Whatever its task is, the script writes the same messages and comes to the same
ending. -/
def EndsWith (script : Script Unit) (lua : LuaContext) (messages : List String)
    (ending : ScriptEnding) : Prop :=
  ∀ task, script.run lua task = .after messages (ending.run task)

/-- Whatever the task is and what follows, the part hands on this value after it has
written these messages and added these arguments. -/
def GoesOn {α : Type} (script : Script α) (lua : LuaContext) (messages : List String)
    (arguments : TaskCollection) (value : α) : Prop :=
  ∀ next task, script lua next task = .after messages (next value (task.append arguments))

/-- Whatever the task is and what follows, the part ends the script. -/
def Fails {α : Type} (script : Script α) (lua : LuaContext) : Prop :=
  ∃ messages failure, ScriptRun.HasFailed failure ∧
    ∀ next task, script lua next task = .after messages failure

/-- The part consists of calls that go on or end the script. -/
class inductive OfCalls : {α : Type} → Script α → Prop where
  | pure {α : Type} (value : α) : OfCalls (pure value : Script α)
  | bind {α β : Type} {script : Script α} {rest : α → Script β} (first : OfCalls script)
      (second : ∀ value, OfCalls (rest value)) : OfCalls (script >>= rest)
  | config (key : SettingsKey) : OfCalls (config key)
  | jobs : OfCalls jobs
  | verbose : OfCalls verbose
  | pairs (table : LuaConfig.Table) : OfCalls (pairs table)
  | addArgs (args : TaskCollection) : OfCalls (addArgs args)
  | userFeedbackError (message : String) : OfCalls (userFeedbackError message)
  | callbackFails {α : Type} : OfCalls (callbackFails : Script α)
  | inputError {α : Type} (message : String) : OfCalls (inputError message : Script α)
  | luaError {α : Type} : OfCalls (luaError : Script α)

attribute [instance] OfCalls.pure OfCalls.config OfCalls.jobs OfCalls.verbose OfCalls.pairs
  OfCalls.addArgs OfCalls.userFeedbackError OfCalls.callbackFails OfCalls.inputError
  OfCalls.luaError

/-- After such parts, the script ends by registering its task or by executing commands with it,
unless it fails. -/
class inductive EndsInCall : Script Unit → Prop where
  | bind {α : Type} {part : Script α} {rest : α → Script Unit} (first : OfCalls part)
      (second : ∀ value, EndsInCall (rest value)) : EndsInCall (part >>= rest)
  | registerTask : EndsInCall registerTask
  | runTarget (commands : CommandCollection) : EndsInCall (runTarget commands)
  | inputError (message : String) : EndsInCall (inputError message)

attribute [instance] EndsInCall.registerTask EndsInCall.runTarget EndsInCall.inputError

/-- The part goes on or ends the script, and the task has no influence on it. -/
class Builds {α : Type} (script : Script α) : Prop where
  builds : ∀ lua, (∃ messages arguments value, script.GoesOn lua messages arguments value) ∨
    script.Fails lua

/-- The script comes to an ending on which the task has no influence. -/
class Concludes (script : Script Unit) : Prop where
  concludes : ∀ lua, ∃ messages ending, script.EndsWith lua messages ending

section Parts

variable {α β : Type} {lua : LuaContext} {messages : List String} {arguments : TaskCollection}
variable {value : α} {script : Script α} {rest : α → Script β}

theorem GoesOn.bind {later : List String} {further : TaskCollection} {result : β}
    (first : script.GoesOn lua messages arguments value)
    (second : (rest value).GoesOn lua later further result) :
    (script >>= rest).GoesOn lua (messages ++ later) (arguments ++ further) result := by
  intro next task
  rw [ScriptRun.after, List.foldr_append, ← Task.append_append]
  exact (first _ task).trans (congrArg _ (second next _))

theorem GoesOn.bind_fails (first : script.GoesOn lua messages arguments value)
    (second : (rest value).Fails lua) : (script >>= rest).Fails lua := by
  obtain ⟨later, failure, failed, same⟩ := second
  refine ⟨messages ++ later, failure, failed, fun next task => ?_⟩
  rw [ScriptRun.after, List.foldr_append]
  exact (first _ task).trans (congrArg _ (same next _))

theorem Fails.bind (fails : script.Fails lua) (rest : α → Script β) :
    (script >>= rest).Fails lua := by
  obtain ⟨messages, failure, failed, same⟩ := fails
  exact ⟨messages, failure, failed, fun next task => same _ task⟩

/-- What is given to the script can be read. -/
theorem goesOn_read (read : LuaContext → α) :
    GoesOn (fun lua next task => next (read lua) task) lua [] [] (read lua) := by
  intro next task
  rw [Task.append_nil]
  rfl

theorem goesOn_pure (value : α) : (pure value : Script α).GoesOn lua [] [] value :=
  goesOn_read fun _ => value

theorem goesOn_addArgs (args : TaskCollection) : (addArgs args).GoesOn lua [] args () :=
  fun _ _ => rfl

theorem goesOn_config {key : SettingsKey} {table : Option LuaConfig.Table}
    (read : LuaConfig.get lua.config key = .ok table) :
    (config key).GoesOn lua [] [] table := by
  intro next task
  rw [config, read, Task.append_nil]
  rfl

theorem fails_config {key : SettingsKey} {reason : Stop}
    (read : LuaConfig.get lua.config key = .error reason) : (config key).Fails lua := by
  refine ⟨[], .undefined, .inl rfl, fun next task => ?_⟩
  rw [config, read]
  rfl

end Parts

section Calls

variable {α β : Type} {script : Script α}

instance builds_of_ofCalls [calls : OfCalls script] : Builds script where
  builds lua := by
    induction calls with
    | pure own => exact .inl ⟨_, _, _, goesOn_pure own⟩
    | bind first second firstBuilds secondBuilds =>
        obtain ⟨messages, arguments, value, goesOn⟩ | fails := firstBuilds
        · obtain ⟨later, further, result, goesOnLater⟩ | fails := secondBuilds value
          · exact .inl ⟨_, _, _, goesOn.bind goesOnLater⟩
          · exact .inr (goesOn.bind_fails fails)
        · exact .inr (fails.bind _)
    | config key =>
        cases read : LuaConfig.get lua.config key with
        | ok table => exact .inl ⟨[], [], table, goesOn_config read⟩
        | error reason => exact .inr (fails_config read)
    | jobs => exact .inl ⟨_, _, _, goesOn_read fun lua => toString lua.jobs.toNat⟩
    | verbose => exact .inl ⟨_, _, _, goesOn_read LuaContext.verbose⟩
    | pairs table => exact .inl ⟨_, _, _, goesOn_read fun lua => lua.pairs table⟩
    | addArgs args => exact .inl ⟨_, _, _, goesOn_addArgs args⟩
    | userFeedbackError message =>
        refine .inl ⟨[message], [], (), fun next task => ?_⟩
        rw [Task.append_nil]
        rfl
    | callbackFails =>
        exact .inr ⟨[], _, .inr ⟨.module lua.callbackError, rfl⟩, fun _ _ => rfl⟩
    | inputError message => exact .inr ⟨[], _, .inr ⟨.runtime message, rfl⟩, fun _ _ => rfl⟩
    | luaError => exact .inr ⟨[], _, .inr ⟨.script, rfl⟩, fun _ _ => rfl⟩

instance ofCalls_bind {rest : α → Script β} [first : OfCalls script]
    [second : ∀ value, OfCalls (rest value)] : OfCalls (script >>= rest) := .bind first second

instance ofCalls_one (values : Option LuaConfig.Table) : OfCalls (one values) := by
  cases values with
  | none => exact OfCalls.pure none
  | some table =>
      rw [one]
      cases table["0"]? with
      | some value => exact OfCalls.pure (some value)
      | none => exact OfCalls.callbackFails

instance ofCalls_list (values : Option LuaConfig.Table) : OfCalls (list values) := by
  rw [list]
  cases LuaConfig.list values with
  | ok result => exact OfCalls.pure _
  | error _ => exact OfCalls.callbackFails

instance ofCalls_concat (values : Option (List String)) : OfCalls (concat values) := by
  cases values with
  | some texts => exact OfCalls.pure _
  | none => exact OfCalls.luaError

instance ofCalls_ite (condition : Prop) [Decidable condition] {yes no : Script α} [OfCalls yes]
    [OfCalls no] : OfCalls (if condition then yes else no) := by
  split
  · infer_instance
  · infer_instance

instance ofCalls_onlyIf (condition : Prop) [Decidable condition] (part : Script Unit)
    [OfCalls part] : OfCalls (onlyIf condition part) :=
  ofCalls_ite condition

instance ofCalls_forSome (values : Option α) (part : α → Script Unit)
    [∀ value, OfCalls (part value)] : OfCalls (forSome values part) := by
  cases values with
  | some value => exact inferInstanceAs (OfCalls (part value))
  | none => exact OfCalls.pure ()

instance ofCalls_forEach (values : List α) (part : α → Script Unit)
    [∀ value, OfCalls (part value)] : OfCalls (forEach values part) := by
  induction values with
  | nil => exact OfCalls.pure ()
  | cons value rest inductionHypothesis => exact ofCalls_bind

instance ofCalls_oneOf (key : SettingsKey) : OfCalls (oneOf key) := ofCalls_bind

instance ofCalls_listOf (key : SettingsKey) : OfCalls (listOf key) := ofCalls_bind

instance ofCalls_getCommandline : OfCalls getCommandline := ofCalls_bind

instance ofCalls_getVerbose (verboseCommand : String) : OfCalls (getVerbose verboseCommand) := by
  have decided : ∀ value : Option String, OfCalls (match value with
      | some value => return if value = "yes" then [verboseCommand] else []
      | none => return if ← verbose then [verboseCommand] else [] : Script (List String)) := by
    intro value
    cases value with
    | some value => exact OfCalls.pure _
    | none => exact ofCalls_bind
  exact ofCalls_bind

instance ofCalls_oneOr (key : SettingsKey) (default : String) : OfCalls (oneOr key default) :=
  ofCalls_bind

instance ofCalls_jobsText : OfCalls jobsText := by
  have read : ∀ value : Option String, OfCalls (match value with
      | some value => return value
      | none => jobs : Script String) := by
    intro value
    cases value with
    | some value => exact OfCalls.pure value
    | none => exact OfCalls.jobs
  exact ofCalls_bind

instance ofCalls_addOption (key : SettingsKey) (option : String) : OfCalls (addOption key option) :=
  ofCalls_bind

instance ofCalls_addEntries (key : SettingsKey) (args : String × String → TaskCollection) :
    OfCalls (addEntries key args) := ofCalls_bind

instance ofCalls_required (key : SettingsKey) (message : String) :
    OfCalls (required key message) := by
  have found : ∀ value : Option String, OfCalls (match value with
      | some value => return value
      | none => do
          userFeedbackError message
          inputError message : Script String) := by
    intro value
    cases value with
    | some value => exact OfCalls.pure value
    | none => exact ofCalls_bind
  exact ofCalls_bind

instance ofCalls_cmakeGenerate : OfCalls cmakeGenerate := ofCalls_bind

instance ofCalls_cmakeBuild : OfCalls cmakeBuild := ofCalls_bind

instance ofCalls_cmakeInstall : OfCalls cmakeInstall := ofCalls_bind

instance ofCalls_dockerOptions (mode : String) : OfCalls (dockerOptions mode) := ofCalls_bind

instance ofCalls_dockerVolumes : OfCalls dockerVolumes := ofCalls_bind

end Calls

/-! ## What the scripts come to -/

section Scripts

-- The search for an instance follows every call of a script.
set_option synthInstance.maxSize 1024

variable {α : Type} {script : Script Unit}

theorem Fails.endsWith {lua : LuaContext} (fails : script.Fails lua) :
    ∃ messages ending, script.EndsWith lua messages ending := by
  obtain ⟨messages, failure, rfl | ⟨error, rfl⟩, same⟩ := fails
  · exact ⟨messages, .undefined, fun task => same _ task⟩
  · exact ⟨messages, .failed error, fun task => same _ task⟩

/-- After a part, the task has as little influence as before it. -/
instance concludes_of_endsInCall [ends : EndsInCall script] : Concludes script where
  concludes lua := by
    induction ends with
    | @bind _ part rest first _ secondConcludes =>
        obtain ⟨messages, arguments, value, goesOn⟩ | fails :=
          (@builds_of_ofCalls _ part first).builds lua
        · obtain ⟨later, ending, ends⟩ := secondConcludes value
          refine ⟨messages ++ later, ending.afterArguments arguments, fun task => ?_⟩
          rw [ScriptRun.after, List.foldr_append, ← ScriptEnding.run_append]
          exact (goesOn _ task).trans (congrArg _ (ends _))
        · exact (fails.bind rest).endsWith
    | registerTask =>
        refine ⟨[], .registers [], fun task => ?_⟩
        rw [ScriptEnding.run, Task.append_nil]
        rfl
    | runTarget commands =>
        refine ⟨[], .executes [] commands, fun task => ?_⟩
        rw [ScriptEnding.run, Task.append_nil]
        rfl
    | inputError message => exact ⟨[], .failed (.runtime message), fun _ => rfl⟩

instance endsInCall_bind {part : Script α} {rest : α → Script Unit} [first : OfCalls part]
    [second : ∀ value, EndsInCall (rest value)] : EndsInCall (part >>= rest) :=
  .bind first second

instance endsInCall_buildTool (tool directoryOption verboseCommand jobsOption : String) :
    EndsInCall (buildTool tool directoryOption verboseCommand jobsOption) := endsInCall_bind

instance endsInCall_docker : EndsInCall docker := by
  have targets : ∀ values : Option (List String), EndsInCall (match values with
      | some targets => runTarget targets
      | none => registerTask) := by
    intro values
    cases values with
    | some targets => exact EndsInCall.runTarget targets
    | none => exact EndsInCall.registerTask
  exact endsInCall_bind

instance endsInCall_clangStaticAnalyzer : EndsInCall clangStaticAnalyzer := by
  have commands : ∀ values : Option (List String), EndsInCall (match values with
      | none => inputError "Clang-static-analyzer: one must define at least one build command"
      | some [] => do
          userFeedbackError "Clang-static-analyzer: one must define at least one build command"
          inputError "Clang-static-analyzer: one must define at least one build command"
      | some buildCommands => runTarget buildCommands) := by
    intro values
    match values with
    | none => exact EndsInCall.inputError _
    | some [] => exact endsInCall_bind
    | some (_ :: _) => exact EndsInCall.runTarget _
  exact endsInCall_bind

instance endsInCall_selector : EndsInCall selector := by
  have targets : ∀ values : Option (List String), EndsInCall (match values with
      | none => inputError ("Undefined selector target: you must define at least one target to " ++
          "select using the \"targets\" keyword.")
      | some targets => runTarget targets) := by
    intro values
    cases values with
    | none => exact EndsInCall.inputError _
    | some targets => exact EndsInCall.runTarget targets
  exact endsInCall_bind

theorem endsInCall_of_mem_bundled {entry : String × Script Unit} (member : entry ∈ bundled) :
    EndsInCall entry.2 := by
  simp only [bundled, List.mem_cons, List.not_mem_nil, or_false] at member
  rcases member with rfl | rfl | rfl | rfl | rfl | rfl | rfl | rfl | rfl | rfl
  · exact endsInCall_bind
  · exact endsInCall_clangStaticAnalyzer
  · exact endsInCall_bind
  · exact endsInCall_bind
  · exact endsInCall_bind
  · exact endsInCall_docker
  · exact endsInCall_buildTool ..
  · exact endsInCall_buildTool ..
  · exact endsInCall_buildTool ..
  · exact endsInCall_selector

theorem concludes_of_mem_bundled {entry : String × Script Unit} (member : entry ∈ bundled) :
    Concludes entry.2 :=
  @concludes_of_endsInCall entry.2 (endsInCall_of_mem_bundled member)

end Scripts

/-! ## What a script does -/

/-- No call of a script that reads this configuration breaks the property of what it does:
an undefined step only comes from a table that cannot be computed. -/
structure UnbrokenByCalls (config : VariablesMap) (property : ScriptRun → Prop) : Prop where
  undefined : ∀ key reason, LuaConfig.get config key = .error reason → property .undefined
  failed : ∀ error, property (.failed error)
  userFeedbackError : ∀ message next, property next → property (.userFeedbackError message next)
  registerTask : ∀ task next, property next → property (.registerTask task next)
  runTarget : ∀ task commands next, (∀ succeeded, property (next succeeded)) →
    property (.runTarget task commands next)

section Unbroken

variable {α : Type} {lua : LuaContext} {property : ScriptRun → Prop}

/-- What no call breaks, a part does not break. -/
theorem OfCalls.unbroken {script : Script α} (calls : OfCalls script)
    (unbroken : UnbrokenByCalls lua.config property) {next : α → Task → ScriptRun}
    (after : ∀ value changed, property (next value changed)) (task : Task) :
    property (script lua next task) := by
  induction calls generalizing task with
  | pure own => exact after own task
  | bind first second firstUnbroken secondUnbroken =>
      apply firstUnbroken
      intro value changed
      exact secondUnbroken value after changed
  | config key =>
      rw [Script.config]
      cases computed : LuaConfig.get lua.config key with
      | ok table => exact after table task
      | error reason => exact unbroken.undefined key reason computed
  | jobs => exact after _ task
  | verbose => exact after _ task
  | pairs table => exact after _ task
  | addArgs args => exact after () (task.append args)
  | userFeedbackError message => exact unbroken.userFeedbackError message _ (after () task)
  | callbackFails => exact unbroken.failed _
  | inputError message => exact unbroken.failed _
  | luaError => exact unbroken.failed _

/-- Neither does a script. -/
theorem EndsInCall.unbroken {script : Script Unit} (ends : EndsInCall script)
    (unbroken : UnbrokenByCalls lua.config property) (finished : property .finished)
    (task : Task) : property (script.run lua task) := by
  rw [run]
  induction ends generalizing task with
  | bind first second secondUnbroken =>
      apply first.unbroken unbroken
      intro value changed
      exact secondUnbroken value changed
  | registerTask => exact unbroken.registerTask task _ finished
  | runTarget commands => exact unbroken.runTarget task commands _ fun _ => finished
  | inputError message => exact unbroken.failed _

end Unbroken

/-! ## The arguments of `docker` -/

/-- The first value that is configured under a key. -/
def firstValue (config : VariablesMap) (key : SettingsKey) : Option String :=
  match LuaConfig.get config key with
  | .ok (some table) => table["0"]?
  | _ => none

/-- The part goes on with arguments and a value that satisfy the condition, unless it ends
the script. -/
def Adds {α : Type} (script : Script α) (lua : LuaContext) (holds : TaskCollection → α → Prop) :
    Prop :=
  (∃ messages arguments value, script.GoesOn lua messages arguments value ∧
    holds arguments value) ∨ script.Fails lua

/-- The arguments with which a task is handed on satisfy the condition. -/
def HandsOn (script : Script Unit) (lua : LuaContext) (holds : TaskCollection → Prop) : Prop :=
  ∃ messages ending, script.EndsWith lua messages ending ∧
    match ending with
    | .registers arguments => holds arguments
    | .executes arguments _ => holds arguments
    | _ => True

section Docker

variable {α β : Type} {lua : LuaContext} {script : Script α} {rest : α → Script β}

theorem adds_of_builds [builds : Builds script] : script.Adds lua fun _ _ => True := by
  obtain ⟨messages, arguments, value, goesOn⟩ | fails := builds.builds lua
  · exact .inl ⟨messages, arguments, value, goesOn, trivial⟩
  · exact .inr fails

theorem Adds.bind {between : TaskCollection → α → Prop} {holds : TaskCollection → β → Prop}
    (first : script.Adds lua between)
    (second : ∀ arguments value, between arguments value →
      (rest value).Adds lua fun further => holds (arguments ++ further)) :
    (script >>= rest).Adds lua holds := by
  obtain ⟨messages, arguments, value, goesOn, held⟩ | fails := first
  · obtain ⟨later, further, result, goesOnLater, holds⟩ | fails := second arguments value held
    · exact .inl ⟨_, _, result, goesOn.bind goesOnLater, holds⟩
    · exact .inr (goesOn.bind_fails fails)
  · exact .inr (fails.bind rest)

theorem Adds.imp {between holds : TaskCollection → α → Prop} (adds : script.Adds lua between)
    (implies : ∀ arguments value, between arguments value → holds arguments value) :
    script.Adds lua holds := by
  obtain ⟨messages, arguments, value, goesOn, held⟩ | fails := adds
  · exact .inl ⟨messages, arguments, value, goesOn, implies arguments value held⟩
  · exact .inr fails

theorem Adds.bind_handsOn {between : TaskCollection → α → Prop} {holds : TaskCollection → Prop}
    {last : α → Script Unit} (first : script.Adds lua between)
    (second : ∀ arguments value, between arguments value →
      (last value).HandsOn lua fun further => holds (arguments ++ further)) :
    (script >>= last).HandsOn lua holds := by
  obtain ⟨messages, arguments, value, goesOn, held⟩ | fails := first
  · obtain ⟨later, ending, ends, holds⟩ := second arguments value held
    refine ⟨messages ++ later, ending.afterArguments arguments, fun task => ?_, ?_⟩
    · rw [ScriptRun.after, List.foldr_append, ← ScriptEnding.run_append]
      exact (goesOn _ task).trans (congrArg _ (ends _))
    · cases ending <;> exact holds
  · obtain ⟨messages, failure, rfl | ⟨error, rfl⟩, same⟩ := fails.bind last
    · exact ⟨messages, .undefined, fun task => same _ task, trivial⟩
    · exact ⟨messages, .failed error, fun task => same _ task, trivial⟩

theorem HandsOn.imp {last : Script Unit} {between holds : TaskCollection → Prop}
    (handsOn : last.HandsOn lua between)
    (implies : ∀ arguments, between arguments → holds arguments) : last.HandsOn lua holds := by
  obtain ⟨messages, ending, ends, held⟩ := handsOn
  refine ⟨messages, ending, ends, ?_⟩
  cases ending with
  | undefined => trivial
  | failed error => trivial
  | registers arguments => exact implies arguments held
  | executes arguments commands => exact implies arguments held

theorem adds_addArgs (args : TaskCollection) :
    (addArgs args).Adds lua fun arguments _ => arguments = args :=
  .inl ⟨_, _, _, goesOn_addArgs args, rfl⟩

/-- Reading a value adds no argument. -/
theorem adds_oneOf (key : SettingsKey) :
    (oneOf key).Adds lua fun arguments value =>
      arguments = [] ∧ value = firstValue lua.config key := by
  cases read : LuaConfig.get lua.config key with
  | error reason => exact .inr ((fails_config read).bind one)
  | ok table =>
      have configured := goesOn_config read
      cases table with
      | none =>
          refine .inl ⟨_, _, _, configured.bind (goesOn_pure none), rfl, ?_⟩
          rw [firstValue, read]
      | some values =>
          cases found : values["0"]? with
          | some value =>
              have first : (one (some values)).GoesOn lua [] [] (some value) := by
                rw [one, found]
                exact goesOn_pure (some value)
              refine .inl ⟨_, _, _, configured.bind first, rfl, ?_⟩
              rw [firstValue, read]
              exact found.symm
          | none =>
              have first : (one (some values)).Fails lua := by
                rw [one, found]
                exact ⟨[], _, .inr ⟨.module lua.callbackError, rfl⟩, fun _ _ => rfl⟩
              exact .inr (configured.bind_fails first)

/-- A setting that has to be there is there when the script goes on. -/
theorem adds_required (key : SettingsKey) (message : String) :
    (required key message).Adds lua fun arguments value =>
      arguments = [] ∧ firstValue lua.config key = some value := by
  apply (adds_oneOf key).bind
  rintro _ value ⟨rfl, read⟩
  cases value with
  | some value => exact .inl ⟨[], [], value, goesOn_pure value, rfl, read.symm⟩
  | none => exact .inr ⟨[message], _, .inr ⟨.runtime message, rfl⟩, fun _ _ => rfl⟩

/-- What comes before the container or image starts with the mode. -/
theorem adds_dockerOptions (mode : String) :
    (dockerOptions mode).Adds lua fun arguments _ => arguments.head? = some mode := by
  apply (adds_oneOf "interactive").bind
  rintro _ interactive ⟨rfl, -⟩
  apply (adds_oneOf "tty").bind
  rintro _ tty ⟨rfl, -⟩
  apply (adds_addArgs _).bind
  rintro _ _ rfl
  exact adds_of_builds.imp fun _ _ _ => rfl

/-- The argument that names the container or image. -/
theorem adds_requiredArgument (key : SettingsKey) (message : String) :
    Adds (do addArgs [← required key message]) lua fun arguments _ =>
      ∃ value, firstValue lua.config key = some value ∧ arguments = [value] := by
  apply (adds_required key message).bind
  rintro _ value ⟨rfl, configured⟩
  exact (adds_addArgs [value]).imp fun _ _ same => ⟨value, configured, same⟩

theorem adds_listOf (key : SettingsKey) :
    (listOf key).Adds lua fun arguments _ => arguments = [] := by
  cases read : LuaConfig.get lua.config key with
  | error reason => exact .inr ((fails_config read).bind list)
  | ok table =>
      have configured := goesOn_config read
      cases values : LuaConfig.list table with
      | ok texts =>
          have listed : (list table).GoesOn lua [] []
              (texts.map fun values => values.map Prod.snd) := by
            rw [list, values]
            exact goesOn_pure _
          exact .inl ⟨_, _, _, configured.bind listed, rfl⟩
      | error _ =>
          have listed : (list table).Fails lua := by
            rw [list, values]
            exact ⟨[], _, .inr ⟨.module lua.callbackError, rfl⟩, fun _ _ => rfl⟩
          exact .inr (configured.bind_fails listed)

/-- The script ends with the arguments it has. -/
theorem handsOn_targets :
    HandsOn (do
      match ← listOf "targets" with
      | some targets => runTarget targets
      | none => registerTask) lua fun arguments => arguments = [] := by
  apply (adds_listOf "targets").bind_handsOn
  rintro _ values rfl
  cases values with
  | some targets =>
      refine ⟨[], .executes [] targets, fun task => ?_, rfl⟩
      rw [ScriptEnding.run, Task.append_nil]
      rfl
  | none =>
      refine ⟨[], .registers [], fun task => ?_, rfl⟩
      rw [ScriptEnding.run, Task.append_nil]
      rfl

/-- To run an image, its name is added last. -/
theorem adds_image (mode : String) :
    Adds (onlyIf (mode = "run") do
        dockerVolumes
        addArgs [← required "image"
          "You must define an image when you define the docker plugin in \"run\" mode!"]) lua
      fun arguments _ => mode = "run" → ∃ image, firstValue lua.config "image" = some image ∧
        arguments.getLast? = some image := by
  by_cases isRun : mode = "run"
  · rw [onlyIf, if_pos isRun]
    apply adds_of_builds.bind
    intro volumes _ _
    apply (adds_requiredArgument "image" _).imp
    rintro _ _ ⟨image, configured, rfl⟩ _
    exact ⟨image, configured, List.getLast?_concat⟩
  · exact adds_of_builds.imp fun _ _ _ run => absurd run isRun

theorem adds_container (mode : String) :
    Adds (onlyIf (mode = "exec") do
        addArgs [← required "container"
          "You must define an container when you define the docker plugin in \"exec\" mode!"]) lua
      fun arguments _ =>
        if mode = "exec" then ∃ container, firstValue lua.config "container" = some container ∧
          arguments = [container]
        else arguments = [] := by
  by_cases isExec : mode = "exec"
  · simp only [onlyIf, if_pos isExec]
    exact adds_requiredArgument "container" _
  · simp only [onlyIf, if_neg isExec]
    exact .inl ⟨_, _, _, goesOn_pure (), rfl⟩

/-- Whatever else is configured, the second argument of `docker` is the mode, and the last
one before the target commands is the image to run or the container to execute in. -/
theorem docker_lastArgument (lua : LuaContext) :
    docker.HandsOn lua fun arguments =>
      ∃ mode, mode = (firstValue lua.config "mode").getD "exec" ∧ arguments[1]? = some mode ∧
        (mode = "run" → ∃ image, firstValue lua.config "image" = some image ∧
          arguments.getLast? = some image) ∧
        (mode = "exec" → ∃ container, firstValue lua.config "container" = some container ∧
          arguments.getLast? = some container) := by
  have readsMode : (oneOr "mode" "exec").Adds lua fun arguments value =>
      arguments = [] ∧ value = (firstValue lua.config "mode").getD "exec" := by
    apply (adds_oneOf "mode").bind
    rintro _ value ⟨rfl, rfl⟩
    exact .inl ⟨_, _, _, goesOn_pure _, rfl, rfl⟩
  apply (adds_addArgs ["docker"]).bind_handsOn
  rintro _ _ rfl
  apply readsMode.bind_handsOn
  rintro _ mode ⟨rfl, chosen⟩
  apply (adds_dockerOptions mode).bind_handsOn
  intro options _ head
  obtain ⟨others, rfl⟩ := List.head?_eq_some_iff.mp head
  apply (adds_image mode).bind_handsOn
  intro imageArguments _ image
  apply (adds_container mode).bind_handsOn
  intro containerArguments _ container
  apply handsOn_targets.imp
  rintro _ rfl
  refine ⟨mode, chosen, rfl, ?_, ?_⟩
  · rintro rfl
    obtain ⟨name, configured, last⟩ := image rfl
    obtain rfl : containerArguments = [] := by simpa using container
    exact ⟨name, configured, by simp [List.getLast?_cons, List.getLast?_append, last]⟩
  · rintro rfl
    obtain ⟨name, configured, rfl⟩ := by simpa using container
    exact ⟨name, configured, by simp [List.getLast?_cons, List.getLast?_append]⟩

end Docker

/-- The script as a file. -/
def file (script : Script Unit) (path : Path) (pairs : LuaConfig.Table → List (String × String))
    (callbackError : String) : LuaScript where
  path := path
  run verbose jobs config task _ := script.run { verbose, jobs, config, pairs, callbackError } task

end Script

/-! ## Effects of an ending -/

/-- What an ending has the plugin do. -/
def ScriptEnding.perform (currentPath : CurrentPath) (fuel : Nat) (script : Path)
    (patterns : Patterns) (task : Task) : ScriptEnding → PluginProgram Bool
  | .undefined => .stop (.emptyOptional .luaConfig)
  | .failed error => do
      match error.feedback script with
      | some message => feedbackError message
      | none => pure ()
      return false
  | .registers arguments =>
      forEachCombination fuel patterns fun combination => do
        let newTask ← orTerminate
          (replacePatternCombinations currentPath (task.append arguments) combination)
        registerTask newTask
  | .executes arguments commands => do
      let result ← LuaPlugin.runTarget currentPath fuel patterns (task.append arguments) commands
      if !result then host .failureDropped
      return true

section Effects

variable {currentPath : CurrentPath} {fuel : Nat} {path : Path} {patterns : Patterns}

theorem runScript_after (messages : List String) (run : ScriptRun) (tasks : List Task)
    (failed : Bool) :
    LuaPlugin.runScript currentPath fuel path patterns (.after messages run) tasks failed = (do
      messages.forM feedbackError
      LuaPlugin.runScript currentPath fuel path patterns run tasks failed) := by
  induction messages with
  | nil => rfl
  | cons message rest inductionHypothesis =>
      rw [List.forM_eq_forM, List.forM_cons, bind_assoc, ← List.forM_eq_forM,
        ← inductionHypothesis]
      rfl

theorem runScript_ending (ending : ScriptEnding) (task : Task) :
    LuaPlugin.runScript currentPath fuel path patterns (ending.run task) [] false =
      ending.perform currentPath fuel path patterns task := by
  cases ending with
  | undefined => rfl
  | failed error => rfl
  | registers arguments => exact ifSucceeds_pure _
  | executes arguments commands =>
      rw [ScriptEnding.run, LuaPlugin.runScript, ScriptEnding.perform]
      rfl

/-- What a bundled script does is decided by what it is given besides its task. It writes
its messages, and then it dereferences an empty optional, or it fails, or it hands on its
task with its own arguments, by registering it or by executing commands, once for every
combination. -/
theorem bundled_performs {entry : String × Script Unit} (member : entry ∈ Script.bundled)
    (lua : LuaContext) :
    ∃ (messages : List String) (ending : ScriptEnding), ∀ currentPath fuel path patterns task,
      LuaPlugin.runScript currentPath fuel path patterns (entry.2.run lua task) [] false = (do
        messages.forM feedbackError
        ScriptEnding.perform currentPath fuel path patterns task ending) := by
  obtain ⟨messages, ending, ends⟩ := (Script.concludes_of_mem_bundled member).concludes lua
  refine ⟨messages, ending, fun currentPath fuel path patterns task => ?_⟩
  rw [ends task, runScript_after, runScript_ending]

/-- Without any configuration, `make` is one of them. -/
theorem bundled_performs_make :
    ∃ (messages : List String) (ending : ScriptEnding), ∀ currentPath fuel path patterns task,
      LuaPlugin.runScript currentPath fuel path patterns
          (Script.make.run ⟨false, 1, .ofKey "make", ExtTreeMap.toList, ""⟩ task) [] false = (do
        messages.forM feedbackError
        ScriptEnding.perform currentPath fuel path patterns task ending) :=
  @bundled_performs ("make", Script.make) (by simp [Script.bundled]) _

end Effects

end ExecHelper.Plugins
