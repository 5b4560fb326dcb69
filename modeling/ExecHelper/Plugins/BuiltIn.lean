import ExecHelper.Plugins.CommandLineCommand

/-!
# The other built-in plugins

Besides `command-line-command` there are plugins that keep what they are called
with, that assemble one command line from many settings, and that wrap other
commands.  Settings with a default are read by dereferencing the optional without
a test, so a section that overrides such a default by an empty list makes the
plugin undefined.
-/

namespace ExecHelper.Plugins

open ExecHelper.Library
open ExecHelper.Config
open ExecHelper.Core

/-- Add a setting with one value to the defaults of a plugin. -/
private def withDefault (defaults : VariablesMap) (key : SettingsKey)
    (values : SettingsValues) : VariablesMap :=
  defaults.add [key] values

/-- The value the verbosity option gives the verbosity setting. -/
def verbosityValue (fleetingOptions : FleetingOptions) : SettingsValue :=
  if fleetingOptions.verbosity then "yes" else "no"

/-! ## Memory -/

namespace Memory

def PLUGIN_NAME : String := "memory"

def getVariablesMap (_ : FleetingOptions) : VariablesMap := .ofKey PLUGIN_NAME

/-- Keep the arguments; the result is the one set by `setReturnCode`. -/
def apply (returnCode : Bool) (task : Task) (variablesMap : VariablesMap)
    (patterns : Patterns) : PluginProgram Bool := do
  host (.remember task variablesMap patterns)
  return returnCode

end Memory

/-! ## Pmd -/

namespace Pmd

def PLUGIN_NAME : String := "pmd"
def EXEC_KEY : SettingsKey := "exec"
def TOOL_KEY : SettingsKey := "tool"
def MINIMUM_TOKENS_KEY : SettingsKey := "minimum-tokens"
def FILES_KEY : SettingsKey := "files"
def LANGUAGE_KEY : SettingsKey := "language"

def getVariablesMap (fleetingOptions : FleetingOptions) : VariablesMap :=
  let defaults := withDefault (.ofKey PLUGIN_NAME) EXEC_KEY [PLUGIN_NAME]
  let defaults := withDefault defaults TOOL_KEY ["cpd"]
  let defaults := withDefault defaults COMMAND_LINE_KEY []
  withDefault defaults VERBOSITY_KEY [verbosityValue fleetingOptions]

/-- Register the source code analyser for every combination. -/
def apply (currentPath : CurrentPath) (fuel : Nat) (task : Task) (variablesMap : VariablesMap)
    (patterns : Patterns) : PluginProgram Bool := do
  let binaryName ← dereference .pmd (variablesMap.getString [EXEC_KEY])
  let tool ← dereference .pmd (variablesMap.getString [TOOL_KEY])
  let task := task.append [binaryName ++ "-" ++ tool]
  let task :=
    match variablesMap.getString [LANGUAGE_KEY] with
    | some language => task.append ["--language", language]
    | none => task
  let verbosity ← dereference .pmd (variablesMap.getString [VERBOSITY_KEY])
  let task := if verbosity = "yes" then task.append ["-verbose"] else task
  let task :=
    if tool = "cpd" then
      let task :=
        match variablesMap.getString [MINIMUM_TOKENS_KEY] with
        | some minimumTokens => task.append ["--minimum-tokens", minimumTokens]
        | none => task
      ((variablesMap.getValues [FILES_KEY]).getD []).foldl
        (fun task file => task.append ["--files", file]) task
    else task
  let commandLine ← dereference .pmd (variablesMap.getValues [COMMAND_LINE_KEY])
  let task := task.append commandLine
  forEachCombination fuel patterns fun combination => do
    let newTask ← orTerminate (replacePatternCombinations currentPath task combination)
    registerTask newTask

end Pmd

/-! ## Valgrind -/

namespace Valgrind

def PLUGIN_NAME : String := "valgrind"
def RUN_COMMAND_KEY : SettingsKey := "run-command"
def TOOL_KEY : SettingsKey := "tool"

def getVariablesMap (fleetingOptions : FleetingOptions) : VariablesMap :=
  let defaults := withDefault (.ofKey PLUGIN_NAME) COMMAND_LINE_KEY []
  withDefault defaults VERBOSITY_KEY [verbosityValue fleetingOptions]

/-- Execute the run commands with a task that starts the analyser. -/
def apply (currentPath : CurrentPath) (fuel : Nat) (task : Task) (variablesMap : VariablesMap)
    (patterns : Patterns) : PluginProgram Bool := do
  let task := task.append [PLUGIN_NAME]
  match variablesMap.getValues [RUN_COMMAND_KEY] with
  | none =>
      feedbackError ("Could not find the '" ++ RUN_COMMAND_KEY ++ "' setting in the '" ++
        PLUGIN_NAME ++ "' settings")
      return false
  | some runCommand =>
      let task :=
        match variablesMap.getString [TOOL_KEY] with
        | some tool => task.append ["--tool=" ++ tool]
        | none => task
      let verbosity ← dereference .valgrind (variablesMap.getBool [VERBOSITY_KEY])
      let task := if verbosity then task.append ["--verbose"] else task
      let commandLine ← dereference .valgrind (variablesMap.getValues [COMMAND_LINE_KEY])
      let task := task.append commandLine
      forEachCombination fuel patterns fun combination => do
        let newTask ← orTerminate (replacePatternCombinations currentPath task combination)
        execute runCommand newTask

end Valgrind

/-! ## Lcov -/

namespace Lcov

def PLUGIN_NAME : String := "lcov"
def RUN_COMMAND : SettingsKey := "run-command"
def INFO_FILE_KEY : SettingsKey := "info-file"
def BASE_DIR_KEY : SettingsKey := "base-directory"
def DIR_KEY : SettingsKey := "directory"
def ZERO_COUNTERS_KEY : SettingsKey := "zero-counters"
def GEN_HTML_KEY : SettingsKey := "gen-html"
def GEN_HTML_OUTPUT_KEY : SettingsKey := "gen-html-output"
def GEN_HTML_TITLE_KEY : SettingsKey := "gen-html-title"
def GEN_HTML_COMMAND_LINE_KEY : SettingsKey := "gen-html-command-line"
def EXCLUDES_KEY : SettingsKey := "excludes"

def getVariablesMap (_ : FleetingOptions) : VariablesMap :=
  let defaults := withDefault (.ofKey PLUGIN_NAME) COMMAND_LINE_KEY []
  let defaults := withDefault defaults INFO_FILE_KEY ["lcov-plugin.info"]
  let defaults := withDefault defaults BASE_DIR_KEY ["."]
  let defaults := withDefault defaults DIR_KEY ["."]
  let defaults := withDefault defaults ZERO_COUNTERS_KEY ["no"]
  let defaults := withDefault defaults GEN_HTML_KEY ["no"]
  let defaults := withDefault defaults GEN_HTML_OUTPUT_KEY ["."]
  let defaults := withDefault defaults GEN_HTML_TITLE_KEY ["Hello"]
  let defaults := withDefault defaults GEN_HTML_COMMAND_LINE_KEY []
  withDefault defaults EXCLUDES_KEY []

/-- The task that resets the counters. -/
def generateZeroCountersTask (baseDirectory directory : Path)
    (commandLine : TaskCollection) (task : Task) : Task :=
  (task.append [PLUGIN_NAME, "--" ++ BASE_DIR_KEY, baseDirectory, "--" ++ DIR_KEY,
    directory, "--zerocounters"]).append commandLine

/-- The task that captures the coverage of the run commands. -/
def generateCaptureTask (baseDirectory directory infoFile : Path)
    (commandLine : TaskCollection) (task : Task) : Task :=
  (task.append [PLUGIN_NAME, "--" ++ BASE_DIR_KEY, baseDirectory, "--" ++ DIR_KEY,
    directory, "--capture", "--output", infoFile]).append commandLine

/-- The excludes, each between quotes. -/
def getExcludes (variablesMap : VariablesMap) : List String :=
  ((variablesMap.getValues [EXCLUDES_KEY]).getD []).map fun exclude =>
    "\"" ++ exclude ++ "\""

/-- The task that removes the excludes from the captured coverage. -/
def generateExcludeTask (variablesMap : VariablesMap) (infoFile : Path)
    (commandLine : TaskCollection) (task : Task) : Task :=
  let excludes := getExcludes variablesMap
  if excludes.isEmpty then task
  else
    (((task.append [PLUGIN_NAME, "--remove", infoFile]).append excludes).append
      ["--output-file", infoFile]).append commandLine

/-- The task that generates the report. -/
def generateGenHtmlTask (infoFile : Path) (variablesMap : VariablesMap) (task : Task) :
    PluginProgram Task := do
  let output ← dereference .lcov (variablesMap.getPath [GEN_HTML_OUTPUT_KEY])
  let title ← dereference .lcov (variablesMap.getString [GEN_HTML_TITLE_KEY])
  let commandLine ← dereference .lcov (variablesMap.getValues [GEN_HTML_COMMAND_LINE_KEY])
  return ((task.append ["genhtml", "--output-directory", output, "--title", title]).append
    commandLine).append [infoFile]

/-- Register a task for one combination. -/
def runTask (currentPath : CurrentPath) (task : Task) (combination : PatternCombinations) :
    PluginProgram Bool := do
  let newTask ← orTerminate (replacePatternCombinations currentPath task combination)
  registerTask newTask

/-- Measure the coverage of the run commands for every combination. -/
def apply (currentPath : CurrentPath) (fuel : Nat) (task : Task) (variablesMap : VariablesMap)
    (patterns : Patterns) : PluginProgram Bool := do
  match variablesMap.getValues [RUN_COMMAND] with
  | none =>
      feedbackError ("Could not find the '" ++ RUN_COMMAND ++ "' setting in the '" ++
        PLUGIN_NAME ++ "' settings")
      return false
  | some [] =>
      feedbackError ("The '" ++ RUN_COMMAND ++ "' list is empty")
      return false
  | some runCommands =>
      let infoFile ← dereference .lcov (variablesMap.getPath [INFO_FILE_KEY])
      let baseDirectory ← dereference .lcov (variablesMap.getPath [BASE_DIR_KEY])
      let directory ← dereference .lcov (variablesMap.getPath [DIR_KEY])
      let commandLine ← dereference .lcov (variablesMap.getValues [COMMAND_LINE_KEY])
      let zeroCounters ← dereference .lcov (variablesMap.getBool [ZERO_COUNTERS_KEY])
      let zeroCountersTask := generateZeroCountersTask baseDirectory directory commandLine task
      let genHtml ← dereference .lcov (variablesMap.getBool [GEN_HTML_KEY])
      let genHtmlTask ←
        (if genHtml then generateGenHtmlTask infoFile variablesMap task
          else pure (Task.empty currentPath) : PluginProgram Task)
      let captureTask := generateCaptureTask baseDirectory directory infoFile commandLine task
      let exclude ← dereference .lcov (variablesMap.getValues [EXCLUDES_KEY])
      let excludeTask := generateExcludeTask variablesMap infoFile commandLine task
      forEachCombination fuel patterns fun combination =>
        ifSucceeds
          (if zeroCounters then runTask currentPath zeroCountersTask combination
            else pure true) <|
        ifSucceeds (execute runCommands task) <|
        ifSucceeds (runTask currentPath captureTask combination) <|
        ifSucceeds
          (if exclude.isEmpty then pure true
            else runTask currentPath excludeTask combination) <|
        ifSucceeds
          (if genHtml then runTask currentPath genHtmlTask combination else pure true) <|
        pure true

end Lcov

/-! ## Commands -/

namespace CommandPlugin

def PLUGIN_NAME : String := "commands"

def getVariablesMap (fleetingOptions : FleetingOptions) : VariablesMap :=
  (SettingsNode.ofKey PLUGIN_NAME).add [PLUGIN_NAME] fleetingOptions.commands

/-- Execute the commands of the invocation. -/
def apply (task : Task) (variablesMap : VariablesMap) : PluginProgram Bool := do
  let commands ← dereference .commandPlugin (variablesMap.getValues [PLUGIN_NAME])
  execute commands task

end CommandPlugin

end ExecHelper.Plugins
