import ExecHelper.Plugins.CommandLineCommand
import ExecHelper.Plugins.LuaPlugin

/-!
# Working directories

The working directory of a command is documented to be the configured one, taken
relative to the directory of the settings file, or that directory itself when none is
configured.  The configured value goes into the task as it is and is made absolute in
two places only: for `PWD`, and when the process of the command changes into it.  Both
take it relative to the current directory of the process.
-/

namespace ExecHelper.Plugins

open ExecHelper.Config
open ExecHelper.Core
open ExecHelper.Library

/-! ## Where tasks are executed -/

/-- The directory the process of a command changes to (`process::start_dir`). It cannot
change to the empty path. -/
def startDirectory (currentPath : CurrentPath) (task : Task) : Option Path :=
  Path.absolute currentPath task.workingDirectory

/-- The task is executed in the directory, and its `PWD` says so. -/
structure ExecutedIn (currentPath : CurrentPath) (task : Task) (directory : Path) : Prop where
  started : startDirectory currentPath task = some directory
  pwd : task.env["PWD"]? = some directory

/-- The directory that is documented: the configured one, from the settings directory if
it is relative, or else the settings directory. -/
def documentedDirectory (currentPath : CurrentPath) (settingsDirectory : Path)
    (workingDir : Option String) (combination : PatternCombinations) : Path :=
  match workingDir with
  | some workingDir => Path.append currentPath.path
      (Path.append settingsDirectory (replaceCombinations workingDir combination))
  | none => Path.append currentPath.path settingsDirectory

/-- The current directory plays no role: the configured directory is absolute, or the
current directory is the settings directory. When none is configured, there must be no
placeholder in the settings directory that is replaced. -/
def ResolvesAsDocumented (currentPath : CurrentPath) (settingsDirectory : Path)
    (workingDir : Option String) (combination : PatternCombinations) : Prop :=
  match workingDir with
  | some workingDir =>
      replaceCombinations workingDir combination ≠ "" ∧
        (Path.isAbsolute (replaceCombinations workingDir combination) = true ∨
          Path.withSeparator currentPath.path =
            Path.withSeparator (Path.append currentPath.path settingsDirectory))
  | none =>
      replaceCombinations settingsDirectory combination ≠ "" ∧
        (replaceCombinations settingsDirectory combination = settingsDirectory ∨
          -- Only a relative directory can be replaced by its own absolute path.
          Path.isAbsolute (replaceCombinations settingsDirectory combination) = true ∧
            replaceCombinations settingsDirectory combination =
              Path.append currentPath.path settingsDirectory)

section Directories

variable {currentPath : CurrentPath} {settingsDirectory : Path} {workingDir : Option String}
variable {combination : PatternCombinations} {queued registered : Task}

/-- A placeholder cannot begin at the root. -/
theorem isAbsolute_replacePatterns (text pattern replacement : String)
    (rooted : Path.isAbsolute text = true) :
    Path.isAbsolute (replacePatterns text pattern replacement) = true := by
  rw [replacePatterns_eq_ofList]
  cases characters : text.toList with
  | nil => simp [Path.isAbsolute, characters] at rooted
  | cons first rest =>
      have root : first = '/' := by simpa [Path.isAbsolute, characters] using rooted
      rw [root, replaceAllAux]
      simp [Path.isAbsolute, List.isPrefixOf]

theorem isAbsolute_replaceCombinations {text : String} (rooted : Path.isAbsolute text = true)
    (combination : PatternCombinations) :
    Path.isAbsolute (replaceCombinations text combination) = true :=
  replaceCombinations_keeps isAbsolute_replacePatterns rooted combination

/-- Process and `PWD` agree on the directory, whatever it is. -/
theorem executedIn_iff
    (replaced : replacePatternCombinations currentPath queued combination = some registered)
    (directory : Path) :
    ExecutedIn currentPath registered directory ↔
      replaceCombinations queued.workingDirectory combination ≠ "" ∧
        Path.append currentPath.path
          (replaceCombinations queued.workingDirectory combination) = directory := by
  obtain ⟨-, rfl⟩ := replacePatternCombinations_eq_some_iff.mp replaced
  rw [← Path.absolute_eq_some_iff]
  constructor
  · exact fun executed => executed.started
  · intro started
    obtain ⟨-, rfl⟩ := Path.absolute_eq_some_iff.mp started
    exact ⟨started, Std.ExtTreeMap.getElem?_insert_self⟩

/-- A configured directory. -/
theorem absolute_eq_documentedDirectory_iff_of_some (path : String) :
    Path.append currentPath.path (replaceCombinations path combination) =
        documentedDirectory currentPath settingsDirectory (some path) combination ↔
      Path.isAbsolute (replaceCombinations path combination) = true ∨
        Path.withSeparator currentPath.path =
          Path.withSeparator (Path.append currentPath.path settingsDirectory) := by
  rw [documentedDirectory]
  cases rooted : Path.isAbsolute (replaceCombinations path combination) with
  | true =>
      rw [Path.append_of_absolute rooted, Path.append_of_absolute rooted,
        Path.append_of_absolute rooted]
      exact iff_of_true rfl (Or.inl rfl)
  | false =>
      rw [Path.append_append rooted, Path.append_eq_append_iff rooted]
      simp

/-- The directory of the settings file, which goes through the substitution as well. -/
theorem absolute_eq_documentedDirectory_iff_of_none :
    Path.append currentPath.path (replaceCombinations settingsDirectory combination) =
        documentedDirectory currentPath settingsDirectory none combination ↔
      replaceCombinations settingsDirectory combination = settingsDirectory ∨
        Path.isAbsolute (replaceCombinations settingsDirectory combination) = true ∧
          replaceCombinations settingsDirectory combination =
            Path.append currentPath.path settingsDirectory := by
  rw [documentedDirectory]
  constructor
  · intro same
    cases rooted : Path.isAbsolute (replaceCombinations settingsDirectory combination) with
    | true =>
        rw [Path.append_of_absolute rooted] at same
        exact Or.inr ⟨rfl, same⟩
    | false =>
        cases settingsRooted : Path.isAbsolute settingsDirectory with
        | true =>
            rw [isAbsolute_replaceCombinations settingsRooted] at rooted
            cases rooted
        | false =>
            rw [Path.append_of_relative rooted,
              Path.append_of_relative settingsRooted, String.append_right_inj] at same
            exact Or.inl same
  · rintro (same | ⟨rooted, same⟩)
    · rw [same]
    · rw [Path.append_of_absolute rooted, same]

/-- When a task with the configured directory is executed where it is documented to be. -/
theorem executedIn_documentedDirectory_iff
    (configured : queued.workingDirectory = workingDir.getD settingsDirectory)
    (replaced : replacePatternCombinations currentPath queued combination = some registered) :
    ExecutedIn currentPath registered
        (documentedDirectory currentPath settingsDirectory workingDir combination) ↔
      ResolvesAsDocumented currentPath settingsDirectory workingDir combination := by
  rw [executedIn_iff replaced, configured]
  cases workingDir with
  | some path => exact and_congr_right' (absolute_eq_documentedDirectory_iff_of_some path)
  | none => exact and_congr_right' absolute_eq_documentedDirectory_iff_of_none

end Directories

/-! ## What is registered -/

/-- Only tasks with a property are registered. -/
def registrationProtocol (registrable : Task → Prop) : Protocol Stop pluginInterface where
  Phase := Unit
  allowed _ := True
  permitted _ op := ∀ task, op = .host (.registerTask task) → registrable task
  advance _ _ _ := ()

/-- The program registers only tasks with the property, and its value is as given. -/
def Registers {α : Type} (registrable : Task → Prop) (returns : α → Prop)
    (program : PluginProgram α) : Prop :=
  (registrationProtocol registrable).Conforms (fun value _ => returns value) program ()

/-- Nothing is said of the value. -/
def AnyValue {α : Type} (_ : α) : Prop := True

section Registration

variable {α β : Type} {registrable : Task → Prop}

theorem registers_pure {returns : α → Prop} {value : α} (returned : returns value) :
    Registers registrable returns (pure value) := returned

theorem Registers.bind {between : α → Prop} {returns : β → Prop} {first : PluginProgram α}
    {second : α → PluginProgram β} (firstRegisters : Registers registrable between first)
    (secondRegisters : ∀ value, between value → Registers registrable returns (second value)) :
    Registers registrable returns (first >>= second) :=
  Protocol.Conforms.bind firstRegisters fun value _ returned => secondRegisters value returned

theorem registers_host {event : HostEvent}
    (tasks : ∀ task, event = .registerTask task → registrable task) :
    Registers registrable AnyValue (host event) :=
  ⟨fun task same => tasks task (PluginOp.host.inj same), fun _ => trivial⟩

theorem registers_feedbackError (text : String) :
    Registers registrable AnyValue (feedbackError text) :=
  registers_host fun _ same => nomatch same

theorem registers_registerTask {task : Task} (registers : registrable task) :
    Registers registrable AnyValue (registerTask task) := by
  have event : Registers registrable AnyValue (host (.registerTask task)) := by
    apply registers_host
    rintro _ ⟨⟩
    exact registers
  exact event.bind fun _ _ => registers_pure trivial

theorem registers_execute (commands : CommandCollection) (task : Task) :
    Registers registrable AnyValue (execute commands task) :=
  ⟨fun _ same => (nomatch same), fun _ => trivial⟩

/-- There is only one phase to end in. -/
theorem registers_iff_endsIn {program : PluginProgram Bool} :
    Registers registrable AnyValue program ↔
      (registrationProtocol registrable).Conforms
        ((registrationProtocol registrable).EndsIn () AnyValue) program () := by
  constructor
  · intro registers
    apply registers.imp
    rintro (_ | _) _ _
    · trivial
    · rfl
  · exact fun conforms => conforms.imp fun _ _ _ => trivial

/-- A program goes on only with a value. -/
theorem registers_orTerminate (value : Option α) :
    Registers registrable (fun given => value = some given) (orTerminate value) := by
  cases value with
  | none => trivial
  | some given => exact registers_pure rfl

theorem registers_allM {body : α → PluginProgram Bool} {inputs : List α}
    (bodies : ∀ input ∈ inputs, Registers registrable AnyValue (body input)) :
    Registers registrable AnyValue (inputs.allM body) := by
  rw [registers_iff_endsIn]
  exact conforms_allM fun input member => registers_iff_endsIn.mp (bodies input member)

theorem registers_forEachCombination (fuel : Nat) (patterns : Patterns)
    {body : PatternCombinations → PluginProgram Bool}
    (bodies : ∀ combination, Registers registrable AnyValue (body combination)) :
    Registers registrable AnyValue (forEachCombination fuel patterns body) := by
  rw [registers_iff_endsIn]
  apply conforms_forEachCombination trivial trivial
  exact fun combination => registers_iff_endsIn.mp (bodies combination)

end Registration

/-! ## The plugins -/

/-- What a script can make of a task: copies, to which it adds arguments. -/
inductive MadeFrom (origin : Task) : Task → Prop where
  | copy : MadeFrom origin origin
  | addArgs {made : Task} (arguments : TaskCollection) (earlier : MadeFrom origin made) :
      MadeFrom origin (made.append arguments)

theorem MadeFrom.workingDirectory_eq {origin made : Task} (making : MadeFrom origin made) :
    made.workingDirectory = origin.workingDirectory := by
  induction making with
  | copy => rfl
  | addArgs arguments earlier inductionHypothesis => exact inductionHypothesis

/-- Every task the script queues has the property, whatever it is answered. -/
def ScriptRun.Queues (queues : Task → Prop) : ScriptRun → Prop
  | .registerTask task next => queues task ∧ next.Queues queues
  | .userFeedbackError _ next => next.Queues queues
  | .runTarget _ _ next => ∀ succeeded, (next succeeded).Queues queues
  | _ => True

/-- There are two tasks a script can start from: the one it is called with, and a new one
(`task:new()`). -/
def LuaScript.UsesTasks (currentPath : CurrentPath) (script : LuaScript) : Prop :=
  ∀ verbose jobs config task patterns,
    (script.run verbose jobs config task patterns).Queues fun queued =>
      MadeFrom task queued ∨ MadeFrom (Task.empty currentPath) queued

/-- The registered task comes from one with the configured directory. Substituting a
combination has brought it to where it is documented to be executed just when the current
directory plays no role. -/
def ConfiguredTask (currentPath : CurrentPath) (settingsDirectory : Path)
    (workingDir : Option String) (registered : Task) : Prop :=
  ∃ (queued : Task) (combination : PatternCombinations),
    queued.workingDirectory = workingDir.getD settingsDirectory ∧
    replacePatternCombinations currentPath queued combination = some registered ∧
    (ExecutedIn currentPath registered
        (documentedDirectory currentPath settingsDirectory workingDir combination) ↔
      ResolvesAsDocumented currentPath settingsDirectory workingDir combination)

/-- The registered task comes from a new one of a script, which has the current directory
and knows nothing of the configured one. -/
def NewTask (currentPath : CurrentPath) (settingsDirectory : Path)
    (workingDir : Option String) (registered : Task) : Prop :=
  ∃ (queued : Task) (combination : PatternCombinations),
    queued.workingDirectory = currentPath.path ∧
    replacePatternCombinations currentPath queued combination = some registered ∧
    (ExecutedIn currentPath registered
        (documentedDirectory currentPath settingsDirectory workingDir combination) ↔
      replaceCombinations currentPath.path combination ≠ "" ∧
        Path.append currentPath.path (replaceCombinations currentPath.path combination) =
          documentedDirectory currentPath settingsDirectory workingDir combination)

section Plugins

variable {currentPath : CurrentPath} {settingsDirectory : Path} {workingDir : Option String}
variable {queued registered : Task} {combination : PatternCombinations}

theorem configuredTask_of_replaced
    (configured : queued.workingDirectory = workingDir.getD settingsDirectory)
    (replaced : replacePatternCombinations currentPath queued combination = some registered) :
    ConfiguredTask currentPath settingsDirectory workingDir registered :=
  ⟨queued, combination, configured, replaced,
    executedIn_documentedDirectory_iff configured replaced⟩

theorem newTask_of_replaced (new : queued.workingDirectory = currentPath.path)
    (replaced : replacePatternCombinations currentPath queued combination = some registered) :
    NewTask currentPath settingsDirectory workingDir registered := by
  refine ⟨queued, combination, new, replaced, ?_⟩
  rw [executedIn_iff replaced, new]

theorem registers_commandLineCommand (fuel : Nat) (task : Task) (config : VariablesMap)
    (patterns : Patterns) :
    Registers (ConfiguredTask currentPath task.workingDirectory
        (config.getString [WORKING_DIR_KEY])) AnyValue
      (CommandLineCommand.apply currentPath fuel task config patterns) := by
  rcases CommandLineCommand.apply_cases currentPath task config patterns with
    ⟨-, stops⟩ | ⟨-, stops⟩ | reports | ⟨configured, commandLines, sets, registers⟩
  · rw [stops]
    trivial
  · rw [stops]
    trivial
  · rw [reports]
    exact (registers_feedbackError _).bind fun _ _ => registers_pure trivial
  · rw [registers]
    apply registers_forEachCombination
    intro combination
    apply registers_allM
    intro executeTask member
    rcases List.mem_map.mp member with ⟨commandLine, _, rfl⟩
    apply (registers_orTerminate _).bind
    intro newTask replaced
    apply registers_registerTask
    apply configuredTask_of_replaced _ replaced
    rw [Task.workingDirectory_append]
    exact CommandLineCommand.workingDirectory_configuredTask sets

theorem registers_runScript {registrable queues : Task → Prop} (fuel : Nat) (script : Path)
    (patterns : Patterns)
    (substituted : ∀ queued, queues queued → ∀ combination registered,
      replacePatternCombinations currentPath queued combination = some registered →
        registrable registered)
    {scriptRun : ScriptRun} (queued : scriptRun.Queues queues) {tasks : List Task}
    (earlier : ∀ task ∈ tasks, queues task) (failed : Bool) :
    Registers registrable AnyValue
      (LuaPlugin.runScript currentPath fuel script patterns scriptRun tasks failed) := by
  have tasksRegister : ∀ tasks : List Task, (∀ task ∈ tasks, queues task) →
      Registers registrable AnyValue
        (LuaPlugin.registerTasks currentPath fuel patterns tasks) := by
    intro tasks queued
    apply registers_allM
    intro task member
    apply registers_forEachCombination
    intro combination
    apply (registers_orTerminate _).bind
    intro newTask replaced
    exact registers_registerTask
      (substituted task (queued task member) combination newTask replaced)
  induction scriptRun generalizing tasks failed with
  | finished =>
      rw [LuaPlugin.runScript]
      cases failed with
      | true =>
          apply (registers_host fun _ same => nomatch same).bind
          exact fun _ _ => tasksRegister tasks earlier
      | false => exact tasksRegister tasks earlier
  | failed error =>
      rw [LuaPlugin.runScript]
      cases error.feedback script with
      | none => exact registers_pure trivial
      | some message =>
          exact (registers_feedbackError message).bind fun _ _ => registers_pure trivial
  | undefined => trivial
  | diverged => trivial
  | userFeedbackError message next inductionHypothesis =>
      rw [LuaPlugin.runScript]
      apply (registers_feedbackError message).bind
      exact fun _ _ => inductionHypothesis queued earlier failed
  | registerTask task next inductionHypothesis =>
      rw [LuaPlugin.runScript]
      apply inductionHypothesis queued.2
      intro other member
      rcases List.mem_append.mp member with old | new
      · exact earlier other old
      · rw [List.mem_singleton.mp new]
        exact queued.1
  | runTarget task commands next inductionHypothesis =>
      rw [LuaPlugin.runScript]
      have target : Registers registrable AnyValue
          (LuaPlugin.runTarget currentPath fuel patterns task commands) := by
        apply registers_forEachCombination
        exact fun combination => (registers_orTerminate _).bind fun _ _ => registers_execute _ _
      apply target.bind
      exact fun result _ => inductionHypothesis result (queued result) earlier _

theorem registers_jobs {registrable : Task → Prop} (config : VariablesMap) :
    Registers registrable AnyValue (LuaPlugin.jobs config) := by
  rw [LuaPlugin.jobs]
  split
  · exact registers_pure trivial
  · split
    · exact registers_pure trivial
    · exact (registers_feedbackError _).bind fun _ _ => registers_pure trivial

theorem registers_luaPlugin {script : LuaScript} (usesTasks : script.UsesTasks currentPath)
    (fuel : Nat) (task : Task) (config : VariablesMap) (patterns : Patterns) :
    Registers
      (fun registered =>
        ConfiguredTask currentPath task.workingDirectory (config.getString [WORKING_DIR_KEY])
            registered ∨
          NewTask currentPath task.workingDirectory (config.getString [WORKING_DIR_KEY])
            registered) AnyValue
      (LuaPlugin.apply script currentPath fuel task config patterns) := by
  unfold LuaPlugin.apply
  apply (registers_orTerminate _).bind
  intro directoryTask sets
  extract_lets configuredTask verbose
  have configured : configuredTask.workingDirectory =
      (config.getString [WORKING_DIR_KEY]).getD task.workingDirectory := by
    simp only [configuredTask, Task.appendToEnvironment_eq]
    cases directory : config.getString [WORKING_DIR_KEY] with
    | none =>
        rw [directory] at sets
        rw [← Option.some.inj sets, Option.getD_none]
    | some workingDir =>
        rw [directory] at sets
        rw [(Task.setWorkingDirectory_eq_some_iff.mp sets).2, Task.placed, Option.getD_some]
  apply (registers_jobs config).bind
  intro jobs _
  apply registers_runScript fuel script.path patterns _ (usesTasks ..) (List.forall_mem_nil _)
  rintro queued (made | new) combination registered replaced
  · exact Or.inl (configuredTask_of_replaced (made.workingDirectory_eq.trans configured) replaced)
  · refine Or.inr (newTask_of_replaced (new.workingDirectory_eq.trans ?_) replaced)
    rw [Task.empty_eq, Task.placed]

end Plugins

/-- Variables with the command line `make` in the directory `build`. -/
def buildVariables : VariablesMap :=
  ⟨"make", some [⟨"command-line", some [.ofKey "make"]⟩,
    ⟨"working-dir", some [.ofKey "build"]⟩]⟩

private theorem getString_buildVariables :
    buildVariables.getString [WORKING_DIR_KEY] = some "build" := by decide

/-- The tasks of both plugins are executed where they are documented to be, and have that
directory in `PWD`, exactly when the current directory plays no role for the configured
one. A new task of a script is executed in the current directory. -/
theorem registers_resolvesAsDocumented_iff (currentPath : CurrentPath)
    (settingsDirectory : Path) (fuel : Nat) (task : Task) (config : VariablesMap)
    (patterns : Patterns) (handed : task.workingDirectory = settingsDirectory) :
    Registers
        (ConfiguredTask currentPath settingsDirectory (config.getString [WORKING_DIR_KEY]))
        AnyValue (CommandLineCommand.apply currentPath fuel task config patterns) ∧
      ∀ script : LuaScript, script.UsesTasks currentPath →
        Registers
          (fun registered =>
            ConfiguredTask currentPath settingsDirectory (config.getString [WORKING_DIR_KEY])
                registered ∨
              NewTask currentPath settingsDirectory (config.getString [WORKING_DIR_KEY])
                registered)
          AnyValue (LuaPlugin.apply script currentPath fuel task config patterns) := by
  rw [← handed]
  constructor
  · exact registers_commandLineCommand fuel task config patterns
  · exact fun script usesTasks => registers_luaPlugin usesTasks fuel task config patterns

def home : CurrentPath := ⟨"/home", by decide⟩

/-- A relative directory, for the one plugin and for a script that runs `make` as well. -/
theorem registers_resolvesAsDocumented_iff_build :
    Registers (ConfiguredTask home "/work" (some "build")) AnyValue
        (CommandLineCommand.apply home 2 ⟨[], ∅, "/work"⟩ buildVariables []) ∧
      Registers
        (fun registered => ConfiguredTask home "/work" (some "build") registered ∨
          NewTask home "/work" (some "build") registered)
        AnyValue
        (LuaPlugin.apply
          ⟨"make.lua", fun _ _ _ task _ => .registerTask (task.append ["make"]) .finished⟩
          home 2 ⟨[], ∅, "/work"⟩ buildVariables []) := by
  have registers := registers_resolvesAsDocumented_iff home "/work" 2 ⟨[], ∅, "/work"⟩
    buildVariables [] rfl
  rw [getString_buildVariables] at registers
  exact ⟨registers.1, registers.2 _ fun _ _ _ _ _ => ⟨.inl (.addArgs _ .copy), trivial⟩⟩

/-- Started in another directory than that of the settings file, a relative directory is
another one. -/
theorem registers_executedIn_counterexample :
    ¬ ∀ (currentPath : CurrentPath) (settingsDirectory : Path) (fuel : Nat) (task : Task)
        (config : VariablesMap) (patterns : Patterns),
        task.workingDirectory = settingsDirectory →
        Registers
          (fun registered => ∃ (queued : Task) (combination : PatternCombinations),
            queued.workingDirectory =
              (config.getString [WORKING_DIR_KEY]).getD settingsDirectory ∧
            replacePatternCombinations currentPath queued combination = some registered ∧
            ExecutedIn currentPath registered (documentedDirectory currentPath
              settingsDirectory (config.getString [WORKING_DIR_KEY]) combination))
          AnyValue (CommandLineCommand.apply currentPath fuel task config patterns) := by
  intro claimed
  have registers := claimed home "/work" 2 ⟨[], ∅, "/work"⟩ buildVariables [] rfl
  rcases registers.1 _ rfl with ⟨queued, combination, configured, replaced, executed⟩
  rw [executedIn_documentedDirectory_iff configured replaced, getString_buildVariables]
    at executed
  have plain : replaceCombinations "build" combination = "build" :=
    replaceCombinations_of_notMem (by decide) combination
  rcases executed with ⟨_, rooted | separated⟩
  · rw [plain] at rooted
    exact absurd rooted (by decide)
  · exact absurd separated (by decide)

end ExecHelper.Plugins
