import ExecHelper.Plugins.PluginUtils

/-!
# The command-line-command plugin

The plugin registers configured command lines as they are.  A command line is
given either as a plain list of arguments or under identifiers of which each has
its own arguments; which of the two forms is meant is decided by whether the first
entry has arguments.

What it registers is stated without its loops: for every combination of the
pattern values, in the order of their product, every command line in the
configured order, with the combination substituted in a task that was completed
before.
-/

namespace ExecHelper.Plugins.CommandLineCommand

open Std (ExtTreeMap)
open ExecHelper.Library
open ExecHelper.Config
open ExecHelper.Core

def PLUGIN_NAME : String := "command-line-command"

/-- The default variables of the plugin. -/
def getVariablesMap (_ : FleetingOptions) : VariablesMap :=
  ((SettingsNode.ofKey PLUGIN_NAME).add [COMMAND_LINE_KEY] []).add [ENVIRONMENT_KEY] []

/-- Register the configured command lines for every combination. -/
def apply (currentPath : CurrentPath) (fuel : Nat) (task : Task) (variablesMap : VariablesMap)
    (patterns : Patterns) : PluginProgram Bool := do
  let task := task.appendToEnvironment (getEnvironment variablesMap)
  let task ← orTerminate
    (match variablesMap.getString [WORKING_DIR_KEY] with
      | some workingDir => task.setWorkingDirectory currentPath workingDir
      | none => some task)
  let commandLine ←
    dereference .commandLineCommand (variablesMap.getValues [COMMAND_LINE_KEY])
  match commandLine with
  | [] =>
      feedbackError ("Could not find the '" ++ COMMAND_LINE_KEY ++ "' setting in the '" ++
        PLUGIN_NAME ++ "' settings")
      return false
  | front :: _ =>
      let tasks ←
        (if ((variablesMap.getValues [COMMAND_LINE_KEY, front]).getD []).isEmpty then
            pure [task.append commandLine]
          else
            ((variablesMap.getValues [COMMAND_LINE_KEY]).getD []).mapM fun commandKey => do
              let arguments ← dereference .commandLineCommand
                (variablesMap.getValues [COMMAND_LINE_KEY, commandKey])
              return task.append arguments : PluginProgram (List Task))
      forEachCombination fuel patterns fun combination =>
        tasks.allM fun executeTask => do
          let newTask ← orTerminate
            (replacePatternCombinations currentPath executeTask combination)
          registerTask newTask

/-! ## What is to be registered -/

/-- The two forms of a command-line entry with the command lines they stand for: a
list of plain arguments is one command line, and under distinct identifiers every
one has its own. -/
inductive CommandLines : List SettingsNode → List TaskCollection → Prop where
  | plain (entries : List SettingsNode) (nonempty : entries ≠ [])
      (plain : ∀ entry ∈ entries, entry.mValues.getD [] = []) :
      CommandLines entries [entries.map SettingsNode.mKey]
  | identified (entries : List SettingsNode) (nonempty : entries ≠ [])
      (distinct : (entries.map SettingsNode.mKey).Nodup)
      (arguments : ∀ entry ∈ entries, entry.mValues.getD [] ≠ []) :
      CommandLines entries
        (entries.map fun entry => (entry.mValues.getD []).map SettingsNode.mKey)

/-- The incoming task completed by the configuration: its arguments are followed by
the command line, its environment is overlaid by the configured one, and its
working directory is the configured one if there is one. -/
def completedTask (task : Task) (variablesMap : VariablesMap)
    (commandLine : TaskCollection) : Task :=
  { task := task.task ++ commandLine
    env := task.env.insertMany (getEnvironment variablesMap).toList
    workingDirectory :=
      (variablesMap.getString [WORKING_DIR_KEY]).getD task.workingDirectory }

/-- The combinations of the values of the sorted first definitions. -/
def patternCombinations (patterns : Patterns) : List PatternCombinations :=
  (Odometer.product (patternColumns patterns)).map fun entries =>
    OrderedMap.emplaceAll entries ∅

/-- Combination by combination, and within one combination command line by command
line, the completed task with the combination substituted. -/
def substitutedTasks (task : Task) (variablesMap : VariablesMap) (patterns : Patterns)
    (commandLines : List TaskCollection) : List Task :=
  (patternCombinations patterns).flatMap fun combination =>
    commandLines.map fun commandLine =>
      substituted (completedTask task variablesMap commandLine) combination

/-- Register tasks one after the other. -/
def registerAll (tasks : List Task) : PluginProgram Unit :=
  tasks.forM fun task => host (.registerTask task)

/-! ## The tasks before substitution -/

/-- The directory the configured task is executed in. -/
def configuredDirectory (task : Task) (variablesMap : VariablesMap) : Path :=
  (variablesMap.getString [WORKING_DIR_KEY]).getD task.workingDirectory

/-- The task all command lines are appended to, unless the process ends. -/
def configuredTask (currentPath : CurrentPath) (task : Task) (variablesMap : VariablesMap) :
    Option Task :=
  match variablesMap.getString [WORKING_DIR_KEY] with
  | some workingDir =>
      (task.appendToEnvironment (getEnvironment variablesMap)).setWorkingDirectory
        currentPath workingDir
  | none => some (task.appendToEnvironment (getEnvironment variablesMap))

section Configured

variable {currentPath : CurrentPath} {task configured : Task} {variablesMap : VariablesMap}

theorem configuredTask_eq_none_iff :
    configuredTask currentPath task variablesMap = none ↔
      variablesMap.getString [WORKING_DIR_KEY] = some "" := by
  rw [configuredTask]
  cases variablesMap.getString [WORKING_DIR_KEY] with
  | none => exact iff_of_false nofun nofun
  | some workingDir =>
      dsimp only
      rw [Task.setWorkingDirectory_eq, Option.some.injEq]
      split
      next empty => exact iff_of_true rfl empty
      next other => exact iff_of_false nofun other

theorem task_configuredTask
    (sets : configuredTask currentPath task variablesMap = some configured) :
    configured.task = task.task := by
  rw [configuredTask, Task.appendToEnvironment_eq] at sets
  cases dir : variablesMap.getString [WORKING_DIR_KEY] with
  | none =>
      rw [dir] at sets
      rw [← Option.some.inj sets]
  | some workingDir =>
      rw [dir] at sets
      rw [(Task.setWorkingDirectory_eq_some_iff.mp sets).2, Task.placed]

theorem workingDirectory_configuredTask
    (sets : configuredTask currentPath task variablesMap = some configured) :
    configured.workingDirectory = configuredDirectory task variablesMap := by
  rw [configuredTask, Task.appendToEnvironment_eq] at sets
  rw [configuredDirectory]
  cases dir : variablesMap.getString [WORKING_DIR_KEY] with
  | none =>
      rw [dir] at sets
      rw [← Option.some.inj sets]
      rfl
  | some workingDir =>
      rw [dir] at sets
      rw [(Task.setWorkingDirectory_eq_some_iff.mp sets).2, Task.placed]
      rfl

/-- Setting the working directory leaves a `PWD` in the environment, which the
substitution overrides: what is registered is the completed task. -/
private theorem substitutedTask_configuredTask
    (sets : configuredTask currentPath task variablesMap = some configured)
    (commandLine : TaskCollection) (combination : PatternCombinations) :
    substitutedTask currentPath (configured.append commandLine) combination =
      withPWD currentPath
        (substituted (completedTask task variablesMap commandLine) combination) := by
  rw [configuredTask, Task.appendToEnvironment_eq] at sets
  cases dir : variablesMap.getString [WORKING_DIR_KEY] with
  | none =>
      rw [dir] at sets
      rw [← Option.some.inj sets, substitutedTask, completedTask, dir]
      rfl
  | some workingDir =>
      rw [dir] at sets
      rw [(Task.setWorkingDirectory_eq_some_iff.mp sets).2, substitutedTask, completedTask, dir]
      simp only [withPWD, substituted, Task.placed, Task.task_append, Task.env_append,
        Task.workingDirectory_append, Option.getD_some]
      rw [replacePatternsInEnvironment_insert _ _ (by decide)]

end Configured

/-- The loops at the end of `apply`. -/
def registerLines (currentPath : CurrentPath) (fuel : Nat) (configured : Task)
    (patterns : Patterns) (commandLines : List TaskCollection) : PluginProgram Bool :=
  forEachCombination fuel patterns fun combination =>
    (commandLines.map fun commandLine => configured.append commandLine).allM
      fun executeTask => do
        let newTask ← orTerminate (replacePatternCombinations currentPath executeTask combination)
        registerTask newTask

/-- Configure the task and register command lines. -/
def registerCommandLines (currentPath : CurrentPath) (fuel : Nat) (task : Task)
    (variablesMap : VariablesMap) (patterns : Patterns) (commandLines : List TaskCollection) :
    PluginProgram Bool := do
  let configured ← orTerminate (configuredTask currentPath task variablesMap)
  registerLines currentPath fuel configured patterns commandLines

/-! ## How a call goes -/

section CommandLine

variable {variablesMap : VariablesMap} {entries : List SettingsNode}

theorem getValues_commandLine
    (configured : variablesMap.subtree [COMMAND_LINE_KEY] = some entries) :
    variablesMap.getValues [COMMAND_LINE_KEY] = some (entries.map SettingsNode.mKey) := by
  rw [SettingsNode.getValues_eq_subtree, configured]
  rfl

theorem getValues_identifier
    (configured : variablesMap.subtree [COMMAND_LINE_KEY] = some entries)
    (identifier : SettingsKey) :
    variablesMap.getValues [COMMAND_LINE_KEY, identifier] =
      ((FirstMatch.lookup SettingsNode.mKey identifier entries).bind
        SettingsNode.mValues).map fun children => children.map SettingsNode.mKey := by
  rw [SettingsNode.subtree] at configured
  rcases Option.bind_eq_some_iff.mp configured with ⟨commandLine, found, carries⟩
  rw [SettingsNode.getValues_eq_subtree,
    show [COMMAND_LINE_KEY, identifier] = [COMMAND_LINE_KEY] ++ [identifier] from rfl,
    SettingsNode.subtree_append, found, Option.bind_some, SettingsNode.subtree_singleton,
    SettingsNode.at?, carries, Option.getD_some]

/-- A configured directory that is empty ends the process. -/
theorem apply_of_emptyDirectory (currentPath : CurrentPath) (fuel : Nat) (task : Task)
    (patterns : Patterns) (empty : variablesMap.getString [WORKING_DIR_KEY] = some "") :
    apply currentPath fuel task variablesMap patterns = .stop .terminate := by
  have unplaced := (@configuredTask_eq_none_iff currentPath task _).mpr empty
  rw [configuredTask] at unplaced
  rw [apply, unplaced]
  rfl

/-- Any other configured directory is set. -/
theorem exists_configuredTask (currentPath : CurrentPath) (task : Task)
    (nonempty : variablesMap.getString [WORKING_DIR_KEY] ≠ some "") :
    ∃ configured, configuredTask currentPath task variablesMap = some configured :=
  Option.ne_none_iff_exists'.mp (configuredTask_eq_none_iff.not.mpr nonempty)

/-- Without any value of the key, an empty optional is dereferenced. -/
theorem apply_of_unlisted (currentPath : CurrentPath) (fuel : Nat) (task : Task)
    (patterns : Patterns) (nonempty : variablesMap.getString [WORKING_DIR_KEY] ≠ some "")
    (unlisted : variablesMap.getValues [COMMAND_LINE_KEY] = none) :
    apply currentPath fuel task variablesMap patterns =
      .stop (.emptyOptional .commandLineCommand) := by
  obtain ⟨configured, sets⟩ := exists_configuredTask currentPath task nonempty
  rw [configuredTask] at sets
  rw [apply, sets, unlisted]
  rfl

/-- An empty list is reported as a missing setting. -/
theorem apply_of_nil (currentPath : CurrentPath) (fuel : Nat) (task : Task)
    (patterns : Patterns) (nonempty : variablesMap.getString [WORKING_DIR_KEY] ≠ some "")
    (listed : variablesMap.getValues [COMMAND_LINE_KEY] = some []) :
    apply currentPath fuel task variablesMap patterns = (do
      feedbackError ("Could not find the '" ++ COMMAND_LINE_KEY ++ "' setting in the '" ++
        PLUGIN_NAME ++ "' settings")
      return false) := by
  obtain ⟨configured, sets⟩ := exists_configuredTask currentPath task nonempty
  rw [configuredTask] at sets
  rw [apply, sets, listed]
  rfl

/-- Where the first entry has no arguments, all entries are one command line. -/
theorem apply_of_plain (currentPath : CurrentPath) (fuel : Nat) (task : Task)
    (patterns : Patterns) {front : SettingsKey} {rest : SettingsKeys}
    (listed : variablesMap.getValues [COMMAND_LINE_KEY] = some (front :: rest))
    (plain : (variablesMap.getValues [COMMAND_LINE_KEY, front]).getD [] = []) :
    apply currentPath fuel task variablesMap patterns =
      registerCommandLines currentPath fuel task variablesMap patterns [front :: rest] := by
  rw [apply, registerCommandLines]
  apply bind_congr
  intro configured
  rw [listed, dereference_some, pure_bind]
  dsimp only
  rw [plain, List.isEmpty_nil, if_pos rfl, pure_bind]
  rfl

/-- Where the first entry has arguments, every entry is taken for an identifier. -/
theorem apply_of_identified (currentPath : CurrentPath) (fuel : Nat) (task : Task)
    (patterns : Patterns) {front : SettingsKey} {rest : SettingsKeys}
    (listed : variablesMap.getValues [COMMAND_LINE_KEY] = some (front :: rest))
    (identified : (variablesMap.getValues [COMMAND_LINE_KEY, front]).getD [] ≠ []) :
    apply currentPath fuel task variablesMap patterns = (do
      let configured ← orTerminate (configuredTask currentPath task variablesMap)
      let tasks ← (front :: rest).mapM fun commandKey => do
        let arguments ← dereference .commandLineCommand
          (variablesMap.getValues [COMMAND_LINE_KEY, commandKey])
        return configured.append arguments
      forEachCombination fuel patterns fun combination =>
        tasks.allM fun executeTask => do
          let newTask ← orTerminate
            (replacePatternCombinations currentPath executeTask combination)
          registerTask newTask) := by
  rw [← List.isEmpty_eq_false_iff] at identified
  rw [apply]
  apply bind_congr
  intro configured
  rw [listed, dereference_some, pure_bind]
  dsimp only
  rw [identified, if_neg Bool.false_ne_true, Option.getD_some]

/-- With values for every identifier, these are the command lines. -/
theorem apply_of_arguments (currentPath : CurrentPath) (fuel : Nat) (task : Task)
    (patterns : Patterns) {front : SettingsKey} {rest : SettingsKeys}
    (listed : variablesMap.getValues [COMMAND_LINE_KEY] = some (front :: rest))
    (identified : (variablesMap.getValues [COMMAND_LINE_KEY, front]).getD [] ≠ [])
    (present : ∀ identifier ∈ front :: rest,
      (variablesMap.getValues [COMMAND_LINE_KEY, identifier]).isSome) :
    apply currentPath fuel task variablesMap patterns =
      registerCommandLines currentPath fuel task variablesMap patterns
        ((front :: rest).map fun identifier =>
          (variablesMap.getValues [COMMAND_LINE_KEY, identifier]).getD []) := by
  have tasks (configured : Task) : ((front :: rest).mapM fun commandKey => do
      let found ← dereference .commandLineCommand
        (variablesMap.getValues [COMMAND_LINE_KEY, commandKey])
      return configured.append found : PluginProgram (List Task)) =
      pure ((front :: rest).map fun identifier =>
        configured.append ((variablesMap.getValues [COMMAND_LINE_KEY, identifier]).getD [])) := by
    apply mapM_pure
    intro identifier member
    rcases Option.isSome_iff_exists.mp (present identifier member) with ⟨arguments, given⟩
    rw [given]
    rfl
  rw [apply_of_identified currentPath fuel task patterns listed identified,
    registerCommandLines]
  apply bind_congr
  intro configured
  rw [tasks, pure_bind, registerLines, List.map_map]
  rfl

/-- An identifier without values is dereferenced nevertheless. -/
theorem apply_of_missing (currentPath : CurrentPath) (fuel : Nat) (task : Task)
    (patterns : Patterns) (nonempty : variablesMap.getString [WORKING_DIR_KEY] ≠ some "")
    {front identifier : SettingsKey} {rest : SettingsKeys}
    (listed : variablesMap.getValues [COMMAND_LINE_KEY] = some (front :: rest))
    (identified : (variablesMap.getValues [COMMAND_LINE_KEY, front]).getD [] ≠ [])
    (member : identifier ∈ front :: rest)
    (missing : variablesMap.getValues [COMMAND_LINE_KEY, identifier] = none) :
    apply currentPath fuel task variablesMap patterns =
      .stop (.emptyOptional .commandLineCommand) := by
  obtain ⟨configured, sets⟩ := exists_configuredTask currentPath task nonempty
  rw [apply_of_identified currentPath fuel task patterns listed identified, sets,
    orTerminate_some, pure_bind, Program.mapM_eq_stop]
  · rfl
  · intro commandKey _
    cases variablesMap.getValues [COMMAND_LINE_KEY, commandKey] with
    | none => exact Or.inl rfl
    | some arguments => exact Or.inr ⟨_, rfl⟩
  · refine ⟨identifier, member, ?_⟩
    rw [missing]
    rfl

/-- There is a command line, and where the first argument is an identifier, all are. -/
def Present (variablesMap : VariablesMap) : Prop :=
  ∃ commandLine, variablesMap.getValues [COMMAND_LINE_KEY] = some commandLine ∧
    ∀ front rest, commandLine = front :: rest →
      (variablesMap.getValues [COMMAND_LINE_KEY, front]).getD [] ≠ [] →
        ∀ identifier ∈ commandLine,
          (variablesMap.getValues [COMMAND_LINE_KEY, identifier]).isSome

theorem apply_of_absent (currentPath : CurrentPath) (fuel : Nat) (task : Task)
    (patterns : Patterns) (nonempty : variablesMap.getString [WORKING_DIR_KEY] ≠ some "")
    (absent : ¬Present variablesMap) :
    apply currentPath fuel task variablesMap patterns =
      .stop (.emptyOptional .commandLineCommand) := by
  cases listed : variablesMap.getValues [COMMAND_LINE_KEY] with
  | none => exact apply_of_unlisted currentPath fuel task patterns nonempty listed
  | some commandLine =>
      have missing : ∃ front rest, commandLine = front :: rest ∧
          (variablesMap.getValues [COMMAND_LINE_KEY, front]).getD [] ≠ [] ∧
          ∃ identifier ∈ commandLine,
            variablesMap.getValues [COMMAND_LINE_KEY, identifier] = none := by
        by_contra complete
        refine absent ⟨commandLine, listed, fun front rest first identified identifier member => ?_⟩
        rw [Option.isSome_iff_ne_none]
        exact fun none => complete ⟨front, rest, first, identified, identifier, member, none⟩
      obtain ⟨front, rest, rfl, identified, identifier, member, missing⟩ := missing
      exact apply_of_missing currentPath fuel task patterns nonempty listed identified member
        missing

/-- How a call goes, with any fuel: it stops for an empty directory or an empty optional,
reports the missing setting, or registers command lines. -/
theorem apply_cases (currentPath : CurrentPath) (task : Task) (variablesMap : VariablesMap)
    (patterns : Patterns) :
    (variablesMap.getString [WORKING_DIR_KEY] = some "" ∧ ∀ fuel,
        apply currentPath fuel task variablesMap patterns = .stop .terminate) ∨
      (¬Present variablesMap ∧ ∀ fuel, apply currentPath fuel task variablesMap patterns =
        .stop (.emptyOptional .commandLineCommand)) ∨
      (∀ fuel, apply currentPath fuel task variablesMap patterns = (do
        feedbackError ("Could not find the '" ++ COMMAND_LINE_KEY ++ "' setting in the '" ++
          PLUGIN_NAME ++ "' settings")
        return false)) ∨
      ∃ configured commandLines, configuredTask currentPath task variablesMap = some configured ∧
        ∀ fuel, apply currentPath fuel task variablesMap patterns =
          registerLines currentPath fuel configured patterns commandLines := by
  by_cases nonempty : variablesMap.getString [WORKING_DIR_KEY] = some ""
  · exact .inl ⟨nonempty, fun fuel =>
      apply_of_emptyDirectory currentPath fuel task patterns nonempty⟩
  by_cases present : Present variablesMap
  case neg =>
    exact .inr (.inl ⟨present, fun fuel =>
      apply_of_absent currentPath fuel task patterns nonempty present⟩)
  obtain ⟨configured, sets⟩ := exists_configuredTask currentPath task nonempty
  have registers (fuel : Nat) (commandLines : List TaskCollection) :
      registerCommandLines currentPath fuel task variablesMap patterns commandLines =
        registerLines currentPath fuel configured patterns commandLines := by
    rw [registerCommandLines, sets, orTerminate_some, pure_bind]
  obtain ⟨commandLine, listed, complete⟩ := present
  right; right
  cases commandLine with
  | nil => exact .inl fun fuel => apply_of_nil currentPath fuel task patterns nonempty listed
  | cons front rest =>
      refine .inr ⟨configured, ?_⟩
      by_cases plain : (variablesMap.getValues [COMMAND_LINE_KEY, front]).getD [] = []
      · exact ⟨_, sets, fun fuel =>
          (apply_of_plain currentPath fuel task patterns listed plain).trans (registers fuel _)⟩
      · have given := complete front rest rfl plain
        exact ⟨_, sets, fun fuel =>
          (apply_of_arguments currentPath fuel task patterns listed plain given).trans
            (registers fuel _)⟩

/-- What is looked up under the key of an entry is what the entry has, where the keys are
distinct. -/
private theorem getValues_entry {entry : SettingsNode}
    (configured : variablesMap.subtree [COMMAND_LINE_KEY] = some entries)
    (found : FirstMatch.lookup SettingsNode.mKey entry.mKey entries = some entry) :
    (variablesMap.getValues [COMMAND_LINE_KEY, entry.mKey]).getD [] =
      (entry.mValues.getD []).map SettingsNode.mKey := by
  rw [getValues_identifier configured, found, Option.bind_some]
  cases entry.mValues <;> rfl

/-- In both forms, the loop runs over the configured command lines. -/
private theorem apply_eq_loop (currentPath : CurrentPath) (fuel : Nat) (task : Task)
    (patterns : Patterns) {commandLines : List TaskCollection}
    (configured : variablesMap.subtree [COMMAND_LINE_KEY] = some entries)
    (form : CommandLines entries commandLines) :
    apply currentPath fuel task variablesMap patterns =
      registerCommandLines currentPath fuel task variablesMap patterns commandLines := by
  have listed := getValues_commandLine configured
  cases form with
  | plain nonempty plain =>
      cases entries with
      | nil => exact absurd rfl nonempty
      | cons entry rest =>
          rw [List.map_cons] at listed ⊢
          apply apply_of_plain currentPath fuel task patterns listed
          rw [getValues_entry configured (FirstMatch.lookup_cons_self entry rest),
            plain entry List.mem_cons_self, List.map_nil]
  | identified nonempty distinct arguments =>
      cases entries with
      | nil => exact absurd rfl nonempty
      | cons entry rest =>
          have found (identified : SettingsNode) (member : identified ∈ entry :: rest) :=
            getValues_entry configured (FirstMatch.lookup_of_mem distinct member)
          have given (identified : SettingsNode) (member : identified ∈ entry :: rest) :
              (variablesMap.getValues [COMMAND_LINE_KEY, identified.mKey]).getD [] ≠ [] := by
            rw [found identified member, Ne, List.map_eq_nil_iff]
            exact arguments identified member
          have lines : (entry :: rest).map (fun identified =>
              (identified.mValues.getD []).map SettingsNode.mKey) =
                ((entry :: rest).map SettingsNode.mKey).map fun identifier =>
                  (variablesMap.getValues [COMMAND_LINE_KEY, identifier]).getD [] := by
            rw [List.map_map]
            exact List.map_congr_left fun identified member => (found identified member).symm
          rw [lines]
          rw [List.map_cons] at listed ⊢
          apply apply_of_arguments currentPath fuel task patterns listed
            (given entry List.mem_cons_self)
          rw [← List.map_cons]
          intro identifier member
          rcases List.mem_map.mp member with ⟨identified, inside, rfl⟩
          rw [Option.isSome_iff_ne_none]
          intro absent
          exact given identified inside (by rw [absent]; rfl)

end CommandLine

/-! ## What is registered -/

private theorem registerAll_append (front back : List Task) :
    registerAll (front ++ back) = (do registerAll front; registerAll back) :=
  List.forM_append

/-- A loop whose rounds register tasks registers the tasks of all rounds. -/
theorem allM_registerAll {α : Type} {make : α → List Task} {body : α → PluginProgram Bool}
    {inputs : List α}
    (bodies : ∀ input ∈ inputs, body input = (do registerAll (make input); return true)) :
    inputs.allM body = (do
      registerAll (inputs.flatMap make)
      return true) := by
  induction inputs with
  | nil => rfl
  | cons input rest inductionHypothesis =>
      rcases List.forall_mem_cons.mp bodies with ⟨first, later⟩
      rw [List.allM_cons, first, inductionHypothesis later, List.flatMap_cons,
        registerAll_append]
      simp

/-- The tasks of a round are registered if they can be replaced. -/
theorem allM_registerTask {currentPath : CurrentPath} {combination : PatternCombinations}
    {tasks : List Task}
    (directories : ∀ task ∈ tasks,
      replaceCombinations task.workingDirectory combination ≠ "") :
    (tasks.allM fun task => do
      let newTask ← orTerminate (replacePatternCombinations currentPath task combination)
      registerTask newTask) = (do
        registerAll (tasks.map fun task => substitutedTask currentPath task combination)
        return true) := by
  rw [List.map_eq_flatMap]
  apply allM_registerAll
  intro task member
  rw [replacePatternCombinations_eq, if_neg (directories task member)]
  rfl

private theorem registerAll_cons (task : Task) (rest : List Task) :
    (do registerAll (task :: rest); return true : PluginProgram Bool) =
      .call (.host (.registerTask task)) fun _ => do
        registerAll rest
        return true := rfl

/-- Programs that register tasks and succeed are equal only for the same tasks. -/
theorem registerAll_injective {left right : List Task}
    (same : (do registerAll left; return true : PluginProgram Bool) =
      (do registerAll right; return true)) : left = right := by
  induction left generalizing right with
  | nil =>
      cases right with
      | nil => rfl
      | cons task rest =>
          rw [registerAll_cons] at same
          cases same
  | cons task rest inductionHypothesis =>
      cases right with
      | nil =>
          rw [registerAll_cons] at same
          cases same
      | cons other others =>
          rw [registerAll_cons, registerAll_cons] at same
          injection same with sameOp sameNext
          injection sameOp with sameEvent
          injection sameEvent with sameTask
          subst sameTask
          rw [inductionHypothesis (congrFun sameNext ())]

/-- No directory is empty that is set on the way to the registered tasks: neither a
configured one, nor what a combination makes of the directory of the task. -/
structure HasDirectories (task : Task) (variablesMap : VariablesMap) (patterns : Patterns) :
    Prop where
  configured : variablesMap.getString [WORKING_DIR_KEY] ≠ some ""
  substituted : ∀ combination ∈ patternCombinations patterns,
    replaceCombinations (configuredDirectory task variablesMap) combination ≠ ""

/-- The tasks of the configured command lines are registered for the combinations
the permutator goes over. -/
private theorem apply_eq_registerAll (currentPath : CurrentPath) (task : Task)
    {variablesMap : VariablesMap} {patterns : Patterns} {entries : List SettingsNode}
    {commandLines : List TaskCollection} (given : patterns ≠ [])
    (permutable : Permutable patterns) (directories : HasDirectories task variablesMap patterns)
    (configured : variablesMap.subtree [COMMAND_LINE_KEY] = some entries)
    (form : CommandLines entries commandLines) {fuel : Nat}
    (enough : (patternCombinations patterns).length < fuel) :
    apply currentPath fuel task variablesMap patterns = (do
      registerAll
        ((substitutedTasks task variablesMap patterns commandLines).map
          (withPWD currentPath))
      return true) := by
  have columns : combinations patterns = patternCombinations patterns := by
    rw [combinations, MapPermutator.combinations, MapPermutator.columns,
      toList_patternValuesMap given, patternCombinations]
  rw [← columns] at enough
  obtain ⟨start, sets⟩ := exists_configuredTask currentPath task directories.configured
  rw [apply_eq_loop currentPath fuel task patterns configured form, registerCommandLines, sets,
    orTerminate_some, pure_bind, registerLines, forEachCombination_eq permutable _ enough,
    columns]
  rw [substitutedTasks, List.map_flatMap]
  apply allM_registerAll
  intro combination member
  have directory : ∀ executeTask ∈ commandLines.map fun commandLine => start.append commandLine,
      replaceCombinations executeTask.workingDirectory combination ≠ "" := by
    intro executeTask inside
    obtain ⟨commandLine, -, rfl⟩ := List.mem_map.mp inside
    rw [Task.workingDirectory_append, workingDirectory_configuredTask sets]
    exact directories.substituted combination member
  rw [allM_registerTask directory, List.map_map, List.map_map]
  congr 2
  apply List.map_congr_left
  intro commandLine _
  exact substitutedTask_configuredTask sets commandLine combination

/-- The call registers exactly these tasks and succeeds, with enough steps. -/
def RegistersAll (currentPath : CurrentPath) (task : Task) (variablesMap : VariablesMap)
    (patterns : Patterns) (tasks : List Task) : Prop :=
  ∃ enough, ∀ fuel, enough ≤ fuel →
    apply currentPath fuel task variablesMap patterns = (do
      registerAll tasks
      return true)

/-- The plugin registers the completed tasks combination by combination and command
line by command line, each with the `PWD` of the directory it is executed in, as
long as the value lists of the patterns can be indexed or one of them is empty and no
directory is empty. Without any command line it reports the missing setting. -/
theorem apply_registers (currentPath : CurrentPath) (task : Task) (variablesMap : VariablesMap)
    (patterns : Patterns) (given : patterns ≠ [])
    (permutable : (∀ column ∈ patternColumns patterns, column.2.length < 2 ^ 32) ∨
      ∃ column ∈ patternColumns patterns, column.2 = []) :
    (∀ entries commandLines,
      variablesMap.subtree [COMMAND_LINE_KEY] = some entries →
      CommandLines entries commandLines →
      HasDirectories task variablesMap patterns →
      RegistersAll currentPath task variablesMap patterns
        ((substitutedTasks task variablesMap patterns commandLines).map
          (withPWD currentPath))) ∧
      (variablesMap.subtree [COMMAND_LINE_KEY] = some [] →
        variablesMap.getString [WORKING_DIR_KEY] ≠ some "" →
        ∀ fuel, apply currentPath fuel task variablesMap patterns = (do
          feedbackError ("Could not find the 'command-line' setting in the " ++
            "'command-line-command' settings")
          return false)) := by
  constructor
  · intro entries commandLines configured form directories
    refine ⟨(patternCombinations patterns).length + 1, ?_⟩
    intro fuel enough
    exact apply_eq_registerAll currentPath task given
      (permutable_of_columns given permutable) directories configured form enough
  · intro configured nonempty fuel
    exact apply_of_nil currentPath fuel task patterns nonempty (getValues_commandLine configured)

/-- Variables with the plain command line `make`. -/
def makeVariables : VariablesMap :=
  ⟨"command-line-command", some [⟨"command-line", some [.ofKey "make"]⟩]⟩

private theorem makeVariables_commandLines :
    CommandLines [.ofKey "make"] [["make"]] :=
  .plain [.ofKey "make"] (by simp) (by simp)

/-- Executed in `/work`, whatever replaces the target. -/
private theorem makeVariables_hasDirectories (values : List PatternValue) :
    HasDirectories ⟨[], ∅, "/work"⟩ makeVariables [{ key := "TARGET", values := values }] where
  configured := nofun
  substituted combination _ := by
    have directory : configuredDirectory ⟨[], ∅, "/work"⟩ makeVariables = "/work" := rfl
    rw [directory, replaceCombinations_of_notMem (by decide)]
    decide

/-- A configured `make` is registered once for every value of a pattern. -/
theorem apply_registers_make :
    RegistersAll .root ⟨[], ∅, "/work"⟩ makeVariables
      [{ key := "TARGET", values := ["all", "check"] }]
      ((substitutedTasks ⟨[], ∅, "/work"⟩ makeVariables
        [{ key := "TARGET", values := ["all", "check"] }] [["make"]]).map (withPWD .root)) :=
  (apply_registers .root ⟨[], ∅, "/work"⟩ makeVariables
    [{ key := "TARGET", values := ["all", "check"] }] (by simp)
    (by rw [patternColumns_singleton]; decide)).1 _ _ rfl makeVariables_commandLines
      (makeVariables_hasDirectories _)

/-- A list with a positive multiple of `2 ^ 32` values leaves nothing to go over. -/
private theorem apply_wrapping (count : Nat) (positive : 0 < count)
    (wraps : UInt32.ofNat count = 0) (fuel : Nat) :
    apply .root (fuel + 1) ⟨[], ∅, "/work"⟩ makeVariables
        [{ key := "TARGET", values := List.replicate count "all" }] = pure true := by
  have configured : configuredTask .root ⟨[], ∅, "/work"⟩ makeVariables =
      some (Task.appendToEnvironment ⟨[], ∅, "/work"⟩ (getEnvironment makeVariables)) := rfl
  rw [apply_eq_loop .root (fuel + 1) _ _ rfl makeVariables_commandLines, registerCommandLines,
    configured, orTerminate_some, pure_bind]
  apply forEachCombination_wrapping
  · exact List.ne_nil_of_length_pos (by rwa [List.length_replicate])
  · rwa [List.length_replicate]

private theorem substitutedTasks_replicate (count : Nat) (positive : 0 < count) :
    substitutedTasks ⟨[], ∅, "/work"⟩ makeVariables
        [{ key := "TARGET", values := List.replicate count "all" }] [["make"]] ≠ [] := by
  rcases Nat.exists_eq_succ_of_ne_zero (Nat.ne_of_gt positive) with ⟨less, rfl⟩
  rw [substitutedTasks, patternCombinations, patternColumns_singleton]
  simp [Odometer.product, List.replicate_succ]

private theorem not_registers_replicate (count : Nat) (positive : 0 < count)
    (wraps : UInt32.ofNat count = 0) :
    ¬RegistersAll .root ⟨[], ∅, "/work"⟩ makeVariables
      [{ key := "TARGET", values := List.replicate count "all" }]
      ((substitutedTasks ⟨[], ∅, "/work"⟩ makeVariables
        [{ key := "TARGET", values := List.replicate count "all" }] [["make"]]).map
          (withPWD .root)) := by
  rintro ⟨enough, registers⟩
  have same := registers (enough + 1) (Nat.le_succ enough)
  rw [apply_wrapping count positive wraps] at same
  have nothing : [] = _ := registerAll_injective same
  exact substitutedTasks_replicate count positive (List.map_eq_nil_iff.mp nothing.symm)

private theorem substitutedTasks_all :
    substitutedTasks ⟨[], ∅, "/work"⟩ makeVariables
        [{ key := "TARGET", values := ["all"] }] [["make"]] =
      [substituted (completedTask ⟨[], ∅, "/work"⟩ makeVariables ["make"])
        (OrderedMap.emplaceAll [("TARGET", "all")] ∅)] := by
  rw [substitutedTasks, patternCombinations, patternColumns_singleton]
  rfl

/-- Variables with the plain command line `make` and an empty working directory. -/
def emptyDirectoryVariables : VariablesMap :=
  ⟨"command-line-command", some [⟨"command-line", some [.ofKey "make"]⟩,
    ⟨"working-dir", some [.ofKey ""]⟩]⟩

/-- Three things the code does differently from registering exactly the substituted
tasks: every registered task has the `PWD` of its working directory, of a pattern with
`2 ^ 32` values nothing is registered, and with an empty directory the process ends. -/
theorem apply_registers_counterexample :
    (¬ ∀ (currentPath : CurrentPath) (task : Task) (variablesMap : VariablesMap)
        (patterns : Patterns) (entries : List SettingsNode)
        (commandLines : List TaskCollection), patterns ≠ [] →
        (∀ column ∈ patternColumns patterns, column.2.length < 2 ^ 32) →
        HasDirectories task variablesMap patterns →
        variablesMap.subtree [COMMAND_LINE_KEY] = some entries →
        CommandLines entries commandLines →
        RegistersAll currentPath task variablesMap patterns
          (substitutedTasks task variablesMap patterns commandLines)) ∧
      (¬ ∀ (currentPath : CurrentPath) (task : Task) (variablesMap : VariablesMap)
        (patterns : Patterns) (entries : List SettingsNode)
        (commandLines : List TaskCollection), patterns ≠ [] →
        HasDirectories task variablesMap patterns →
        variablesMap.subtree [COMMAND_LINE_KEY] = some entries →
        CommandLines entries commandLines →
        RegistersAll currentPath task variablesMap patterns
          ((substitutedTasks task variablesMap patterns commandLines).map
            (withPWD currentPath))) ∧
      ¬ ∀ (currentPath : CurrentPath) (task : Task) (variablesMap : VariablesMap)
        (patterns : Patterns) (entries : List SettingsNode)
        (commandLines : List TaskCollection), patterns ≠ [] →
        (∀ column ∈ patternColumns patterns, column.2.length < 2 ^ 32) →
        variablesMap.subtree [COMMAND_LINE_KEY] = some entries →
        CommandLines entries commandLines →
        RegistersAll currentPath task variablesMap patterns
          ((substitutedTasks task variablesMap patterns commandLines).map
            (withPWD currentPath)) := by
  have columns := patternColumns_singleton { key := "TARGET", values := ["all"] }
  have short : ∀ column ∈ patternColumns [{ key := "TARGET", values := ["all"] }],
      column.2.length < 2 ^ 32 := by
    rw [columns]
    decide
  refine ⟨?_, ?_, ?_⟩
  · intro claimed
    obtain ⟨enough, registers⟩ := claimed .root ⟨[], ∅, "/work"⟩ makeVariables
      [{ key := "TARGET", values := ["all"] }] _ _ (by simp) short
      (makeVariables_hasDirectories _) rfl makeVariables_commandLines
    have permutable : Permutable [{ key := "TARGET", values := ["all"] }] :=
      permutable_of_columns (by simp) (Or.inl short)
    have fuelled : (patternCombinations [{ key := "TARGET", values := ["all"] }]).length <
        enough + 2 := by
      rw [patternCombinations, columns]
      simp [Odometer.product]
    have same := registerAll_injective
      ((apply_eq_registerAll .root ⟨[], ∅, "/work"⟩ (by simp) permutable
        (makeVariables_hasDirectories _) rfl makeVariables_commandLines fuelled).symm.trans
          (registers (enough + 2) (Nat.le_add_right ..)))
    rw [substitutedTasks_all] at same
    have environments := congrArg (fun task => task.env["PWD"]?)
      (List.cons.inj same).1
    exact absurd environments (by decide)
  · intro claimed
    exact not_registers_replicate (2 ^ 32) (by decide) rfl
      (claimed .root ⟨[], ∅, "/work"⟩ makeVariables
        [{ key := "TARGET", values := List.replicate (2 ^ 32) "all" }] _ _
        (List.cons_ne_nil _ _) (makeVariables_hasDirectories _) rfl makeVariables_commandLines)
  · intro claimed
    obtain ⟨enough, registers⟩ := claimed .root ⟨[], ∅, "/work"⟩ emptyDirectoryVariables
      [{ key := "TARGET", values := ["all"] }] _ _ (by simp) short rfl
      makeVariables_commandLines
    have same := registers enough (Nat.le_refl enough)
    rw [apply_of_emptyDirectory .root enough _ _ rfl, substitutedTasks, patternCombinations,
      columns] at same
    cases same

end ExecHelper.Plugins.CommandLineCommand
