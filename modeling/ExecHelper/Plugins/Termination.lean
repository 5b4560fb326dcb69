import ExecHelper.Plugins.Handing
import ExecHelper.Plugins.Prepending
import Mathlib.Algebra.Order.BigOperators.Group.List

/-!
# Runs that end

A run nests executions and plugin calls, and every plugin goes over the combinations of its
patterns.  A loop over combinations ends, so what is left is the nesting: a command has
another one executed because its definition lists it, or because its plugin executes it.
Where no command comes back to itself on these ways, the nesting is bounded by the number
of names, and the whole run ends after finitely many steps that no answer of the
surroundings has an influence on.
-/

namespace ExecHelper.Plugins

open ExecHelper.Library
open ExecHelper.Config
open ExecHelper.Core

/-! ## Loops over combinations -/

section Combinations

/-- Every pattern has so few values that the loop can count them. -/
def Countable (patterns : Patterns) : Prop :=
  ∀ pattern ∈ patterns, pattern.values.length < 2 ^ 32

theorem mem_patternColumns {patterns : Patterns} {column : PatternKey × PatternValues}
    (member : column ∈ patternColumns patterns) :
    ∃ pattern ∈ patterns, column = (pattern.key, pattern.values) := by
  rw [patternColumns] at member
  obtain ⟨key, named, rfl⟩ := List.mem_map.mp member
  rw [List.mem_mergeSort, List.mem_dedup, ← FirstMatch.lookup_isSome_iff] at named
  obtain ⟨pattern, found⟩ := Option.isSome_iff_exists.mp named
  refine ⟨pattern, List.mem_of_find?_eq_some found, ?_⟩
  rw [found, FirstMatch.label_of_lookup found]
  rfl

theorem permutable_of_countable {patterns : Patterns} (countable : Countable patterns) :
    Permutable patterns := by
  by_cases given : patterns = []
  · rw [given]
    exact permutable_nil
  · apply permutable_of_columns given
    apply Or.inl
    intro column member
    obtain ⟨pattern, listed, rfl⟩ := mem_patternColumns member
    exact countable pattern listed

/-- However many patterns a command is repeated over, there are no more combinations than
those of all known patterns can have. -/
theorem exists_bound_combinations (known : Patterns) : ∃ bound, ∀ patterns : Patterns,
    (∀ pattern ∈ patterns, pattern ∈ known) → (combinations patterns).length ≤ bound := by
  let most := (known.map fun pattern => pattern.values.length).sum + 1
  refine ⟨most ^ known.length, ?_⟩
  intro patterns inside
  have positive : 1 ≤ most := Nat.le_add_left 1 _
  by_cases given : patterns = []
  · rw [given, combinations_nil]
    exact Nat.one_le_pow _ _ positive
  · rw [combinations, MapPermutator.combinations, List.length_map, MapPermutator.columns,
      toList_patternValuesMap given]
    have short : ∀ column ∈ patternColumns patterns, column.2.length ≤ most := by
      intro column member
      obtain ⟨pattern, listed, rfl⟩ := mem_patternColumns member
      have counted : pattern.values.length ∈ known.map fun pattern => pattern.values.length :=
        List.mem_map_of_mem (inside pattern listed)
      exact Nat.le_succ_of_le (List.single_le_sum (fun _ _ => Nat.zero_le _) _ counted)
    have few : (patternColumns patterns).length ≤ known.length := by
      rw [patternColumns, List.length_map, List.length_mergeSort, ← List.length_map Pattern.key]
      apply (List.subperm_of_subset (List.nodup_dedup _) _).length_le
      intro key member
      obtain ⟨pattern, listed, rfl⟩ := List.mem_map.mp (List.mem_dedup.mp member)
      exact List.mem_map_of_mem (inside pattern listed)
    calc (Odometer.product (patternColumns patterns)).length
        ≤ most ^ (patternColumns patterns).length := Odometer.length_product_le short
      _ ≤ most ^ known.length := Nat.pow_le_pow_right positive few

/-- No pattern has an empty value. -/
def Filled (patterns : Patterns) : Prop := ∀ pattern ∈ patterns, "" ∉ pattern.values

/-- The values of a combination are not empty either. -/
theorem ne_empty_of_mem_combinations {patterns : Patterns} (filled : Filled patterns)
    {combination : PatternCombinations} (member : combination ∈ combinations patterns)
    (key : PatternKey) (value : PatternValue) (found : combination[key]? = some value) :
    value ≠ "" := by
  by_cases given : patterns = []
  · rw [given, combinations_nil, List.mem_singleton] at member
    rw [member, OrderedMap.getElem?_emplaceAll, Std.ExtTreeMap.getElem?_empty, Option.none_or]
      at found
    obtain ⟨entry, listed, rfl⟩ := Option.map_eq_some_iff.mp found
    rw [List.mem_singleton.mp (List.mem_of_find?_eq_some listed)]
    decide
  · obtain ⟨entries, product, rfl⟩ := List.mem_map.mp member
    rw [OrderedMap.getElem?_emplaceAll, Std.ExtTreeMap.getElem?_empty, Option.none_or] at found
    obtain ⟨entry, listed, rfl⟩ := Option.map_eq_some_iff.mp found
    obtain ⟨column, among, -, inside⟩ := Odometer.mem_column_of_mem_product product
      (List.mem_of_find?_eq_some listed)
    rw [MapPermutator.columns, toList_patternValuesMap given] at among
    obtain ⟨pattern, own, rfl⟩ := mem_patternColumns among
    rintro empty
    exact filled pattern own (empty ▸ inside)

end Combinations

/-! ## Directories -/

/-- The task has a directory, unless the process may end for the lack of one. -/
def Placed (allowed : Stop → Prop) (task : Task) : Prop :=
  allowed .terminate ∨ task.workingDirectory ≠ ""

section Directories

variable {allowed : Stop → Prop} {currentPath : CurrentPath} {task : Task}

/-- Tasks keep a directory on their way. -/
theorem kept_placed (allowed : Stop → Prop) (currentPath : CurrentPath) :
    KeptByPlugins currentPath (fun _ => True) (Placed allowed) where
  append task taskPart placed := by rwa [Placed, Task.workingDirectory_append]
  appendToEnvironment task variablesMap _ placed := by
    rwa [Placed, Task.appendToEnvironment_eq]
  setWorkingDirectory task new variablesMap workingDir _ _ sets _ := by
    obtain ⟨nonempty, rfl⟩ := Task.setWorkingDirectory_eq_some_iff.mp sets
    exact .inr nonempty
  replacePatternCombinations task new combination replaced _ := by
    obtain ⟨nonempty, rfl⟩ := replacePatternCombinations_eq_some_iff.mp replaced
    exact .inr nonempty

theorem placed_of_make {env : EnvironmentCollection} {workingDirectory : Path}
    (made : Task.make currentPath [] env workingDirectory = some task) : Placed allowed task := by
  obtain ⟨nonempty, rfl⟩ := Task.setWorkingDirectory_eq_some_iff.mp made
  exact .inr nonempty

/-- Something is left of a directory when no value is empty. -/
theorem replaced_of_placed (placed : Placed allowed task) {patterns : Patterns}
    (filled : allowed .terminate ∨ Filled patterns) {combination : PatternCombinations}
    (member : combination ∈ combinations patterns) :
    allowed .terminate ∨ (replacePatternCombinations currentPath task combination).isSome := by
  rcases placed with allows | given
  · exact .inl allows
  · apply filled.imp_right
    intro filled
    rw [replacePatternCombinations_eq, if_neg]
    · rfl
    · exact replaceCombinations_ne_empty given (ne_empty_of_mem_combinations filled member)

end Directories

/-! ## Programs that settle -/

/-- Above the bound, fuel makes no difference to the program any more, and it stops only for
allowed reasons. -/
def Settles {α : Type} (allowed : Stop → Prop) (bound : Nat) (program : Nat → PluginProgram α) :
    Prop :=
  ∃ settled : PluginProgram α, settled.StopsOnlyFor allowed ∧
    ∀ fuel, bound < fuel → program fuel = settled

section Parts

variable {α β : Type} {allowed : Stop → Prop} {bound : Nat}

/-- A program without loops does. -/
theorem settles_of_stopsOnlyFor {program : PluginProgram α} (stops : program.StopsOnlyFor allowed) :
    Settles allowed bound fun _ => program := ⟨program, stops, fun _ _ => rfl⟩

theorem settles_pure (value : α) :
    Settles allowed bound fun _ => (pure value : PluginProgram α) :=
  settles_of_stopsOnlyFor trivial

theorem settles_host (event : HostEvent) : Settles allowed bound fun _ => host event :=
  settles_of_stopsOnlyFor fun _ => trivial

theorem settles_execute (commands : CommandCollection) (task : Task) :
    Settles allowed bound fun _ => execute commands task :=
  settles_of_stopsOnlyFor fun _ => trivial

theorem settles_registerTask (task : Task) : Settles allowed bound fun _ => registerTask task :=
  settles_of_stopsOnlyFor fun _ => trivial

theorem Settles.bind {first : Nat → PluginProgram α} {second : Nat → α → PluginProgram β}
    (firstSettles : Settles allowed bound first)
    (secondSettles : ∀ value, Settles allowed bound fun fuel => second fuel value) :
    Settles allowed bound fun fuel => first fuel >>= second fuel := by
  obtain ⟨settled, stops, same⟩ := firstSettles
  choose later laterStops laterSame using secondSettles
  refine ⟨settled >>= later, stops.bind laterStops, ?_⟩
  intro fuel enough
  dsimp only
  rw [same fuel enough]
  exact bind_congr fun value => laterSame value fuel enough

/-- An optional is dereferenced where it has a value, or may be missing. -/
theorem settles_dereference_bind {site : Dereference} {value : Option α}
    {rest : Nat → α → PluginProgram β} (given : allowed (.emptyOptional site) ∨ value.isSome)
    (continues : ∀ own, value = some own → Settles allowed bound fun fuel => rest fuel own) :
    Settles allowed bound fun fuel => dereference site value >>= rest fuel := by
  cases value with
  | none => exact settles_of_stopsOnlyFor (given.resolve_right Bool.false_ne_true)
  | some own => exact continues own rfl

/-- A value is there, or may be missing. -/
theorem settles_orTerminate_bind {value : Option α} {rest : Nat → α → PluginProgram β}
    (given : allowed .terminate ∨ value.isSome)
    (continues : ∀ own, value = some own → Settles allowed bound fun fuel => rest fuel own) :
    Settles allowed bound fun fuel => orTerminate value >>= rest fuel := by
  cases value with
  | none => exact settles_of_stopsOnlyFor (given.resolve_right Bool.false_ne_true)
  | some own => exact continues own rfl

theorem settles_feedbackError_false (text : String) :
    Settles allowed bound fun _ => (do feedbackError text; return false : PluginProgram Bool) :=
  (settles_host _).bind fun _ => settles_pure false

theorem settles_ifSucceeds {step rest : Nat → PluginProgram Bool}
    (first : Settles allowed bound step) (second : Settles allowed bound rest) :
    Settles allowed bound fun fuel => ifSucceeds (step fuel) (rest fuel) := by
  apply first.bind
  intro succeeded
  cases succeeded with
  | true => exact second
  | false => exact settles_pure false

theorem settles_allM {body : Nat → α → PluginProgram Bool} {inputs : List α}
    (bodies : ∀ input ∈ inputs, Settles allowed bound fun fuel => body fuel input) :
    Settles allowed bound fun fuel => inputs.allM (body fuel) := by
  induction inputs with
  | nil => exact settles_pure true
  | cons input rest inductionHypothesis =>
      obtain ⟨first, later⟩ := List.forall_mem_cons.mp bodies
      exact settles_ifSucceeds first (inductionHypothesis later)

/-- Above the number of combinations, a loop over them is a plain list of rounds. -/
theorem settles_forEachCombination {patterns : Patterns} (countable : Countable patterns)
    (enough : (combinations patterns).length ≤ bound)
    {body : PatternCombinations → PluginProgram Bool}
    (bodies : ∀ combination ∈ combinations patterns,
      Settles allowed bound fun _ => body combination) :
    Settles allowed bound fun fuel => forEachCombination fuel patterns body := by
  obtain ⟨settled, stops, same⟩ := settles_allM bodies
  refine ⟨settled, stops, ?_⟩
  intro fuel above
  dsimp only
  rw [forEachCombination_eq (permutable_of_countable countable) body
    (Nat.lt_of_le_of_lt enough above)]
  exact same fuel above

/-- A task with a combination substituted is registered. -/
theorem settles_registerReplaced {patterns : Patterns}
    (filled : allowed .terminate ∨ Filled patterns) {combination : PatternCombinations}
    (member : combination ∈ combinations patterns) (currentPath : CurrentPath) {task : Task}
    (placed : Placed allowed task) :
    Settles allowed bound fun _ => (do
      let newTask ← orTerminate (replacePatternCombinations currentPath task combination)
      registerTask newTask) :=
  settles_orTerminate_bind (replaced_of_placed placed filled member)
    fun newTask _ => settles_registerTask newTask

/-- Commands are executed with a task with a combination substituted. -/
theorem settles_executeReplaced {patterns : Patterns}
    (filled : allowed .terminate ∨ Filled patterns) {combination : PatternCombinations}
    (member : combination ∈ combinations patterns) (currentPath : CurrentPath) {task : Task}
    (placed : Placed allowed task) (commands : CommandCollection) :
    Settles allowed bound fun _ => (do
      let newTask ← orTerminate (replacePatternCombinations currentPath task combination)
      execute commands newTask) :=
  settles_orTerminate_bind (replaced_of_placed placed filled member)
    fun newTask _ => settles_execute commands newTask

end Parts

/-! ## What plugins read -/

/-- The script stops only for allowed reasons, whatever it is answered. -/
def ScriptRun.StopsOnlyFor (allowed : Stop → Prop) : ScriptRun → Prop
  | .undefined => allowed (.emptyOptional .luaConfig)
  | .diverged => allowed .outOfFuel
  | .userFeedbackError _ next => next.StopsOnlyFor allowed
  | .registerTask _ next => next.StopsOnlyFor allowed
  | .runTarget _ _ next => ∀ succeeded, (next succeeded).StopsOnlyFor allowed
  | _ => True

/-- However it is called, the script comes to an end. -/
def LuaScript.Ends (script : LuaScript) : Prop :=
  ∀ verbose jobs config task patterns,
    (script.run verbose jobs config task patterns).StopsOnlyFor (· ≠ .outOfFuel)

/-- The configured working directory is not empty, unless the process may end for it. -/
def Located (allowed : Stop → Prop) (variablesMap : VariablesMap) : Prop :=
  allowed .terminate ∨ variablesMap.getString [WORKING_DIR_KEY] ≠ some ""

/-- What the plugin dereferences is there, or may be missing, and so is the directory it
moves to. -/
def Plugin.Reads (allowed : Stop → Prop) (variablesMap : VariablesMap) : Plugin → Prop
  | .commandLineCommand => Located allowed variablesMap ∧
      (allowed (.emptyOptional .commandLineCommand) ∨ CommandLineCommand.Present variablesMap)
  | .memory _ => True
  | .valgrind => allowed (.emptyOptional .valgrind) ∨
      (variablesMap.getBool [VERBOSITY_KEY]).isSome ∧
        (variablesMap.getValues [COMMAND_LINE_KEY]).isSome
  | .pmd => allowed (.emptyOptional .pmd) ∨
      (variablesMap.getString [Pmd.EXEC_KEY]).isSome ∧
        (variablesMap.getString [Pmd.TOOL_KEY]).isSome ∧
          (variablesMap.getString [VERBOSITY_KEY]).isSome ∧
            (variablesMap.getValues [COMMAND_LINE_KEY]).isSome
  | .lcov => allowed (.emptyOptional .lcov) ∨ (Lcov.readSettings variablesMap).isSome
  | .commandPlugin => allowed (.emptyOptional .commandPlugin) ∨
      (variablesMap.getValues [CommandPlugin.PLUGIN_NAME]).isSome
  | .luaPlugin script => Located allowed variablesMap ∧ script.Keeps (Placed allowed) ∧
      ∀ verbose jobs task patterns,
        (script.run verbose jobs variablesMap task patterns).StopsOnlyFor allowed

/-! ## The plugins settle -/

section BuiltIn

variable {allowed : Stop → Prop} {bound : Nat} {patterns : Patterns} {variablesMap : VariablesMap}
variable {task : Task}

theorem settles_commandLineCommand (countable : Countable patterns)
    (filled : allowed .terminate ∨ Filled patterns)
    (enough : (combinations patterns).length ≤ bound)
    (reads : Plugin.commandLineCommand.Reads allowed variablesMap) (currentPath : CurrentPath)
    (placed : Placed allowed task) :
    Settles allowed bound fun fuel =>
      CommandLineCommand.apply currentPath fuel task variablesMap patterns := by
  obtain ⟨located, reads⟩ := reads
  rcases CommandLineCommand.apply_cases currentPath task variablesMap patterns with
    ⟨empty, stops⟩ | ⟨absent, stops⟩ | reports | ⟨configured, commandLines, sets, registers⟩
  · simp only [stops]
    exact settles_of_stopsOnlyFor (located.resolve_right (not_not_intro empty))
  · simp only [stops]
    exact settles_of_stopsOnlyFor (reads.resolve_right absent)
  · simp only [reports]
    exact settles_feedbackError_false _
  · simp only [registers]
    have configuredPlaced := (kept_placed allowed currentPath).configuredTask trivial placed sets
    apply settles_forEachCombination countable enough
    intro combination member
    apply settles_allM
    intro executeTask among
    obtain ⟨commandLine, -, rfl⟩ := List.mem_map.mp among
    apply settles_registerReplaced filled member
    exact (kept_placed allowed currentPath).append configured commandLine configuredPlaced

theorem settles_pmd (countable : Countable patterns)
    (filled : allowed .terminate ∨ Filled patterns)
    (enough : (combinations patterns).length ≤ bound)
    (reads : Plugin.pmd.Reads allowed variablesMap) (currentPath : CurrentPath)
    (placed : Placed allowed task) :
    Settles allowed bound fun fuel => Pmd.apply currentPath fuel task variablesMap patterns := by
  unfold Pmd.apply
  apply settles_dereference_bind (reads.imp_right fun present => present.1)
  intro binaryName _
  apply settles_dereference_bind (reads.imp_right fun present => present.2.1)
  intro tool _
  apply settles_dereference_bind (reads.imp_right fun present => present.2.2.1)
  intro verbosity _
  apply settles_dereference_bind (reads.imp_right fun present => present.2.2.2)
  intro commandLine _
  apply settles_forEachCombination countable enough
  intro combination member
  exact settles_registerReplaced filled member currentPath
    ((kept_placed allowed currentPath).pmdAnalysis binaryName tool verbosity commandLine placed)

theorem settles_valgrind (countable : Countable patterns)
    (filled : allowed .terminate ∨ Filled patterns)
    (enough : (combinations patterns).length ≤ bound)
    (reads : Plugin.valgrind.Reads allowed variablesMap) (currentPath : CurrentPath)
    (placed : Placed allowed task) :
    Settles allowed bound fun fuel =>
      Valgrind.apply currentPath fuel task variablesMap patterns := by
  unfold Valgrind.apply
  cases variablesMap.getValues [Valgrind.RUN_COMMAND_KEY] with
  | none => exact settles_feedbackError_false _
  | some runCommand =>
      apply settles_dereference_bind (reads.imp_right fun present => present.1)
      intro verbosity _
      apply settles_dereference_bind (reads.imp_right fun present => present.2)
      intro commandLine _
      apply settles_forEachCombination countable enough
      intro combination member
      exact settles_executeReplaced filled member currentPath
        ((kept_placed allowed currentPath).valgrindAnalysis verbosity commandLine placed) _

theorem settles_registerTasks (filled : allowed .terminate ∨ Filled patterns)
    {combination : PatternCombinations} (member : combination ∈ combinations patterns)
    (currentPath : CurrentPath) {tasks : List Task} (placed : ∀ task ∈ tasks, Placed allowed task) :
    Settles allowed bound fun _ => Lcov.registerTasks currentPath combination tasks := by
  rw [Lcov.registerTasks]
  induction tasks with
  | nil => exact settles_pure ()
  | cons task rest inductionHypothesis =>
      obtain ⟨first, later⟩ := List.forall_mem_cons.mp placed
      rw [List.forM_eq_forM, List.forM_cons]
      apply Settles.bind
      · exact settles_orTerminate_bind (replaced_of_placed first filled member)
          fun newTask _ => settles_host _
      · exact fun _ => inductionHypothesis later

theorem settles_lcov (countable : Countable patterns)
    (filled : allowed .terminate ∨ Filled patterns)
    (enough : (combinations patterns).length ≤ bound)
    (reads : Plugin.lcov.Reads allowed variablesMap) (currentPath : CurrentPath)
    (placed : Placed allowed task) :
    Settles allowed bound fun fuel => Lcov.apply currentPath fuel task variablesMap patterns := by
  cases configured : variablesMap.getValues [Lcov.RUN_COMMAND] with
  | none =>
      unfold Lcov.apply
      rw [configured]
      exact settles_feedbackError_false _
  | some runCommands =>
      by_cases given : runCommands = []
      · unfold Lcov.apply
        rw [configured, given]
        exact settles_feedbackError_false _
      · simp only [Lcov.apply_eq _ patterns configured given]
        apply settles_dereference_bind reads
        intro settings _
        apply settles_forEachCombination countable enough
        intro combination member
        unfold Lcov.round
        have appended : ∀ arguments, Placed allowed (task.append arguments) :=
          fun arguments => (kept_placed allowed currentPath).append task arguments placed
        apply (settles_registerTasks filled member currentPath
          (settings.forall_tasksBefore appended)).bind
        intro _
        apply (settles_execute _ _).bind
        intro succeeded
        cases succeeded with
        | true =>
            exact (settles_registerTasks filled member currentPath
              (settings.forall_tasksAfter appended)).bind fun _ => settles_pure true
        | false => exact settles_pure false

theorem settles_runScript (countable : Countable patterns)
    (filled : allowed .terminate ∨ Filled patterns)
    (enough : (combinations patterns).length ≤ bound) (currentPath : CurrentPath) (script : Path)
    {run : ScriptRun} (stops : run.StopsOnlyFor allowed) (uses : run.Uses (Placed allowed))
    {tasks : List Task} (queued : ∀ task ∈ tasks, Placed allowed task) (failed : Bool) :
    Settles allowed bound fun fuel =>
      LuaPlugin.runScript currentPath fuel script patterns run tasks failed := by
  induction run generalizing tasks failed with
  | finished =>
      unfold LuaPlugin.runScript
      have registers : Settles allowed bound fun fuel =>
          LuaPlugin.registerTasks currentPath fuel patterns tasks := by
        apply settles_allM
        intro task listed
        apply settles_forEachCombination countable enough
        intro combination member
        exact settles_registerReplaced filled member currentPath (queued task listed)
      cases failed with
      | true => exact (settles_host _).bind fun _ => registers
      | false => exact registers
  | failed error =>
      unfold LuaPlugin.runScript
      cases error.feedback script with
      | none => exact settles_pure false
      | some message => exact settles_feedbackError_false message
  | undefined => exact settles_of_stopsOnlyFor stops
  | diverged => exact settles_of_stopsOnlyFor stops
  | userFeedbackError message next inductionHypothesis =>
      exact (settles_host _).bind fun _ => inductionHypothesis stops uses queued failed
  | registerTask task next inductionHypothesis =>
      apply inductionHypothesis stops uses.2
      intro other member
      rcases List.mem_append.mp member with earlier | last
      · exact queued other earlier
      · rw [List.mem_singleton.mp last]
        exact uses.1
  | runTarget task commands next inductionHypothesis =>
      apply Settles.bind
      · apply settles_forEachCombination countable enough
        intro combination member
        exact settles_executeReplaced filled member currentPath uses.1 _
      · intro result
        exact inductionHypothesis result (stops result) (uses.2 result) queued _

theorem settles_luaPlugin (countable : Countable patterns)
    (filled : allowed .terminate ∨ Filled patterns)
    (enough : (combinations patterns).length ≤ bound) {script : LuaScript}
    (reads : (Plugin.luaPlugin script).Reads allowed variablesMap) (currentPath : CurrentPath)
    (placed : Placed allowed task) :
    Settles allowed bound fun fuel =>
      LuaPlugin.apply script currentPath fuel task variablesMap patterns := by
  obtain ⟨located, keeps, stops⟩ := reads
  unfold LuaPlugin.apply
  apply settles_orTerminate_bind
  · apply located.imp_right
    intro nonempty
    cases directory : variablesMap.getString [WORKING_DIR_KEY] with
    | none => rfl
    | some workingDir =>
        dsimp only
        rw [Task.setWorkingDirectory_eq, if_neg, Option.isSome_some]
        exact fun empty => nonempty (directory.trans (congrArg some empty))
  intro configured sets
  apply Settles.bind
  · apply settles_of_stopsOnlyFor
    rw [LuaPlugin.jobs]
    split
    · trivial
    · split
      · trivial
      · exact fun _ => trivial
  · intro jobs
    apply settles_runScript countable filled enough currentPath script.path (stops _ _ _ _)
    · exact keeps _ _ _ _ _ ((kept_placed allowed currentPath).scriptTask trivial placed sets)
    · exact List.forall_mem_nil _

/-- Where its patterns can be counted, every plugin settles. -/
theorem Plugin.settles (countable : Countable patterns)
    (filled : allowed .terminate ∨ Filled patterns)
    (enough : (combinations patterns).length ≤ bound) {plugin : Plugin}
    (reads : plugin.Reads allowed variablesMap) (currentPath : CurrentPath)
    (placed : Placed allowed task) :
    Settles allowed bound fun fuel =>
      plugin.apply currentPath fuel task variablesMap patterns := by
  unfold Plugin.apply
  cases plugin with
  | commandLineCommand =>
      exact settles_commandLineCommand countable filled enough reads currentPath placed
  | memory returnCode => exact (settles_host _).bind fun _ => settles_pure returnCode
  | valgrind => exact settles_valgrind countable filled enough reads currentPath placed
  | pmd => exact settles_pmd countable filled enough reads currentPath placed
  | lcov => exact settles_lcov countable filled enough reads currentPath placed
  | commandPlugin => exact settles_dereference_bind reads fun _ _ => settles_execute _ _
  | luaPlugin script => exact settles_luaPlugin countable filled enough reads currentPath placed

/-- A bundled script stops at most for a table that cannot be computed. -/
theorem Script.stopsOnlyFor_file {entry : String × Script Unit} (member : entry ∈ Script.bundled)
    {path : Path} {pairs : LuaConfig.Table → List (String × String)} {callbackError : String}
    {config : VariablesMap}
    (undefined : ∀ key reason, LuaConfig.get config key = .error reason →
      allowed (.emptyOptional .luaConfig))
    (verbose : Bool) (jobs : UInt32) (task : Task) (patterns : Patterns) :
    ((entry.2.file path pairs callbackError).run verbose jobs config task patterns).StopsOnlyFor
      allowed := by
  apply (Script.endsInCall_of_mem_bundled member).unbroken
  · constructor
    case undefined => exact undefined
    case failed => exact fun _ => trivial
    case userFeedbackError => exact fun _ _ stops => stops
    case registerTask => exact fun _ _ stops => stops
    case runTarget => exact fun _ _ _ stops => stops
  · trivial

/-- The bundled scripts end. -/
theorem Script.ends_file {entry : String × Script Unit} (member : entry ∈ Script.bundled)
    (path : Path) (pairs : LuaConfig.Table → List (String × String)) (callbackError : String) :
    (entry.2.file path pairs callbackError).Ends := by
  intro verbose jobs config task patterns
  exact Script.stopsOnlyFor_file member (fun _ _ _ => Stop.noConfusion) verbose jobs task patterns

end BuiltIn

/-! ## Commands that lead to each other -/

/-- The plugin of the command may have the other one executed: it does so for some task
and some answers, with variables the command is resolved to. -/
def Context.Starts (context : Context) (command other : Command) : Prop :=
  ∃ initialCommand plugin variablesMap,
    context.ResolvesTo command initialCommand (.plugin plugin) variablesMap ∧
    ∃ fuel task commands started,
      (plugin.apply context.currentPath fuel task variablesMap
        (ExecutePlugin.knownPatterns context variablesMap)).Performs
          (PluginOp.execute commands started) ∧ other ∈ commands

/-- The definition of the command lists the other one, or its plugin may have it executed. -/
def Context.Leads (context : Context) (command other : Command) : Prop :=
  ExecutePlugin.Refers context command other ∨ context.Starts command other

/-- The names that resolve to something: plugins and root keys of the settings. -/
def Context.names (context : Context) : List Command :=
  ExecutePlugin.getPluginNames context.plugins ++
    (context.settings.mValues.getD []).map SettingsNode.mKey

/-- The command may be executed for the initial one: for itself, or because the definition of
the initial one lists it. -/
def Context.CalledFor (context : Context) (command initialCommand : Command) : Prop :=
  initialCommand = command ∨ ExecutePlugin.Refers context initialCommand command

/-- What a run needs in order to stop only for allowed reasons: patterns whose values can be
counted and are not empty, sections that carry the values they are resolved with, and the
variables that plugins dereference. -/
structure Context.Provides (context : Context) (allowed : Stop → Prop) : Prop where
  countable : ∀ (key : PatternKey) pattern, context.patterns[key]? = some pattern →
    pattern.values.length < 2 ^ 32
  filled : allowed .terminate ∨ ∀ (key : PatternKey) pattern,
    context.patterns[key]? = some pattern → "" ∉ pattern.values
  sections : ∀ command initialCommand, context.CalledFor command initialCommand →
    Acyclic context.Leads command → ExecutePlugin.getNextStep context command ≠ none →
      ¬ExecutePlugin.Resolvable context.settings command initialCommand →
        allowed (.emptyOptional .index)
  plugins : ∀ command initialCommand plugin variablesMap,
    context.CalledFor command initialCommand →
      context.ResolvesTo command initialCommand (.plugin plugin) variablesMap →
        plugin.Reads allowed variablesMap

namespace ExecutePlugin

section Names

variable {context : Context} {command other : Command}

theorem mem_names_of_leads (leads : context.Leads command other) : command ∈ context.names := by
  rw [Context.names, List.mem_append]
  rcases leads with refers | ⟨_, plugin, _, ⟨found, -⟩, -⟩
  · exact Or.inr (mem_roots_of_refers context command other refers)
  · apply Or.inl
    by_contra unnamed
    rw [getNextStep, if_neg unnamed] at found
    cases listed : context.settings.getValues [command] with
    | none => simp [listed] at found
    | some commands => simp [listed] at found

/-- A command that stands for commands that lead to no cycle leads to none. -/
theorem acyclic_of_commands {commands : CommandCollection}
    (found : getNextStep context command = some (.commands (.ofInitialCommand commands command)))
    (acyclic : ∀ other ∈ commands, Acyclic context.Leads other) :
    Acyclic context.Leads command := by
  by_contra cyclic
  obtain ⟨other, leads, otherCyclic⟩ := Acyclic.exists_step_of_not cyclic
  rcases leads with refers | ⟨_, plugin, _, ⟨resolved, -⟩, -⟩
  · obtain ⟨executePlugin, resolved, member⟩ := mem_pairs_of_refers refers
    obtain rfl := NextStep.commands.inj (Option.some.inj (found.symm.trans resolved))
    exact otherCyclic (acyclic other (mem_commands_of_mem_pairs member))
  · rw [found] at resolved
    cases resolved

/-- A plugin that has nothing executed leads to no cycle. -/
private theorem acyclic_of_plugin {plugin : Plugin}
    (found : getNextStep context command = some (.plugin plugin))
    (nothing : ∀ fuel task variablesMap patterns commands started,
      ¬(plugin.apply context.currentPath fuel task variablesMap patterns).Performs
        (PluginOp.execute commands started)) :
    Acyclic context.Leads command := by
  by_contra cyclic
  obtain ⟨other, leads, -⟩ := Acyclic.exists_step_of_not cyclic
  rcases leads with refers | ⟨_, plugin, _, ⟨resolved, -⟩, _, _, _, _, performs, -⟩
  · obtain ⟨executePlugin, resolved, -⟩ := mem_pairs_of_refers refers
    rw [found] at resolved
    cases resolved
  · rw [found] at resolved
    cases resolved
    exact nothing _ _ _ _ _ _ performs

theorem acyclic_of_memory {returnCode : Bool}
    (found : getNextStep context command = some (.plugin (.memory returnCode))) :
    Acyclic context.Leads command := by
  apply acyclic_of_plugin found
  intro fuel task variablesMap patterns commands started performs
  rcases performs with remembers | ⟨_, impossible⟩
  · cases remembers
  · exact impossible

/-- Nothing but events of the host. -/
private def eventProtocol : Protocol Stop pluginInterface where
  Phase := Unit
  allowed _ := True
  permitted _ op := ∃ event, op = .host event
  advance _ _ _ := ()

theorem acyclic_of_commandLineCommand
    (found : getNextStep context command = some (.plugin .commandLineCommand)) :
    Acyclic context.Leads command := by
  apply acyclic_of_plugin found
  intro fuel task variablesMap patterns commands started performs
  have conforms : eventProtocol.Conforms (fun _ _ => True)
      (Plugin.commandLineCommand.apply context.currentPath fuel task variablesMap patterns)
      () := by
    rw [Plugin.apply]
    rcases CommandLineCommand.apply_cases context.currentPath task variablesMap patterns with
      ⟨-, stops⟩ | ⟨-, stops⟩ | reports | ⟨configured, commandLines, -, registers⟩
    · rw [stops]
      exact trivial
    · rw [stops]
      exact trivial
    · rw [reports]
      exact ⟨⟨_, rfl⟩, fun _ => trivial⟩
    · rw [registers]
      have lines : eventProtocol.Conforms (eventProtocol.EndsIn () fun _ => True)
          (CommandLineCommand.registerLines context.currentPath fuel configured patterns
            commandLines) () := by
        apply conforms_forEachCombination trivial trivial
        intro combination
        apply conforms_allM
        intro executeTask _
        cases replacePatternCombinations context.currentPath executeTask combination with
        | none => exact trivial
        | some newTask => exact ⟨⟨_, rfl⟩, fun _ => rfl⟩
      exact lines.imp fun _ _ _ => trivial
  obtain ⟨_, event, impossible⟩ := conforms.exists_permitted performs
  cases impossible

/-- Commands that are executed on their own behalf are their own initial commands. -/
theorem mem_pairs_ofCommands {commands : CommandCollection}
    (member : (command, other) ∈ (ofCommands commands).pairs) :
    command = other ∧ other ∈ commands := by
  have both : (ofCommands commands).pairs = commands.map fun own => (own, own) := by
    simpa [pairs, ofCommands] using @List.zip_map' _ _ _ id id commands
  rw [both] at member
  obtain ⟨own, among, same⟩ := List.mem_map.mp member
  obtain ⟨rfl, rfl⟩ := Prod.mk.inj same
  exact ⟨rfl, among⟩

theorem mem_knownPatterns {variablesMap : VariablesMap} {pattern : Pattern}
    (member : pattern ∈ knownPatterns context variablesMap) :
    ∃ key : PatternKey, context.patterns[key]? = some pattern := by
  obtain ⟨key, -, found⟩ := List.mem_filterMap.mp member
  exact ⟨key, found⟩

theorem exists_bound_knownPatterns (context : Context) : ∃ bound, ∀ variablesMap,
    (combinations (knownPatterns context variablesMap)).length ≤ bound := by
  obtain ⟨bound, bounds⟩ := exists_bound_combinations (context.patterns.toList.map Prod.snd)
  refine ⟨bound, fun variablesMap => bounds _ ?_⟩
  intro pattern member
  obtain ⟨key, found⟩ := mem_knownPatterns member
  exact List.mem_map.mpr ⟨(key, pattern),
    Std.ExtTreeMap.mem_toList_iff_getElem?_eq_some.mpr found, rfl⟩

end Names

/-! ## Runs -/

/-- Surroundings and executions that stop only in allowed states, each reason in its own. -/
def onlyFor {σ : Type} (allowed : Stop → σ → Prop) : Contract Stop σ where
  returns _ _ := True
  stops _ reason final := allowed reason final
  refl _ := trivial
  trans _ _ := trivial
  after _ stops := stops

theorem onlyFor_imp {σ α : Type} {allowed wider : Stop → σ → Prop}
    {computation : EStateM Stop σ α} (holds : (onlyFor allowed).Holds computation)
    (implies : ∀ reason final, allowed reason final → wider reason final) :
    (onlyFor wider).Holds computation := by
  intro start
  have respected := holds start
  revert respected
  cases computation start with
  | ok value final => exact fun _ => trivial
  | error reason final => exact implies reason final

section Runs

variable {σ : Type} {allowed : Stop → Prop} {ends : Stop → σ → Prop} {context : Context}
variable {host : RunEvent → EStateM Stop σ Unit} {bound leftFuel rightFuel : Nat}

theorem onlyFor_marks (answers : ∀ event, (onlyFor ends).Holds (host event)) :
    RelatesMarks (onlyFor ends).agreement host host where
  feedbackError _ := ⟨rfl, answers _⟩
  resolving _ _ := ⟨rfl, answers _⟩
  applied _ := ⟨rfl, answers _⟩

/-- What a plugin needs of its script is that it keeps the directories of its tasks. -/
private theorem keeps_of_reads {plugin : Plugin} {variablesMap : VariablesMap}
    (reads : plugin.Reads allowed variablesMap) :
    ∀ script, plugin = .luaPlugin script → script.Keeps (Placed allowed) := by
  rintro script rfl
  exact reads.2.1

/-- A call of the plugin of a command settles, and what it executes the command leads to. -/
theorem exists_settled (provides : context.Provides allowed)
    (bounds : ∀ variablesMap, (combinations (knownPatterns context variablesMap)).length ≤ bound)
    {command initialCommand : Command} (called : context.CalledFor command initialCommand)
    {plugin : Plugin} {variablesMap : VariablesMap}
    (resolves : context.ResolvesTo command initialCommand (.plugin plugin) variablesMap)
    {task : Task} (placed : Placed allowed task) :
    ∃ settled : PluginProgram Bool, settled.StopsOnlyFor allowed ∧
      (∀ commands started, settled.Performs (PluginOp.execute commands started) →
        Placed allowed started ∧ ∀ other ∈ commands, context.Leads command other) ∧
      ∀ fuel, bound < fuel → plugin.apply context.currentPath fuel task variablesMap
        (knownPatterns context variablesMap) = settled := by
  have countable : Countable (knownPatterns context variablesMap) := by
    intro pattern member
    obtain ⟨key, found⟩ := mem_knownPatterns member
    exact provides.countable key pattern found
  have filled : allowed .terminate ∨ Filled (knownPatterns context variablesMap) := by
    apply provides.filled.imp_right
    intro filled pattern member
    obtain ⟨key, found⟩ := mem_knownPatterns member
    exact filled key pattern found
  have reads := provides.plugins command initialCommand plugin variablesMap called resolves
  obtain ⟨settled, stops, same⟩ := Plugin.settles countable filled (bounds variablesMap) reads
    context.currentPath placed
  dsimp only at same
  refine ⟨settled, stops, ?_, same⟩
  intro commands started performs
  rw [← same (bound + 1) (Nat.lt_succ_self bound)] at performs
  constructor
  · exact (Plugin.hands (kept_placed allowed context.currentPath) (keeps_of_reads reads) _ _ _ _
      trivial placed).of_performs performs
  · intro other member
    exact Or.inr ⟨initialCommand, plugin, variablesMap, resolves, bound + 1, task, commands,
      started, performs, member⟩

/-- Below a limit of ranks, neither the fuel of loops nor that of calls and executions makes
a difference, if all of it is above the limit. -/
theorem agrees_apply (answers : ∀ event, (onlyFor ends).Holds (host event))
    (provides : context.Provides allowed)
    (allows : ∀ reason, allowed reason → ∀ state, ends reason state)
    (bounds : ∀ variablesMap, (combinations (knownPatterns context variablesMap)).length ≤ bound)
    (leftLoops : bound < leftFuel) (rightLoops : bound < rightFuel) (limit : Nat)
    (leftLimit : limit < leftFuel) (rightLimit : limit < rightFuel)
    {leftLevel rightLevel leftNesting rightNesting : Nat}
    (leftLevels : limit ≤ leftLevel) (rightLevels : limit ≤ rightLevel)
    (leftNestings : limit < leftNesting) (rightNestings : limit < rightNesting)
    (executePlugin : ExecutePlugin) {task : Task} (placed : Placed allowed task)
    (below : ∀ pair ∈ executePlugin.pairs, context.CalledFor pair.1 pair.2 ∧
      Acyclic context.Leads pair.1 ∧ rank context.Leads context.names pair.1 < limit) :
    (onlyFor ends).agreement.Related
      (apply host context (callPlugin host context leftFuel leftLevel) leftNesting executePlugin
        task)
      (apply host context (callPlugin host context rightFuel rightLevel) rightNesting
        executePlugin task) := by
  induction limit using Nat.strong_induction_on generalizing leftLevel rightLevel leftNesting
    rightNesting executePlugin task with
  | h limit inductionHypothesis =>
      obtain ⟨leftNesting, rfl⟩ := Nat.exists_eq_succ_of_ne_zero (Nat.ne_zero_of_lt leftNestings)
      obtain ⟨rightNesting, rfl⟩ := Nat.exists_eq_succ_of_ne_zero (Nat.ne_zero_of_lt rightNestings)
      apply (onlyFor_marks answers).relates_apply task
      · intro pair listed found missing α
        obtain ⟨called, acyclic, -⟩ := below pair listed
        exact ⟨rfl, fun _ => allows _
          (provides.sections pair.1 pair.2 called acyclic found missing) _⟩
      rintro ⟨command, initialCommand⟩ listed step variablesMap resolves
      obtain ⟨called, acyclic, ranked⟩ := below _ listed
      -- Whatever the command leads to has a smaller rank, which is the next limit.
      have lower : ∀ other, context.Leads command other → Acyclic context.Leads other ∧
          rank context.Leads context.names other < rank context.Leads context.names command :=
        fun other leads => ⟨acyclic.of_step leads, acyclic.rank_lt (mem_names_of_leads leads) leads⟩
      cases step with
      | commands nested =>
          refine inductionHypothesis _ ranked ?_ ?_ ?_ ?_ ?_ ?_ nested placed ?_ <;> try omega
          rintro ⟨other, own⟩ member
          obtain ⟨refers, rfl⟩ := refers_of_mem_pairs resolves.1 member
          exact ⟨Or.inr refers, lower other (Or.inl refers)⟩
      | plugin plugin =>
          obtain ⟨settled, stops, executes, same⟩ :=
            exists_settled provides bounds called resolves placed
          obtain ⟨leftLevel, rfl⟩ := Nat.exists_eq_succ_of_ne_zero
            (Nat.ne_zero_of_lt (Nat.lt_of_lt_of_le ranked leftLevels))
          obtain ⟨rightLevel, rfl⟩ := Nat.exists_eq_succ_of_ne_zero
            (Nat.ne_zero_of_lt (Nat.lt_of_lt_of_le ranked rightLevels))
          rw [applyStep, applyStep, callPlugin, callPlugin, same leftFuel leftLoops,
            same rightFuel rightLoops]
          apply (onlyFor ends).agreement.interpret_of_performs
          · intro op performs
            cases op with
            | host event => exact ⟨rfl, answers _⟩
            | execute commands started =>
                obtain ⟨startedPlaced, leads⟩ := executes commands started performs
                refine inductionHypothesis _ ranked ?_ ?_ ?_ ?_ ?_ ?_ _ startedPlaced ?_ <;>
                  try omega
                rintro ⟨other, own⟩ member
                obtain ⟨rfl, among⟩ := mem_pairs_ofCommands member
                exact ⟨Or.inl rfl, lower other (leads other among)⟩
          · exact stops.imp fun reason allowed => ⟨rfl, fun _ => allows reason allowed _⟩

/-- A run of commands that lead to no cycle ends: there is a number of steps, whatever the
surroundings are, within which it ends, and more steps make no difference.  It stops only for
reasons that the surroundings and the settings allow. -/
theorem exists_run_ends (context : Context) {commands : CommandCollection}
    (acyclic : ∀ command ∈ commands, Acyclic context.Leads command) :
    ∃ enough, ∀ fuel, enough ≤ fuel → ∀ (allowed : Stop → Prop), context.Provides allowed →
      ∀ (σ : Type) (ends : Stop → σ → Prop),
        (∀ reason, allowed reason → ∀ state, ends reason state) →
        ∀ host : RunEvent → EStateM Stop σ Unit, (∀ event, (onlyFor ends).Holds (host event)) →
        ∀ task, Placed allowed task →
          (onlyFor ends).agreement.Related
            (run host context fuel (.ofCommands commands) task)
            (run host context enough (.ofCommands commands) task) := by
  obtain ⟨bound, bounds⟩ := exists_bound_knownPatterns context
  refine ⟨bound + context.names.length + 2, ?_⟩
  intro fuel above allowed provides σ ends allows host answers task placed
  apply agrees_apply answers provides allows bounds (by omega) (by omega)
    (context.names.length + 1) (by omega) (by omega) (by omega) (by omega) (by omega) (by omega)
    (.ofCommands commands) placed
  rintro ⟨command, own⟩ member
  obtain ⟨rfl, among⟩ := mem_pairs_ofCommands member
  exact ⟨Or.inl rfl, acyclic command among, Nat.lt_succ_of_le (rank_le _ _ _)⟩

end Runs

end ExecutePlugin

end ExecHelper.Plugins
