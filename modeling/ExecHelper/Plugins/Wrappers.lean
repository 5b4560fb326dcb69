import ExecHelper.Plugins.Coverage
import ExecHelper.Plugins.LuaPlugin

/-!
# Wrappers

A wrapper has other commands executed under every combination of its patterns.  The task
it hands to them is a prefix: the arguments it was called with itself, followed by what it
adds.  The combination has to be substituted in this prefix before it is handed on, since
the commands know the patterns of the wrapper no more.

There are three loops that do this, each written out on its own.
-/

namespace ExecHelper.Plugins

open ExecHelper.Config
open ExecHelper.Core
open ExecHelper.Library

/-! ## What is handed on -/

/-- The task is the one of the wrapper with the combination substituted. `PWD` may have been
set to the working directory on the way. -/
structure SubstitutedFor (currentPath : CurrentPath) (wrapperTask : Task)
    (combination : PatternCombinations) (handedOn : Task) : Prop where
  arguments : handedOn.task = wrapperTask.task.map fun argument =>
    replaceCombinations argument combination
  workingDirectory : handedOn.workingDirectory =
    replaceCombinations wrapperTask.workingDirectory combination
  environment : ∀ name,
    handedOn.env[name]? = (replacePatternsInEnvironment wrapperTask.env combination)[name]? ∨
      name = "PWD" ∧ handedOn.env[name]? = some (Path.append currentPath.path
        (replaceCombinations wrapperTask.workingDirectory combination))

/-- The combination has nothing to replace in the task, except in a `PWD` that is the
working directory. -/
structure Unaffected (currentPath : CurrentPath) (task : Task)
    (combination : PatternCombinations) : Prop where
  arguments : ∀ argument ∈ task.task, replaceCombinations argument combination = argument
  workingDirectory :
    replaceCombinations task.workingDirectory combination = task.workingDirectory
  environment : ∀ name,
    task.env[name]? = (replacePatternsInEnvironment task.env combination)[name]? ∨
      name = "PWD" ∧ task.env[name]? = some (Path.append currentPath.path task.workingDirectory)

/-- The combinations a loop comes to as long as its rounds succeed. -/
def visited : List (Option PatternCombinations) → List PatternCombinations
  | some combination :: rest => combination :: visited rest
  | _ => []

def visitedCombinations (fuel : Nat) (patterns : Patterns) : List PatternCombinations :=
  visited (MapPermutator.yielded (MapPermutator.last (patternValuesMap patterns)) fuel
    (MapPermutator.first (patternValuesMap patterns)))

/-- The combinations under which a loop comes to execute commands. Where nothing is left of the
directory of the task, the process ends when the task is substituted for the first time, be
that early in the round or after the commands. -/
def executedCombinations (task : Task) (early : Bool) :
    List PatternCombinations → List PatternCombinations
  | [] => []
  | combination :: rest =>
      if replaceCombinations task.workingDirectory combination = "" then
        if early then [] else [combination]
      else combination :: executedCombinations task early rest

/-- Commands are executed under one combination after the other, each with a task that is
right for it. The phase consists of the combinations still to come. -/
def delegationProtocol (handsOn : PatternCombinations → Task → Prop) :
    Protocol Stop pluginInterface where
  Phase := List PatternCombinations
  allowed _ := True
  permitted remaining op := ∀ commands task, op = .execute commands task →
    ∃ combination ∈ remaining.head?, handsOn combination task
  advance remaining op _ :=
    match op with
    | .execute _ _ => remaining.tail
    | .host _ => remaining

/-- Nothing is asked of how a program ends. -/
def AnyEnd {α : Type} (_ : α) (_ : List PatternCombinations) : Prop := True

/-- All commands that are executed under a combination get the task of the wrapper with
that combination substituted, whatever the answers are. -/
def Delegates (currentPath : CurrentPath) (wrapperTask : Task)
    (combinations : List PatternCombinations) (program : PluginProgram Bool) : Prop :=
  (delegationProtocol (SubstitutedFor currentPath wrapperTask)).Conforms AnyEnd program
    combinations

/-- What is added to the arguments of a command that is analysed. -/
def Valgrind.addedArguments (variablesMap : VariablesMap) : TaskCollection :=
  [PLUGIN_NAME] ++
    ((variablesMap.getString [TOOL_KEY]).toList.map fun tool => "--tool=" ++ tool) ++
    (if variablesMap.getBool [VERBOSITY_KEY] = some true then ["--verbose"] else []) ++
    (variablesMap.getValues [COMMAND_LINE_KEY]).getD []

section Tasks

variable {currentPath : CurrentPath} {combination : PatternCombinations}

theorem substitutedFor_substitutedTask (task : Task) :
    SubstitutedFor currentPath task combination
      (substitutedTask currentPath task combination) := by
  refine ⟨rfl, rfl, ?_⟩
  intro name
  rw [substitutedTask, withPWD]
  by_cases same : name = "PWD"
  · rw [same, Std.ExtTreeMap.getElem?_insert_self]
    exact Or.inr ⟨rfl, rfl⟩
  · left
    rw [Std.ExtTreeMap.getElem?_insert, if_neg]
    · rfl
    exact fun equal => same (Std.LawfulEqOrd.eq_of_compare equal).symm

/-- A task can be handed on as it is when the combination leaves it alone. -/
theorem substitutedFor_self_iff {task : Task} :
    SubstitutedFor currentPath task combination task ↔
      Unaffected currentPath task combination := by
  have arguments_iff : (task.task = task.task.map fun argument =>
      replaceCombinations argument combination) ↔
      ∀ argument ∈ task.task, replaceCombinations argument combination = argument := by
    rw [eq_comm]
    conv_lhs => rhs; rw [← List.map_id task.task]
    exact List.map_inj_left
  constructor
  · rintro ⟨arguments, workingDirectory, environment⟩
    rw [← workingDirectory] at environment
    exact ⟨arguments_iff.mp arguments, workingDirectory.symm, environment⟩
  · rintro ⟨arguments, workingDirectory, environment⟩
    refine ⟨arguments_iff.mpr arguments, workingDirectory.symm, ?_⟩
    rw [workingDirectory]
    exact environment

end Tasks

/-! ## Loops -/

section Loops

variable {handsOn : PatternCombinations → Task → Prop} {α : Type}
variable {ends : α → List PatternCombinations → Prop}

/-- What is registered does not count. -/
theorem conforms_registerTasks_bind_iff {currentPath : CurrentPath}
    {combination : PatternCombinations} {tasks : List Task}
    (placed : ∀ task ∈ tasks, replaceCombinations task.workingDirectory combination ≠ "")
    {continuation : Unit → PluginProgram α} {remaining : List PatternCombinations} :
    (delegationProtocol handsOn).Conforms ends
        (Lcov.registerTasks currentPath combination tasks >>= continuation) remaining ↔
      (delegationProtocol handsOn).Conforms ends (continuation ()) remaining := by
  rw [Lcov.registerTasks, List.forM_eq_forM]
  induction tasks with
  | nil => exact Iff.rfl
  | cons task rest inductionHypothesis =>
      obtain ⟨first, later⟩ := List.forall_mem_cons.mp placed
      rw [List.forM_cons, replacePatternCombinations_eq, if_neg first, orTerminate_some,
        pure_bind]
      constructor
      · exact fun conforms => (inductionHypothesis later).mp (conforms.2 ())
      · intro conforms
        refine ⟨?_, fun _ => (inductionHypothesis later).mpr conforms⟩
        intro _ _ same
        cases same

/-- Registering a task that has no directory ends the process. -/
theorem registerTasks_of_unplaced {currentPath : CurrentPath} {combination : PatternCombinations}
    {task : Task} (unplaced : replaceCombinations task.workingDirectory combination = "")
    (rest : List Task) :
    Lcov.registerTasks currentPath combination (task :: rest) = .stop .terminate := by
  rw [Lcov.registerTasks, List.forM_eq_forM, List.forM_cons, replacePatternCombinations_eq,
    if_pos unplaced]
  rfl

theorem conforms_execute_bind_iff {commands : CommandCollection} {task : Task}
    {continuation : Bool → PluginProgram α} {combination : PatternCombinations}
    {rest : List PatternCombinations} :
    (delegationProtocol handsOn).Conforms ends (execute commands task >>= continuation)
        (combination :: rest) ↔
      handsOn combination task ∧ ∀ succeeded,
        (delegationProtocol handsOn).Conforms ends (continuation succeeded) rest := by
  constructor
  · rintro ⟨permitted, next⟩
    rcases permitted commands task rfl with ⟨first, found, handedOn⟩
    rcases Option.some.inj found with rfl
    exact ⟨handedOn, next⟩
  · rintro ⟨handedOn, next⟩
    refine ⟨?_, next⟩
    rintro _ _ ⟨⟩
    exact ⟨combination, rfl, handedOn⟩

theorem conforms_failure (message : String) (remaining : List PatternCombinations) :
    (delegationProtocol handsOn).Conforms AnyEnd
      (do feedbackError message; return false : PluginProgram Bool) remaining := by
  refine ⟨?_, fun _ => trivial⟩
  intro _ _ same
  cases same

/-- A round that executes commands once, with a task that depends on the combination. Without
a directory, the process ends in it, unless the commands fail before. -/
structure ExecutesOnce (handsOn : PatternCombinations → Task → Prop) (task : Task) (early : Bool)
    (handedOn : PatternCombinations → Task) (body : PatternCombinations → PluginProgram Bool) :
    Prop where
  placed : ∀ combination, replaceCombinations task.workingDirectory combination ≠ "" →
    ∀ (rest : List PatternCombinations) (continuation : Bool → PluginProgram Bool),
      (delegationProtocol handsOn).Conforms AnyEnd (body combination >>= continuation)
          (combination :: rest) ↔
        handsOn combination (handedOn combination) ∧ ∀ succeeded,
          (delegationProtocol handsOn).Conforms AnyEnd (continuation succeeded) rest
  unplaced : ∀ combination, replaceCombinations task.workingDirectory combination = "" →
    ∀ (rest : List PatternCombinations) (continuation : Bool → PluginProgram Bool),
      (delegationProtocol handsOn).Conforms AnyEnd (continuation false) rest →
      ((delegationProtocol handsOn).Conforms AnyEnd (body combination >>= continuation)
          (combination :: rest) ↔
        (early = false → handsOn combination (handedOn combination)))

/-- A loop of such rounds is right exactly when the task that is handed on is right for every
combination under which commands are executed. -/
theorem conforms_forEachCombination_iff {task : Task} {early : Bool}
    {handedOn : PatternCombinations → Task} {body : PatternCombinations → PluginProgram Bool}
    (executes : ExecutesOnce handsOn task early handedOn body) (fuel : Nat)
    (patterns : Patterns) :
    (delegationProtocol handsOn).Conforms AnyEnd (forEachCombination fuel patterns body)
        (visitedCombinations fuel patterns) ↔
      ∀ combination ∈ executedCombinations task early (visitedCombinations fuel patterns),
        handsOn combination (handedOn combination) := by
  rw [forEachCombination, MapPermutator.loop_eq_yielded, visitedCombinations]
  generalize MapPermutator.reaches (MapPermutator.last (patternValuesMap patterns)) fuel
    (MapPermutator.first (patternValuesMap patterns)) = reached
  generalize MapPermutator.yielded (MapPermutator.last (patternValuesMap patterns)) fuel
    (MapPermutator.first (patternValuesMap patterns)) = steps
  induction steps with
  | nil =>
      have ended : (delegationProtocol handsOn).Conforms AnyEnd
          (if reached then pure true else .stop .outOfFuel : PluginProgram Bool) [] := by
        cases reached <;> trivial
      exact iff_of_true ended (List.forall_mem_nil _)
  | cons step rest inductionHypothesis =>
      cases step with
      | none => exact iff_of_true trivial (List.forall_mem_nil _)
      | some combination =>
          rw [List.allM_cons, bind_assoc, visited, executedCombinations]
          by_cases placed : replaceCombinations task.workingDirectory combination = ""
          · rw [if_pos placed, executes.unplaced combination placed]
            · cases early <;> simp
            · exact trivial
          · rw [if_neg placed, executes.placed combination placed, List.forall_mem_cons,
              ← inductionHypothesis]
            apply and_congr_right
            intro _
            constructor
            · exact fun both => both true
            · intro later succeeded
              cases succeeded with
              | true => exact later
              | false => trivial

end Loops

/-! ## The three wrappers -/

section Wrappers

variable {currentPath : CurrentPath} {fuel : Nat} {patterns : Patterns} {task : Task}
variable {variablesMap : VariablesMap}

/-- When a loop goes over the combinations, these are the ones it comes to. -/
theorem visitedCombinations_eq (permutable : Permutable patterns)
    (enough : (combinations patterns).length < fuel) :
    visitedCombinations fuel patterns = combinations patterns := by
  rw [visitedCombinations,
    (MapPermutator.yielded_eq (patternValuesMap_ne_nil patterns) permutable fuel).1,
    ← combinations, List.take_of_length_le (Nat.le_of_lt enough)]
  generalize combinations patterns = inputs
  induction inputs with
  | nil => rfl
  | cons combination rest inductionHypothesis =>
      rw [List.map_cons, visited, inductionHypothesis]

/-- A round that executes commands with the substituted task. -/
theorem executesOnce_substituted {handsOn : PatternCombinations → Task → Prop}
    (commands : PatternCombinations → CommandCollection) :
    ExecutesOnce handsOn task true (substitutedTask currentPath task) fun combination => do
      let newTask ← orTerminate (replacePatternCombinations currentPath task combination)
      execute (commands combination) newTask where
  placed combination placed rest continuation := by
    rw [replacePatternCombinations_eq, if_neg placed, orTerminate_some, pure_bind]
    exact conforms_execute_bind_iff
  unplaced combination unplaced rest continuation _ := by
    rw [replacePatternCombinations_eq, if_pos unplaced, orTerminate_none]
    exact iff_of_true trivial Bool.noConfusion

/-- Executing commands with the substituted task is right under every combination. -/
theorem delegates_substituted (commands : PatternCombinations → CommandCollection) :
    Delegates currentPath task (visitedCombinations fuel patterns)
      (forEachCombination fuel patterns fun combination => do
        let newTask ← orTerminate (replacePatternCombinations currentPath task combination)
        execute (commands combination) newTask) := by
  rw [Delegates, conforms_forEachCombination_iff (executesOnce_substituted commands)]
  exact fun combination _ => substitutedFor_substitutedTask task

theorem valgrind_delegates :
    Delegates currentPath (task.append (Valgrind.addedArguments variablesMap))
      (visitedCombinations fuel patterns)
      (Valgrind.apply currentPath fuel task variablesMap patterns) := by
  rw [Valgrind.apply, Valgrind.addedArguments]
  cases variablesMap.getValues [Valgrind.RUN_COMMAND_KEY] with
  | none => exact conforms_failure _ _
  | some runCommand =>
      cases variablesMap.getBool [VERBOSITY_KEY] with
      | none => trivial
      | some verbosity =>
          cases variablesMap.getValues [COMMAND_LINE_KEY] with
          | none => trivial
          | some commandLine =>
              simp only [dereference_some, pure_bind, Option.getD_some]
              cases variablesMap.getString [Valgrind.TOOL_KEY] <;> cases verbosity <;>
                simpa [Task.append_append] using delegates_substituted fun _ => runCommand

/-- A round of coverage hands on the task the plugin was called with. With counters to reset it
substitutes a task before, and in any case after its commands. -/
theorem executesOnce_round {handsOn : PatternCombinations → Task → Prop}
    (runCommands : CommandCollection) (settings : Lcov.Settings) :
    ExecutesOnce handsOn task settings.zeroCounters (fun _ => task)
      (Lcov.round currentPath task runCommands settings) where
  placed combination placed rest continuation := by
    have appended : ∀ arguments,
        replaceCombinations (task.append arguments).workingDirectory combination ≠ "" :=
      fun _ => placed
    rw [Lcov.round, bind_assoc,
      conforms_registerTasks_bind_iff (settings.forall_tasksBefore appended), bind_assoc,
      conforms_execute_bind_iff]
    apply and_congr_right'
    apply forall_congr'
    intro succeeded
    cases succeeded with
    | true =>
        rw [bind_assoc, conforms_registerTasks_bind_iff (settings.forall_tasksAfter appended),
          pure_bind]
    | false => rw [pure_bind]
  unplaced combination unplaced rest continuation fails := by
    have appended : ∀ arguments,
        replaceCombinations (task.append arguments).workingDirectory combination = "" :=
      fun _ => unplaced
    rw [Lcov.round, Lcov.Settings.tasksBefore]
    cases settings.zeroCounters with
    | true =>
        have stops : Lcov.registerTasks currentPath combination
            [task.append settings.zeroCountersArguments] = .stop .terminate :=
          registerTasks_of_unplaced (appended _) []
        rw [if_pos rfl, stops]
        exact iff_of_true trivial Bool.noConfusion
    | false =>
        rw [if_neg Bool.false_ne_true, bind_assoc,
          conforms_registerTasks_bind_iff (List.forall_mem_nil _), bind_assoc,
          conforms_execute_bind_iff]
        have stops : Lcov.registerTasks currentPath combination (settings.tasksAfter task) =
            .stop .terminate := registerTasks_of_unplaced (appended _) _
        constructor
        · exact fun both _ => both.1
        · intro handedOn
          refine ⟨handedOn rfl, fun succeeded => ?_⟩
          cases succeeded with
          | true =>
              rw [stops]
              exact trivial
          | false => exact fails

theorem lcov_delegates_iff :
    Delegates currentPath task (visitedCombinations fuel patterns)
        (Lcov.apply currentPath fuel task variablesMap patterns) ↔
      (∀ runCommands settings, variablesMap.getValues [Lcov.RUN_COMMAND] = some runCommands →
        runCommands ≠ [] → Lcov.readSettings variablesMap = some settings →
        ∀ combination ∈ executedCombinations task settings.zeroCounters
          (visitedCombinations fuel patterns), Unaffected currentPath task combination) := by
  cases configured : variablesMap.getValues [Lcov.RUN_COMMAND] with
  | none =>
      apply iff_of_true
      · rw [Delegates, Lcov.apply, configured]
        exact conforms_failure _ _
      · intro _ _ impossible
        cases impossible
  | some runCommands =>
      by_cases given : runCommands = []
      · apply iff_of_true
        · rw [Delegates, Lcov.apply, configured, given]
          exact conforms_failure _ _
        · rintro _ _ ⟨⟩ nonempty
          exact absurd given nonempty
      · rw [Delegates, Lcov.apply_eq fuel patterns configured given]
        cases Lcov.readSettings variablesMap with
        | none =>
            apply iff_of_true trivial
            intro _ _ _ _ impossible
            cases impossible
        | some settings =>
            rw [dereference_some, pure_bind,
              conforms_forEachCombination_iff (executesOnce_round runCommands settings)]
            simp only [substitutedFor_self_iff]
            constructor
            · rintro unaffected _ _ _ _ ⟨⟩
              exact unaffected
            · exact fun unaffected => unaffected runCommands settings rfl given rfl

end Wrappers

/-- `valgrind` and `run_target` always substitute the combination in what they hand on.
`lcov` hands on the task it was called with, which is right exactly when no combination under
which it executes commands has anything to replace there. -/
theorem delegates_iff (currentPath : CurrentPath) (fuel : Nat) (task : Task)
    (patterns : Patterns) :
    (∀ variablesMap, Delegates currentPath (task.append (Valgrind.addedArguments variablesMap))
        (visitedCombinations fuel patterns)
        (Valgrind.apply currentPath fuel task variablesMap patterns)) ∧
      (∀ commands, Delegates currentPath task (visitedCombinations fuel patterns)
        (LuaPlugin.runTarget currentPath fuel patterns task commands)) ∧
      ∀ variablesMap,
        Delegates currentPath task (visitedCombinations fuel patterns)
            (Lcov.apply currentPath fuel task variablesMap patterns) ↔
          (∀ runCommands settings,
            variablesMap.getValues [Lcov.RUN_COMMAND] = some runCommands →
            runCommands ≠ [] → Lcov.readSettings variablesMap = some settings →
            ∀ combination ∈ executedCombinations task settings.zeroCounters
              (visitedCombinations fuel patterns), Unaffected currentPath task combination) :=
  ⟨fun _ => valgrind_delegates, fun _ => delegates_substituted _, fun _ => lcov_delegates_iff⟩

/-- Wrapped by a plugin that put the placeholder of a build directory in front, `lcov` hands
the placeholder on. -/
theorem delegates_counterexample :
    ¬∀ (currentPath : CurrentPath) (fuel : Nat) (task : Task) (variablesMap : VariablesMap)
        (patterns : Patterns),
        Delegates currentPath task (visitedCombinations fuel patterns)
          (Lcov.apply currentPath fuel task variablesMap patterns) := by
  intro claimed
  have delegates := claimed .root 2 ⟨["build-\x7bMODE\x7d/run"], ∅, "/work"⟩
    Lcov.checkVariables [{ key := "MODE", values := ["debug"] }]
  have columns := patternColumns_singleton { key := "MODE", values := ["debug"] }
  have only : combinations [{ key := "MODE", values := ["debug"] }] =
      [OrderedMap.emplaceAll [("MODE", "debug")] ∅] := by
    rw [combinations, MapPermutator.combinations, MapPermutator.columns,
      toList_patternValuesMap (List.cons_ne_nil _ _), columns]
    rfl
  have permutable : Permutable [{ key := "MODE", values := ["debug"] }] :=
    permutable_of_columns (List.cons_ne_nil _ _) (Or.inl (by rw [columns]; decide))
  rw [lcov_delegates_iff, visitedCombinations_eq permutable (by rw [only]; decide), only]
    at delegates
  obtain ⟨settings, given⟩ := Option.isSome_iff_exists.mp
    (by decide : (Lcov.readSettings Lcov.checkVariables).isSome)
  have unaffected := delegates ["check"] settings (by decide) (List.cons_ne_nil _ _) given
    (OrderedMap.emplaceAll [("MODE", "debug")] ∅) (by
      rw [executedCombinations, if_neg (by decide)]
      exact List.mem_cons_self)
  exact absurd (unaffected.arguments _ List.mem_cons_self) (by decide)

end ExecHelper.Plugins
