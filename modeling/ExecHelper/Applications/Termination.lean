import ExecHelper.Applications.DryRun
import ExecHelper.Applications.Inheritance
import ExecHelper.Plugins.Termination

/-!
# Invocations that end

An invocation whose commands lead to no cycle ends, whatever the shell answers: within a
number of steps that is known before it starts, it returns an exit status or is cut short
by an exit, an exception or undefined behaviour.  The bounds of the model are not among its
ends, and make no difference any more.
-/

namespace ExecHelper.Applications

open ExecHelper.Library
open ExecHelper.Config
open ExecHelper.Core
open ExecHelper.Plugins
open ExecHelper.Commander
open ExecHelper.Plugins.ExecutePlugin (onlyFor onlyFor_imp)

section Surroundings

/-- What the shell causes to end a run is its answer to the last of the executed tasks: the
task failed, and the run does not go on after failures, or an exception was thrown, or there
was nothing to execute. -/
def CausedBy (fleetingOptions : FleetingOptions) (shell : Shell) (reason : Stop)
    (system : System) : Prop :=
  fleetingOptions.dryRun = false ∧ ∃ before task, system.executed = before ++ [task] ∧
    match reason with
    | .exit status => fleetingOptions.keepGoing = false ∧ status ≠ POSIX_SUCCESS ∧
        (shell before.length task).result = .returned status
    | .terminate => ∃ what, (shell before.length task).result = .thrown what
    | .outOfBounds => (shell before.length task).result = .frontOfEmpty
    | _ => False

variable {fleetingOptions : FleetingOptions} {shell : Shell}

/-- The executors of the application stop a run for no other reason. -/
theorem onlyFor_answer (event : RunEvent) :
    (onlyFor (CausedBy fleetingOptions shell)).Holds (answer fleetingOptions shell event) := by
  intro system
  cases registered : registeredTask event with
  | none =>
      obtain ⟨feedback, memories, answered⟩ :=
        answer_of_no_task registered fleetingOptions shell system
      rw [answered]
      trivial
  | some task =>
      obtain rfl := registeredTask_eq_some registered
      have handled : answer fleetingOptions shell (.host (.registerTask task)) =
          registerTask fleetingOptions shell task := rfl
      rw [handled]
      cases dryRun : fleetingOptions.dryRun with
      | true =>
          rw [registerTask_of_dryRun dryRun]
          trivial
      | false =>
          cases answered : (shell system.executed.length task).result with
          | thrown what =>
              rw [registerTask_of_exception dryRun answered]
              exact ⟨dryRun, system.executed, task, rfl, what, answered⟩
          | frontOfEmpty =>
              rw [registerTask_of_frontOfEmpty dryRun answered]
              exact ⟨dryRun, system.executed, task, rfl, answered⟩
          | returned returnCode =>
              by_cases success : returnCode = POSIX_SUCCESS
              · rw [registerTask_of_success dryRun (success ▸ answered)]
                trivial
              · cases keepGoing : fleetingOptions.keepGoing with
                | true =>
                    rw [registerTask_of_failure_keepGoing dryRun keepGoing answered success]
                    trivial
                | false =>
                    rw [registerTask_of_failure_exit dryRun keepGoing answered success]
                    exact ⟨dryRun, system.executed, task, rfl, keepGoing, success, answered⟩

end Surroundings

section Run

variable {invocation : Invocation} {shell : Shell} {fuel enough : Nat} {allowed : Stop → Prop}
variable {ends : Stop → System → Prop} {task : Task}

/-- The patterns of a run are those of its invocation, and the predefined one. -/
theorem pattern_of_context {key : PatternKey} {pattern : Pattern}
    (found : invocation.context.patterns[key]? = some pattern) :
    pattern ∈ invocation.patterns ∨ pattern.values = [invocation.currentPath.path] := by
  have known : (PatternsHandler.ofPatterns
      (addPredefinedPatterns invocation.currentPath invocation.patterns))[key]? =
        some pattern := found
  rw [PatternsHandler.ofPatterns, OrderedMap.getElem?_emplaceAll, Std.ExtTreeMap.getElem?_empty,
    Option.none_or] at known
  obtain ⟨entry, first, rfl⟩ := Option.map_eq_some_iff.mp known
  obtain ⟨added, listed, rfl⟩ := List.mem_map.mp (List.mem_of_find?_eq_some first)
  rw [addPredefinedPatterns] at listed
  rcases List.mem_append.mp listed with own | predefined
  · exact Or.inl own
  · rw [List.mem_singleton.mp predefined]
    exact Or.inr rfl

theorem countable_context (countable : Countable invocation.patterns) (key : PatternKey)
    (pattern : Pattern) (found : invocation.context.patterns[key]? = some pattern) :
    pattern.values.length < 2 ^ 32 := by
  rcases pattern_of_context found with own | predefined
  · exact countable pattern own
  · rw [predefined]
    exact Nat.one_lt_two_pow (by decide)

theorem filled_context (filled : Filled invocation.patterns) (key : PatternKey)
    (pattern : Pattern) (found : invocation.context.patterns[key]? = some pattern) :
    "" ∉ pattern.values := by
  rcases pattern_of_context found with own | predefined
  · exact filled pattern own
  · rw [predefined, List.mem_singleton]
    exact invocation.currentPath.nonempty.symm

/-- Where scripts come to an end, an invocation may lack anything else. -/
theorem provides_withinFuel (countable : Countable invocation.patterns)
    (scripts : ∀ (name : String) script, invocation.plugins[name]? = some (.luaPlugin script) →
      script.Ends) : invocation.context.Provides (· ≠ .outOfFuel) where
  countable := countable_context countable
  filled := Or.inl Stop.noConfusion
  sections _ _ _ _ _ _ := Stop.noConfusion
  plugins command initialCommand plugin variablesMap _ resolves := by
    cases plugin with
    | memory returnCode => trivial
    | luaPlugin script =>
        have terminates : Stop.terminate ≠ .outOfFuel := Stop.noConfusion
        refine ⟨Or.inl terminates, ?_, ?_⟩
        · exact fun _ _ _ _ _ _ => uses_of_forall (fun _ => Or.inl terminates) _
        · intro verbose jobs task patterns
          exact scripts command script (ExecutePlugin.getElem?_of_luaPlugin resolves.1) verbose
            jobs variablesMap task patterns
    | commandLineCommand => exact ⟨Or.inl Stop.noConfusion, Or.inl Stop.noConfusion⟩
    | valgrind => exact Or.inl Stop.noConfusion
    | pmd => exact Or.inl Stop.noConfusion
    | lcov => exact Or.inl Stop.noConfusion
    | commandPlugin => exact Or.inl Stop.noConfusion

/-- What is allowed of the system of a process. -/
def inProcess (ends : Stop → System → Prop) (reason : Stop) (process : Process System) : Prop :=
  ends reason process.surroundings

/-- The commander adds nothing that depends on fuel, and no reason to stop for. -/
private theorem runCommander_agrees (made : invocation.task = some task)
    (runs : (onlyFor ends).agreement.Related
      (ExecutePlugin.run (answer invocation.fleetingOptions shell) invocation.context fuel
        (.ofCommands invocation.fleetingOptions.commands) task)
      (ExecutePlugin.run (answer invocation.fleetingOptions shell) invocation.context enough
        (.ofCommands invocation.fleetingOptions.commands) task)) :
    (onlyFor (inProcess ends)).agreement.Related (runCommander invocation shell fuel)
      (runCommander invocation shell enough) := by
  rw [Invocation.context] at runs
  obtain ⟨same, within⟩ := runs
  by_cases noCommand : invocation.fleetingOptions.commands = []
  · have reports : ∀ fuel process, runCommander invocation shell fuel process = _ :=
      fun _ process => run_of_no_command made noCommand process
    constructor
    · funext process
      rw [reports fuel, reports enough]
    · intro process
      rw [reports]
      trivial
  · have executes : ∀ fuel process, runCommander invocation shell fuel process = _ :=
      fun _ process => run_of_commands made noCommand process
    constructor
    · funext process
      rw [executes fuel, executes enough, same]
    · intro process
      rw [executes]
      have reached := within process.surroundings
      revert reached
      cases ExecutePlugin.run (answer invocation.fleetingOptions shell) _ fuel
          (.ofCommands invocation.fleetingOptions.commands) _ process.surroundings with
      | ok result final => exact fun _ => trivial
      | error reason final => exact fun reached => reached

/-- Where the task of the run cannot be made, fuel plays no role. -/
private theorem runCommander_agrees_of_no_task (unmade : invocation.task = none)
    (terminates : ∀ system, ends .terminate system) :
    (onlyFor (inProcess ends)).agreement.Related (runCommander invocation shell fuel)
      (runCommander invocation shell enough) := by
  have stops : ∀ fuel process, runCommander invocation shell fuel process = _ :=
    fun _ process => run_of_no_task unmade process
  constructor
  · funext process
    rw [stops fuel, stops enough]
  · intro process
    rw [stops]
    exact terminates _

/-- Neither does the main function. The process may end for the lack of a directory, unless it
starts with one. -/
theorem exists_execHelperMain_ends
    (acyclic : ∀ command ∈ invocation.fleetingOptions.commands,
      Acyclic invocation.context.Leads command) :
    ∃ enough, ∀ fuel, enough ≤ fuel → ∀ shell allowed (ends : Stop → System → Prop),
      invocation.context.Provides allowed →
      (∀ reason, allowed reason → ∀ system, ends reason system) →
      (∀ reason system, CausedBy invocation.fleetingOptions shell reason system →
        ends reason system) →
      allowed .terminate ∨ invocation.settingsFileParentPath ≠ "" →
        (onlyFor (inProcess ends)).agreement.Related (execHelperMain invocation shell fuel)
          (execHelperMain invocation shell enough) := by
  obtain ⟨enough, runEnds⟩ := ExecutePlugin.exists_run_ends invocation.context acyclic
  refine ⟨enough, ?_⟩
  intro fuel above shell allowed ends provides allows causes starts
  apply (onlyFor (inProcess ends)).agreement.bind
  · cases made : invocation.task with
    | none =>
        apply runCommander_agrees_of_no_task made
        apply allows
        apply starts.resolve_right
        intro nonempty
        rw [Invocation.task, Task.make, Task.setWorkingDirectory_eq, if_neg nonempty] at made
        cases made
    | some task =>
        apply runCommander_agrees made
        exact runEnds fuel above allowed provides System ends allows _
          (fun event => onlyFor_imp (onlyFor_answer event) causes) task (placed_of_make made)
  · intro succeeded
    refine ⟨rfl, ?_⟩
    intro later
    cases succeeded <;> trivial

/-- An invocation whose commands lead to no cycle ends, whatever the shell answers: with
enough fuel it is not stopped for the lack of it, and more fuel makes no difference. -/
theorem execHelperMain_ends (invocation : Invocation) (countable : Countable invocation.patterns)
    (scripts : ∀ (name : String) script, invocation.plugins[name]? = some (.luaPlugin script) →
      script.Ends)
    (acyclic : ∀ command ∈ invocation.fleetingOptions.commands,
      Acyclic invocation.context.Leads command) :
    ∃ enough, ∀ fuel, enough ≤ fuel → ∀ shell process,
      execHelperMain invocation shell fuel process =
          execHelperMain invocation shell enough process ∧
        ∀ final, execHelperMain invocation shell fuel process ≠ .error .outOfFuel final := by
  obtain ⟨enough, ends⟩ := exists_execHelperMain_ends acyclic
  refine ⟨enough, ?_⟩
  intro fuel above shell process
  obtain ⟨same, within⟩ := ends fuel above shell (· ≠ .outOfFuel) (fun reason _ =>
    reason ≠ .outOfFuel) (provides_withinFuel countable scripts) (fun _ other _ => other)
    (by rintro _ system ⟨-, _, _, -, impossible⟩ rfl; exact impossible)
    (Or.inl Stop.noConfusion)
  refine ⟨congrFun same process, ?_⟩
  intro final outOfFuel
  exact within.stops outOfFuel rfl

/-- An invocation of a command that stands for the memory plugin. -/
def memoryInvocation : Invocation where
  fleetingOptions := { commands := ["build"] }
  settings := ⟨"settings", some [⟨"build", some [.ofKey "memory"]⟩]⟩
  patterns := []
  settingsFileParentPath := "/work"
  env := ∅
  plugins := bundledInvocation.plugins
  currentPath := bundledInvocation.currentPath

/-- It ends, with any shell. -/
theorem execHelperMain_ends_memory :
    ∃ enough, ∀ fuel, enough ≤ fuel → ∀ shell process,
      execHelperMain memoryInvocation shell fuel process =
          execHelperMain memoryInvocation shell enough process ∧
        ∀ final, execHelperMain memoryInvocation shell fuel process ≠ .error .outOfFuel final := by
  apply execHelperMain_ends memoryInvocation
  · exact List.forall_mem_nil _
  · intro name script loaded
    obtain ⟨entry, member, path, pairs, callbackError, rfl⟩ :=
      onlyBundled_bundledInvocation name script loaded
    exact Script.ends_file member path pairs callbackError
  · intro command listed
    obtain rfl : command = "build" := by simpa [memoryInvocation] using listed
    have build : ExecutePlugin.getNextStep memoryInvocation.context "build" =
        some (.commands (.ofInitialCommand ["memory"] "build")) := rfl
    have memory : ExecutePlugin.getNextStep memoryInvocation.context "memory" =
        some (.plugin (.memory true)) := rfl
    apply ExecutePlugin.acyclic_of_commands build
    exact List.forall_mem_singleton.mpr (ExecutePlugin.acyclic_of_memory memory)

end Run

end ExecHelper.Applications
