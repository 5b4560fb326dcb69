import ExecHelper.Applications.ExecHelperMain

/-!
# The tasks of a run and its exit status

Which events a run produces does not depend on the answers of the shell, so the
tasks of a run are those of the run in which all of them succeed, up to where the
shell has the run cut short.
-/

namespace ExecHelper.Applications

open ExecHelper.Library
open ExecHelper.Config
open ExecHelper.Core
open ExecHelper.Plugins
open ExecHelper.Commander
open ExecHelper.Plugins.ExecutePlugin (replay run_eq_replay ended finalState recordedRun)

/-! ## One replay -/

/-- The tasks that are registered by the events. -/
def registeredTasks (events : List RunEvent) : List Task := events.filterMap registeredTask

/-- A shell that answers every task with a return code. -/
def answering (codes : Nat → ShellReturnCode) (told : Nat → Task → List String) : Shell :=
  fun index task => ⟨told index task, .returned (codes index)⟩

/-- The return code of the last task that failed, of so many ones. -/
def lastFailure (codes : Nat → ShellReturnCode) (tasks : Nat) : ShellReturnCode :=
  (((List.range tasks).map codes).filter (· ≠ POSIX_SUCCESS)).getLast?.getD EXIT_SUCCESS

theorem lastFailure_zero (codes : Nat → ShellReturnCode) :
    lastFailure codes 0 = EXIT_SUCCESS := rfl

theorem lastFailure_succ_of_success {codes : Nat → ShellReturnCode} {tasks : Nat}
    (success : codes tasks = POSIX_SUCCESS) :
    lastFailure codes (tasks + 1) = lastFailure codes tasks := by
  simp [lastFailure, List.range_succ, success]

theorem lastFailure_succ_of_failure {codes : Nat → ShellReturnCode} {tasks : Nat}
    (failure : codes tasks ≠ POSIX_SUCCESS) :
    lastFailure codes (tasks + 1) = codes tasks := by
  simp [lastFailure, List.range_succ, failure]

theorem lastFailure_eq_success_iff (codes : Nat → ShellReturnCode) (tasks : Nat) :
    lastFailure codes tasks = EXIT_SUCCESS ↔ ∀ task < tasks, codes task = POSIX_SUCCESS := by
  induction tasks with
  | zero => simp [lastFailure_zero]
  | succ tasks inductionHypothesis =>
      rw [Nat.forall_lt_succ_right, ← inductionHypothesis]
      by_cases success : codes tasks = POSIX_SUCCESS
      · rw [lastFailure_succ_of_success success]
        exact (and_iff_left success).symm
      · rw [lastFailure_succ_of_failure success]
        exact iff_of_false success fun both => success both.2

section Replay

variable {fleetingOptions : FleetingOptions}

/-- What a replay comes to, task by task: what lies between two tasks changes neither
the tasks nor the return codes. -/
inductive Replays (fleetingOptions : FleetingOptions) (shell : Shell) :
    List Task → System → EStateM.Result Stop System Unit → Prop where
  | done (system : System) : Replays fleetingOptions shell [] system (.ok () system)
  | other {tasks : List Task} {system : System} {outcome : EStateM.Result Stop System Unit}
      (feedback : List Feedback) (memories : List (Task × VariablesMap × Patterns))
      (rest : Replays fleetingOptions shell tasks { system with feedback, memories } outcome) :
      Replays fleetingOptions shell tasks system outcome
  | registers {tasks : List Task} (task : Task) (system : System)
      (later : EStateM Stop System Unit)
      (rest : ∀ next, Replays fleetingOptions shell tasks next (later next)) :
      Replays fleetingOptions shell (task :: tasks) system
        ((do registerTask fleetingOptions shell task; later) system)

/-- The tasks of a replay are those its events register. -/
theorem replay_replays (fleetingOptions : FleetingOptions) (shell : Shell)
    (events : List RunEvent) (system : System) :
    Replays fleetingOptions shell (registeredTasks events) system
      (replay (answer fleetingOptions shell) events system) := by
  induction events generalizing system with
  | nil => exact .done system
  | cons event rest inductionHypothesis =>
      rw [replay]
      cases registers : registeredTask event with
      | none =>
          obtain ⟨feedback, memories, answered⟩ :=
            answer_of_no_task registers fleetingOptions shell system
          rw [bind_of_eq_ok answered, registeredTasks, List.filterMap_cons_none registers]
          exact .other feedback memories (inductionHypothesis _)
      | some task =>
          obtain rfl := registeredTask_eq_some registers
          exact .registers task system _ inductionHypothesis

section Tasks

variable {shell : Shell} {codes : Nat → ShellReturnCode} {told : Nat → Task → List String}
variable {tasks : List Task} {system : System} {outcome : EStateM.Result Stop System Unit}

/-- The last return code is the one of the last task that failed. -/
def Accounted (codes : Nat → ShellReturnCode) (system : System) : Prop :=
  system.lastReturnCode = lastFailure codes system.executed.length

/-- What a registration does that does not cut the run short. -/
private theorem registerTask_goes_on (notDry : fleetingOptions.dryRun = false) (task : Task)
    (goesOn : fleetingOptions.keepGoing = true ∨ codes system.executed.length = POSIX_SUCCESS)
    (accounted : Accounted codes system) :
    ∃ final, registerTask fleetingOptions (answering codes told) task system = .ok () final ∧
      final.executed = system.executed ++ [task] ∧ Accounted codes final := by
  have count : (system.executed ++ [task]).length = system.executed.length + 1 :=
    List.length_append
  by_cases success : codes system.executed.length = POSIX_SUCCESS
  · refine ⟨system.executing (answering codes told) task, ?_, rfl, ?_⟩
    · exact registerTask_of_success notDry (congrArg ShellResult.returned success)
    · exact accounted.trans
        ((congrArg _ count).trans (lastFailure_succ_of_success success)).symm
  · have keepGoing := goesOn.resolve_right success
    refine ⟨_, registerTask_of_failure_keepGoing notDry keepGoing rfl success, rfl, ?_⟩
    exact ((congrArg _ count).trans (lastFailure_succ_of_failure success)).symm

/-- A replay that no return code cuts short. -/
theorem Replays.goes_on
    (replays : Replays fleetingOptions (answering codes told) tasks system outcome)
    (notDry : fleetingOptions.dryRun = false)
    (goesOn : fleetingOptions.keepGoing = true ∨
      ∀ task < system.executed.length + tasks.length, codes task = POSIX_SUCCESS)
    (accounted : Accounted codes system) :
    ∃ final, outcome = .ok () final ∧ final.executed = system.executed ++ tasks ∧
      Accounted codes final := by
  induction replays with
  | done system => exact ⟨system, rfl, (List.append_nil _).symm, accounted⟩
  | other feedback memories rest inductionHypothesis =>
      exact inductionHypothesis goesOn accounted
  | @registers tasks task system later rest inductionHypothesis =>
      obtain ⟨middle, registered, executed, middleAccounted⟩ :=
        registerTask_goes_on notDry task
          (goesOn.imp_right fun all => all _ (Nat.lt_add_of_pos_right (Nat.succ_pos _)))
          accounted
      have count : middle.executed.length + tasks.length =
          system.executed.length + (task :: tasks).length := by
        rw [executed, List.length_append, List.length_singleton, List.length_cons]
        omega
      obtain ⟨final, continued, finalExecuted, finalAccounted⟩ :=
        inductionHypothesis middle (by rw [count]; exact goesOn) middleAccounted
      refine ⟨final, (bind_of_eq_ok registered).trans continued, ?_, finalAccounted⟩
      rw [finalExecuted, executed, List.append_assoc, List.singleton_append]

/-- A replay is cut short at the first task that fails, unless it is to keep going. -/
theorem Replays.exits
    (replays : Replays fleetingOptions (answering codes told) tasks system outcome)
    (notDry : fleetingOptions.dryRun = false) (stops : fleetingOptions.keepGoing = false)
    {failing : Nat} (registered : failing < tasks.length)
    (failure : codes (system.executed.length + failing) ≠ POSIX_SUCCESS)
    (first : ∀ task < failing, codes (system.executed.length + task) = POSIX_SUCCESS) :
    ∃ final, outcome = .error (.exit (codes (system.executed.length + failing))) final ∧
      final.executed = system.executed ++ tasks.take (failing + 1) := by
  induction replays generalizing failing with
  | done system => cases registered
  | other feedback memories rest inductionHypothesis =>
      exact inductionHypothesis registered failure first
  | registers task system later rest inductionHypothesis =>
      cases failing with
      | zero =>
          exact ⟨_, bind_of_eq_error (registerTask_of_failure_exit notDry stops rfl failure), rfl⟩
      | succ failing =>
          have answered : (answering codes told system.executed.length task).result =
              .returned POSIX_SUCCESS :=
            congrArg ShellResult.returned (first 0 (Nat.succ_pos failing))
          have shift : ∀ offset,
              (system.executing (answering codes told) task).executed.length + offset =
                system.executed.length + (offset + 1) := by
            intro offset
            have count : (system.executed ++ [task]).length = system.executed.length + 1 :=
              List.length_append
            change (system.executed ++ [task]).length + offset = _
            omega
          obtain ⟨final, continued, executed⟩ :=
            inductionHypothesis (system.executing (answering codes told) task)
              (Nat.lt_of_succ_lt_succ registered) (by rw [shift]; exact failure)
              (fun other less => by rw [shift]; exact first _ (Nat.succ_lt_succ less))
          rw [shift] at continued
          refine ⟨final, ?_, ?_⟩
          · exact (bind_of_eq_ok (registerTask_of_success notDry answered)).trans continued
          · rw [executed, List.take_succ_cons]
            exact List.append_assoc _ _ _

/-- What a registration does: it adds the task to those that are executed and goes on,
exits with the return code, or ends as the shell does. -/
theorem registerTask_cases (notDry : fleetingOptions.dryRun = false) (shell : Shell)
    (task : Task) (system : System) :
    ∃ final : System, final.executed = system.executed ++ [task] ∧
      final.handed = system.handed ++ [task] ∧
      match (shell system.executed.length task).result with
      | .returned returnCode =>
          registerTask fleetingOptions shell task system = .ok () final ∨
            registerTask fleetingOptions shell task system = .error (.exit returnCode) final
      | .thrown _ => final = system.executing shell task ∧
          registerTask fleetingOptions shell task system = .error .terminate final
      | .frontOfEmpty =>
          registerTask fleetingOptions shell task system = .error .outOfBounds final := by
  cases answered : (shell system.executed.length task).result with
  | thrown what =>
      exact ⟨system.executing shell task, rfl, rfl, rfl,
        registerTask_of_exception notDry answered⟩
  | frontOfEmpty =>
      exact ⟨system.executing shell task, rfl, rfl,
        registerTask_of_frontOfEmpty notDry answered⟩
  | returned returnCode =>
      by_cases success : returnCode = POSIX_SUCCESS
      · subst success
        exact ⟨system.executing shell task, rfl, rfl,
          .inl (registerTask_of_success notDry answered)⟩
      · cases keepGoing : fleetingOptions.keepGoing with
        | true =>
            exact ⟨_, rfl, rfl,
              .inl (registerTask_of_failure_keepGoing notDry keepGoing answered success)⟩
        | false =>
            exact ⟨_, rfl, rfl,
              .inr (registerTask_of_failure_exit notDry keepGoing answered success)⟩

/-- A replay adds to the tasks that are executed. -/
theorem Replays.executed_isInitial (replays : Replays fleetingOptions shell tasks system outcome)
    (notDry : fleetingOptions.dryRun = false) :
    system.executed <+: (finalState outcome).executed := by
  induction replays with
  | done system => exact List.prefix_refl _
  | other feedback memories rest inductionHypothesis => exact inductionHypothesis
  | @registers tasks task system later rest inductionHypothesis =>
      obtain ⟨middle, executed, -, registered⟩ := registerTask_cases notDry shell task system
      have added : system.executed <+: middle.executed := by
        rw [executed]
        exact List.prefix_append _ _
      cases answered : (shell system.executed.length task).result with
      | thrown what =>
          rw [answered] at registered
          rw [bind_of_eq_error registered.2]
          exact added
      | frontOfEmpty =>
          rw [answered] at registered
          rw [bind_of_eq_error registered]
          exact added
      | returned returnCode =>
          rw [answered] at registered
          rcases registered with goesOn | exits
          · rw [bind_of_eq_ok goesOn]
            exact added.trans (inductionHypothesis middle)
          · rw [bind_of_eq_error exits]
            exact added

/-- A replay that gives the shell a task it throws an exception for ends there. -/
theorem Replays.terminates (replays : Replays fleetingOptions shell tasks system outcome)
    (notDry : fleetingOptions.dryRun = false) {missing : Nat} {task : Task} {what : String}
    (reached : (finalState outcome).executed[missing]? = some task)
    (notFound : (shell missing task).result = .thrown what)
    (inStep : system.handed = system.executed) (before : system.executed.length ≤ missing) :
    ∃ last : System, outcome = .error .terminate (last.executing shell task) ∧
      last.handed = last.executed ∧ last.executed.length = missing ∧
      last.executed ++ [task] <+: system.executed ++ tasks := by
  induction replays with
  | done system =>
      rw [finalState, List.getElem?_eq_none before] at reached
      cases reached
  | other feedback memories rest inductionHypothesis =>
      exact inductionHypothesis reached inStep before
  | @registers tasks first system later rest inductionHypothesis =>
      obtain ⟨middle, executed, handed, registered⟩ :=
        registerTask_cases notDry shell first system
      have count : middle.executed.length = system.executed.length + 1 := by
        rw [executed, List.length_append, List.length_singleton]
      have here : middle.executed[missing]? = some task →
          system.executed.length = missing ∧ first = task := by
        intro atMissing
        have less := (List.getElem?_eq_some_iff.mp atMissing).1
        obtain rfl : system.executed.length = missing := by omega
        rw [executed, List.getElem?_concat_length] at atMissing
        exact ⟨rfl, Option.some.inj atMissing⟩
      cases answered : (shell system.executed.length first).result with
      | thrown text =>
          rw [answered] at registered
          rcases registered with ⟨rfl, stopped⟩
          have ends : (do registerTask fleetingOptions shell first; later) system = _ :=
            bind_of_eq_error stopped
          rw [ends] at reached
          obtain ⟨rfl, rfl⟩ := here reached
          refine ⟨system, ends, inStep, rfl, ?_⟩
          exact (List.prefix_append_right_inj _).mpr (List.prefix_append [first] tasks)
      | frontOfEmpty =>
          rw [answered] at registered
          rw [bind_of_eq_error registered] at reached
          obtain ⟨rfl, rfl⟩ := here reached
          rw [notFound] at answered
          cases answered
      | returned returnCode =>
          -- The task in question is answered by an exception, thus it is another one.
          have another : middle.executed[missing]? ≠ some task := by
            intro atMissing
            obtain ⟨rfl, rfl⟩ := here atMissing
            rw [notFound] at answered
            cases answered
          rw [answered] at registered
          rcases registered with goesOn | exits
          · rw [bind_of_eq_ok goesOn] at reached ⊢
            have later : middle.executed.length ≤ missing := by
              by_contra less
              have prefixed := (rest middle).executed_isInitial notDry
              rw [List.prefix_iff_getElem?] at prefixed
              have same := prefixed missing (Nat.lt_of_not_le less)
              rw [reached] at same
              exact another (List.getElem?_eq_some_iff.mpr
                ⟨Nat.lt_of_not_le less, (Option.some.inj same).symm⟩)
            obtain ⟨last, stopped, lastInStep, lastCount, within⟩ :=
              inductionHypothesis middle reached (by rw [executed, handed, inStep]) later
            refine ⟨last, stopped, lastInStep, lastCount, ?_⟩
            rw [executed, List.append_assoc] at within
            exact within
          · rw [bind_of_eq_error exits] at reached
            exact absurd reached another

/-- In a dry run nothing is executed. -/
theorem Replays.dryRun (replays : Replays fleetingOptions shell tasks system outcome)
    (dry : fleetingOptions.dryRun = true) :
    (finalState outcome).executed = system.executed := by
  induction replays with
  | done system => rfl
  | other feedback memories rest inductionHypothesis => exact inductionHypothesis
  | registers task system later rest inductionHypothesis =>
      rw [bind_of_eq_ok (registerTask_of_dryRun dry)]
      exact inductionHypothesis _

end Tasks

end Replay

/-! ## The run of an invocation -/

section Invocation

variable {invocation : Invocation} {fuel : Nat}

/-- The process when the program is started. -/
def started : Process System := ⟨{}, {}⟩

/-- What happens in the run of an invocation whatever the shell answers: its events,
and how it ends when it is not cut short. -/
structure IsTrace (invocation : Invocation) (fuel : Nat) (events : List RunEvent)
    (ending : Except Stop Bool) : Prop where
  completed : ∀ shell final,
    replay (answer invocation.fleetingOptions shell) events {} = .ok () final →
      ∃ process : Process System, process.surroundings = final ∧
        runCommander invocation shell fuel started =
          match ending with
          | .ok result => .ok result process
          | .error reason => .error reason process
  cutShort : ∀ shell reason final,
    replay (answer invocation.fleetingOptions shell) events {} = .error reason final →
      ∃ process : Process System, process.surroundings = final ∧
        runCommander invocation shell fuel started = .error reason process

/-- Where the task of the run cannot be made, there is no event. -/
private theorem isTrace_of_no_task
    (unmade : Task.make invocation.currentPath [] invocation.env
      invocation.settingsFileParentPath = none) :
    IsTrace invocation fuel [] (.error .terminate) where
  completed shell final replayed := by
    rcases EStateM.Result.ok.inj replayed with ⟨-, rfl⟩
    exact ⟨_, rfl, run_of_no_task unmade started⟩
  cutShort shell reason final replayed := by cases replayed

section Made

variable {task : Task}

/-- Without a command, the only event is the message about it. -/
private theorem isTrace_of_no_command
    (made : Task.make invocation.currentPath [] invocation.env
      invocation.settingsFileParentPath = some task)
    (noCommand : invocation.fleetingOptions.commands = []) :
    IsTrace invocation fuel
      [.host (.feedbackError "You must define at least one command")] (.ok false) where
  completed shell final replayed := by
    have reported : userFeedbackError "You must define at least one command" {} =
        .ok () final := by
      rw [← replayed]
      rfl
    rw [runCommander, run_of_no_command made noCommand]
    refine ⟨_, ?_, bind_of_eq_ok (onSurroundings_of_ok reported)⟩
    rfl
  cutShort shell reason final replayed := by cases replayed

/-- With commands, the events are those of the recorded run. -/
private theorem isTrace_of_commands
    (made : Task.make invocation.currentPath [] invocation.env
      invocation.settingsFileParentPath = some task)
    (commands : invocation.fleetingOptions.commands ≠ []) :
    ∃ events ending, IsTrace invocation fuel events ending := by
  let context := runContext invocation.currentPath invocation.fleetingOptions
    invocation.settings invocation.patterns invocation.plugins
  have runs : ∀ shell, ExecutePlugin.run (answer invocation.fleetingOptions shell) context fuel
      (.ofCommands invocation.fleetingOptions.commands) task = _ :=
    fun shell => run_eq_replay _ context fuel _ task
  cases recorded : recordedRun context fuel invocation.fleetingOptions.commands task with
  | ok result log =>
      simp only [recorded] at runs
      refine ⟨log, .ok result, fun shell final replayed => ?_,
        fun shell reason final replayed => ?_⟩
      · have ran := (congrFun (runs shell) {}).trans (bind_of_eq_ok replayed)
        exact ⟨_, rfl, run_of_ok made commands ran⟩
      · have ran := (congrFun (runs shell) {}).trans (bind_of_eq_error replayed)
        exact ⟨_, rfl, run_of_error made commands ran⟩
  | error ending log =>
      simp only [recorded] at runs
      refine ⟨log, .error ending, fun shell final replayed => ?_,
        fun shell reason final replayed => ?_⟩
      · have ran := (congrFun (runs shell) {}).trans (bind_of_eq_ok replayed)
        exact ⟨_, rfl, run_of_error made commands ran⟩
      · have ran := (congrFun (runs shell) {}).trans (bind_of_eq_error replayed)
        exact ⟨_, rfl, run_of_error made commands ran⟩

end Made

theorem exists_trace (invocation : Invocation) (fuel : Nat) :
    ∃ events ending, IsTrace invocation fuel events ending := by
  cases made : Task.make invocation.currentPath [] invocation.env
      invocation.settingsFileParentPath with
  | none => exact ⟨_, _, isTrace_of_no_task made⟩
  | some task =>
      by_cases noCommand : invocation.fleetingOptions.commands = []
      · exact ⟨_, _, isTrace_of_no_command made noCommand⟩
      · exact isTrace_of_commands made noCommand

theorem execHelperMain_of_true {shell : Shell} {process : Process System}
    (returned : runCommander invocation shell fuel started = .ok true process) :
    execHelperMain invocation shell fuel started =
      .ok process.surroundings.lastReturnCode process := by
  rw [execHelperMain, bind_of_eq_ok returned]
  rfl

theorem execHelperMain_of_false {shell : Shell} {process : Process System}
    (returned : runCommander invocation shell fuel started = .ok false process) :
    ∃ feedback, execHelperMain invocation shell fuel started =
      .ok EXIT_FAILURE
        { process with surroundings := { process.surroundings with feedback } } := by
  rw [execHelperMain, bind_of_eq_ok returned]
  exact ⟨_, rfl⟩

theorem execHelperMain_of_error {shell : Shell} {process : Process System} {reason : Stop}
    (stopped : runCommander invocation shell fuel started = .error reason process) :
    execHelperMain invocation shell fuel started = .error reason process := by
  rw [execHelperMain, bind_of_eq_error stopped]

/-- The tasks the shell was given in a run. -/
def executedTasks (outcome : EStateM.Result Stop (Process System) UInt8) : List Task :=
  (finalState outcome).surroundings.executed

/-- The tasks the executor was given in a run. -/
def handedTasks (outcome : EStateM.Result Stop (Process System) UInt8) : List Task :=
  (finalState outcome).surroundings.handed

/-- A shell for which every task succeeds, without a word. -/
def succeeding : Shell := answering (fun _ => POSIX_SUCCESS) fun _ _ => []

/-- The tasks of the run in which all tasks succeed. -/
def scheduledTasks (invocation : Invocation) (fuel : Nat) : List Task :=
  executedTasks (execHelperMain invocation succeeding fuel started)

section Trace

variable {events : List RunEvent} {ending : Except Stop Bool}

/-- What follows the commander concerns no task. -/
theorem IsTrace.tasks (trace : IsTrace invocation fuel events ending) (shell : Shell) :
    executedTasks (execHelperMain invocation shell fuel started) =
        (finalState (replay (answer invocation.fleetingOptions shell) events {})).executed ∧
      handedTasks (execHelperMain invocation shell fuel started) =
        (finalState (replay (answer invocation.fleetingOptions shell) events {})).handed := by
  cases replayed : replay (answer invocation.fleetingOptions shell) events {} with
  | error reason final =>
      rcases trace.cutShort shell reason final replayed with ⟨process, rfl, stopped⟩
      rw [execHelperMain_of_error stopped]
      exact ⟨rfl, rfl⟩
  | ok value final =>
      rcases trace.completed shell final replayed with ⟨process, rfl, ran⟩
      cases ending with
      | error reason =>
          rw [execHelperMain_of_error ran]
          exact ⟨rfl, rfl⟩
      | ok result =>
          cases result with
          | true =>
              rw [execHelperMain_of_true ran]
              exact ⟨rfl, rfl⟩
          | false =>
              rcases execHelperMain_of_false ran with ⟨feedback, returned⟩
              rw [returned]
              exact ⟨rfl, rfl⟩

private theorem accounted_start (codes : Nat → ShellReturnCode) : Accounted codes {} := rfl

theorem IsTrace.scheduledTasks_eq (trace : IsTrace invocation fuel events ending)
    (notDry : invocation.fleetingOptions.dryRun = false) :
    scheduledTasks invocation fuel = registeredTasks events := by
  obtain ⟨final, replayed, executed, -⟩ :=
    (replay_replays _ succeeding events {}).goes_on notDry
      (.inr fun _ _ => rfl) (accounted_start _)
  rw [scheduledTasks, (trace.tasks _).1, replayed]
  exact executed

end Trace

/-! ## The exit status -/

/-- The first task that fails, if one does. -/
private theorem exists_first_failure {codes : Nat → ShellReturnCode} {tasks : Nat}
    (failure : ¬∀ task < tasks, codes task = POSIX_SUCCESS) :
    ∃ failing < tasks, codes failing ≠ POSIX_SUCCESS ∧
      ∀ task < failing, codes task = POSIX_SUCCESS := by
  induction tasks with
  | zero => exact absurd (fun _ less => absurd less (Nat.not_lt_zero _)) failure
  | succ tasks inductionHypothesis =>
      by_cases before : ∀ task < tasks, codes task = POSIX_SUCCESS
      · refine ⟨tasks, Nat.lt_succ_self tasks, fun success => failure ?_, before⟩
        exact Nat.forall_lt_succ_right.mpr ⟨before, success⟩
      · rcases inductionHypothesis before with ⟨failing, less, failed, first⟩
        exact ⟨failing, Nat.lt_succ_of_lt less, failed, first⟩

section Status

variable {events : List RunEvent} {ending : Except Stop Bool}
variable {codes : Nat → ShellReturnCode} {told : Nat → Task → List String}

/-- Without keep-going, the commander does not return after a failure. -/
private theorem IsTrace.exits (trace : IsTrace invocation fuel events ending)
    (notDry : invocation.fleetingOptions.dryRun = false)
    (stops : invocation.fleetingOptions.keepGoing = false) {failing : Nat}
    (registered : failing < (registeredTasks events).length)
    (failure : codes failing ≠ POSIX_SUCCESS)
    (first : ∀ task < failing, codes task = POSIX_SUCCESS) :
    executedTasks (execHelperMain invocation (answering codes told) fuel started) =
        (registeredTasks events).take (failing + 1) ∧
      ∃ process, runCommander invocation (answering codes told) fuel started =
        .error (.exit (codes failing)) process := by
  have fromStart : ∀ task, ({} : System).executed.length + task = task := Nat.zero_add
  obtain ⟨final, replayed, executed⟩ :=
    (replay_replays _ (answering codes told) events {}).exits notDry stops registered
      (by rw [fromStart]; exact failure)
      (fun task less => by rw [fromStart]; exact first task less)
  rw [fromStart] at replayed
  constructor
  · rw [(trace.tasks _).1, replayed]
    exact executed
  · rcases trace.cutShort _ _ final replayed with ⟨process, -, stopped⟩
    exact ⟨process, stopped⟩

private theorem IsTrace.goes_on (trace : IsTrace invocation fuel events ending)
    (notDry : invocation.fleetingOptions.dryRun = false)
    (goesOn : invocation.fleetingOptions.keepGoing = true ∨
      ∀ task < (registeredTasks events).length, codes task = POSIX_SUCCESS) :
    executedTasks (execHelperMain invocation (answering codes told) fuel started) =
        registeredTasks events ∧
      ∀ result process,
        runCommander invocation (answering codes told) fuel started = .ok result process →
          Accounted codes process.surroundings := by
  have fromStart : ∀ tasks, ({} : System).executed.length + tasks = tasks := Nat.zero_add
  obtain ⟨final, replayed, executed, accounted⟩ :=
    (replay_replays _ (answering codes told) events {}).goes_on notDry
      (goesOn.imp_right fun all task less => all task (by rwa [fromStart] at less))
      (accounted_start codes)
  constructor
  · rw [(trace.tasks _).1, replayed]
    exact executed
  · intro result process returned
    rcases trace.completed _ final replayed with ⟨ranProcess, rfl, ran⟩
    rw [returned] at ran
    cases ending with
    | error reason => cases ran
    | ok endResult =>
        rcases EStateM.Result.ok.inj ran with ⟨-, rfl⟩
        exact accounted

/-- A commander that returned was not cut short. -/
private theorem IsTrace.goes_on_of_returned (trace : IsTrace invocation fuel events ending)
    (notDry : invocation.fleetingOptions.dryRun = false) {result : Bool}
    {process : Process System}
    (returned : runCommander invocation (answering codes told) fuel started = .ok result process) :
    invocation.fleetingOptions.keepGoing = true ∨
      ∀ task < (registeredTasks events).length, codes task = POSIX_SUCCESS := by
  cases keepGoing : invocation.fleetingOptions.keepGoing with
  | true => exact .inl rfl
  | false =>
      right
      by_contra failure
      rcases exists_first_failure failure with ⟨failing, registered, failed, first⟩
      rcases trace.exits notDry keepGoing registered failed first with ⟨-, stopped, cut⟩
      rw [returned] at cut
      cases cut

/-- The exit status after the commander returned. -/
private theorem status_of_returned {result : Bool} {process : Process System}
    (returned : runCommander invocation (answering codes told) fuel started = .ok result process)
    (accounted : Accounted codes process.surroundings) :
    ∃ status final,
      execHelperMain invocation (answering codes told) fuel started = .ok status final ∧
      final.surroundings.executed = process.surroundings.executed ∧
      status = if result then lastFailure codes process.surroundings.executed.length
        else EXIT_FAILURE := by
  cases result with
  | true => exact ⟨_, _, execHelperMain_of_true returned, rfl, accounted⟩
  | false =>
      rcases execHelperMain_of_false returned with ⟨feedback, failed⟩
      exact ⟨_, _, failed, rfl, rfl⟩

private theorem status_eq_success_iff (result : Bool) (tasks : Nat) :
    (if result then lastFailure codes tasks else EXIT_FAILURE) = EXIT_SUCCESS ↔
      result = true ∧ ∀ task < tasks, codes task = POSIX_SUCCESS := by
  cases result with
  | true =>
      rw [if_pos rfl, lastFailure_eq_success_iff]
      exact (and_iff_right rfl).symm
  | false =>
      rw [if_neg Bool.false_ne_true]
      exact iff_of_false (by decide) fun both => nomatch both.1

end Status

/-- The tasks that are executed and the exit status, for any return codes and whatever the
shell reports: without keep-going the first failure is the end, with it every task is
executed, and a run that is not cut short ends with what the commander and the shell
returned. -/
theorem execHelperMain_exitStatus (invocation : Invocation) (fuel : Nat)
    (codes : Nat → ShellReturnCode) (told : Nat → Task → List String)
    (notDry : invocation.fleetingOptions.dryRun = false) :
    (invocation.fleetingOptions.keepGoing = false →
      ∀ failing < (scheduledTasks invocation fuel).length, codes failing ≠ POSIX_SUCCESS →
        (∀ task < failing, codes task = POSIX_SUCCESS) →
        executedTasks (execHelperMain invocation (answering codes told) fuel started) =
            (scheduledTasks invocation fuel).take (failing + 1) ∧
          ∃ final, execHelperMain invocation (answering codes told) fuel started =
            .error (.exit (codes failing)) final) ∧
    (invocation.fleetingOptions.keepGoing = true ∨
        (∀ task < (scheduledTasks invocation fuel).length, codes task = POSIX_SUCCESS) →
      executedTasks (execHelperMain invocation (answering codes told) fuel started) =
        scheduledTasks invocation fuel) ∧
    (∀ result process,
      runCommander invocation (answering codes told) fuel started = .ok result process →
        ∃ status final,
          execHelperMain invocation (answering codes told) fuel started = .ok status final ∧
          status = (if result then lastFailure codes final.surroundings.executed.length
            else EXIT_FAILURE) ∧
          (status = EXIT_SUCCESS ↔ result = true ∧
            ∀ task < final.surroundings.executed.length, codes task = POSIX_SUCCESS)) := by
  rcases exists_trace invocation fuel with ⟨events, ending, trace⟩
  rw [trace.scheduledTasks_eq notDry]
  refine ⟨?_, ?_, ?_⟩
  · intro stops failing registered failure first
    rcases trace.exits notDry stops registered failure first with ⟨executed, process, stopped⟩
    exact ⟨executed, process, execHelperMain_of_error stopped⟩
  · intro goesOn
    exact (trace.goes_on notDry goesOn).1
  · intro result process returned
    have goesOn := trace.goes_on_of_returned notDry returned
    have accounted := (trace.goes_on notDry goesOn).2 result process returned
    rcases status_of_returned returned accounted with ⟨status, final, exited, executed, rfl⟩
    refine ⟨_, final, exited, by rw [executed], ?_⟩
    rw [executed]
    exact status_eq_success_iff result _

/-- An invocation of the command lines of `make`, for the arguments of each. -/
def makeInvocation (binary : String) (keepGoing : Bool) : Invocation where
  fleetingOptions := { commands := ["build", "test"], keepGoing }
  settings := ⟨"settings", some [⟨"build", some [.ofKey "command-line-command"]⟩,
    ⟨"test", some [.ofKey "command-line-command"]⟩,
    ⟨"command-line-command", some [
      ⟨"build", some [⟨"command-line", some [
        ⟨"clean", some [.ofKey binary, .ofKey "clean"]⟩, ⟨"all", some [.ofKey binary]⟩]⟩]⟩,
      ⟨"test", some [⟨"command-line", some [.ofKey binary, .ofKey "check"]⟩]⟩]⟩]⟩
  patterns := []
  settingsFileParentPath := "/"
  env := ∅
  plugins := ∅
  currentPath := .root

/-- The second task fails, with a message of the shell. -/
def secondFails : Shell :=
  answering (fun task => if task = 1 then 2 else POSIX_SUCCESS)
    fun _ _ => ["Command contains undefined variable"]

/-- Without keep-going, the second of three tasks is the last and its return code the exit
status.  With it, the third is executed too before the status is returned. -/
theorem execHelperMain_exitStatus_make :
    (scheduledTasks (makeInvocation "make" true) 10).length = 3 ∧
      executedTasks (execHelperMain (makeInvocation "make" false) secondFails 10 started) =
        (scheduledTasks (makeInvocation "make" false) 10).take 2 ∧
      (∃ final, execHelperMain (makeInvocation "make" false) secondFails 10 started =
        .error (.exit 2) final) ∧
      executedTasks (execHelperMain (makeInvocation "make" true) secondFails 10 started) =
        scheduledTasks (makeInvocation "make" true) 10 ∧
      ∃ status final,
        execHelperMain (makeInvocation "make" true) secondFails 10 started =
          .ok status final ∧ status = 2 := by
  have stopping := execHelperMain_exitStatus (makeInvocation "make" false) 10
    (fun task => if task = 1 then 2 else POSIX_SUCCESS)
    (fun _ _ => ["Command contains undefined variable"]) rfl
  have going := execHelperMain_exitStatus (makeInvocation "make" true) 10
    (fun task => if task = 1 then 2 else POSIX_SUCCESS)
    (fun _ _ => ["Command contains undefined variable"]) rfl
  obtain ⟨cut, exited⟩ := stopping.1 rfl 1 (by decide) (by decide) (by decide)
  obtain ⟨status, final, returned, status_eq, -⟩ := going.2.2 true _ rfl
  refine ⟨by decide, cut, exited, going.2.1 (.inl rfl), status, final, returned, ?_⟩
  rw [status_eq]
  have same := EStateM.Result.ok.inj returned
  rw [← same.2]
  decide

/-! ## Exceptions of the shell -/

/-- What the handler of the execute callback is there for: the error is reported, the
process goes on and the executor is given every task of the run. -/
structure ErrorHandled (invocation : Invocation) (shell : Shell) (fuel : Nat)
    (what : String) : Prop where
  reported : .error ("Runtime error: " ++ what) ∈
    (finalState (execHelperMain invocation shell fuel started)).surroundings.feedback
  notTerminated : ∀ final,
    execHelperMain invocation shell fuel started ≠ .error .terminate final
  remaining : handedTasks (execHelperMain invocation shell fuel started) =
    scheduledTasks invocation fuel

/-- An exception of the shell never reaches the handler: the process ends with the
task that was just announced, and the executor is given none of the later ones. -/
theorem execHelperMain_pathNotFound (invocation : Invocation) (shell : Shell) (fuel : Nat)
    (missing : Nat) (task : Task) (what : String)
    (reached :
      (executedTasks (execHelperMain invocation shell fuel started))[missing]? = some task)
    (notFound : (shell missing task).result = .thrown what) :
    ¬ErrorHandled invocation shell fuel what ∧
      ∃ final before, execHelperMain invocation shell fuel started = .error .terminate final ∧
        (scheduledTasks invocation fuel)[missing]? = some task ∧
        final.surroundings.handed = (scheduledTasks invocation fuel).take (missing + 1) ∧
        final.surroundings.feedback = before ++ [.info ("Executing " ++ task.toString)] ++
          (shell missing task).feedback.map .shell := by
  rcases exists_trace invocation fuel with ⟨events, ending, trace⟩
  rw [(trace.tasks shell).1] at reached
  cases dry : invocation.fleetingOptions.dryRun with
  | true =>
      rw [(replay_replays _ shell events {}).dryRun dry] at reached
      cases reached
  | false =>
      obtain ⟨last, replayed, inStep, rfl, within⟩ :=
        (replay_replays _ shell events {}).terminates dry reached notFound rfl (Nat.zero_le _)
      rcases trace.cutShort shell _ _ replayed with ⟨process, after, stopped⟩
      have terminated := execHelperMain_of_error stopped
      rcases within with ⟨later, joined⟩
      rw [trace.scheduledTasks_eq dry, ← List.nil_append (registeredTasks events)]
      have scheduled : last.executed ++ [task] ++ later = [] ++ registeredTasks events := joined
      rw [← scheduled]
      refine ⟨fun handled => handled.notTerminated process terminated, process, last.feedback,
        terminated, ?_, ?_, ?_⟩
      · simp
      · have handed : process.surroundings.handed = last.handed ++ [task] := by
          rw [after]
          rfl
        rw [handed, inStep]
        exact (List.take_left' List.length_append).symm
      · rw [after]
        rfl

/-- A platform without any binary. -/
def noBinaries : Core.PosixShell.Platform where
  environment := ∅
  path := []
  currentPath := .root
  pathEntries := fun _ => []
  wordexp := fun _ text => .ok [text]
  searchPath := fun _ _ => ""
  pathExists := fun path => some (path == "/")

/-- The shell of that platform. -/
def missingBinaries : Shell :=
  PosixShell.onPlatform noBinaries "filesystem error" fun _ _ _ _ _ => .ok POSIX_SUCCESS

/-- The binary of three tasks is not found: the first of them ends the process. -/
theorem execHelperMain_pathNotFound_make :
    (scheduledTasks (makeInvocation "/nonexistent/make" true) 10).length = 3 ∧
      ∃ task, task.task = ["/nonexistent/make", "clean"] ∧
        ¬ErrorHandled (makeInvocation "/nonexistent/make" true) missingBinaries 10
          "Could not find binary '/nonexistent/make' on this system" ∧
        ∃ final before,
          execHelperMain (makeInvocation "/nonexistent/make" true) missingBinaries 10 started =
            .error .terminate final ∧
          (scheduledTasks (makeInvocation "/nonexistent/make" true) 10)[0]? = some task ∧
          final.surroundings.handed =
            (scheduledTasks (makeInvocation "/nonexistent/make" true) 10).take (0 + 1) ∧
          final.surroundings.feedback = before ++ [.info ("Executing " ++ task.toString)] ++
            (missingBinaries 0 task).feedback.map .shell :=
  ⟨by decide, _, rfl,
    execHelperMain_pathNotFound (makeInvocation "/nonexistent/make" true) missingBinaries 10 0 _ _
      rfl rfl⟩

/-- The process ends instead of reporting it. -/
theorem execHelperMain_pathNotFound_counterexample :
    ¬∀ (invocation : Invocation) (shell : Shell) (fuel missing : Nat) (task : Task)
        (what : String),
      (executedTasks (execHelperMain invocation shell fuel started))[missing]? = some task →
      (shell missing task).result = .thrown what →
        ErrorHandled invocation shell fuel what := by
  intro claimed
  have handled := claimed (makeInvocation "/nonexistent/make" true) missingBinaries 10 0 _
    "Could not find binary '/nonexistent/make' on this system" rfl rfl
  exact handled.notTerminated _ rfl

end Invocation

end ExecHelper.Applications
