import ExecHelper.Applications.ExitStatus
import ExecHelper.Plugins.Locality

/-!
# Dry runs

A dry run is there to show what a real run would do.  The executor is chosen by an option
no plugin reads, so it is given the same tasks in the same order.  What a dry run cannot
show is where a real run is cut short, and what the shell tells of its tasks.
-/

namespace ExecHelper.Applications

open ExecHelper.Library
open ExecHelper.Config
open ExecHelper.Core
open ExecHelper.Plugins
open ExecHelper.Commander
open ExecHelper.Plugins.ExecutePlugin (SameButSections Relates recordedRun finalState)

/-- The invocation with the option for a dry run. -/
def Invocation.dry (invocation : Invocation) : Invocation :=
  { invocation with fleetingOptions := { invocation.fleetingOptions with dryRun := true } }

/-- Whether a line comes from the program itself. -/
def Feedback.isOwn : Feedback → Bool
  | .shell _ => false
  | _ => true

/-- The system without what it knows of executed tasks and without the lines of the shell. -/
def System.unexecuted (system : System) : System :=
  { system with executed := [], feedback := system.feedback.filter Feedback.isOwn }

theorem System.filter_shell (lines : List String) :
    (lines.map Feedback.shell).filter Feedback.isOwn = [] := by
  induction lines with
  | nil => rfl
  | cons line rest inductionHypothesis => exact inductionHypothesis

/-- What is left of a task the shell has dealt with is its announcement. -/
theorem System.unexecuted_executing (system : System) (shell : Shell) (task : Task) :
    (system.executing shell task).unexecuted =
      { system.unexecuted.announced task with executed := [] } := by
  let announcement := [Feedback.info ("Executing " ++ task.toString)]
  have feedback : (system.executing shell task).feedback.filter Feedback.isOwn =
      system.feedback.filter Feedback.isOwn ++ announcement := by
    change ((system.feedback ++ announcement) ++
      (shell system.executed.length task).feedback.map Feedback.shell).filter _ = _
    rw [List.filter_append, System.filter_shell, List.append_nil, List.filter_append]
    rfl
  rw [System.unexecuted, feedback]
  rfl

/-- An error the program reports itself stays. -/
theorem System.unexecuted_error (system : System) (text : String) :
    { system with feedback := system.feedback ++ [Feedback.error text] }.unexecuted =
      { system.unexecuted with
        feedback := system.unexecuted.feedback ++ [Feedback.error text] } := by
  rw [System.unexecuted, List.filter_append]
  rfl

/-- How an invocation ended and what it left behind. -/
def report (outcome : EStateM.Result Stop (Process System) UInt8) : Except Stop UInt8 × System :=
  match outcome with
  | .ok status final => (.ok status, final.surroundings)
  | .error reason final => (.error reason, final.surroundings)

section Runs

variable {invocation : Invocation} {fuel : Nat}

/-- In a dry run a task is handed over as in a run in which every task succeeds. -/
private theorem registerTask_dry {fleetingOptions dryOptions : FleetingOptions}
    (notDry : fleetingOptions.dryRun = false) (dry : dryOptions.dryRun = true)
    (told : Nat → Task → List String) (shell : Shell) (task : Task) :
    (along System.unexecuted).Related
      (registerTask fleetingOptions (answering (fun _ => POSIX_SUCCESS) told) task)
      (registerTask dryOptions shell task) := by
  intro system
  rw [registerTask_of_dryRun dry, registerTask_of_success notDry rfl, mapState,
    System.unexecuted_executing]
  rfl

private theorem answer_dry {fleetingOptions dryOptions : FleetingOptions}
    (notDry : fleetingOptions.dryRun = false) (dry : dryOptions.dryRun = true)
    (told : Nat → Task → List String) (shell : Shell) (event : RunEvent) :
    (along System.unexecuted).Related
      (answer fleetingOptions (answering (fun _ => POSIX_SUCCESS) told) event)
      (answer dryOptions shell event) := by
  cases event with
  | resolving command initialCommand => exact fun _ => rfl
  | applied result => exact fun _ => rfl
  | host hostEvent =>
      cases hostEvent with
      | registerTask task => exact registerTask_dry notDry dry told shell task
      | remember task variablesMap patterns => exact fun _ => rfl
      | feedbackError text =>
          exact fun system => congrArg (EStateM.Result.ok ()) (system.unexecuted_error text).symm
      | failureDropped => exact fun _ => rfl

private theorem dry_relates {context : Context} {fleetingOptions dryOptions : FleetingOptions}
    (notDry : fleetingOptions.dryRun = false) (dry : dryOptions.dryRun = true)
    (told : Nat → Task → List String) (shell : Shell) :
    Relates (along System.unexecuted) context
      (answer fleetingOptions (answering (fun _ => POSIX_SUCCESS) told))
      (answer dryOptions shell) where
  host event := answer_dry notDry dry told shell (.host event)
  applied result := answer_dry notDry dry told shell (.applied result)
  resolve step command initialCommand := by
    apply (along System.unexecuted).bind (answer_dry notDry dry told shell _)
    intro _
    rw [ExecutePlugin.stepVariablesMap]
    cases ExecutePlugin.getVariablesMap (ExecutePlugin.stepVariables context.fleeting step)
        (ExecutePlugin.sectionKeys command initialCommand) context.settings with
    | ok variablesMap => exact fun _ => rfl
    | error reason => exact fun _ => rfl
  stops reason _ _ _ := rfl

/-- What is executed is what the commands come to in a run whose tasks succeed, but for the
execution of the tasks. -/
private theorem run_dry (context : Context) (notDry : context.fleeting.dryRun = false)
    (told : Nat → Task → List String) (shell : Shell) (fuel : Nat)
    (commands : CommandCollection) (task : Task) :
    ExecutePlugin.run (answer { context.fleeting with dryRun := true } shell)
        { context with fleeting := { context.fleeting with dryRun := true } } fuel
        (.ofCommands commands) task {} =
      mapState System.unexecuted
        (ExecutePlugin.run (answer context.fleeting (answering (fun _ => POSIX_SUCCESS) told))
          context fuel (.ofCommands commands) task {}) := by
  have same : SameButSections context
      { context with fleeting := { context.fleeting with dryRun := true } } :=
    ⟨rfl, rfl, rfl, rfl, rfl, rfl⟩
  have recorded := ExecutePlugin.recordedRun_congr same fuel commands task fun _ _ => rfl
  have relates : Relates (along System.unexecuted) context _
      (answer { context.fleeting with dryRun := true } shell) := dry_relates notDry rfl told shell
  have related := ExecutePlugin.run_related relates fuel (.ofCommands commands) task {}
  rw [ExecutePlugin.run_eq_replay, recorded, ← ExecutePlugin.run_eq_replay]
  exact related

/-- After a commander that failed there is one more message. -/
private theorem report_of_false {shell : Shell} {process : Process System}
    (failed : runCommander invocation shell fuel started = .ok false process) :
    report (execHelperMain invocation shell fuel started) =
      (.ok EXIT_FAILURE, { process.surroundings with
        feedback := process.surroundings.feedback ++ [.error "Error executing commands"] }) := by
  have returned : execHelperMain invocation shell fuel started = _ := bind_of_eq_ok failed
  rw [returned]
  rfl

/-- A dry run ends as the run does in which every task succeeds, and it leaves behind the
same, but for the execution of the tasks and what the shell tells. -/
private theorem report_dry (notDry : invocation.fleetingOptions.dryRun = false)
    (told : Nat → Task → List String) (shell : Shell) :
    report (execHelperMain invocation.dry shell fuel started) =
      (report (execHelperMain invocation (answering (fun _ => POSIX_SUCCESS) told) fuel
        started)).map id System.unexecuted := by
  cases made : Task.make invocation.currentPath [] invocation.env
      invocation.settingsFileParentPath with
  | none =>
      have real : runCommander invocation (answering (fun _ => POSIX_SUCCESS) told) fuel started =
          _ := run_of_no_task made started
      have dry : runCommander invocation.dry shell fuel started = _ := run_of_no_task made started
      rw [execHelperMain_of_error real, execHelperMain_of_error dry]
      rfl
  | some task =>
      by_cases noCommand : invocation.fleetingOptions.commands = []
      · have dryNoCommand : invocation.dry.fleetingOptions.commands = [] := noCommand
        have real : runCommander invocation (answering (fun _ => POSIX_SUCCESS) told) fuel started =
            .ok false ⟨_, { feedback := [.error "You must define at least one command"] }⟩ :=
          (run_of_no_command made noCommand started).trans rfl
        have dry : runCommander invocation.dry shell fuel started =
            .ok false ⟨_, { feedback := [.error "You must define at least one command"] }⟩ :=
          (run_of_no_command made dryNoCommand started).trans rfl
        rw [report_of_false real, report_of_false dry]
        rfl
      · have dryCommands : invocation.dry.fleetingOptions.commands ≠ [] := noCommand
        let context := runContext invocation.currentPath invocation.fleetingOptions
          invocation.settings invocation.patterns invocation.plugins
        have same := run_dry context notDry told shell fuel invocation.fleetingOptions.commands task
        cases ran : ExecutePlugin.run
            (answer context.fleeting (answering (fun _ => POSIX_SUCCESS) told)) context fuel
            (.ofCommands invocation.fleetingOptions.commands) task {} with
        | ok result final =>
            rw [ran] at same
            have real : runCommander invocation (answering (fun _ => POSIX_SUCCESS) told) fuel
                started = _ := run_of_ok made noCommand ran
            have dry : runCommander invocation.dry shell fuel started = _ :=
              run_of_ok made dryCommands same
            cases result with
            | true =>
                rw [execHelperMain_of_true real, execHelperMain_of_true dry]
                rfl
            | false =>
                rw [report_of_false real, report_of_false dry]
                exact congrArg (Prod.mk (Except.ok EXIT_FAILURE))
                  (final.unexecuted_error "Error executing commands").symm
        | error reason final =>
            rw [ran] at same
            have real : runCommander invocation (answering (fun _ => POSIX_SUCCESS) told) fuel
                started = _ := run_of_error made noCommand ran
            have dry : runCommander invocation.dry shell fuel started = _ :=
              run_of_error made dryCommands same
            rw [execHelperMain_of_error real, execHelperMain_of_error dry]
            rfl

/-! ## Previews -/

section Replays

variable {fleetingOptions : FleetingOptions} {shell : Shell} {tasks : List Task}
variable {system : System} {outcome : EStateM.Result Stop System Unit}

/-- What a registration does with a task that is not only shown: the executor and the shell
are both given it, and the run goes on or is cut short. -/
theorem registerTask_gives (notDry : fleetingOptions.dryRun = false) (shell : Shell)
    (task : Task) (system : System) :
    ∃ final : System, final.executed = system.executed ++ [task] ∧
      final.handed = system.handed ++ [task] ∧
      (registerTask fleetingOptions shell task system = .ok () final ∨
        ∃ reason, registerTask fleetingOptions shell task system = .error reason final) := by
  obtain ⟨final, executed, handed, registered⟩ := registerTask_cases notDry shell task system
  refine ⟨final, executed, handed, ?_⟩
  cases answered : (shell system.executed.length task).result with
  | thrown what =>
      rw [answered] at registered
      exact .inr ⟨_, registered.2⟩
  | frontOfEmpty =>
      rw [answered] at registered
      exact .inr ⟨_, registered⟩
  | returned returnCode =>
      rw [answered] at registered
      exact registered.imp_right fun exits => ⟨_, exits⟩

/-- Whatever the shell answers, the tasks it is given are the first ones of a replay, and the
executor is given the same. -/
private theorem Replays.given (replays : Replays fleetingOptions shell tasks system outcome)
    (notDry : fleetingOptions.dryRun = false) (inStep : system.handed = system.executed) :
    (finalState outcome).executed <+: system.executed ++ tasks ∧
      (finalState outcome).handed = (finalState outcome).executed := by
  induction replays with
  | done system => exact ⟨List.prefix_append system.executed [], inStep⟩
  | other feedback memories rest inductionHypothesis => exact inductionHypothesis inStep
  | @registers tasks task system later rest inductionHypothesis =>
      obtain ⟨middle, executed, handed, goesOn | ⟨reason, stops⟩⟩ :=
        registerTask_gives notDry shell task system
      · rw [bind_of_eq_ok goesOn]
        have later := inductionHypothesis middle (by rw [executed, handed, inStep])
        rw [executed, List.append_assoc] at later
        exact later
      · rw [bind_of_eq_error stops, finalState, executed, handed, inStep]
        exact ⟨(List.prefix_append_right_inj _).mpr (List.prefix_append [task] tasks), rfl⟩

end Replays

theorem executedTasks_eq (outcome : EStateM.Result Stop (Process System) UInt8) :
    executedTasks outcome = (report outcome).2.executed := by
  cases outcome <;> rfl

theorem handedTasks_eq (outcome : EStateM.Result Stop (Process System) UInt8) :
    handedTasks outcome = (report outcome).2.handed := by
  cases outcome <;> rfl

/-- In a real run the executor is given what the shell is given, which are the first of the
scheduled tasks. -/
theorem executedTasks_isPrefix (notDry : invocation.fleetingOptions.dryRun = false)
    (shell : Shell) :
    executedTasks (execHelperMain invocation shell fuel started) <+:
        scheduledTasks invocation fuel ∧
      handedTasks (execHelperMain invocation shell fuel started) =
        executedTasks (execHelperMain invocation shell fuel started) := by
  rcases exists_trace invocation fuel with ⟨events, ending, trace⟩
  rw [trace.scheduledTasks_eq notDry, (trace.tasks shell).1, (trace.tasks shell).2]
  exact (replay_replays _ shell events {}).given notDry rfl

/-- A dry run previews every real run: it executes nothing, it hands over the tasks of the
run in which every task succeeds, ends in the same way and leaves behind the same messages
except for those of the shell, and whatever a shell answers, the tasks it is given are the
first ones of these. -/
theorem execHelperMain_dryRun (invocation : Invocation) (fuel : Nat)
    (told : Nat → Task → List String) (shell dryShell : Shell)
    (notDry : invocation.fleetingOptions.dryRun = false) :
    executedTasks (execHelperMain invocation.dry dryShell fuel started) = [] ∧
      handedTasks (execHelperMain invocation.dry dryShell fuel started) =
        scheduledTasks invocation fuel ∧
      report (execHelperMain invocation.dry dryShell fuel started) =
        (report (execHelperMain invocation (answering (fun _ => POSIX_SUCCESS) told) fuel
          started)).map id System.unexecuted ∧
      executedTasks (execHelperMain invocation shell fuel started) <+:
        handedTasks (execHelperMain invocation.dry dryShell fuel started) := by
  have same := fun told => @report_dry invocation fuel notDry told dryShell
  have handed : handedTasks (execHelperMain invocation.dry dryShell fuel started) =
      scheduledTasks invocation fuel := by
    rw [handedTasks_eq, same fun _ _ => [], scheduledTasks,
      ← (executedTasks_isPrefix notDry _).2, handedTasks_eq]
    rfl
  refine ⟨?_, handed, same told, ?_⟩
  · rw [executedTasks_eq, same told]
    rfl
  · rw [handed]
    exact (executedTasks_isPrefix notDry shell).1

/-- What `make` would execute, where the shell has something to tell of every task and the
second one fails. -/
theorem execHelperMain_dryRun_make :
    executedTasks (execHelperMain (makeInvocation "make" false).dry secondFails 10 started) =
        [] ∧
      handedTasks (execHelperMain (makeInvocation "make" false).dry secondFails 10 started) =
        scheduledTasks (makeInvocation "make" false) 10 ∧
      report (execHelperMain (makeInvocation "make" false).dry secondFails 10 started) =
        (report (execHelperMain (makeInvocation "make" false)
          (answering (fun _ => POSIX_SUCCESS) fun _ task => [task.toString]) 10
          started)).map id System.unexecuted ∧
      executedTasks (execHelperMain (makeInvocation "make" false) secondFails 10 started) <+:
        handedTasks (execHelperMain (makeInvocation "make" false).dry secondFails 10 started) :=
  execHelperMain_dryRun (makeInvocation "make" false) 10 (fun _ task => [task.toString])
    secondFails secondFails rfl

end Runs

end ExecHelper.Applications
