import ExecHelper.Commander.Commander
import ExecHelper.Core.PosixShell
import ExecHelper.Plugins.Replay

/-!
# The application

The application chooses an executor for the invocation, hands it every task the
plugins register and lets the commander run.  What the shell answers reaches the
exit status on three ways: through the variable of the last return code, through
an exit in the middle of the run, and not at all when an exception meets a
function that is declared not to throw.
-/

namespace ExecHelper.Applications

open ExecHelper.Library
open ExecHelper.Config
open ExecHelper.Core
open ExecHelper.Plugins
open ExecHelper.Commander

/-! ## The system -/

abbrev ShellReturnCode := UInt8

/-- What comes of a task in the shell. -/
inductive ShellResult where
  | returned (returnCode : ShellReturnCode)
  /-- A `std::runtime_error` with this text is thrown. -/
  | thrown (what : String)
  /-- The first element of an empty list is accessed. -/
  | frontOfEmpty

/-- The answer of the shell to a task, with what it tells the user of its own accord. -/
structure ShellAnswer where
  feedback : List String := []
  result : ShellResult

/-- The answers of the shell to the tasks it is given, one after the other. -/
abbrev Shell := Nat → Task → ShellAnswer

def POSIX_SUCCESS : ShellReturnCode := 0
def EXIT_SUCCESS : UInt8 := 0
def EXIT_FAILURE : UInt8 := 1

/-- A line for the user. -/
inductive Feedback where
  | info (text : String)
  | error (text : String)
  /-- The shell reports an error. -/
  | shell (text : String)
  deriving DecidableEq

/-- What a run changes besides the static stacks. -/
structure System where
  /-- The tasks the executor was given. -/
  handed : List Task := []
  /-- The tasks the shell was given. -/
  executed : List Task := []
  lastReturnCode : UInt8 := EXIT_SUCCESS
  feedback : List Feedback := []
  /-- What the memory plugin keeps. -/
  memories : List (Task × VariablesMap × Patterns) := []

/-- The system after a task is announced and given to the executor and the shell. -/
def System.announced (system : System) (task : Task) : System :=
  { system with
    handed := system.handed ++ [task]
    executed := system.executed ++ [task]
    feedback := system.feedback ++ [.info ("Executing " ++ task.toString)] }

/-- The system after the shell has reported errors. -/
def System.told (system : System) (lines : List String) : System :=
  { system with feedback := system.feedback ++ lines.map .shell }

/-- The system after the failure of a task is reported. -/
def System.failed (system : System) : System :=
  { system with feedback := system.feedback ++ [.error "Error executing command!"] }

/-- Code that may throw a `std::runtime_error`, of which only the text is kept. -/
abbrev Throwing (α : Type) := ExceptT String (EStateM Stop System) α

/-- Code in a function that is declared `noexcept`: an exception ends the process. -/
def declaredNoexcept {α : Type} (body : Throwing α) : Throwing α :=
  ExceptT.mk do
    match ← body.run with
    | .ok value => return .ok value
    | .error _ => throw .terminate

def userFeedbackInfo (text : String) : EStateM Stop System Unit :=
  modify fun system => { system with feedback := system.feedback ++ [.info text] }

def userFeedbackError (text : String) : EStateM Stop System Unit :=
  modify fun system => { system with feedback := system.feedback ++ [.error text] }

/-! ## Executors -/

/-- Give the shell the next task (`Shell::execute`): its answer is returned or thrown. -/
def Shell.execute (shell : Shell) (task : Task) : Throwing ShellReturnCode := do
  let system ← get
  let answer := shell system.executed.length task
  set ({ system with executed := system.executed ++ [task] }.told answer.feedback)
  match answer.result with
  | .returned returnCode => return returnCode
  | .thrown what => throw what
  | .frontOfEmpty => (throw .outOfBounds : EStateM Stop System ShellReturnCode)

namespace PosixShell

def isExecutedSuccessfully (returnCode : ShellReturnCode) : Bool :=
  returnCode == POSIX_SUCCESS

/-- The POSIX shell of a platform.  What it starts comes to a return code, or cannot be
started for the reason in the text of a `process_error`. -/
def onPlatform (platform : Core.PosixShell.Platform) (filesystemError : String)
    (system : Nat → Path → TaskCollection → Path → EnvironmentCollection →
      Except String ShellReturnCode) : Shell := fun index task =>
  let execution := Core.PosixShell.execute platform task
  { feedback := execution.feedback
    result :=
      match execution.outcome with
      | .success => .returned POSIX_SUCCESS
      | .system binary args startDir env =>
          match system index binary args startDir env with
          | .ok returnCode => .returned returnCode
          | .error what => .thrown what
      | .pathNotFound message => .thrown message
      | .filesystemError => .thrown filesystemError
      | .frontOfEmpty => .frontOfEmpty }

end PosixShell

/-- The executors, the immediate one with its callback. -/
inductive Executor where
  | reportingExecutor
  | immediateExecutor (callback : ShellReturnCode → EStateM Stop System Unit)

/-- Execute a task (`ExecutorInterface::execute`). -/
def Executor.execute (shell : Shell) (executor : Executor) (task : Task) : Throwing Unit :=
  declaredNoexcept do
    modify fun system => { system with handed := system.handed ++ [task] }
    userFeedbackInfo ("Executing " ++ task.toString)
    match executor with
    | .reportingExecutor => return ()
    | .immediateExecutor callback =>
        let returnCode ← Shell.execute shell task
        if !PosixShell.isExecutedSuccessfully returnCode then
          callback returnCode

/-- Keep the return code and go on. -/
def keepGoingCallback (returnCode : ShellReturnCode) : EStateM Stop System Unit := do
  modify fun system => { system with lastReturnCode := returnCode }
  userFeedbackError "Error executing command!"

/-- Exit with the return code. -/
def exitCallback (returnCode : ShellReturnCode) : EStateM Stop System Unit := do
  userFeedbackError "Error executing command!"
  throw (.exit returnCode)

/-- The executor of an invocation. -/
def executor (fleetingOptions : FleetingOptions) : Executor :=
  if fleetingOptions.dryRun then .reportingExecutor
  else if fleetingOptions.keepGoing then .immediateExecutor keepGoingCallback
  else .immediateExecutor exitCallback

/-- The callback plugins register their tasks with. -/
def executeCallback (fleetingOptions : FleetingOptions) (shell : Shell) (task : Task) :
    Throwing Unit :=
  tryCatch ((executor fleetingOptions).execute shell task) fun what =>
    (userFeedbackError ("Runtime error: " ++ what) : EStateM Stop System Unit)

/-- Register a task (`registerTask` of the plugins). -/
def registerTask (fleetingOptions : FleetingOptions) (shell : Shell) (task : Task) :
    EStateM Stop System Unit := do
  match ← (declaredNoexcept (executeCallback fleetingOptions shell task)).run with
  | .ok value => return value
  | .error _ => throw .terminate

section Registration

variable {fleetingOptions : FleetingOptions} {shell : Shell} {task : Task}
variable {system final : System}

/-- A registration whose executor returns. -/
private theorem registerTask_of_ok
    (executed : ((executor fleetingOptions).execute shell task).run system =
      .ok (.ok ()) final) :
    registerTask fleetingOptions shell task system = .ok () final := by
  have caught : (executeCallback fleetingOptions shell task).run system = .ok (.ok ()) final :=
    bind_of_eq_ok executed
  have passed : (declaredNoexcept (executeCallback fleetingOptions shell task)).run system =
      .ok (.ok ()) final := bind_of_eq_ok caught
  exact bind_of_eq_ok passed

/-- A registration in whose executor the process ends. -/
private theorem registerTask_of_error {reason : Stop}
    (stopped : ((executor fleetingOptions).execute shell task).run system =
      .error reason final) :
    registerTask fleetingOptions shell task system = .error reason final := by
  have caught : (executeCallback fleetingOptions shell task).run system =
      .error reason final := bind_of_eq_error stopped
  have passed : (declaredNoexcept (executeCallback fleetingOptions shell task)).run system =
      .error reason final := bind_of_eq_error caught
  exact bind_of_eq_error passed

/-- Code that throws no exception of its own is not changed. -/
private theorem declaredNoexcept_liftM (body : EStateM Stop System Unit) :
    (declaredNoexcept (liftM body : Throwing Unit)).run =
      (Except.ok <$> body : EStateM Stop System (Except String Unit)) := by
  have lifted : (liftM body : Throwing Unit).run =
      (Except.ok <$> body : EStateM Stop System (Except String Unit)) := rfl
  unfold declaredNoexcept
  rw [lifted]
  simp

/-- The system after the shell has dealt with a task. -/
def System.executing (system : System) (shell : Shell) (task : Task) : System :=
  (system.announced task).told (shell system.executed.length task).feedback

/-- An immediate executor calls back after a failure; what the shell throws meets its
`noexcept`. -/
private theorem immediateExecutor_execute
    (callback : ShellReturnCode → EStateM Stop System Unit) :
    ((Executor.immediateExecutor callback).execute shell task).run system =
      match (shell system.executed.length task).result with
      | .returned returnCode =>
          if PosixShell.isExecutedSuccessfully returnCode then
            .ok (.ok ()) (system.executing shell task)
          else (Except.ok <$> callback returnCode : EStateM Stop System (Except String Unit))
            (system.executing shell task)
      | .thrown _ => .error .terminate (system.executing shell task)
      | .frontOfEmpty => .error .outOfBounds (system.executing shell task) := by
  change (declaredNoexcept (do
    let returnCode ← (match (shell system.executed.length task).result with
      | .returned returnCode => return returnCode
      | .thrown what => throw what
      | .frontOfEmpty => (throw .outOfBounds : EStateM Stop System ShellReturnCode) :
        Throwing ShellReturnCode)
    if !PosixShell.isExecutedSuccessfully returnCode then
      callback returnCode)).run (system.executing shell task) = _
  cases (shell system.executed.length task).result with
  | thrown what => rfl
  | frontOfEmpty => rfl
  | returned returnCode =>
      change (declaredNoexcept (if !PosixShell.isExecutedSuccessfully returnCode then
        callback returnCode else pure ())).run (system.executing shell task) =
          if PosixShell.isExecutedSuccessfully returnCode then _ else _
      cases PosixShell.isExecutedSuccessfully returnCode with
      | true => rfl
      | false =>
          rw [Bool.not_false, if_pos rfl, declaredNoexcept_liftM, if_neg Bool.false_ne_true]

/-- An exception of the shell ends the process. -/
theorem registerTask_of_exception (notDry : fleetingOptions.dryRun = false) {what : String}
    (answered : (shell system.executed.length task).result = .thrown what) :
    registerTask fleetingOptions shell task system =
      .error .terminate (system.executing shell task) := by
  apply registerTask_of_error
  rw [executor, notDry]
  cases fleetingOptions.keepGoing with
  | true => exact (immediateExecutor_execute _).trans (by rw [answered])
  | false => exact (immediateExecutor_execute _).trans (by rw [answered])

/-- What follows an access beyond an empty list is undefined. -/
theorem registerTask_of_frontOfEmpty (notDry : fleetingOptions.dryRun = false)
    (answered : (shell system.executed.length task).result = .frontOfEmpty) :
    registerTask fleetingOptions shell task system =
      .error .outOfBounds (system.executing shell task) := by
  apply registerTask_of_error
  rw [executor, notDry]
  cases fleetingOptions.keepGoing with
  | true => exact (immediateExecutor_execute _).trans (by rw [answered])
  | false => exact (immediateExecutor_execute _).trans (by rw [answered])

/-- After a success the run goes on. -/
theorem registerTask_of_success (notDry : fleetingOptions.dryRun = false)
    (answered : (shell system.executed.length task).result = .returned POSIX_SUCCESS) :
    registerTask fleetingOptions shell task system = .ok () (system.executing shell task) := by
  apply registerTask_of_ok
  rw [executor, notDry]
  cases fleetingOptions.keepGoing with
  | true => exact (immediateExecutor_execute _).trans (by rw [answered]; rfl)
  | false => exact (immediateExecutor_execute _).trans (by rw [answered]; rfl)

/-- After a failure the run goes on with its return code when it is to keep going. -/
theorem registerTask_of_failure_keepGoing (notDry : fleetingOptions.dryRun = false)
    (keepGoing : fleetingOptions.keepGoing = true) {returnCode : ShellReturnCode}
    (answered : (shell system.executed.length task).result = .returned returnCode)
    (failure : returnCode ≠ POSIX_SUCCESS) :
    registerTask fleetingOptions shell task system =
      .ok () { (system.executing shell task).failed with lastReturnCode := returnCode } := by
  apply registerTask_of_ok
  rw [executor, notDry, keepGoing]
  refine (immediateExecutor_execute _).trans ?_
  rw [answered]
  dsimp only
  rw [PosixShell.isExecutedSuccessfully, beq_eq_false_iff_ne.mpr failure]
  rfl

/-- After a failure the process exits with its return code otherwise. -/
theorem registerTask_of_failure_exit (notDry : fleetingOptions.dryRun = false)
    (stops : fleetingOptions.keepGoing = false) {returnCode : ShellReturnCode}
    (answered : (shell system.executed.length task).result = .returned returnCode)
    (failure : returnCode ≠ POSIX_SUCCESS) :
    registerTask fleetingOptions shell task system =
      .error (.exit returnCode) (system.executing shell task).failed := by
  apply registerTask_of_error
  rw [executor, notDry, stops]
  refine (immediateExecutor_execute _).trans ?_
  rw [answered]
  dsimp only
  rw [PosixShell.isExecutedSuccessfully, beq_eq_false_iff_ne.mpr failure]
  rfl

/-- In a dry run, a task is given to the executor only. -/
theorem registerTask_of_dryRun (dry : fleetingOptions.dryRun = true) :
    registerTask fleetingOptions shell task system =
      .ok () { system.announced task with executed := system.executed } := by
  apply registerTask_of_ok
  rw [executor, dry]
  rfl

end Registration

/-- What the system does with the events of a run. -/
def answer (fleetingOptions : FleetingOptions) (shell : Shell) :
    RunEvent → EStateM Stop System Unit
  | .host (.registerTask task) => registerTask fleetingOptions shell task
  | .host (.remember task variablesMap patterns) =>
      modify fun system =>
        { system with memories := system.memories ++ [(task, variablesMap, patterns)] }
  | .host (.feedbackError text) => userFeedbackError text
  | .host .failureDropped => return ()
  | .resolving _ _ => return ()
  | .applied _ => return ()

/-- The task an event registers. -/
def registeredTask : RunEvent → Option Task
  | .host (.registerTask task) => some task
  | _ => none

theorem registeredTask_eq_some {event : RunEvent} {task : Task}
    (registers : registeredTask event = some task) : event = .host (.registerTask task) := by
  unfold registeredTask at registers
  split at registers
  · rw [Option.some.inj registers]
  · cases registers

/-- Every other event leaves alone what is known of the tasks. -/
theorem answer_of_no_task {event : RunEvent} (other : registeredTask event = none)
    (fleetingOptions : FleetingOptions) (shell : Shell) (system : System) :
    ∃ feedback memories, answer fleetingOptions shell event system =
      .ok () { system with feedback, memories } := by
  cases event with
  | resolving command initialCommand => exact ⟨_, _, rfl⟩
  | applied result => exact ⟨_, _, rfl⟩
  | host hostEvent =>
      cases hostEvent with
      | registerTask task => cases other
      | remember task variablesMap patterns => exact ⟨_, _, rfl⟩
      | feedbackError text => exact ⟨_, _, rfl⟩
      | failureDropped => exact ⟨_, _, rfl⟩

/-! ## The main function -/

/-- What an invocation makes of its arguments, its settings file and its
surroundings. -/
structure Invocation where
  fleetingOptions : FleetingOptions
  settings : SettingsNode
  patterns : Patterns
  settingsFileParentPath : Path
  env : EnvironmentCollection
  plugins : PluginMap
  currentPath : CurrentPath

/-- The commander runs the commands of the invocation. -/
def runCommander (invocation : Invocation) (shell : Shell) (fuel : Nat) :
    EStateM Stop (Process System) Bool :=
  Commander.run (answer invocation.fleetingOptions shell) invocation.currentPath fuel
    invocation.fleetingOptions invocation.settings invocation.patterns
    invocation.settingsFileParentPath invocation.env invocation.plugins

/-- The end of the main function, when the options are verified and the patterns have
their values: run the commands and return the exit status. -/
def execHelperMain (invocation : Invocation) (shell : Shell) (fuel : Nat) :
    EStateM Stop (Process System) UInt8 := do
  match ← runCommander invocation shell fuel with
  | true =>
      let process ← get
      return process.surroundings.lastReturnCode
  | false =>
      onSurroundings (userFeedbackError "Error executing commands")
      return EXIT_FAILURE

end ExecHelper.Applications
