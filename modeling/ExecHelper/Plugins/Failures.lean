import ExecHelper.Plugins.Runs

/-!
# Failures on their way up

An execution of commands that fails makes the step above it fail: the execution it
is nested in, or the plugin that started it.  Every wrapper hands the failure on,
except a script that ends normally after an execution it started had failed.

The account of a run is balanced as long as it contains a failed execution exactly
when it contains a dropped failure.  Whatever succeeds keeps the balance.
-/

namespace ExecHelper.Plugins.ExecutePlugin

open ExecHelper.Library
open ExecHelper.Config
open ExecHelper.Core

/-- The events contain a failed execution if and only if a script dropped one. -/
def Balanced (log : List RunEvent) : Prop :=
  .applied false ∈ log ↔ .host .failureDropped ∈ log

theorem Balanced.append_event {log : List RunEvent} {event : RunEvent}
    (balanced : Balanced log) (notFailed : event ≠ .applied false)
    (notDropped : event ≠ .host .failureDropped) : Balanced (log ++ [event]) := by
  simp only [Balanced, List.mem_append, List.mem_singleton, Ne.symm notFailed,
    Ne.symm notDropped, or_false]
  exact balanced

/-- The events contain a failed execution. -/
def ExecutionFailed (log : List RunEvent) : Prop := .applied false ∈ log

/-- What a result tells: success that the account is balanced, failure something
else. -/
def Outcome (failure : List RunEvent → Prop) : Bool → List RunEvent → Prop
  | true, log => Balanced log
  | false, log => failure log

/-- A computation that returns success only with a balanced account. -/
def Honest (failure : List RunEvent → Prop)
    (computation : EStateM Stop (List RunEvent) Bool) : Prop :=
  Returns Balanced computation (Outcome failure)

theorem Honest.anyFailure {failure : List RunEvent → Prop}
    {computation : EStateM Stop (List RunEvent) Bool} (honest : Honest failure computation) :
    Honest (fun _ => True) computation := by
  intro start result final balanced run
  cases result with
  | true => exact honest balanced run
  | false => trivial

theorem record_failed {before : List RunEvent → Prop} :
    Returns before (record (.applied false)) fun _ => ExecutionFailed := by
  intro start value final _ run
  rcases EStateM.Result.ok.inj run with ⟨-, rfl⟩
  exact List.mem_append_right _ (List.mem_singleton.mpr rfl)

theorem record_keeps {event : RunEvent} (notFailed : event ≠ .applied false)
    (notDropped : event ≠ .host .failureDropped) :
    Returns Balanced (record event) fun _ => Balanced := by
  intro start value final balanced run
  rcases EStateM.Result.ok.inj run with ⟨-, rfl⟩
  exact balanced.append_event notFailed notDropped

/-! ## Runs only add events -/

/-- Events are added at the end of the account. -/
def growth : Contract Stop (List RunEvent) where
  returns start final := start <+: final
  stops start _ final := start <+: final
  refl := List.prefix_refl
  trans first second := first.trans second
  after first second := first.trans second

theorem growth_record (event : RunEvent) : growth.Holds (record event) :=
  fun start => List.prefix_append start [event]

theorem growth_relates (context : Context) :
    Relates growth.simulation context record record where
  host event := growth_record (.host event)
  applied result := growth_record (.applied result)
  resolve step command initialCommand := by
    apply growth.holds_bind (growth_record (.resolving command initialCommand))
    intro _ start
    rw [stepVariablesMap]
    cases getVariablesMap (stepVariables context.fleeting step)
        (sectionKeys command initialCommand) context.settings with
    | ok variablesMap => exact List.prefix_refl start
    | error reason => exact List.prefix_refl start
  stops _ _ _ start := List.prefix_refl start

/-! ## Plugin calls -/

/-- The account in a phase of a plugin: with an open failure, an execution failed. -/
def PhaseAccount (failed : Bool) (log : List RunEvent) : Prop :=
  match failed with
  | true => ExecutionFailed log
  | false => Balanced log

theorem PhaseAccount.append_event {failed : Bool} {log : List RunEvent} {event : RunEvent}
    (account : PhaseAccount failed log) (notFailed : event ≠ .applied false)
    (notDropped : event ≠ .host .failureDropped) : PhaseAccount failed (log ++ [event]) := by
  cases failed with
  | true => exact List.mem_append_left _ account
  | false => exact Balanced.append_event account notFailed notDropped

section Calls

variable {executed : CommandCollection → Task → EStateM Stop (List RunEvent) Bool}

/-- A dropped failure settles the account. -/
private theorem record_dropped :
    Returns (PhaseAccount true) (record (.host .failureDropped)) fun _ => Balanced := by
  intro start value final failed run
  rcases EStateM.Result.ok.inj run with ⟨-, rfl⟩
  constructor
  · exact fun _ => List.mem_append_right _ (List.mem_singleton.mpr rfl)
  · exact fun _ => List.mem_append_left _ failed

private theorem record_account (failed : Bool) {event : HostEvent}
    (notDropped : event ≠ .failureDropped) :
    Returns (PhaseAccount failed) (record (.host event)) fun _ => PhaseAccount failed := by
  intro start value final account run
  rcases EStateM.Result.ok.inj run with ⟨-, rfl⟩
  apply account.append_event (by simp)
  intro same
  exact notDropped (RunEvent.host.inj same)

/-- A failed execution is on the account for good. -/
private theorem executed_account
    (honest : ∀ commands task, Honest ExecutionFailed (executed commands task))
    (grows : ∀ commands task, growth.Holds (executed commands task))
    (failed : Bool) (commands : CommandCollection) (task : Task) :
    Returns (PhaseAccount failed) (executed commands task) fun succeeded =>
      PhaseAccount (failed || !succeeded) := by
  intro start succeeded final account run
  cases failed with
  | true => exact ((grows commands task).returns run).subset account
  | false =>
      have outcome := honest commands task account run
      cases succeeded with
      | true => exact outcome
      | false => exact outcome

/-- Plugins settle the account or fail. -/
theorem interpret_honest
    (honest : ∀ commands task, Honest ExecutionFailed (executed commands task))
    (grows : ∀ commands task, growth.Holds (executed commands task))
    {program : PluginProgram Bool} (handsOn : HandsOn anyPhase program false) :
    Honest (fun _ => True) (program.interpret (handler record executed)) := by
  have answers : ∀ failed op, failureProtocol.permitted failed op →
      Returns (PhaseAccount failed) (handler record executed op) fun answer =>
        PhaseAccount (openFailure failed op answer) := by
    intro failed op permitted
    cases op with
    | execute commands task => exact executed_account honest grows failed commands task
    | host event =>
        cases event with
        | failureDropped =>
            rw [permitted rfl]
            exact record_dropped
        | registerTask task => exact record_account failed (by simp)
        | remember task variablesMap patterns => exact record_account failed (by simp)
        | feedbackError text => exact record_account failed (by simp)
  intro start result final balanced run
  rcases Protocol.Conforms.interpret answers handsOn balanced run with ⟨last, ends, account⟩
  cases result with
  | false => trivial
  | true =>
      have settled : last = false := ends
      rw [settled] at account
      exact account

end Calls

/-! ## Executions -/

section Executions

variable {context : Context}

private theorem resolve_keeps (step : NextStep) (command initialCommand : Command) :
    Returns Balanced (resolve record context step command initialCommand) fun _ => Balanced := by
  rw [resolve]
  refine Returns.bind (record_keeps (by simp) (by simp)) fun _ => ?_
  rw [stepVariablesMap]
  split
  · exact Returns.pure fun _ balanced => balanced
  · exact Returns.throw _

private theorem getNextPatterns_keeps (variablesMap : VariablesMap) :
    Returns Balanced (getNextPatterns record context variablesMap) fun _ => Balanced := by
  rw [getNextPatterns]
  generalize (variablesMap.getValues [patternsKey]).getD [] = keys
  induction keys with
  | nil => exact Returns.pure fun _ balanced => balanced
  | cons key rest inductionHypothesis =>
      rw [getNextPatterns.go]
      cases context.patterns[key]? with
      | some pattern =>
          refine Returns.bind inductionHypothesis fun patterns => ?_
          exact Returns.pure fun _ balanced => balanced
      | none =>
          refine Returns.bind (record_keeps (by simp) (by simp)) fun _ => ?_
          exact inductionHypothesis

private theorem applyCommands_honest
    {call : Plugin → Task → VariablesMap → Patterns → EStateM Stop (List RunEvent) Bool}
    {nested : ExecutePlugin → Task → EStateM Stop (List RunEvent) Bool}
    (calls : ∀ plugin task variablesMap patterns,
      Honest (fun _ => True) (call plugin task variablesMap patterns))
    (nestedHonest : ∀ executePlugin task, Honest ExecutionFailed (nested executePlugin task))
    (task : Task) (pairs : List (Command × Command)) :
    Honest (fun _ => True) (applyCommands record context call nested task pairs) := by
  induction pairs with
  | nil => exact Returns.pure fun _ balanced => balanced
  | cons pair rest inductionHypothesis =>
      rcases pair with ⟨command, initialCommand⟩
      rw [applyCommands]
      cases getNextStep context command with
      | none =>
          refine Returns.bind (record_keeps (by simp) (by simp)) fun _ => ?_
          exact Returns.pure fun _ _ => trivial
      | some step =>
          refine Returns.bind (resolve_keeps step command initialCommand) fun variablesMap => ?_
          refine Returns.bind (getNextPatterns_keeps variablesMap) fun patterns => ?_
          have stepHonest : Honest (fun _ => True)
              (applyStep call nested step task variablesMap patterns) := by
            cases step with
            | plugin plugin => exact calls plugin task variablesMap patterns
            | commands executePlugin => exact (nestedHonest executePlugin task).anyFailure
          refine Returns.bind stepHonest fun succeeded => ?_
          cases succeeded with
          | true => exact inductionHypothesis
          | false =>
              refine Returns.bind (fun _ _ _ _ _ => trivial) fun _ => ?_
              exact Returns.pure fun _ (_ : True) => trivial

private theorem apply_honest
    {call : Plugin → Task → VariablesMap → Patterns → EStateM Stop (List RunEvent) Bool}
    (calls : ∀ plugin task variablesMap patterns,
      Honest (fun _ => True) (call plugin task variablesMap patterns))
    (fuel : Nat) (executePlugin : ExecutePlugin) (task : Task) :
    Honest ExecutionFailed (apply record context call fuel executePlugin task) := by
  induction fuel generalizing executePlugin task with
  | zero => exact Returns.throw _
  | succ fuel inductionHypothesis =>
      rw [apply]
      have completed : Honest ExecutionFailed (do
          let result ← applyCommands record context call
            (apply record context call fuel) task executePlugin.pairs
          record (.applied result)
          return result) := by
        refine Returns.bind (applyCommands_honest calls inductionHypothesis task _) fun result => ?_
        cases result with
        | true =>
            refine Returns.bind (record_keeps (by simp) (by simp)) fun _ => ?_
            exact Returns.pure fun _ balanced => balanced
        | false =>
            refine Returns.bind record_failed fun _ => ?_
            exact Returns.pure fun _ failed => failed
      split
      · refine Returns.bind (record_keeps (by simp) (by simp)) fun _ => ?_
        exact completed
      · exact completed

private theorem callPlugin_honest (fuel level : Nat) (plugin : Plugin) (task : Task)
    (variablesMap : VariablesMap) (patterns : Patterns) :
    Honest (fun _ => True)
      (callPlugin record context fuel level plugin task variablesMap patterns) := by
  induction level generalizing plugin task variablesMap patterns with
  | zero => exact Returns.throw _
  | succ level inductionHypothesis =>
      rw [callPlugin]
      have grows := growth_relates context
      apply interpret_honest
      · intro commands task
        exact apply_honest inductionHypothesis fuel (.ofCommands commands) task
      · intro commands task
        exact apply_related grows (callPlugin_related grows fuel level) fuel
          (.ofCommands commands) task
      · exact Plugin.apply_handsOn context.currentPath fuel task variablesMap patterns plugin

/-- Executing commands returns success only with a balanced account. -/
theorem run_honest (context : Context) (fuel : Nat) (executePlugin : ExecutePlugin)
    (task : Task) : Honest ExecutionFailed (run record context fuel executePlugin task) :=
  apply_honest (callPlugin_honest fuel fuel) fuel executePlugin task

end Executions

end ExecHelper.Plugins.ExecutePlugin
