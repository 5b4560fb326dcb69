import ExecHelper.Library.Translation
import ExecHelper.Plugins.Replay

/-!
# Corresponding runs

Two runs correspond when they go through the same steps, in contexts that may differ and
with tasks of which one is a change of the other.  Their structure is followed here once:
a simulation that relates the effects of corresponding events and the steps of a command
relates the runs, if no plugin looks at what the change of a task is about.
-/

namespace ExecHelper.Plugins

open ExecHelper.Library
open ExecHelper.Config
open ExecHelper.Core

/-! ## Changed tasks -/

def HostEvent.mapTask (change : Task → Task) : HostEvent → HostEvent
  | .registerTask task => .registerTask (change task)
  | .remember task variablesMap patterns => .remember (change task) variablesMap patterns
  | .feedbackError text => .feedbackError text
  | .failureDropped => .failureDropped

def RunEvent.mapTask (change : Task → Task) : RunEvent → RunEvent
  | .host event => .host (event.mapTask change)
  | .resolving command initialCommand => .resolving command initialCommand
  | .applied result => .applied result

/-- The operations of a plugin with their tasks changed. -/
def taskTranslation (change : Task → Task) : Translation pluginInterface where
  op
    | .host event => .host (event.mapTask change)
    | .execute commands task => .execute commands (change task)
  answer
    | .host _ => fun answer => answer
    | .execute _ _ => fun answer => answer

/-- The plugin does with a changed task what it does with the task, with changed tasks. -/
def Plugin.Carries (currentPath : CurrentPath) (change : Task → Task) (plugin : Plugin) : Prop :=
  ∀ fuel task variablesMap patterns,
    plugin.apply currentPath fuel (change task) variablesMap patterns =
      (plugin.apply currentPath fuel task variablesMap patterns).translate
        (taskTranslation change)

theorem Plugin.carries_id (currentPath : CurrentPath) (plugin : Plugin) :
    plugin.Carries currentPath id := by
  intro fuel task variablesMap patterns
  rw [id]
  generalize plugin.apply currentPath fuel task variablesMap patterns = program
  induction program with
  | pure value => rfl
  | stop reason => rfl
  | call op next inductionHypothesis =>
      have later : (fun answer => (next answer).translate (taskTranslation id)) = next :=
        (funext inductionHypothesis).symm
      cases op with
      | host event =>
          have sameEvent : event.mapTask id = event := by cases event <;> rfl
          change _ = Program.call (PluginOp.host (event.mapTask id)) fun answer =>
            (next answer).translate (taskTranslation id)
          rw [sameEvent]
          exact congrArg (@Program.call Stop pluginInterface Bool (.host event)) later.symm
      | execute commands task =>
          exact congrArg (@Program.call Stop pluginInterface Bool (.execute commands task))
            later.symm

namespace ExecutePlugin

/-! ## Steps of a command -/

/-- Find the step of a command, resolve its variables and its patterns, and go on. -/
def stepInto {σ : Type} (host : RunEvent → EStateM Stop σ Unit) (context : Context)
    (command initialCommand : Command)
    (rest : NextStep → VariablesMap → Patterns → EStateM Stop σ Bool) : EStateM Stop σ Bool :=
  match getNextStep context command with
  | none => do
      host (.host <| .feedbackError
        ("Could not find a command or plugin called '" ++ command ++ "'"))
      return false
  | some step => do
      let variablesMap ← resolve host context step command initialCommand
      let patterns ← getNextPatterns host context variablesMap
      rest step variablesMap patterns

theorem applyCommands_eq_stepInto {σ : Type} (host : RunEvent → EStateM Stop σ Unit)
    (context : Context) (call : Plugin → Task → VariablesMap → Patterns → EStateM Stop σ Bool)
    (executeNested : ExecutePlugin → Task → EStateM Stop σ Bool) (task : Task)
    (command initialCommand : Command) (rest : List (Command × Command)) :
    applyCommands host context call executeNested task ((command, initialCommand) :: rest) =
      stepInto host context command initialCommand fun step variablesMap patterns => do
        match ← applyStep call executeNested step task variablesMap patterns with
        | true => applyCommands host context call executeNested task rest
        | false => do
            host (.host <| .feedbackError
              ("An error occured executing the '" ++ command ++ "' command"))
            return false := by
  unfold stepInto
  refine (applyCommands.eq_2 host context call executeNested ..).trans ?_
  cases getNextStep context command <;> rfl

/-! ## Correspondence -/

section Correspondence

variable {σ τ : Type} {simulation : Simulation Stop σ τ} {change : Task → Task}
variable {leftContext rightContext : Context}
variable {left : RunEvent → EStateM Stop σ Unit} {right : RunEvent → EStateM Stop τ Unit}

/-- What has to be related so that whole runs are. -/
structure Corresponds (simulation : Simulation Stop σ τ) (change : Task → Task)
    (leftContext rightContext : Context) (left : RunEvent → EStateM Stop σ Unit)
    (right : RunEvent → EStateM Stop τ Unit) : Prop where
  host : ∀ event,
    simulation.Related (left (.host event)) (right (.host (event.mapTask change)))
  applied : ∀ result, simulation.Related (left (.applied result)) (right (.applied result))
  step : ∀ command initialCommand leftRest rightRest,
    (∀ step, getNextStep leftContext command = some step → ∀ variablesMap patterns,
      simulation.Related (leftRest step variablesMap patterns)
        (rightRest step variablesMap patterns)) →
    simulation.Related (stepInto left leftContext command initialCommand leftRest)
      (stepInto right rightContext command initialCommand rightRest)
  stops : ∀ reason, OfPlugin reason → simulation.RelatesStop reason
  currentPath : rightContext.currentPath = leftContext.currentPath
  plugins : ∀ command plugin, getNextStep leftContext command = some (.plugin plugin) →
    plugin.Carries leftContext.currentPath change

/-- A call of a plugin that commands resolve to. -/
def CallsRelated (simulation : Simulation Stop σ τ) (change : Task → Task)
    (leftContext : Context)
    (leftCall : Plugin → Task → VariablesMap → Patterns → EStateM Stop σ Bool)
    (rightCall : Plugin → Task → VariablesMap → Patterns → EStateM Stop τ Bool) : Prop :=
  ∀ command plugin, getNextStep leftContext command = some (.plugin plugin) →
    ∀ task variablesMap patterns,
      simulation.Related (leftCall plugin task variablesMap patterns)
        (rightCall plugin (change task) variablesMap patterns)

variable {leftCall : Plugin → Task → VariablesMap → Patterns → EStateM Stop σ Bool}
variable {rightCall : Plugin → Task → VariablesMap → Patterns → EStateM Stop τ Bool}

theorem applyCommands_corresponds
    (corresponds : Corresponds simulation change leftContext rightContext left right)
    (calls : CallsRelated simulation change leftContext leftCall rightCall)
    {leftNested : ExecutePlugin → Task → EStateM Stop σ Bool}
    {rightNested : ExecutePlugin → Task → EStateM Stop τ Bool}
    (nested : ∀ executePlugin task, simulation.Related
      (leftNested executePlugin task) (rightNested executePlugin (change task)))
    (task : Task) (pairs : List (Command × Command)) :
    simulation.Related (applyCommands left leftContext leftCall leftNested task pairs)
      (applyCommands right rightContext rightCall rightNested (change task) pairs) := by
  induction pairs with
  | nil => exact simulation.pure true
  | cons pair rest inductionHypothesis =>
      rcases pair with ⟨command, initialCommand⟩
      rw [applyCommands_eq_stepInto, applyCommands_eq_stepInto]
      apply corresponds.step
      intro step found variablesMap patterns
      have stepRelated : simulation.Related
          (applyStep leftCall leftNested step task variablesMap patterns)
          (applyStep rightCall rightNested step (change task) variablesMap patterns) := by
        cases step with
        | plugin plugin => exact calls command plugin found task variablesMap patterns
        | commands executePlugin => exact nested executePlugin task
      apply simulation.bind stepRelated
      intro succeeded
      cases succeeded with
      | true => exact inductionHypothesis
      | false =>
          apply simulation.bind (corresponds.host (.feedbackError _))
          intro _
          exact simulation.pure false

theorem apply_corresponds
    (corresponds : Corresponds simulation change leftContext rightContext left right)
    (calls : CallsRelated simulation change leftContext leftCall rightCall)
    (fuel : Nat) (executePlugin : ExecutePlugin) (task : Task) :
    simulation.Related (apply left leftContext leftCall fuel executePlugin task)
      (apply right rightContext rightCall fuel executePlugin (change task)) := by
  induction fuel generalizing executePlugin task with
  | zero => exact corresponds.stops .outOfFuel trivial
  | succ fuel inductionHypothesis =>
      rw [apply, apply]
      have completed : simulation.Related
          (do
            let result ← applyCommands left leftContext leftCall
              (apply left leftContext leftCall fuel) task executePlugin.pairs
            left (.applied result)
            return result)
          (do
            let result ← applyCommands right rightContext rightCall
              (apply right rightContext rightCall fuel) (change task) executePlugin.pairs
            right (.applied result)
            return result) := by
        apply simulation.bind
          (applyCommands_corresponds corresponds calls inductionHypothesis task _)
        intro result
        apply simulation.bind (corresponds.applied result)
        intro _
        exact simulation.pure result
      split
      · apply simulation.bind (corresponds.host (.feedbackError _))
        intro _
        exact completed
      · exact completed

theorem callPlugin_corresponds
    (corresponds : Corresponds simulation change leftContext rightContext left right)
    (fuel level : Nat) :
    CallsRelated simulation change leftContext (callPlugin left leftContext fuel level)
      (callPlugin right rightContext fuel level) := by
  induction level with
  | zero =>
      intro command plugin _ task variablesMap patterns
      exact corresponds.stops .outOfFuel trivial
  | succ level inductionHypothesis =>
      intro command plugin found task variablesMap patterns
      rw [callPlugin, callPlugin, corresponds.currentPath,
        corresponds.plugins command plugin found, Program.interpret_translate]
      apply simulation.interpret
      · intro op
        cases op with
        | host event =>
            have same : ((taskTranslation change).answer (.host event) <$>
                handler right (fun commands task => apply right rightContext
                  (callPlugin right rightContext fuel level) fuel (.ofCommands commands) task)
                  ((taskTranslation change).op (.host event))) =
                right (.host (event.mapTask change)) := id_map _
            rw [same]
            exact corresponds.host event
        | execute commands task =>
            have same : ((taskTranslation change).answer (.execute commands task) <$>
                handler right (fun commands task => apply right rightContext
                  (callPlugin right rightContext fuel level) fuel (.ofCommands commands) task)
                  ((taskTranslation change).op (.execute commands task))) =
                apply right rightContext (callPlugin right rightContext fuel level) fuel
                  (.ofCommands commands) (change task) := id_map _
            rw [same]
            exact apply_corresponds corresponds inductionHypothesis fuel _ task
      · exact (Plugin.apply_stopsOnlyFor leftContext.currentPath fuel task variablesMap patterns
          plugin).imp corresponds.stops

/-- Runs correspond when their steps and effects do. -/
theorem run_corresponds
    (corresponds : Corresponds simulation change leftContext rightContext left right)
    (fuel : Nat) (executePlugin : ExecutePlugin) (task : Task) :
    simulation.Related (run left leftContext fuel executePlugin task)
      (run right rightContext fuel executePlugin (change task)) :=
  apply_corresponds corresponds (callPlugin_corresponds corresponds fuel fuel) fuel
    executePlugin task

end Correspondence

end ExecutePlugin

end ExecHelper.Plugins
