import ExecHelper.Plugins.FailureProtocol

/-!
# Properties of whole runs

A run nests executions and plugin calls in each other.  Its structure is followed
once here: a simulation that relates the effects on the surroundings, the
resolution of variables and the ways a plugin can stop relates whole runs.

The first use is the dereference in `index`.  A run stops there exactly when it
comes to a command one of whose sections exists without a value list.
-/

namespace ExecHelper.Plugins

open ExecHelper.Library
open ExecHelper.Config
open ExecHelper.Core

/-! ## Simulations of runs -/

namespace ExecutePlugin

section Simulation

variable {σ τ : Type} {simulation : Simulation Stop σ τ} {context : Context}
variable {left : RunEvent → EStateM Stop σ Unit} {right : RunEvent → EStateM Stop τ Unit}

/-- What a simulation has to relate so that it relates whole runs: everything but
the mark in front of a resolution, which is related with the resolution. -/
structure Relates (simulation : Simulation Stop σ τ) (context : Context)
    (left : RunEvent → EStateM Stop σ Unit) (right : RunEvent → EStateM Stop τ Unit) :
    Prop where
  host : ∀ event, simulation.Related (left (.host event)) (right (.host event))
  applied : ∀ result, simulation.Related (left (.applied result)) (right (.applied result))
  resolve : ∀ step command initialCommand,
    simulation.Related (ExecutePlugin.resolve left context step command initialCommand)
      (ExecutePlugin.resolve right context step command initialCommand)
  stops : ∀ reason, OfPlugin reason → simulation.RelatesStop reason

theorem getNextPatterns_related (relates : Relates simulation context left right)
    (variablesMap : VariablesMap) :
    simulation.Related (getNextPatterns left context variablesMap)
      (getNextPatterns right context variablesMap) := by
  rw [getNextPatterns, getNextPatterns]
  generalize (variablesMap.getValues [patternsKey]).getD [] = keys
  induction keys with
  | nil => exact simulation.pure []
  | cons key rest inductionHypothesis =>
      rw [getNextPatterns.go, getNextPatterns.go]
      cases context.patterns[key]? with
      | some pattern =>
          apply simulation.bind inductionHypothesis
          intro patterns
          exact simulation.pure _
      | none =>
          apply simulation.bind (relates.host _)
          intro _
          exact inductionHypothesis

theorem applyCommands_related (relates : Relates simulation context left right)
    {leftCall : Plugin → Task → VariablesMap → Patterns → EStateM Stop σ Bool}
    {rightCall : Plugin → Task → VariablesMap → Patterns → EStateM Stop τ Bool}
    {leftNested : ExecutePlugin → Task → EStateM Stop σ Bool}
    {rightNested : ExecutePlugin → Task → EStateM Stop τ Bool}
    (calls : ∀ plugin task variablesMap patterns, simulation.Related
      (leftCall plugin task variablesMap patterns)
      (rightCall plugin task variablesMap patterns))
    (nested : ∀ executePlugin task, simulation.Related
      (leftNested executePlugin task) (rightNested executePlugin task))
    (task : Task) (pairs : List (Command × Command)) :
    simulation.Related (applyCommands left context leftCall leftNested task pairs)
      (applyCommands right context rightCall rightNested task pairs) := by
  induction pairs with
  | nil => exact simulation.pure true
  | cons pair rest inductionHypothesis =>
      rcases pair with ⟨command, initialCommand⟩
      rw [applyCommands, applyCommands]
      cases getNextStep context command with
      | none =>
          apply simulation.bind (relates.host _)
          intro _
          exact simulation.pure false
      | some step =>
          apply simulation.bind (relates.resolve step command initialCommand)
          intro variablesMap
          apply simulation.bind (getNextPatterns_related relates variablesMap)
          intro patterns
          have stepRelated : simulation.Related
              (applyStep leftCall leftNested step task variablesMap patterns)
              (applyStep rightCall rightNested step task variablesMap patterns) := by
            cases step with
            | plugin plugin => exact calls plugin task variablesMap patterns
            | commands executePlugin => exact nested executePlugin task
          apply simulation.bind stepRelated
          intro succeeded
          cases succeeded with
          | true => exact inductionHypothesis
          | false =>
              apply simulation.bind (relates.host _)
              intro _
              exact simulation.pure false

theorem apply_related (relates : Relates simulation context left right)
    {leftCall : Plugin → Task → VariablesMap → Patterns → EStateM Stop σ Bool}
    {rightCall : Plugin → Task → VariablesMap → Patterns → EStateM Stop τ Bool}
    (calls : ∀ plugin task variablesMap patterns, simulation.Related
      (leftCall plugin task variablesMap patterns)
      (rightCall plugin task variablesMap patterns))
    (fuel : Nat) (executePlugin : ExecutePlugin) (task : Task) :
    simulation.Related (apply left context leftCall fuel executePlugin task)
      (apply right context rightCall fuel executePlugin task) := by
  induction fuel generalizing executePlugin task with
  | zero => exact relates.stops .outOfFuel trivial
  | succ fuel inductionHypothesis =>
      rw [apply, apply]
      have loop := applyCommands_related relates calls inductionHypothesis task
        executePlugin.pairs
      have completed : simulation.Related
          (do
            let result ← applyCommands left context leftCall
              (apply left context leftCall fuel) task executePlugin.pairs
            left (.applied result)
            return result)
          (do
            let result ← applyCommands right context rightCall
              (apply right context rightCall fuel) task executePlugin.pairs
            right (.applied result)
            return result) := by
        apply simulation.bind loop
        intro result
        apply simulation.bind (relates.applied result)
        intro _
        exact simulation.pure result
      split
      · apply simulation.bind (relates.host _)
        intro _
        exact completed
      · exact completed

theorem callPlugin_related (relates : Relates simulation context left right)
    (fuel level : Nat) (plugin : Plugin) (task : Task) (variablesMap : VariablesMap)
    (patterns : Patterns) :
    simulation.Related (callPlugin left context fuel level plugin task variablesMap patterns)
      (callPlugin right context fuel level plugin task variablesMap patterns) := by
  induction level generalizing plugin task variablesMap patterns with
  | zero => exact relates.stops .outOfFuel trivial
  | succ level inductionHypothesis =>
      rw [callPlugin, callPlugin]
      apply simulation.interpret
      · intro op
        cases op with
        | host event => exact relates.host event
        | execute commands task =>
            exact apply_related relates inductionHypothesis fuel (.ofCommands commands) task
      · exact (Plugin.apply_stopsOnlyFor context.currentPath fuel task variablesMap patterns
          plugin).imp relates.stops

/-- A simulation of the effects of a run is a simulation of the run. -/
theorem run_related (relates : Relates simulation context left right) (fuel : Nat)
    (executePlugin : ExecutePlugin) (task : Task) :
    simulation.Related (run left context fuel executePlugin task)
      (run right context fuel executePlugin task) :=
  apply_related relates (callPlugin_related relates fuel fuel) fuel executePlugin task

end Simulation

/-! ## The recorded run -/

/-- Record every event of a run. -/
def record (event : RunEvent) : EStateM Stop (List RunEvent) Unit :=
  modify fun log => log ++ [event]

/-- The events of a run of the whole system, with how it ended. -/
def recordedRun (context : Context) (fuel : Nat) (commands : CommandCollection)
    (task : Task) : EStateM.Result Stop (List RunEvent) Bool :=
  run record context fuel (.ofCommands commands) task []

/-- The state a run ends in. -/
def finalState {ε σ α : Type} : EStateM.Result ε σ α → σ
  | .ok _ final => final
  | .error _ final => final

/-! ## The dereference in `index` -/

/-- Runs stop in `index` exactly when they come to a command that is not
resolvable. -/
private def resolvesContract (settings : SettingsNode) : Contract Stop (List RunEvent) where
  returns start final := ∃ events, final = start ++ events ∧
    ∀ command initialCommand, .resolving command initialCommand ∈ events →
      Resolvable settings command initialCommand
  stops start reason final := ∃ events, final = start ++ events ∧
    (reason = .emptyOptional .index ↔ ∃ command initialCommand,
      .resolving command initialCommand ∈ events ∧
        ¬Resolvable settings command initialCommand)
  refl start := ⟨[], by simp, by simp⟩
  trans := by
    rintro start middle final ⟨first, rfl, firstResolves⟩ ⟨second, rfl, secondResolves⟩
    refine ⟨first ++ second, by simp, ?_⟩
    intro command initialCommand resolving
    rcases List.mem_append.mp resolving with early | late
    · exact firstResolves command initialCommand early
    · exact secondResolves command initialCommand late
  after := by
    rintro start middle reason final ⟨first, rfl, firstResolves⟩ ⟨second, rfl, stops⟩
    refine ⟨first ++ second, by simp, stops.trans ?_⟩
    constructor
    · rintro ⟨command, initialCommand, resolving, missing⟩
      exact ⟨command, initialCommand, List.mem_append_right _ resolving, missing⟩
    · rintro ⟨command, initialCommand, resolving, missing⟩
      rcases List.mem_append.mp resolving with early | late
      · exact absurd (firstResolves command initialCommand early) missing
      · exact ⟨command, initialCommand, late, missing⟩

private theorem resolvesContract_relates (context : Context) :
    Relates (resolvesContract context.settings).simulation context record record where
  host event start := ⟨[.host event], rfl, by simp⟩
  applied result start := ⟨[.applied result], rfl, by simp⟩
  resolve step command initialCommand start := by
    have resolves := getVariablesMap_isOk_iff (stepVariables context.fleeting step)
      context.settings command initialCommand
    cases resolved : getVariablesMap (stepVariables context.fleeting step)
        (sectionKeys command initialCommand) context.settings with
    | ok variablesMap =>
        have run : ExecutePlugin.resolve record context step command initialCommand start =
            .ok variablesMap (start ++ [.resolving command initialCommand]) := by
          rw [ExecutePlugin.resolve, stepVariablesMap, resolved]
          rfl
        rw [run]
        refine ⟨[.resolving command initialCommand], rfl, ?_⟩
        intro otherCommand otherInitial resolving
        rcases RunEvent.resolving.inj (List.mem_singleton.mp resolving) with ⟨rfl, rfl⟩
        exact resolves.mp ⟨variablesMap, resolved⟩
    | error reason =>
        have run : ExecutePlugin.resolve record context step command initialCommand start =
            .error reason (start ++ [.resolving command initialCommand]) := by
          rw [ExecutePlugin.resolve, stepVariablesMap, resolved]
          rfl
        rw [run]
        refine ⟨[.resolving command initialCommand], rfl, ?_⟩
        have missing : ¬Resolvable context.settings command initialCommand := by
          intro resolvable
          rcases resolves.mpr resolvable with ⟨variablesMap, succeeded⟩
          rw [resolved] at succeeded
          cases succeeded
        exact ⟨fun _ => ⟨command, initialCommand, by simp, missing⟩,
          fun _ => getVariablesMap_error resolved⟩
  stops reason ofPlugin {α} start := by
    refine ⟨[], by simp, ?_⟩
    constructor
    · rintro rfl
      exact absurd rfl ofPlugin
    · simp

/-- A run dereferences no empty optional in `index` if and only if every command it
resolves the variables of has a value list in both of its sections, as far as they
exist. -/
theorem recordedRun_index_iff (context : Context) (fuel : Nat)
    (commands : CommandCollection) (task : Task) :
    (∀ log, recordedRun context fuel commands task ≠
        .error (.emptyOptional .index) log) ↔
      ∀ command initialCommand,
        .resolving command initialCommand ∈ finalState (recordedRun context fuel commands task) →
          Resolvable context.settings command initialCommand := by
  have respected : (resolvesContract context.settings).Holds
      (run record context fuel (.ofCommands commands) task) :=
    run_related (resolvesContract_relates context) fuel (.ofCommands commands) task
  cases outcome : recordedRun context fuel commands task with
  | ok result final =>
      rcases respected.returns outcome with ⟨events, rfl, resolves⟩
      simpa [finalState] using resolves
  | error reason final =>
      rcases respected.stops outcome with ⟨events, rfl, stops⟩
      rw [finalState]
      constructor
      · intro safe command initialCommand resolving
        by_contra missing
        have index := stops.mpr ⟨command, initialCommand, resolving, missing⟩
        exact safe _ (by rw [index])
      · intro resolves log same
        rcases EStateM.Result.error.inj same with ⟨index, -⟩
        rcases stops.mp index with ⟨command, initialCommand, resolving, missing⟩
        exact missing (resolves command initialCommand resolving)

/-- A plugin whose section is written without any value: the variables of `memory`
cannot be resolved. -/
theorem recordedRun_index_counterexample :
    ¬∀ (context : Context) (fuel : Nat) (commands : CommandCollection) (task : Task)
      (log : List RunEvent),
      recordedRun context fuel commands task ≠ .error (.emptyOptional .index) log := by
  intro claimed
  exact claimed
    { fleeting := {}, settings := ⟨"settings", some [.ofKey "memory"]⟩, patterns := ∅,
      plugins := ∅, currentPath := .root }
    1 ["memory"] ⟨[], ∅, "/"⟩ [.resolving "memory" "memory"] rfl

end ExecutePlugin

end ExecHelper.Plugins
