import ExecHelper.Plugins.Runs

/-!
# Runs are replays

The surroundings give a run nothing back: whatever they do with an event, the run
goes on in the same way or is cut short by them.  So a run in any surroundings is
the replay of the run that is recorded, which does not depend on them.
-/

namespace ExecHelper.Plugins.ExecutePlugin

open ExecHelper.Library
open ExecHelper.Config
open ExecHelper.Core

section Replay

variable {σ : Type} (host : RunEvent → EStateM Stop σ Unit)

/-- Let the surroundings take part in events that are known. -/
def replay : List RunEvent → EStateM Stop σ Unit
  | [] => return ()
  | event :: rest => do
      host event
      replay rest

theorem replay_singleton (event : RunEvent) : replay host [event] = host event := by
  rw [replay, replay]
  exact bind_pure (host event)

theorem replay_append (front back : List RunEvent) :
    replay host (front ++ back) = (do
      replay host front
      replay host back) := by
  induction front with
  | nil => rw [List.nil_append, replay, pure_bind]
  | cons event rest inductionHypothesis =>
      rw [List.cons_append, replay, replay, bind_assoc, inductionHypothesis]

/-- A computation that is recorded with these events and this end. -/
inductive ReplaysAs {α : Type} (recorded : EStateM Stop (List RunEvent) α)
    (computation : EStateM Stop σ α) (log : List RunEvent) : Prop where
  | returned (events : List RunEvent) (value : α)
      (recording : recorded log = .ok value (log ++ events))
      (replayed : computation = do
        replay host events
        return value)
  | stopped (events : List RunEvent) (reason : Stop)
      (recording : recorded log = .error reason (log ++ events))
      (replayed : computation = do
        replay host events
        throw reason)

variable {host} in
theorem ReplaysAs.bind {α β : Type} {recorded : EStateM Stop (List RunEvent) α}
    {computation : EStateM Stop σ α} {recordedNext : α → EStateM Stop (List RunEvent) β}
    {next : α → EStateM Stop σ β} {log : List RunEvent}
    (first : ReplaysAs host recorded computation log)
    (second : ∀ value log, ReplaysAs host (recordedNext value) (next value) log) :
    ReplaysAs host (recorded >>= recordedNext) (computation >>= next) log := by
  cases first with
  | stopped events reason recording replayed =>
      refine .stopped events reason (bind_of_eq_error recording) ?_
      rw [replayed, bind_assoc]
      rfl
  | returned events value recording replayed =>
      have joined : (computation >>= next) = (do
          replay host events
          next value) := by
        rw [replayed, bind_assoc]
        simp only [pure_bind]
      cases second value (log ++ events) with
      | returned later result laterRecording laterReplayed =>
          refine .returned (events ++ later) result ?_ ?_
          · rw [bind_of_eq_ok recording, laterRecording, List.append_assoc]
          · rw [joined, laterReplayed, replay_append, bind_assoc]
      | stopped later reason laterRecording laterReplayed =>
          refine .stopped (events ++ later) reason ?_ ?_
          · rw [bind_of_eq_ok recording, laterRecording, List.append_assoc]
          · rw [joined, laterReplayed, replay_append, bind_assoc]

/-- Recording and replaying simulates every computation. -/
def replaySimulation : Simulation Stop (List RunEvent) σ where
  Related recorded computation := ∀ log, ReplaysAs host recorded computation log
  pure value log := .returned [] value (by rw [List.append_nil]; rfl) (by rw [replay, pure_bind])
  bind first second log := (first log).bind second

private theorem record_replays (event : RunEvent) (log : List RunEvent) :
    ReplaysAs host (record event) (host event) log := by
  refine .returned [event] () rfl ?_
  rw [replay_singleton]
  exact (bind_pure (host event)).symm

private theorem throw_replays {α : Type} (reason : Stop) (log : List RunEvent) :
    ReplaysAs host (throw reason : EStateM Stop (List RunEvent) α) (throw reason) log :=
  .stopped [] reason (by rw [List.append_nil]; rfl) (by rw [replay, pure_bind])

private theorem replay_relates (context : Context) :
    Relates (replaySimulation host) context record host where
  host event := record_replays host (.host event)
  applied result := record_replays host (.applied result)
  resolve step command initialCommand log := by
    apply (record_replays host (.resolving command initialCommand) log).bind
    intro _ later
    rw [stepVariablesMap, stepVariablesMap]
    cases getVariablesMap (stepVariables context.fleeting step)
        (sectionKeys command initialCommand) context.settings with
    | ok variablesMap => exact (replaySimulation host).pure variablesMap later
    | error reason => exact throw_replays host reason later
  stops reason _ _ log := throw_replays host reason log

/-- End in the same way as a recorded run. -/
def ended {α : Type} : EStateM.Result Stop (List RunEvent) α → EStateM Stop σ α
  | .ok value _ => return value
  | .error reason _ => throw reason

/-- A run in any surroundings is the replay of the recorded run. -/
theorem run_eq_replay (context : Context) (fuel : Nat) (commands : CommandCollection)
    (task : Task) :
    run host context fuel (.ofCommands commands) task = (do
      replay host (finalState (recordedRun context fuel commands task))
      ended (recordedRun context fuel commands task)) := by
  have replays : ReplaysAs host (run record context fuel (.ofCommands commands) task)
      (run host context fuel (.ofCommands commands) task) [] :=
    run_related (replay_relates host context) fuel (.ofCommands commands) task []
  rw [recordedRun]
  cases replays with
  | returned events value recording replayed =>
      rw [recording, List.nil_append]
      exact replayed
  | stopped events reason recording replayed =>
      rw [recording, List.nil_append]
      exact replayed

end Replay

end ExecHelper.Plugins.ExecutePlugin
