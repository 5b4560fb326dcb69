import ExecHelper.Plugins.Correspondence

/-!
# What a run reads

Of the settings a run reads the entries of the commands it comes across, and of the
options the verbosity, the number of jobs and the commands.  So everything else may be
different without the run going differently: settings files can be merged, and a dry run
asks the shell for the same tasks in the same order.
-/

namespace ExecHelper.Plugins.ExecutePlugin

open ExecHelper.Library
open ExecHelper.Config
open ExecHelper.Core

/-! ## Commands a run comes across -/

/-- The events of a run tell that it came across a command: its variables are about to be
resolved, or nothing was found for it. -/
def Mentions (events : List RunEvent) (command : Command) : Prop :=
  (∃ initialCommand, .resolving command initialCommand ∈ events) ∨
    .host (.feedbackError ("Could not find a command or plugin called '" ++ command ++ "'")) ∈
      events

theorem Mentions.append {events : List RunEvent} {command : Command}
    (mentioned : Mentions events command) (later : List RunEvent) :
    Mentions (events ++ later) command := by
  rcases mentioned with ⟨initialCommand, resolving⟩ | reported
  · exact .inl ⟨initialCommand, List.mem_append_left later resolving⟩
  · exact .inr (List.mem_append_left later reported)

/-- Two contexts that differ in nothing but what a run does not read and in sections of the
settings. -/
structure SameButSections (context other : Context) : Prop where
  verbosity : other.fleeting.verbosity = context.fleeting.verbosity
  jobs : other.fleeting.jobs = context.fleeting.jobs
  commands : other.fleeting.commands = context.fleeting.commands
  patterns : other.patterns = context.patterns
  plugins : other.plugins = context.plugins
  currentPath : other.currentPath = context.currentPath

section Contexts

variable {context other : Context}

/-- The default variables depend on no other option. -/
theorem SameButSections.stepVariables (same : SameButSections context other) (step : NextStep) :
    stepVariables other.fleeting step = stepVariables context.fleeting step := by
  cases step with
  | commands executePlugin => rfl
  | plugin plugin =>
      cases plugin <;>
        simp only [ExecutePlugin.stepVariables, Plugin.getVariablesMap,
          CommandLineCommand.getVariablesMap, Memory.getVariablesMap, Valgrind.getVariablesMap,
          Pmd.getVariablesMap, Lcov.getVariablesMap, CommandPlugin.getVariablesMap,
          LuaPlugin.getVariablesMap, verbosityValue, same.verbosity, same.jobs, same.commands]

theorem getNextPatterns_congr {σ : Type} (host : RunEvent → EStateM Stop σ Unit)
    (same : SameButSections context other) (variablesMap : VariablesMap) :
    getNextPatterns host other variablesMap = getNextPatterns host context variablesMap := by
  rw [getNextPatterns, getNextPatterns]
  generalize (variablesMap.getValues [patternsKey]).getD [] = keys
  induction keys with
  | nil => rfl
  | cons key rest inductionHypothesis =>
      rw [getNextPatterns.go, getNextPatterns.go, same.patterns, inductionHypothesis]

variable {command : Command}

theorem getNextStep_congr (same : SameButSections context other)
    (agree : other.settings.at? command = context.settings.at? command) :
    getNextStep other command = getNextStep context command := by
  rw [getNextStep, getNextStep, same.plugins, SettingsNode.getValues_eq,
    SettingsNode.getValues_eq, SettingsNode.atPath?_cons, SettingsNode.atPath?_cons, agree]

/-- One section is laid over the variables as the entry of its first name says. -/
theorem index_congr {settings otherSettings : SettingsNode}
    (agree : otherSettings.at? command = settings.at? command) (variablesMap : VariablesMap)
    (rest : SettingsKeys) :
    index variablesMap otherSettings (command :: rest) =
      index variablesMap settings (command :: rest) := by
  rw [index, index, SettingsNode.contains_cons, SettingsNode.contains_cons,
    SettingsNode.getValues_eq, SettingsNode.getValues_eq, SettingsNode.atPath?_cons,
    SettingsNode.atPath?_cons, agree]

theorem getVariablesMap_congr {settings otherSettings : SettingsNode}
    (agree : otherSettings.at? command = settings.at? command) (variablesMap : VariablesMap)
    (initialCommand : Command) :
    getVariablesMap variablesMap (sectionKeys command initialCommand) otherSettings =
      getVariablesMap variablesMap (sectionKeys command initialCommand) settings := by
  simp only [sectionKeys, getVariablesMap_cons, getVariablesMap_nil, index_congr agree]

end Contexts

/-! ## Locality -/

section Locality

variable {context other : Context}

/-- Two contexts disagree about a command the events tell of. -/
private def Lost (context other : Context) (events : List RunEvent) : Prop :=
  ∃ command, Mentions events command ∧
    other.settings.at? command ≠ context.settings.at? command

private theorem Lost.append {events : List RunEvent} (lost : Lost context other events)
    (later : List RunEvent) : Lost context other (events ++ later) := by
  obtain ⟨command, mentioned, different⟩ := lost
  exact ⟨command, mentioned.append later, different⟩

private abbrev agreeing (context other : Context) :
    Simulation Stop (List RunEvent) (List RunEvent) :=
  sameUnless (Lost context other)

private theorem agreeing_record (event : RunEvent) :
    (agreeing context other).Related (record event) (record event) := by
  intro start kept
  exact ⟨fun lost => kept (lost.append [event]), rfl⟩

private theorem agreeing_throw (reason : Stop) :
    (agreeing context other).RelatesStop reason := by
  intro α start kept
  exact ⟨kept, rfl⟩

private theorem agreeing_stepVariablesMap (defaults : VariablesMap)
    (command initialCommand : Command) :
    (agreeing context other).Related (stepVariablesMap context defaults command initialCommand)
      (stepVariablesMap context defaults command initialCommand) := by
  rw [stepVariablesMap]
  cases getVariablesMap defaults (sectionKeys command initialCommand) context.settings with
  | ok variablesMap => exact (agreeing context other).pure variablesMap
  | error reason => exact agreeing_throw reason

private theorem agreeing_relates :
    Relates (agreeing context other) context record record where
  host event := agreeing_record (.host event)
  applied result := agreeing_record (.applied result)
  resolve step command initialCommand := by
    apply (agreeing context other).bind (agreeing_record _)
    intro _
    exact agreeing_stepVariablesMap _ command initialCommand
  stops reason _ := agreeing_throw reason

/-- After an event that loses the agreement nothing is left to show. -/
private theorem agreeing_of_lost {α : Type} {event : RunEvent}
    {next : Unit → EStateM Stop (List RunEvent) α} {right : EStateM Stop (List RunEvent) α}
    (lost : ∀ events, Lost context other (events ++ [event]))
    (stays : ∃ otherNext, (agreeing context other).Related (next ()) otherNext) :
    (agreeing context other).Related (record event >>= next) right := by
  intro start
  obtain ⟨otherNext, kept⟩ := stays
  have recorded : record event start = .ok () (start ++ [event]) := rfl
  have later := kept (start ++ [event])
  rw [SameAsKept] at later ⊢
  rw [bind_of_eq_ok recorded]
  cases ended : next () (start ++ [event]) with
  | ok value final =>
      rw [ended] at later
      intro agrees
      exact absurd (lost start) (later agrees).1
  | error reason final =>
      rw [ended] at later
      intro agrees
      exact absurd (lost start) (later agrees).1

private theorem agreeing_corresponds (same : SameButSections context other) :
    Corresponds (agreeing context other) id context other record record where
  host event := by
    have unchanged : event.mapTask id = event := by cases event <;> rfl
    rw [unchanged]
    exact agreeing_record (.host event)
  applied result := agreeing_record (.applied result)
  stops reason _ := agreeing_throw reason
  currentPath := same.currentPath
  plugins command plugin _ := plugin.carries_id context.currentPath
  step command initialCommand leftRest rightRest restRelated := by
    -- The rest is related whatever the other context resolves the command to.
    have afterwards : ∀ step, getNextStep context command = some step → ∀ variablesMap,
        (agreeing context other).Related
          (getNextPatterns record context variablesMap >>= leftRest step variablesMap)
          (getNextPatterns record context variablesMap >>= rightRest step variablesMap) := by
      intro step found variablesMap
      apply (agreeing context other).bind (getNextPatterns_related agreeing_relates variablesMap)
      intro patterns
      exact restRelated step found variablesMap patterns
    by_cases agree : other.settings.at? command = context.settings.at? command
    · rw [stepInto, stepInto, getNextStep_congr same agree]
      cases found : getNextStep context command with
      | none =>
          apply (agreeing context other).bind (agreeing_record _)
          intro _
          exact (agreeing context other).pure false
      | some step =>
          have resolved : resolve record other step command initialCommand =
              resolve record context step command initialCommand := by
            rw [resolve, resolve, stepVariablesMap, stepVariablesMap, same.stepVariables,
              getVariablesMap_congr agree]
          simp only [resolved, getNextPatterns_congr record same]
          apply (agreeing context other).bind (agreeing_relates.resolve step command initialCommand)
          intro variablesMap
          exact afterwards step found variablesMap
    · rw [stepInto]
      cases found : getNextStep context command with
      | none =>
          apply agreeing_of_lost
          · intro events
            exact ⟨command, .inr (List.mem_append_right events (List.mem_singleton.mpr rfl)),
              agree⟩
          · exact ⟨_, (agreeing context other).pure false⟩
      | some step =>
          simp only [resolve, bind_assoc]
          apply agreeing_of_lost
          · intro events
            exact ⟨command, .inl ⟨initialCommand, List.mem_append_right events
              (List.mem_singleton.mpr rfl)⟩, agree⟩
          · exact ⟨_, (agreeing context other).bind
              (agreeing_stepVariablesMap _ command initialCommand) (afterwards step found)⟩

/-- The recorded run is the same in two contexts that agree about every command it comes
across. -/
theorem recordedRun_congr (same : SameButSections context other) (fuel : Nat)
    (commands : CommandCollection) (task : Task)
    (agree : ∀ command,
      Mentions (finalState (recordedRun context fuel commands task)) command →
        other.settings.at? command = context.settings.at? command) :
    recordedRun other fuel commands task = recordedRun context fuel commands task := by
  have kept : ¬Lost context other (finalState (recordedRun context fuel commands task)) := by
    rintro ⟨command, mentioned, different⟩
    exact different (agree command mentioned)
  have related := run_corresponds (agreeing_corresponds same) fuel (.ofCommands commands) task []
  rw [SameAsKept] at related
  rw [recordedRun] at kept ⊢
  rw [recordedRun]
  cases ended : run record context fuel (.ofCommands commands) task [] with
  | ok value final =>
      rw [ended] at related kept
      exact (related kept).2
  | error reason final =>
      rw [ended] at related kept
      exact (related kept).2

end Locality

/-- A run reads no more than the sections of the commands it comes across: in any surroundings
it goes the same way in two contexts that agree about these, whatever else they hold. -/
theorem run_unmentioned {σ : Type} (host : RunEvent → EStateM Stop σ Unit)
    (context other : Context) (same : SameButSections context other) (fuel : Nat)
    (commands : CommandCollection) (task : Task)
    (agree : ∀ command,
      Mentions (finalState (recordedRun context fuel commands task)) command →
        other.settings.at? command = context.settings.at? command) :
    run host other fuel (.ofCommands commands) task =
      run host context fuel (.ofCommands commands) task := by
  rw [run_eq_replay, run_eq_replay, recordedRun_congr same fuel commands task agree]

/-- In a dry run that keeps going, with the settings of another command added, the memory
plugin is called as it was. -/
theorem run_unmentioned_memory :
    run record
        { fleeting := { dryRun := true, keepGoing := true },
          settings := ⟨"settings", some [⟨"make", some [.ofKey "memory"]⟩,
            ⟨"memory", some [.ofKey "build"]⟩]⟩,
          patterns := ∅, plugins := ∅, currentPath := .root }
        2 (.ofCommands ["memory"]) ⟨[], ∅, "/"⟩ =
      run record
        { fleeting := {}, settings := ⟨"settings", some [⟨"memory", some [.ofKey "build"]⟩]⟩,
          patterns := ∅, plugins := ∅, currentPath := .root }
        2 (.ofCommands ["memory"]) ⟨[], ∅, "/"⟩ := by
  apply run_unmentioned
  · exact ⟨rfl, rfl, rfl, rfl, rfl, rfl⟩
  · intro command mentioned
    have onlyMemory : command = "memory" := by
      rcases mentioned with ⟨initialCommand, resolving⟩ | reported
      · have resolved : RunEvent.resolving command initialCommand ∈
            [RunEvent.resolving "memory" "memory", .host (.remember _ _ _), .applied true] :=
          resolving
        simp only [List.mem_cons, RunEvent.resolving.injEq, List.not_mem_nil, reduceCtorEq,
          or_false] at resolved
        exact resolved.1
      · have hosted : RunEvent.host (.feedbackError _) ∈
            [RunEvent.resolving "memory" "memory", .host (.remember _ _ _), .applied true] :=
          reported
        simp at hosted
    subst onlyMemory
    rfl

end ExecHelper.Plugins.ExecutePlugin
