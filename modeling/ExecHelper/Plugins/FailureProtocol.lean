import ExecHelper.Plugins.ExecutePlugin

/-!
# What plugins do with failures

A plugin that had commands executed has to do something with a failure: it fails
itself or, if it is a script, it may end as if nothing had happened, which leaves
a mark.  That every plugin does one or the other, and for which reasons it can
stop on the way, is read off its program once.
-/

namespace ExecHelper.Plugins

open ExecHelper.Library
open ExecHelper.Config
open ExecHelper.Core

/-- The reasons a plugin itself can stop for. -/
def OfPlugin : Stop → Prop
  | .emptyOptional site => site ≠ .index
  | .outOfBounds => True
  | .outOfFuel => True
  | .terminate => True
  | .exit _ => False

/-- What an operation makes of the failures of a plugin that are still open. -/
def openFailure (failed : Bool) : (op : PluginOp) → op.Answer → Bool
  | .host .failureDropped, _ => false
  | .host _, _ => failed
  | .execute _ _, succeeded => failed || !succeeded

/-- The phase tells whether a failure is open; only then can one be dropped. -/
def failureProtocol : Protocol Stop pluginInterface where
  Phase := Bool
  allowed := OfPlugin
  permitted failed op := op = .host .failureDropped → failed = true
  advance := openFailure

/-- The program leaves open failures alone. -/
def Quiet {α : Type} (program : PluginProgram α) : Prop :=
  ∀ failed, failureProtocol.Conforms (fun _ last => last = failed) program failed

/-- The program opens a failure only if it fails itself. -/
def HandsOn (failure : Bool → Prop) (program : PluginProgram Bool) (failed : Bool) : Prop :=
  failureProtocol.Conforms (failureProtocol.EndsIn failed failure) program failed

/-- Nothing is said of the phase after a failure. -/
def anyPhase (_ : Bool) : Prop := True

section Parts

variable {α β : Type} {failure : Bool → Prop} {failed : Bool}

theorem quiet_pure (value : α) : Quiet (pure value) := fun _ => rfl

theorem quiet_host {event : HostEvent} (notDropped : event ≠ .failureDropped) :
    Quiet (host event) := by
  intro failed
  refine ⟨fun dropped => absurd (PluginOp.host.inj dropped) notDropped, fun _ => ?_⟩
  cases event with
  | failureDropped => exact absurd rfl notDropped
  | registerTask task => rfl
  | remember task variablesMap patterns => rfl
  | feedbackError text => rfl

theorem quiet_feedbackError (text : String) : Quiet (feedbackError text) :=
  quiet_host (by simp)

theorem quiet_dereference {site : Dereference} (notIndex : site ≠ .index)
    (value : Option α) : Quiet (dereference site value) := by
  cases value with
  | none => exact fun _ => notIndex
  | some value => exact quiet_pure value

theorem quiet_orTerminate (value : Option α) : Quiet (orTerminate value) := by
  cases value with
  | none => exact fun _ => trivial
  | some value => exact quiet_pure value

theorem Quiet.bind {first : PluginProgram α} {second : α → PluginProgram β}
    (firstQuiet : Quiet first) (secondQuiet : ∀ value, Quiet (second value)) :
    Quiet (first >>= second) := by
  intro failed
  apply Protocol.Conforms.bind (firstQuiet failed)
  rintro value _ rfl
  exact secondQuiet value _

theorem quiet_mapM {body : α → PluginProgram β} (inputs : List α)
    (bodies : ∀ input, Quiet (body input)) : Quiet (inputs.mapM body) := by
  intro failed
  have conforms : failureProtocol.Conforms
      (fun outputs last => (∀ output ∈ outputs, True) ∧ last = failed) (inputs.mapM body)
      failed := by
    apply Protocol.Conforms.mapM inputs
    exact fun input => (bodies input failed).imp fun _ _ same => ⟨trivial, same⟩
  exact conforms.imp fun _ _ both => both.2

theorem Quiet.then_handsOn {first : PluginProgram α} {second : α → PluginProgram Bool}
    (quiet : Quiet first) (handsOn : ∀ value, HandsOn failure (second value) failed) :
    HandsOn failure (first >>= second) failed := by
  apply Protocol.Conforms.bind (quiet failed)
  rintro value _ rfl
  exact handsOn value

theorem handsOn_true : HandsOn failure (pure true) failed := rfl

theorem handsOn_registerTask (task : Task) : HandsOn failure (registerTask task) failed :=
  (quiet_host (by simp)).then_handsOn fun _ => handsOn_true

/-- After the failure of an execution, a failure is open. -/
theorem handsOn_execute (opened : failure true) (commands : CommandCollection)
    (task : Task) : HandsOn failure (execute commands task) failed := by
  constructor
  · exact fun dropped => nomatch dropped
  · intro succeeded
    cases succeeded with
    | true => exact Bool.or_false failed
    | false =>
        have nowOpen : openFailure failed (.execute commands task) false = true :=
          Bool.or_true failed
        exact Eq.subst nowOpen.symm opened

theorem handsOn_failure (text : String) :
    HandsOn anyPhase (do feedbackError text; return false) failed :=
  (quiet_feedbackError text).then_handsOn fun _ => trivial

theorem handsOn_ite {condition : Prop} [Decidable condition]
    {left right : PluginProgram Bool} (first : HandsOn failure left failed)
    (second : HandsOn failure right failed) :
    HandsOn failure (if condition then left else right) failed := by
  split
  · exact first
  · exact second

theorem handsOn_ifSucceeds {step rest : PluginProgram Bool}
    (first : HandsOn failure step failed) (second : HandsOn failure rest failed) :
    HandsOn failure (ifSucceeds step rest) failed :=
  conforms_ifSucceeds first second

theorem handsOn_allM {body : α → PluginProgram Bool} (inputs : List α)
    (bodies : ∀ input, HandsOn failure (body input) failed) :
    HandsOn failure (inputs.allM body) failed :=
  conforms_allM fun input _ => bodies input

theorem handsOn_forEachCombination (fuel : Nat) (patterns : Patterns)
    {body : PatternCombinations → PluginProgram Bool}
    (bodies : ∀ combination, HandsOn failure (body combination) failed) :
    HandsOn failure (forEachCombination fuel patterns body) failed :=
  conforms_forEachCombination trivial trivial fuel patterns bodies

/-- Registering a task with a combination substituted. -/
theorem handsOn_registerReplaced (currentPath : CurrentPath) (task : Task)
    (combination : PatternCombinations) :
    HandsOn failure (do
      let newTask ← orTerminate (replacePatternCombinations currentPath task combination)
      registerTask newTask) failed :=
  (quiet_orTerminate _).then_handsOn fun newTask => handsOn_registerTask newTask

end Parts

/-! ## The plugins -/

section Plugins

variable (currentPath : CurrentPath) (fuel : Nat) (task : Task) (variablesMap : VariablesMap)
variable (patterns : Patterns)

private theorem commandLineCommand_handsOn :
    HandsOn anyPhase
      (CommandLineCommand.apply currentPath fuel task variablesMap patterns) false := by
  rw [CommandLineCommand.apply]
  refine (quiet_orTerminate _).then_handsOn fun configured => ?_
  apply (quiet_dereference (by decide) _).then_handsOn
  intro commandLine
  cases commandLine with
  | nil => exact handsOn_failure _
  | cons front rest =>
      apply Quiet.then_handsOn
      · split
        · exact quiet_pure _
        · apply quiet_mapM
          intro commandKey
          exact (quiet_dereference (by decide) _).bind fun _ => quiet_pure _
      · intro tasks
        apply handsOn_forEachCombination
        intro combination
        exact handsOn_allM tasks fun _ => handsOn_registerReplaced _ _ _

private theorem pmd_handsOn :
    HandsOn anyPhase (Pmd.apply currentPath fuel task variablesMap patterns) false := by
  rw [Pmd.apply]
  refine (quiet_dereference (by decide) _).then_handsOn fun binaryName => ?_
  refine (quiet_dereference (by decide) _).then_handsOn fun tool => ?_
  refine (quiet_dereference (by decide) _).then_handsOn fun verbosity => ?_
  refine (quiet_dereference (by decide) _).then_handsOn fun commandLine => ?_
  exact handsOn_forEachCombination fuel patterns fun _ => handsOn_registerReplaced _ _ _

private theorem valgrind_handsOn :
    HandsOn anyPhase (Valgrind.apply currentPath fuel task variablesMap patterns) false := by
  rw [Valgrind.apply]
  cases variablesMap.getValues [Valgrind.RUN_COMMAND_KEY] with
  | none => exact handsOn_failure _
  | some runCommand =>
      refine (quiet_dereference (by decide) _).then_handsOn fun verbosity => ?_
      refine (quiet_dereference (by decide) _).then_handsOn fun commandLine => ?_
      apply handsOn_forEachCombination
      intro combination
      exact (quiet_orTerminate _).then_handsOn fun _ => handsOn_execute trivial _ _

private theorem lcov_handsOn :
    HandsOn anyPhase (Lcov.apply currentPath fuel task variablesMap patterns) false := by
  rw [Lcov.apply]
  cases variablesMap.getValues [Lcov.RUN_COMMAND] with
  | none => exact handsOn_failure _
  | some runCommands =>
      cases runCommands with
      | nil => exact handsOn_failure _
      | cons command rest =>
          refine (quiet_dereference (by decide) _).then_handsOn fun infoFile => ?_
          refine (quiet_dereference (by decide) _).then_handsOn fun baseDirectory => ?_
          refine (quiet_dereference (by decide) _).then_handsOn fun directory => ?_
          refine (quiet_dereference (by decide) _).then_handsOn fun commandLine => ?_
          refine (quiet_dereference (by decide) _).then_handsOn fun zeroCounters => ?_
          refine (quiet_dereference (by decide) _).then_handsOn fun genHtml => ?_
          refine Quiet.then_handsOn ?_ fun genHtmlTask => ?_
          · split
            · refine (quiet_dereference (by decide) _).bind fun output => ?_
              refine (quiet_dereference (by decide) _).bind fun title => ?_
              exact (quiet_dereference (by decide) _).bind fun _ => quiet_pure _
            · exact quiet_pure _
          · refine (quiet_dereference (by decide) _).then_handsOn fun exclude => ?_
            apply handsOn_forEachCombination
            intro combination
            have registered : ∀ registeredTask,
                HandsOn anyPhase (Lcov.runTask currentPath registeredTask combination) false :=
              fun _ => handsOn_registerReplaced _ _ _
            apply handsOn_ifSucceeds (handsOn_ite (registered _) handsOn_true)
            apply handsOn_ifSucceeds (handsOn_execute trivial _ _)
            apply handsOn_ifSucceeds (registered _)
            apply handsOn_ifSucceeds (handsOn_ite handsOn_true (registered _))
            apply handsOn_ifSucceeds (handsOn_ite (registered _) handsOn_true)
            exact handsOn_true

/-- The failures of executed targets stay open. -/
private theorem runTarget_conforms (targetTask : Task) (commands : CommandCollection)
    (failed : Bool) :
    failureProtocol.Conforms (fun result last => last = (failed || !result))
      (LuaPlugin.runTarget currentPath fuel patterns targetTask commands) failed := by
  have handsOn : HandsOn (· = true)
      (LuaPlugin.runTarget currentPath fuel patterns targetTask commands) failed := by
    apply handsOn_forEachCombination
    intro combination
    exact (quiet_orTerminate _).then_handsOn fun _ =>
      @handsOn_execute (· = true) failed rfl _ _
  apply handsOn.imp
  intro result last ends
  cases result with
  | true =>
      have same : last = failed := ends
      rw [same]
      exact (Bool.or_false failed).symm
  | false =>
      have opened : last = true := ends
      rw [opened]
      exact (Bool.or_true failed).symm

/-- A script that ends with an open failure drops it. -/
private theorem runScript_conforms (script : Path) (scriptRun : ScriptRun) (tasks : List Task)
    (failed : Bool) :
    failureProtocol.Conforms (failureProtocol.EndsIn false anyPhase)
      (LuaPlugin.runScript currentPath fuel script patterns scriptRun tasks failed) failed := by
  have tasksHandOn : ∀ tasks,
      HandsOn anyPhase (LuaPlugin.registerTasks currentPath fuel patterns tasks) false := by
    intro tasks
    apply handsOn_allM
    intro queued
    exact handsOn_forEachCombination fuel patterns fun _ => handsOn_registerReplaced _ _ _
  induction scriptRun generalizing tasks failed with
  | finished =>
      rw [LuaPlugin.runScript]
      cases failed with
      | true => exact ⟨fun _ => rfl, fun _ => tasksHandOn tasks⟩
      | false => exact tasksHandOn tasks
  | failed error =>
      rw [LuaPlugin.runScript]
      cases error.feedback script with
      | none => trivial
      | some message => exact ⟨fun dropped => (nomatch dropped), fun _ => trivial⟩
  | undefined => exact show Dereference.luaConfig ≠ .index by decide
  | diverged => trivial
  | userFeedbackError message next inductionHypothesis =>
      exact ⟨fun dropped => (nomatch dropped), fun _ => inductionHypothesis tasks failed⟩
  | registerTask registered next inductionHypothesis =>
      exact inductionHypothesis (tasks ++ [registered]) failed
  | runTarget targetTask commands next inductionHypothesis =>
      rw [LuaPlugin.runScript]
      apply Protocol.Conforms.bind
        (runTarget_conforms currentPath fuel patterns targetTask commands failed)
      rintro result _ rfl
      exact inductionHypothesis result tasks _

/-- Every plugin hands its failures on or drops them openly. -/
theorem Plugin.apply_handsOn (plugin : Plugin) :
    HandsOn anyPhase (plugin.apply currentPath fuel task variablesMap patterns) false := by
  cases plugin with
  | commandLineCommand =>
      exact commandLineCommand_handsOn currentPath fuel task variablesMap patterns
  | memory returnCode =>
      apply (quiet_host (by simp)).then_handsOn
      intro _
      cases returnCode with
      | true => exact handsOn_true
      | false => trivial
  | valgrind => exact valgrind_handsOn currentPath fuel task variablesMap patterns
  | pmd => exact pmd_handsOn currentPath fuel task variablesMap patterns
  | lcov => exact lcov_handsOn currentPath fuel task variablesMap patterns
  | commandPlugin =>
      apply (quiet_dereference (by decide) _).then_handsOn
      intro commands
      exact handsOn_execute trivial commands task
  | luaPlugin script =>
      refine (quiet_orTerminate _).then_handsOn fun directoryTask => ?_
      apply Quiet.then_handsOn
      · rw [LuaPlugin.jobs]
        split
        · exact quiet_pure _
        · split
          · exact quiet_pure _
          · exact (quiet_feedbackError _).bind fun _ => quiet_pure _
      · intro jobs
        exact runScript_conforms currentPath fuel patterns script.path _ [] false

/-- No plugin exits or dereferences what `index` does. -/
theorem Plugin.apply_stopsOnlyFor (plugin : Plugin) :
    (plugin.apply currentPath fuel task variablesMap patterns).StopsOnlyFor OfPlugin :=
  (Plugin.apply_handsOn currentPath fuel task variablesMap patterns plugin).stopsOnlyFor

end Plugins

end ExecHelper.Plugins
