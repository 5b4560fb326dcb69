import ExecHelper.Core.MapPermutator
import ExecHelper.Core.Task

/-!
# What plugins can do

A plugin is handed a task, its variables and its patterns, and reports success
or failure.  While it runs it registers tasks, writes messages to the user and
has other commands executed.  A plugin is written as a program over these
operations, so that its meaning does not depend on who executes the tasks.

Besides what the source does, a script that succeeds although one of its
executions had failed leaves a mark.  The mark leaves no trace in the source, and
nothing in the model reads it.
-/

namespace ExecHelper.Plugins

open ExecHelper.Library
open ExecHelper.Config
open ExecHelper.Core

/-- One effect of a plugin on its surroundings. -/
inductive HostEvent where
  /-- A task is handed to the execute callback. -/
  | registerTask (task : Task)
  /-- The memory plugin keeps what it was called with. -/
  | remember (task : Task) (variablesMap : VariablesMap) (patterns : Patterns)
  /-- A message is written to the error output (`user_feedback_error`). -/
  | feedbackError (text : String)
  /-- Mark: a script succeeded although one of its executions had failed. -/
  | failureDropped

/-- The operations a plugin uses. `execute` is the construction of an
`ExecutePlugin` for the commands followed by its `apply`, which reads nothing but
the task of what it is passed. -/
inductive PluginOp where
  | host (event : HostEvent)
  | execute (commands : CommandCollection) (task : Task)

def PluginOp.Answer : PluginOp → Type
  | .host _ => Unit
  | .execute _ _ => Bool

abbrev pluginInterface : Interface := ⟨PluginOp, PluginOp.Answer⟩

abbrev PluginProgram := Program Stop pluginInterface

/-- One effect on the surroundings. -/
def host (event : HostEvent) : PluginProgram Unit :=
  @Program.perform Stop pluginInterface (.host event)

/-- Execute commands with a task (`ExecutePlugin(commands).apply(task, ..)`). -/
def execute (commands : CommandCollection) (task : Task) : PluginProgram Bool :=
  @Program.perform Stop pluginInterface (.execute commands task)

/-- Register a task for execution. -/
def registerTask (task : Task) : PluginProgram Bool := do
  host (.registerTask task)
  return true

def feedbackError (text : String) : PluginProgram Unit := host (.feedbackError text)

/-- Go on only after success (`if(!step) { return false; }`). -/
def ifSucceeds (step rest : PluginProgram Bool) : PluginProgram Bool := do
  match ← step with
  | true => rest
  | false => pure false

@[simp] theorem ifSucceeds_pure_true (rest : PluginProgram Bool) :
    ifSucceeds (pure true) rest = rest := rfl

@[simp] theorem ifSucceeds_pure (step : PluginProgram Bool) :
    ifSucceeds step (pure true) = step := by
  have same : (fun succeeded : Bool => match succeeded with
      | true => (pure true : PluginProgram Bool)
      | false => pure false) = pure := by
    funext succeeded
    cases succeeded <;> rfl
  rw [ifSucceeds, same, bind_pure]

theorem ifSucceeds_assoc (first second third : PluginProgram Bool) :
    ifSucceeds (ifSucceeds first second) third =
      ifSucceeds first (ifSucceeds second third) := by
  simp only [ifSucceeds, bind_assoc]
  congr 1
  funext succeeded
  cases succeeded <;> rfl

/-- Dereference an optional without testing it. -/
def dereference {α : Type} (site : Dereference) : Option α → PluginProgram α
  | some value => pure value
  | none => .stop (.emptyOptional site)

@[simp] theorem dereference_some {α : Type} (site : Dereference) (value : α) :
    dereference site (some value) = pure value := rfl

/-- What a `noexcept` function returns. Where it throws, the process is terminated. -/
def orTerminate {α : Type} : Option α → PluginProgram α
  | some value => pure value
  | none => .stop .terminate

@[simp] theorem orTerminate_some {α : Type} (value : α) :
    orTerminate (some value) = pure value := rfl

@[simp] theorem orTerminate_none {α : Type} :
    orTerminate (none : Option α) = .stop .terminate := rfl

end ExecHelper.Plugins
