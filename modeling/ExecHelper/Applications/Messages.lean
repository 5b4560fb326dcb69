import ExecHelper.Applications.DryRun
import ExecHelper.Applications.Options

/-!
# Messages

Whatever the program does before it runs its commands changes nothing but what the user is
told.  What the user was told before makes no difference to a run, so a run is the same
after these messages as from the start.
-/

namespace ExecHelper.Applications

open ExecHelper.Library
open ExecHelper.Config
open ExecHelper.Core
open ExecHelper.Plugins
open ExecHelper.Commander
open ExecHelper.Yaml
open ExecHelper.Plugins.ExecutePlugin (Relates)

/-! ## Saying something -/

/-- The system after messages. -/
def System.saying (system : System) (messages : List Feedback) : System :=
  { system with feedback := system.feedback ++ messages }

@[simp] theorem System.saying_nil (system : System) : system.saying [] = system := by
  simp [System.saying]

@[simp] theorem System.saying_saying (system : System) (first second : List Feedback) :
    (system.saying first).saying second = system.saying (first ++ second) := by
  simp [System.saying, List.append_assoc]

/-- Only messages are added, and nothing but an exception ends the process. -/
def onlyMessages : Contract Stop System where
  returns start final := ∃ messages, final = start.saying messages
  stops start reason final := reason = .terminate ∧ ∃ messages, final = start.saying messages
  refl start := ⟨[], start.saying_nil.symm⟩
  trans := by
    rintro start _ _ ⟨first, rfl⟩ ⟨second, rfl⟩
    exact ⟨first ++ second, start.saying_saying first second⟩
  after := by
    rintro start _ reason _ ⟨first, rfl⟩ ⟨terminates, second, rfl⟩
    exact ⟨terminates, first ++ second, start.saying_saying first second⟩

/-- The computation says something and returns the value. -/
def Tells {α : Type} (computation : EStateM Stop System α) (value : α) : Prop :=
  ∀ system : System, ∃ messages, computation system = .ok value (system.saying messages)

section Saying

variable {α β : Type} {computation : EStateM Stop System α} {value : α}

theorem tells_of_yields (yields : Yields computation value)
    (holds : onlyMessages.Holds computation) : Tells computation value := by
  intro system
  obtain ⟨final, ran⟩ := yields system
  obtain ⟨messages, rfl⟩ := holds.returns ran
  exact ⟨messages, ran⟩

theorem Tells.pure (value : α) : Tells (Pure.pure value) value :=
  fun system => ⟨[], congrArg (EStateM.Result.ok value) system.saying_nil.symm⟩

theorem Tells.bind {continuation : α → EStateM Stop System β} {result : β}
    (first : Tells computation value) (second : Tells (continuation value) result) :
    Tells (computation >>= continuation) result := by
  intro system
  obtain ⟨before, firstRun⟩ := first system
  obtain ⟨after, secondRun⟩ := second (system.saying before)
  refine ⟨before ++ after, ?_⟩
  rw [bind_of_eq_ok firstRun, secondRun, System.saying_saying]

theorem Tells.yields (tells : Tells computation value) : Yields computation value := by
  intro system
  obtain ⟨messages, ran⟩ := tells system
  exact ⟨_, ran⟩

theorem Tells.holds (tells : Tells computation value) : onlyMessages.Holds computation := by
  intro system
  obtain ⟨messages, ran⟩ := tells system
  rw [ran]
  exact ⟨messages, rfl⟩

/-- A loop that says something about every element. -/
theorem Tells.foldlM {step : α → EStateM Stop System Unit}
    (each : ∀ element, Tells (step element) ()) (elements : List α) :
    Tells (elements.foldlM (fun _ element => step element) ()) () :=
  tells_of_yields
    (Yields.foldlM (fun _ element => (each element).yields) elements ())
    (onlyMessages.holds_foldlM (fun _ element => (each element).holds) elements ())

end Saying

/-! ## The settings -/

section Settings

variable {asString : YamlNode → Option SettingsValue}

end Settings

/-! ## Plugins and options -/

section Preparing

variable {descriptions : OptionDescriptions} {parsed : ParsedOptions}
variable {args : PointerArray} {arguments : List String} {allowUnregistered : Bool}

end Preparing

/-! ## After messages -/

/-- The system with messages in front of the others. -/
def System.after (messages : List Feedback) (system : System) : System :=
  { system with feedback := messages ++ system.feedback }

section After

variable {messages : List Feedback} {fleetingOptions : FleetingOptions} {shell : Shell}

@[simp] theorem System.after_announced (system : System) (task : Task) :
    (system.announced task).after messages = (system.after messages).announced task := by
  simp [System.after, System.announced, List.append_assoc]

end After

end ExecHelper.Applications
