import ExecHelper.Applications.Messages
import ExecHelper.Applications.SettingsPatterns
import ExecHelper.Applications.SettingsSearch

/-!
# The program

The command line is parsed twice.  The first time only the options of the program are
known, which is enough to find the settings file; the second time the options of its
patterns are known as well.  A request for information is answered as soon as everything it
needs is there, also without a settings file, and only what is left runs commands.
-/

namespace ExecHelper.Applications

open Std (ExtTreeMap)
open ExecHelper.Library
open ExecHelper.Config
open ExecHelper.Core
open ExecHelper.Plugins
open ExecHelper.Commander
open ExecHelper.Yaml
open ExecHelper.Plugins.ExecutePlugin (finalState)

/-! ## Information -/

/-- Fill a text up to a width (`std::left`, `std::setfill` and `std::setw`). -/
def padRight (width : Nat) (fill : Char) (text : String) : String :=
  text ++ String.ofList (List.replicate (width - text.length) fill)

/-- The line of the help for a command, with the last of its descriptions. -/
def commandLine (commands : SettingsNode) (command : Command) : String :=
  let commandStream := "  " ++ padRight 20 ' ' command
  match (commands.getValues [command]).bind List.getLast? with
  | none => commandStream
  | some description => commandStream ++ " " ++ description

section Printing

variable (describe : List OptionDescription → String)

end Printing

/-! ## The program -/

/-- What the program comes to before it runs commands. -/
inductive Preparation where
  | finished (status : UInt8)
  | ready (invocation : Invocation)

section Program

variable (world : World)

end Program

/-! ## What is decided -/

/-- What becomes of a command line. -/
inductive Decision where
  /-- The program returns before it runs commands. -/
  | ends (status : UInt8)
  | runs (invocation : Invocation)
  /-- The process ends before, or its behaviour is undefined, for this reason. -/
  | stops (reason : Stop)

section Deciding

variable (world : World)

/-- The file the settings are looked for in. -/
def ParsedOptions.settingsFile (parsed : ParsedOptions) : Path :=
  (parsed.text? SETTINGS_FILE_KEY).getD ".exec-helper"

/-- How the preparation ends for a decision, without what the user is told. -/
def Decision.outcome (decision : Decision) (system : System) :
    EStateM.Result Stop System Preparation :=
  match decision with
  | .ends status => .ok (.finished status) system
  | .runs invocation => .ok (.ready invocation) system
  | .stops reason => .error reason system

end Deciding

/-! ## The preparation -/

section Prepared

variable {world : World} {commandLine : CommandLine} {args : PointerArray}

/-- The computation ends with the decision, whatever it says on the way. -/
def Decides (computation : EStateM Stop System Preparation) (decision : Decision) : Prop :=
  ∀ system : System, ∃ messages, computation system = decision.outcome (system.saying messages)

theorem Tells.decides {α : Type} {computation : EStateM Stop System α} {value : α}
    {continuation : α → EStateM Stop System Preparation} {decision : Decision}
    (first : Tells computation value) (second : Decides (continuation value) decision) :
    Decides (computation >>= continuation) decision := by
  intro system
  obtain ⟨before, firstRun⟩ := first system
  obtain ⟨after, secondRun⟩ := second (system.saying before)
  refine ⟨before ++ after, ?_⟩
  rw [bind_of_eq_ok firstRun, secondRun, System.saying_saying]

end Prepared

/-! ## When commands are run -/

section Running

variable {world : World} {commandLine : CommandLine} {invocation : Invocation}

end Running

/-! ## The whole program -/

section Whole

/-- How the program ends for a decision. -/
def Decision.ending (decision : Decision) (shell : Shell) (fuel : Nat) :
    EStateM.Result Stop (Process System) UInt8 :=
  match decision with
  | .ends status => .ok status started
  | .runs invocation => execHelperMain invocation shell fuel started
  | .stops reason => .error reason started

variable {world : World} {commandLine : CommandLine} {invocation : Invocation}

end Whole

end ExecHelper.Applications
