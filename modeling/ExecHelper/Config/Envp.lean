import ExecHelper.Config.Argv
import ExecHelper.Core.Task

/-!
# Program environments

The environment of a program is passed as an array of strings, each of which is a
name and a value with an equals sign between them.  Like the arguments it is kept
in a vector that ends in a null pointer, and like them it loses that pointer when
it is moved from or cleared.
-/

namespace ExecHelper.Config

open ExecHelper.Core
open ExecHelper.Library

namespace Envp

def DELIMITER : String := "="

/-- A variable as one string. -/
def envVarString (envVar : String × String) : String := envVar.1 ++ DELIMITER ++ envVar.2

/-- The variables in key order (`Envp(const EnvironmentCollection&)`). -/
def ofEnvironment (env : EnvironmentCollection) : Option PointerArray :=
  PointerArray.ofStrings (env.toList.map envVarString)

/-- The number of variables. -/
def size (pointers : PointerArray) : Nat := pointers.count

end Envp

/-! ## Objects of both classes -/

/-- Whatever is done to objects of the two classes, every live object can be relied on in
every state exactly when no operation is executed that leaves an object without
elements: a move construction or a clear. -/
theorem always_allSound_argv_envp (argvOperations : List (PointerArray.Operation Argv.Input))
    (envpOperations : List (PointerArray.Operation EnvironmentCollection)) :
    (Machine.Always (PointerArray.step Argv.construct) PointerArray.AllSound (fun _ => none)
        argvOperations ↔
      Machine.EachStep (PointerArray.step Argv.construct)
        (fun _ operation => PointerArray.LeavesNoneEmpty operation) (fun _ => none)
        argvOperations) ∧
    (Machine.Always (PointerArray.step Envp.ofEnvironment) PointerArray.AllSound (fun _ => none)
        envpOperations ↔
      Machine.EachStep (PointerArray.step Envp.ofEnvironment)
        (fun _ operation => PointerArray.LeavesNoneEmpty operation) (fun _ => none)
        envpOperations) := by
  constructor
  · apply PointerArray.always_allSound_iff
    exact fun input pointers constructed => Argv.terminated_construct constructed
  · apply PointerArray.always_allSound_iff
    exact fun env pointers constructed => PointerArray.terminated_ofStrings constructed

/-- Arguments that are moved from, and an environment that is cleared. -/
theorem always_allSound_argv_envp_counterexample :
    ¬Machine.Always (PointerArray.step Argv.construct) PointerArray.AllSound (fun _ => none)
        [.construct 0 (.task ["make"]), .moveConstruct 1 0] ∧
      ¬Machine.Always (PointerArray.step Envp.ofEnvironment) PointerArray.AllSound
        (fun _ => none) [.construct 0 ∅, .clear 0] := by
  constructor
  · rintro ⟨_, always⟩
    have moved := (always _ rfl).2 _ rfl
    exact PointerArray.not_sound_nil (moved 0 [] rfl)
  · rintro ⟨_, always⟩
    have cleared := (always _ rfl).2 _ rfl
    exact PointerArray.not_sound_nil (cleared 0 [] rfl)

end ExecHelper.Config
