import ExecHelper.Core.Task
import ExecHelper.Library.Machine

/-!
# Tasks under operations

`PWD` repeats the working directory of a task.  Construction, `setWorkingDirectory`
and `setEnvironment` put it there; appending to the environment does not look at
the names it is given.  A directory without an absolute form ends the process, so
no task is ever in the empty one.
-/

namespace ExecHelper.Core.Task

open Std
open ExecHelper.Library
open ExecHelper.Config

variable {currentPath : CurrentPath} {task : Task}

/-- `PWD` is the absolute path of the working directory, which has one. -/
def HoldsPwd (currentPath : CurrentPath) (task : Task) : Prop :=
  ∃ directory, Path.absolute currentPath task.workingDirectory = some directory ∧
    task.env["PWD"]? = some directory

/-- The operations that change a task. Overloads that only differ in how they take
their argument are one operation. -/
inductive Operation where
  | setWorkingDirectory (workingDirectory : Path)
  | setEnvironment (env : EnvironmentCollection)
  | appendValueToEnvironment (newValue : String × String)
  | appendToEnvironment (newValue : EnvironmentCollection)
  | append (taskPart : TaskCollection)

/-- The task after an operation, unless the operation ends the process. -/
def step (currentPath : CurrentPath) (task : Task) : Operation → Option Task
  | .setWorkingDirectory workingDirectory => task.setWorkingDirectory currentPath workingDirectory
  | .setEnvironment env => task.setEnvironment currentPath env
  | .appendValueToEnvironment newValue => some (task.appendValueToEnvironment newValue)
  | .appendToEnvironment newValue => some (task.appendToEnvironment newValue)
  | .append taskPart => some (task.append taskPart)

/-- The directory that is set is not the empty one, and a `PWD` that is appended is the one the
task has. -/
def KeepsPwd (currentPath : CurrentPath) (task : Task) : Operation → Prop
  | .setWorkingDirectory workingDirectory => workingDirectory ≠ ""
  | .appendValueToEnvironment newValue =>
      newValue.1 = "PWD" → Path.absolute currentPath task.workingDirectory = some newValue.2
  | .appendToEnvironment newValue =>
      ∀ value, newValue["PWD"]? = some value →
        Path.absolute currentPath task.workingDirectory = some value
  | _ => True

theorem holdsPwd_placed {workingDirectory : Path} (nonempty : workingDirectory ≠ "") :
    HoldsPwd currentPath (placed currentPath task workingDirectory) :=
  ⟨_, Path.absolute_of_nonempty nonempty currentPath, ExtTreeMap.getElem?_insert_self⟩

/-- Wherever a task is moved to, `PWD` says so. -/
theorem holdsPwd_of_setWorkingDirectory {moved : Task} {workingDirectory : Path}
    (sets : task.setWorkingDirectory currentPath workingDirectory = some moved) :
    HoldsPwd currentPath moved := by
  obtain ⟨nonempty, rfl⟩ := setWorkingDirectory_eq_some_iff.mp sets
  exact holdsPwd_placed nonempty

/-- The appended variables win. -/
theorem getElem?_appendToEnvironment (task : Task) (newValue : EnvironmentCollection)
    (name : String) :
    (task.appendToEnvironment newValue).env[name]? = newValue[name]?.or task.env[name]? := by
  rw [appendToEnvironment_eq]
  cases carried : newValue[name]? with
  | some value =>
      exact ExtTreeMap.getElem?_insertMany_list_of_mem compare_self
        ExtTreeMap.distinct_keys_toList (ExtTreeMap.mem_toList_iff_getElem?_eq_some.mpr carried)
  | none =>
      apply ExtTreeMap.getElem?_insertMany_list_of_contains_eq_false
      rw [ExtTreeMap.map_fst_toList_eq_keys, List.contains_eq_mem, decide_eq_false_iff_not,
        ExtTreeMap.mem_keys, ExtTreeMap.mem_iff_isSome_getElem?, carried]
      simp

theorem HoldsPwd.nonempty (holds : HoldsPwd currentPath task) : task.workingDirectory ≠ "" := by
  obtain ⟨directory, absolute, -⟩ := holds
  exact (Path.absolute_eq_some_iff.mp absolute).1

/-- A task that has `PWD` before an operation has it afterwards exactly when the operation
keeps it. -/
theorem holdsPwd_step (operation : Operation) (holds : HoldsPwd currentPath task) :
    (∃ next, step currentPath task operation = some next ∧ HoldsPwd currentPath next) ↔
      KeepsPwd currentPath task operation := by
  have moves : ∀ moved directory, directory ≠ "" →
      ∃ next, setWorkingDirectory currentPath moved directory = some next ∧
        HoldsPwd currentPath next := by
    intro moved directory nonempty
    exact ⟨_, setWorkingDirectory_eq_some_iff.mpr ⟨nonempty, rfl⟩, holdsPwd_placed nonempty⟩
  have nonempty := holds.nonempty
  obtain ⟨directory, absolute, pwd⟩ := holds
  cases operation with
  | setWorkingDirectory workingDirectory =>
      constructor
      · rintro ⟨next, stepped, -⟩
        exact (setWorkingDirectory_eq_some_iff.mp stepped).1
      · exact moves task workingDirectory
  | setEnvironment env => exact iff_of_true (moves { task with env := env } _ nonempty) trivial
  | append taskPart => exact iff_of_true ⟨_, rfl, directory, absolute, pwd⟩ trivial
  | appendValueToEnvironment newValue =>
      simp only [step, Option.some.injEq, exists_eq_left', HoldsPwd, KeepsPwd,
        appendValueToEnvironment_eq, absolute, ExtTreeMap.getElem?_insert]
      by_cases named : newValue.1 = "PWD"
      · simp [named, eq_comm]
      · simp [named, pwd]
  | appendToEnvironment newValue =>
      have kept : (task.appendToEnvironment newValue).workingDirectory =
          task.workingDirectory := by
        rw [appendToEnvironment_eq]
      simp only [step, Option.some.injEq, exists_eq_left', HoldsPwd, KeepsPwd, kept, absolute,
        getElem?_appendToEnvironment]
      cases carried : newValue["PWD"]? with
      | none => simp [pwd]
      | some value => simp [eq_comm]

/-- A task can be made, taken through the operations, and has `PWD` where it is executed all the
way, exactly when no directory is the empty one and no operation appends another `PWD`. -/
theorem throughout_holdsPwd_iff (currentPath : CurrentPath) (subtasks : TaskCollection)
    (environment : EnvironmentCollection) (workingDirectory : Path)
    (operations : List Operation) :
    (∃ start, make currentPath subtasks environment workingDirectory = some start ∧
        Machine.Throughout (step currentPath) (HoldsPwd currentPath) start operations) ↔
      workingDirectory ≠ "" ∧
        ∀ start, make currentPath subtasks environment workingDirectory = some start →
          Machine.EveryStep (step currentPath) (KeepsPwd currentPath) start operations := by
  have through : ∀ start, make currentPath subtasks environment workingDirectory = some start →
      (Machine.Throughout (step currentPath) (HoldsPwd currentPath) start operations ↔
        Machine.EveryStep (step currentPath) (KeepsPwd currentPath) start operations) := by
    intro start made
    apply Machine.throughout_iff_everyStep
    · exact fun task operation => holdsPwd_step operation
    · exact holdsPwd_of_setWorkingDirectory made
  constructor
  · rintro ⟨start, made, throughout⟩
    refine ⟨(setWorkingDirectory_eq_some_iff.mp made).1, fun other again => ?_⟩
    obtain rfl := Option.some.inj (made.symm.trans again)
    exact (through start made).mp throughout
  · rintro ⟨nonempty, each⟩
    have made : make currentPath subtasks environment workingDirectory = some _ :=
      setWorkingDirectory_eq_some_iff.mpr ⟨nonempty, rfl⟩
    exact ⟨_, made, (through _ made).mpr (each _ made)⟩

/-- Appending a `PWD` to the environment is enough to lose it, and no task can be made in the
empty directory. -/
theorem throughout_holdsPwd_counterexample :
    (¬∀ (currentPath : CurrentPath) (subtasks : TaskCollection)
      (environment : EnvironmentCollection) (workingDirectory : Path)
      (operations : List Operation),
      ∃ start, make currentPath subtasks environment workingDirectory = some start ∧
        Machine.Throughout (step currentPath) (HoldsPwd currentPath) start operations) ∧
      make .root ["ls"] ∅ "" = none := by
  refine ⟨fun claimed => ?_, by decide⟩
  obtain ⟨start, made, _, next, appended, holds⟩ := claimed .root ["ls"] ∅ "/work"
    [.appendValueToEnvironment ("PWD", "/elsewhere")]
  obtain rfl := Option.some.inj made
  obtain rfl := Option.some.inj appended
  obtain ⟨directory, absolute, pwd⟩ : HoldsPwd .root _ := holds
  have same : Path.absolute .root "/work" = some "/work" := by decide
  obtain rfl := Option.some.inj (same.symm.trans absolute)
  revert pwd
  decide

end ExecHelper.Core.Task
