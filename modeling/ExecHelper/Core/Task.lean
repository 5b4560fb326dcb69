import ExecHelper.Config.Cast
import ExecHelper.Config.Pattern

/-!
# Tasks

A task is a command line with the environment and the working directory it is to
be executed in.  Every change of the working directory also sets `PWD`, which
therefore wins over whatever the environment said about it.

Placeholders are replaced in texts first, and in a task by replacing them in all
of its parts.
-/

namespace ExecHelper.Core

open Std
open ExecHelper.Library
open ExecHelper.Config

abbrev TaskCollection := List String
abbrev EnvironmentCollection := ExtTreeMap String String

/-! ## Paths -/

namespace Path

def isAbsolute (path : Path) : Bool := path.toList.head? == some '/'

/-- Append a path to another one with the directory separator. -/
def append (left right : Path) : Path :=
  if isAbsolute right then right
  else if left.isEmpty || left.toList.getLast? == some '/' then left ++ right
  else left ++ "/" ++ right

/-- The path with a separator at its end, to be followed by a relative path. -/
def withSeparator (path : Path) : Path :=
  if path.isEmpty || path.toList.getLast? == some '/' then path else path ++ "/"

variable {left right : Path}

theorem append_of_absolute (absolute : isAbsolute right = true) (left : Path) :
    append left right = right := by
  rw [append, if_pos absolute]

theorem append_of_relative (relative : isAbsolute right = false) (left : Path) :
    append left right = withSeparator left ++ right := by
  rw [append, relative, if_neg Bool.false_ne_true, withSeparator]
  split <;> rfl

theorem withSeparator_withSeparator (path : Path) :
    withSeparator (withSeparator path) = withSeparator path := by
  rw [withSeparator.eq_def path]
  split
  next terminated => rw [withSeparator, if_pos terminated]
  next => simp [withSeparator]

/-- What is before a path does not matter for its separator. -/
theorem withSeparator_append (nonempty : right ≠ "") (left : Path) :
    withSeparator (left ++ right) = left ++ withSeparator right := by
  have last : (left ++ right).toList.getLast? = right.toList.getLast? := by
    rw [String.toList_append]
    exact List.getLast?_append_of_ne_nil _ (by simpa using nonempty)
  have notEmpty : (left ++ right).isEmpty = right.isEmpty := by
    rw [Bool.eq_iff_iff, String.isEmpty_iff, String.isEmpty_iff, String.append_eq_empty_iff]
    simp [nonempty]
  rw [withSeparator, withSeparator, last, notEmpty]
  split
  · rfl
  · exact String.append_assoc

theorem isAbsolute_append (left right : Path) :
    isAbsolute (append left right) = (isAbsolute left || isAbsolute right) := by
  cases rooted : isAbsolute right with
  | true => rw [append_of_absolute rooted, rooted, Bool.or_true]
  | false =>
      rw [append_of_relative rooted, Bool.or_false]
      cases characters : left.toList with
      | nil =>
          have empty : left = "" := String.toList_injective characters
          rw [empty]
          exact rooted
      | cons first rest =>
          have head : (withSeparator left ++ right).toList.head? = some first := by
            rw [withSeparator]
            split <;> simp [characters]
          rw [isAbsolute, head, isAbsolute, characters]
          rfl

/-- Below a directory that is below another one. -/
theorem append_append (relative : isAbsolute right = false) (above left : Path) :
    append above (append left right) = append (append above left) right := by
  cases rooted : isAbsolute left with
  | true =>
      have kept : isAbsolute (append left right) = true := by
        rw [isAbsolute_append, rooted, Bool.true_or]
      rw [append_of_absolute kept, append_of_absolute rooted]
  | false =>
      have below : isAbsolute (append left right) = false := by
        rw [isAbsolute_append, rooted, relative, Bool.false_or]
      rw [append_of_relative below, append_of_relative rooted,
        append_of_relative relative, append_of_relative relative]
      rcases eq_or_ne left "" with rfl | nonempty
      · have empty : withSeparator "" = "" := rfl
        rw [empty, String.empty_append, String.append_empty, withSeparator_withSeparator]
      · rw [withSeparator_append nonempty, String.append_assoc]

/-- A relative path leads to one place from two directories only if they are the same up to
a separator at the end. -/
theorem append_eq_append_iff (relative : isAbsolute right = false) (left other : Path) :
    append left right = append other right ↔ withSeparator left = withSeparator other := by
  rw [append_of_relative relative, append_of_relative relative, String.append_left_inj]

end Path

/-- The current directory of the process, an absolute path. -/
structure CurrentPath where
  path : Path
  rooted : Path.isAbsolute path = true

namespace CurrentPath

def root : CurrentPath := ⟨"/", by decide⟩

theorem nonempty (currentPath : CurrentPath) : currentPath.path ≠ "" := by
  intro empty
  have rooted := currentPath.rooted
  rw [empty] at rooted
  revert rooted
  decide

end CurrentPath

/-- The absolute form of a path, relative to the current directory of the process
(`std::filesystem::absolute`). The empty path has none: an exception is thrown. -/
def Path.absolute (currentPath : CurrentPath) (path : Path) : Option Path :=
  if path = "" then none else some (append currentPath.path path)

theorem Path.absolute_of_nonempty {path : Path} (nonempty : path ≠ "")
    (currentPath : CurrentPath) :
    absolute currentPath path = some (append currentPath.path path) := if_neg nonempty

theorem Path.absolute_eq_some_iff {currentPath : CurrentPath} {path directory : Path} :
    absolute currentPath path = some directory ↔
      path ≠ "" ∧ append currentPath.path path = directory := by
  rw [absolute, Option.ite_none_left_eq_some, Option.some.injEq]

/-! ## Tasks -/

/-- The task a plugin registers. -/
structure Task where
  task : TaskCollection
  env : EnvironmentCollection
  workingDirectory : Path

namespace Task

/-- Add one variable, replacing the one of the same name
(`appendToEnvironment(EnvironmentValue&&)`). -/
def appendValueToEnvironment (task : Task) (newValue : String × String) : Task :=
  { task with env := (task.env.erase newValue.1).insertIfNew newValue.1 newValue.2 }

/-- Add the variables in key order
(`appendToEnvironment(EnvironmentCollection&&)`). -/
def appendToEnvironment (task : Task) (newValue : EnvironmentCollection) : Task :=
  newValue.toList.foldl appendValueToEnvironment task

/-- Set the working directory and the `PWD` variable. The function is declared `noexcept`,
so with a directory that has no absolute form the process ends instead. -/
def setWorkingDirectory (currentPath : CurrentPath) (task : Task) (workingDirectory : Path) :
    Option Task :=
  (Path.absolute currentPath workingDirectory).map fun absolutePath =>
    { task with workingDirectory }.appendValueToEnvironment ("PWD", absolutePath)

/-- Create a task, unless the process ends. -/
def make (currentPath : CurrentPath) (subtasks : TaskCollection)
    (environment : EnvironmentCollection) (workingDirectory : Path) : Option Task :=
  setWorkingDirectory currentPath ⟨subtasks, environment, workingDirectory⟩
    workingDirectory

/-- Set the environment, in which the working directory then sets `PWD`. -/
def setEnvironment (currentPath : CurrentPath) (task : Task) (env : EnvironmentCollection) :
    Option Task :=
  setWorkingDirectory currentPath { task with env } task.workingDirectory

/-- Append parts to the command line (`append`). -/
def append (task : Task) (taskPart : TaskCollection) : Task :=
  { task with task := task.task ++ taskPart }

/-- The task as one text (`toString`): the parts with a blank between them,
except that nothing is put before the first non-empty one. -/
def toString (task : Task) : String :=
  task.task.foldl
    (fun text part => if text.isEmpty then part else text ++ " " ++ part) ""

@[simp] theorem task_append (task : Task) (taskPart : TaskCollection) :
    (task.append taskPart).task = task.task ++ taskPart := rfl

theorem append_nil (task : Task) : task.append [] = task := by
  rw [append, List.append_nil]

theorem append_append (task : Task) (front back : TaskCollection) :
    (task.append front).append back = task.append (front ++ back) := by
  rw [append, append, append, List.append_assoc]

@[simp] theorem env_append (task : Task) (taskPart : TaskCollection) :
    (task.append taskPart).env = task.env := rfl

@[simp] theorem workingDirectory_append (task : Task) (taskPart : TaskCollection) :
    (task.append taskPart).workingDirectory = task.workingDirectory := rfl

/-- Adding a variable replaces it. -/
theorem appendValueToEnvironment_eq (task : Task) (newValue : String × String) :
    task.appendValueToEnvironment newValue =
      { task with env := task.env.insert newValue.1 newValue.2 } := by
  rw [appendValueToEnvironment]
  congr 1
  apply ExtTreeMap.ext_getElem?
  intro key
  rw [ExtTreeMap.getElem?_insertIfNew, ExtTreeMap.getElem?_insert]
  by_cases same : compare newValue.1 key = .eq <;>
    simp [same, ExtTreeMap.getElem?_erase]

theorem appendToEnvironment_eq (task : Task) (newValue : EnvironmentCollection) :
    task.appendToEnvironment newValue =
      { task with env := task.env.insertMany newValue.toList } := by
  rw [appendToEnvironment, ExtTreeMap.insertMany_list_eq_foldl]
  generalize newValue.toList = entries
  induction entries generalizing task with
  | nil => rfl
  | cons entry rest inductionHypothesis =>
      rw [List.foldl_cons, appendValueToEnvironment_eq, inductionHypothesis,
        List.foldl_cons]

/-- A task in a directory, with the `PWD` of that directory. -/
def placed (currentPath : CurrentPath) (task : Task) (workingDirectory : Path) : Task where
  task := task.task
  env := task.env.insert "PWD" (Path.append currentPath.path workingDirectory)
  workingDirectory := workingDirectory

/-- Only the empty directory cannot be set. -/
theorem setWorkingDirectory_eq (currentPath : CurrentPath) (task : Task)
    (workingDirectory : Path) :
    setWorkingDirectory currentPath task workingDirectory =
      if workingDirectory = "" then none else some (placed currentPath task workingDirectory) := by
  rw [setWorkingDirectory, Path.absolute]
  split
  · rfl
  · rw [Option.map_some, appendValueToEnvironment_eq, placed]

theorem setWorkingDirectory_eq_some_iff {currentPath : CurrentPath} {task moved : Task}
    {workingDirectory : Path} :
    setWorkingDirectory currentPath task workingDirectory = some moved ↔
      workingDirectory ≠ "" ∧ moved = placed currentPath task workingDirectory := by
  rw [setWorkingDirectory_eq, Option.ite_none_left_eq_some, Option.some.injEq, eq_comm (b := moved)]

theorem isSome_make_currentPath (currentPath : CurrentPath) :
    (make currentPath [] ∅ currentPath.path).isSome = true := by
  rw [make, setWorkingDirectory_eq, if_neg currentPath.nonempty, Option.isSome_some]

/-- Create an empty task in the current directory (`Task()`), which is never empty. -/
def empty (currentPath : CurrentPath) : Task :=
  (make currentPath [] ∅ currentPath.path).get (isSome_make_currentPath currentPath)

theorem empty_eq (currentPath : CurrentPath) :
    empty currentPath = placed currentPath ⟨[], ∅, ""⟩ currentPath.path := by
  rw [← Option.some.injEq, empty, Option.some_get, make, setWorkingDirectory_eq,
    if_neg currentPath.nonempty]
  rfl

end Task

/-! ## Placeholders -/

/-- Replace every occurrence of the needle from the left, in what is left of the
text after the characters to skip. -/
def replaceAllAux (needle replacement : List Char) : Nat → List Char → List Char
  | _, [] => []
  | skip + 1, _ :: rest => replaceAllAux needle replacement skip rest
  | 0, character :: rest =>
      if needle.isPrefixOf (character :: rest) then
        replacement ++ replaceAllAux needle replacement (needle.length - 1) rest
      else character :: replaceAllAux needle replacement 0 rest

/-- Replace every occurrence of a non-empty needle in the subject
(`boost::algorithm::replace_all_copy`). -/
def replaceAllCopy (subject needle replacement : String) : String :=
  String.ofList (replaceAllAux needle.toList replacement.toList 0 subject.toList)

/-- Replace a pattern that is written between braces in the subject. -/
def replacePatterns (subject pattern replacement : String) : String :=
  replaceAllCopy subject ("\x7b" ++ pattern ++ "\x7d") replacement

end ExecHelper.Core
