import ExecHelper.Core.Task

/-!
# The POSIX shell

The shell expands every argument of a task as a command line would be expanded, looks for
the binary that the first word names and starts it with the other words.

An argument expands to any number of words, none at all included, and an argument whose
expansion fails stands for itself.  That there is something to execute is only checked
before the expansion.
-/

namespace ExecHelper.Core.PosixShell

open ExecHelper.Config

/-! ## The platform -/

/-- The return codes of `wordexp` other than success. -/
inductive WordexpError where
  | badVal
  | syntaxError
  | badChar
  | other (returnCode : Nat)

/-- What the user is told. -/
def WordexpError.feedback : WordexpError → String
  | .badVal => "Command contains undefined variable"
  | .syntaxError => "Syntax error in shell argument"
  | .badChar => "Bad character: Illegal occurrence of newline or one of " ++
      "|, &, ;, <, >, (, ), \x7b, \x7d."
  | .other returnCode => "An error occured during executing: " ++ toString returnCode

/-- What the shell relies on. `wordexp` is given the environment the variables are taken
from, and `searchPath` returns the empty path when it finds nothing. -/
structure Platform where
  environment : EnvironmentCollection
  path : List Path
  currentPath : CurrentPath
  /-- The entries of a `PATH`. -/
  pathEntries : String → List Path
  wordexp : EnvironmentCollection → String → Except WordexpError (List String)
  searchPath : String → List Path → Path
  /-- Whether there is a file at a path, unless that cannot be told (`exists` throws). -/
  pathExists : Path → Option Bool

/-- How the execution of a task goes on or ends. -/
inductive Outcome where
  /-- There is nothing to execute. -/
  | success
  /-- The binary is started (`system`). -/
  | system (binary : Path) (args : TaskCollection) (startDir : Path)
      (env : EnvironmentCollection)
  /-- A `PathNotFoundError` is thrown. -/
  | pathNotFound (message : String)
  /-- A `filesystem_error` is thrown. -/
  | filesystemError
  /-- The first element of an empty list is accessed. -/
  | frontOfEmpty

/-- An execution with its messages to the user. -/
structure Execution where
  outcome : Outcome
  feedback : List String

section Shell

variable (platform : Platform)

/-- The absolute form of a path (`boost::filesystem::absolute`, which is not the function
of the standard library). That of the empty path is the current directory. -/
def absolute (path : Path) : Path :=
  if path.isEmpty then platform.currentPath.path
  else Path.append platform.currentPath.path path

/-- The directories in which binaries are looked for, the working directory first. -/
def getPath (env : EnvironmentCollection) (workingDir : Path) : List Path :=
  absolute platform workingDir ::
    match env["PATH"]? with
    | none => platform.path
    | some path => platform.pathEntries path

/-- The environment of the process with that of the task put over it. -/
def childEnvironment (task : Task) : EnvironmentCollection :=
  task.env.toList.foldl (fun env envPair => env.insert envPair.1 envPair.2)
    platform.environment

/-- A text as C reads it, up to the first null character. -/
def cText (text : String) : String :=
  String.ofList (text.toList.takeWhile fun character => character ≠ '\x00')

/-- The words of the arguments, and what the user is told about them. -/
def wordExpand (task : Task) : TaskCollection × List String :=
  task.task.foldl
    (fun result taskItem =>
      match platform.wordexp task.env (cText taskItem) with
      | .ok words => (result.1 ++ words, result.2)
      | .error error => (result.1 ++ [taskItem], result.2 ++ [error.feedback]))
    ([], [])

def shellExpand (task : Task) : TaskCollection × List String := wordExpand platform task

/-- What the search finds for a word. -/
def searchBinary (task : Task) (word : String) : Path :=
  platform.searchPath word (getPath platform (childEnvironment platform task)
    task.workingDirectory)

/-- The path of the binary a word names. -/
def binaryPath (task : Task) (word : String) : Path :=
  if Path.isAbsolute word then word else absolute platform (searchBinary platform task word)

/-- Execute a task. -/
def execute (task : Task) : Execution :=
  if task.task.isEmpty then ⟨.success, []⟩
  else
    let (args, feedback) := shellExpand platform task
    match args with
    | [] => ⟨.frontOfEmpty, feedback⟩
    | front :: rest =>
        let binary := binaryPath platform task front
        match platform.pathExists binary with
        | none => ⟨.filesystemError, feedback⟩
        | some false =>
            ⟨.pathNotFound ("Could not find binary '" ++ front ++ "' on this system"), feedback⟩
        | some true =>
            ⟨.system binary rest task.workingDirectory (childEnvironment platform task),
              feedback⟩

/-! ## What is started -/

/-- The words of one argument. -/
def wordsOf (task : Task) (taskItem : String) : TaskCollection :=
  match platform.wordexp task.env (cText taskItem) with
  | .ok words => words
  | .error _ => [taskItem]

/-- The words of all arguments, in order. -/
def expanded (task : Task) : TaskCollection := task.task.flatMap (wordsOf platform task)

/-- The word is the path of the binary, or the binary is what the search finds for it. -/
def Names (task : Task) (word : String) (binary : Path) : Prop :=
  if Path.isAbsolute word then binary = word
  else searchBinary platform task word ≠ "" ∧
    binary = absolute platform (searchBinary platform task word)

/-- The binary of the first word is started with the other words, or it is reported that
there is none. -/
def StartsOrReports (task : Task) : Prop :=
  (∃ first rest binary, expanded platform task = first :: rest ∧
    Names platform task first binary ∧
    (execute platform task).outcome =
      .system binary rest task.workingDirectory (childEnvironment platform task)) ∨
    ∃ message, (execute platform task).outcome = .pathNotFound message

/-- The arguments have a first word, it can be told whether its binary exists, and when the
search finds nothing for it, not even the current directory exists. -/
def Executable (task : Task) : Prop :=
  ∃ first rest, expanded platform task = first :: rest ∧
    platform.pathExists (binaryPath platform task first) ≠ none ∧
    (Path.isAbsolute first = true ∨ searchBinary platform task first ≠ "" ∨
      platform.pathExists platform.currentPath.path = some false)

variable {platform} {task : Task}

theorem wordExpand_fst : (wordExpand platform task).1 = expanded platform task := by
  have appended : ∀ (items : TaskCollection) (start : TaskCollection × List String),
      (items.foldl
        (fun result taskItem =>
          match platform.wordexp task.env (cText taskItem) with
          | .ok words => (result.1 ++ words, result.2)
          | .error error => (result.1 ++ [taskItem], result.2 ++ [error.feedback]))
        start).1 = start.1 ++ items.flatMap (wordsOf platform task) := by
    intro items
    induction items with
    | nil => simp
    | cons item rest inductionHypothesis =>
        intro start
        rw [List.foldl_cons, inductionHypothesis, List.flatMap_cons, wordsOf]
        cases platform.wordexp task.env (cText item) <;> simp
  exact appended task.task ([], [])

/-- An execution starts from the words of the arguments. -/
theorem execute_outcome (given : task.task ≠ []) :
    (execute platform task).outcome =
      match expanded platform task with
      | [] => .frontOfEmpty
      | front :: rest =>
          match platform.pathExists (binaryPath platform task front) with
          | none => .filesystemError
          | some false =>
              .pathNotFound ("Could not find binary '" ++ front ++ "' on this system")
          | some true => .system (binaryPath platform task front) rest task.workingDirectory
              (childEnvironment platform task) := by
  rw [execute, if_neg (by simpa using given), shellExpand, ← wordExpand_fst]
  rcases wordExpand platform task with ⟨words, feedback⟩
  cases words with
  | nil => rfl
  | cons front rest =>
      dsimp only
      cases platform.pathExists (binaryPath platform task front) with
      | none => rfl
      | some found => cases found <;> rfl

theorem binaryPath_of_notFound {word : String} (relative : Path.isAbsolute word = false)
    (notFound : searchBinary platform task word = "") :
    binaryPath platform task word = platform.currentPath.path := by
  rw [binaryPath, relative, notFound, if_neg Bool.false_ne_true]
  rfl

theorem names_binaryPath_iff {word : String} :
    Names platform task word (binaryPath platform task word) ↔
      Path.isAbsolute word = true ∨ searchBinary platform task word ≠ "" := by
  rw [Names, binaryPath]
  cases Path.isAbsolute word <;> simp

end Shell

/-- A task with arguments is executed as it should be exactly when its arguments have a first
word whose binary is there or is seen to be missing. -/
theorem execute_startsOrReports_iff (platform : Platform) (task : Task)
    (given : task.task ≠ []) :
    StartsOrReports platform task ↔ Executable platform task := by
  rw [StartsOrReports, Executable, execute_outcome given]
  cases words : expanded platform task with
  | nil => simp
  | cons first rest =>
      have notFound : ¬(Path.isAbsolute first = true ∨ searchBinary platform task first ≠ "") →
          binaryPath platform task first = platform.currentPath.path := by
        intro unnamed
        rw [not_or, Bool.not_eq_true, not_not] at unnamed
        exact binaryPath_of_notFound unnamed.1 unnamed.2
      dsimp only
      cases found : platform.pathExists (binaryPath platform task first) with
      | none =>
          constructor
          · rintro (⟨_, _, _, _, _, started⟩ | ⟨_, reported⟩)
            · cases started
            · cases reported
          · rintro ⟨_, _, ⟨⟩, told, _⟩
            exact absurd found told
      | some present =>
          cases present with
          | false =>
              apply iff_of_true (Or.inr ⟨_, rfl⟩)
              refine ⟨first, rest, rfl, by simp [found], ?_⟩
              rw [← or_assoc, or_iff_not_imp_left]
              intro unnamed
              rwa [← notFound unnamed]
          | true =>
              constructor
              · rintro (⟨_, _, binary, ⟨⟩, named, ⟨⟩⟩ | ⟨_, reported⟩)
                · refine ⟨first, rest, rfl, by simp [found], ?_⟩
                  exact or_assoc.mp (Or.inl (names_binaryPath_iff.mp named))
                · cases reported
              · rintro ⟨_, _, ⟨⟩, _, named⟩
                refine Or.inl ⟨first, rest, _, rfl, names_binaryPath_iff.mpr ?_, rfl⟩
                by_contra unnamed
                -- The current directory would be the binary, and it exists.
                rcases or_assoc.mpr named with name | missing
                · exact unnamed name
                · rw [notFound unnamed, missing] at found
                  cases found

/-- A platform where the empty text expands to nothing, every other one to itself, and no
binary is found. -/
def bareWords : Platform where
  environment := ∅
  path := []
  currentPath := ⟨"/work", by decide⟩
  pathEntries path := [path]
  wordexp _ text := .ok (if text = "" then [] else [text])
  searchPath _ _ := ""
  pathExists _ := some true

/-- An absolute path needs no search. -/
theorem execute_startsOrReports_iff_make :
    StartsOrReports bareWords ⟨["/bin/make", "", "all"], ∅, "/work"⟩ :=
  (execute_startsOrReports_iff bareWords _ (List.cons_ne_nil _ _)).mpr
    ⟨"/bin/make", ["all"], by decide, by decide, Or.inl (by decide)⟩

/-- An argument that vanishes leaves no first word, and for a binary that is not found the
current directory is started instead. -/
theorem execute_startsOrReports_counterexample :
    ¬StartsOrReports bareWords ⟨[""], ∅, "/work"⟩ ∧
      ¬StartsOrReports bareWords ⟨["make"], ∅, "/work"⟩ := by
  constructor
  · rintro (⟨_, _, _, impossible, _⟩ | ⟨_, reported⟩)
    · cases impossible
    · cases reported
  · rintro (⟨_, _, _, ⟨⟩, named, _⟩ | ⟨_, reported⟩)
    · exact named.1 rfl
    · cases reported

end ExecHelper.Core.PosixShell
