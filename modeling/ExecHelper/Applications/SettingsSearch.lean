import ExecHelper.Core.Task
import Mathlib.Data.List.Infix

/-!
# The search for the settings file

The settings file is looked for in the current directory, then in the directories above it,
and last in the home directory.  The directories above are found by going to the parent
until nothing changes any more, which is the case at the root.

Whether there is a file is asked of the file system, which does not always know: a name can
be too long, or a directory closed to the user.  An exception is thrown then, in functions
that are declared `noexcept`, and the process ends.
-/

namespace ExecHelper.Applications

open ExecHelper.Config
open ExecHelper.Core

/-! ## Paths -/

/-- The name of a file or a directory. -/
structure IsName (name : String) : Prop where
  nonempty : name ≠ ""
  plain : '/' ∉ name.toList

/-- The path that leads from the root through the named directories. -/
def absolutePath (names : List String) : Path := names.foldl Path.append "/"

/-- What comes before the last separator. -/
def beforeSeparator (path : Path) : List Char :=
  (path.toList.reverse.dropWhile fun character => character ≠ '/').tail.reverse

/-- The path without its last component (`parent_path`); the parent of the root is the
root. -/
def parentPath (path : Path) : Path :=
  if (beforeSeparator path).isEmpty && Path.isAbsolute path then "/"
  else String.ofList (beforeSeparator path)

theorem length_beforeSeparator_lt {path : Path} (nonempty : path ≠ "") :
    (beforeSeparator path).length < path.length := by
  have dropped := (List.dropWhile_sublist (l := path.toList.reverse)
    fun character => decide (character ≠ '/')).length_le
  have positive : 0 < path.length := by
    rw [← String.length_toList]
    exact List.length_pos_iff.mpr (by simpa using nonempty)
  rw [List.length_reverse, String.length_toList] at dropped
  rw [beforeSeparator, List.length_reverse, List.length_tail]
  omega

/-- Going to the parent shortens the path, until nothing changes any more. -/
theorem length_parentPath_lt {path : Path} (changes : parentPath path ≠ path) :
    (parentPath path).length < path.length := by
  have nonempty : path ≠ "" := by
    rintro rfl
    exact changes rfl
  have shorter := length_beforeSeparator_lt nonempty
  rw [parentPath] at changes ⊢
  split at changes
  next rooted =>
    rw [if_pos rooted]
    rw [Bool.and_eq_true, Path.isAbsolute, beq_iff_eq] at rooted
    rcases List.head?_eq_some_iff.mp rooted.2 with ⟨rest, characters⟩
    have below : rest ≠ [] := by
      rintro rfl
      exact changes (String.toList_inj.mp characters.symm)
    have size : path.length = rest.length + 1 := by
      rw [← String.length_toList, characters, List.length_cons]
    rw [size]
    exact Nat.succ_lt_succ (List.length_pos_iff.mpr below)
  next other => rwa [if_neg other, String.length_ofList]

/-! ### Paths of names -/

section Names

variable {names front : List String} {name : String}

theorem absolutePath_concat (front : List String) (name : String) :
    absolutePath (front ++ [name]) = Path.append (absolutePath front) name := by
  rw [absolutePath, List.foldl_append]
  rfl

theorem IsName.isAbsolute (isName : IsName name) : Path.isAbsolute name = false := by
  rw [Path.isAbsolute, beq_eq_false_iff_ne]
  intro rooted
  rcases List.head?_eq_some_iff.mp rooted with ⟨rest, characters⟩
  exact isName.plain (by rw [characters]; exact List.mem_cons_self)

theorem isAbsolute_absolutePath (names : List String) :
    Path.isAbsolute (absolutePath names) = true := by
  induction names using List.reverseRecOn with
  | nil => rfl
  | append_singleton front name inductionHypothesis =>
      rw [absolutePath_concat, Path.isAbsolute_append, inductionHypothesis, Bool.true_or]

/-- Before a further name there is exactly one separator. -/
theorem withSeparator_absolutePath (isNames : ∀ name ∈ names, IsName name) :
    ∃ above, (Path.withSeparator (absolutePath names)).toList = above ++ ['/'] ∧
      absolutePath names = if above.isEmpty then "/" else String.ofList above := by
  rcases List.eq_nil_or_concat' names with rfl | ⟨front, name, rfl⟩
  · exact ⟨[], by decide, rfl⟩
  · have isName := isNames name (by simp)
    have text : (absolutePath (front ++ [name])).toList =
        (Path.withSeparator (absolutePath front)).toList ++ name.toList := by
      rw [absolutePath_concat, Path.append_of_relative isName.isAbsolute, String.toList_append]
    have nonempty : name.toList ≠ [] := by simpa using isName.nonempty
    have last : (absolutePath (front ++ [name])).toList.getLast? ≠ some '/' := by
      rw [text, List.getLast?_append_of_ne_nil _ nonempty]
      exact fun separator => isName.plain (List.mem_of_getLast? separator)
    have someText : (absolutePath (front ++ [name])).toList ≠ [] := by
      rw [text]
      exact List.append_ne_nil_of_right_ne_nil _ nonempty
    refine ⟨(absolutePath (front ++ [name])).toList, ?_, ?_⟩
    · rw [Path.withSeparator, if_neg (by simpa using ⟨by simpa using someText, last⟩),
        String.toList_append]
      rfl
    · rw [if_neg (by simpa using someText), String.ofList_toList]

/-- The parent of a named directory is the directory above it. -/
theorem parentPath_concat (isNames : ∀ name ∈ front, IsName name) (isName : IsName name) :
    parentPath (absolutePath (front ++ [name])) = absolutePath front := by
  rcases withSeparator_absolutePath isNames with ⟨above, separated, same⟩
  have plain : ∀ character ∈ name.toList.reverse,
      decide (character ≠ '/') = true := by
    intro character member
    rw [decide_eq_true_eq]
    rintro rfl
    exact isName.plain (List.mem_reverse.mp member)
  have before : beforeSeparator (absolutePath (front ++ [name])) = above := by
    rw [beforeSeparator, absolutePath_concat, Path.append_of_relative isName.isAbsolute,
      String.toList_append, separated, List.reverse_append,
      List.dropWhile_append_of_pos plain, List.reverse_append]
    simp
  rw [parentPath, before, isAbsolute_absolutePath, Bool.and_true, same]

/-- A further name makes the path longer. -/
theorem length_absolutePath_lt (isNames : ∀ name ∈ front, IsName name) (isName : IsName name) :
    (absolutePath front).length < (absolutePath (front ++ [name])).length := by
  rcases withSeparator_absolutePath isNames with ⟨above, separated, shape⟩
  have longer : (absolutePath (front ++ [name])).length = above.length + 1 + name.length := by
    rw [absolutePath_concat, Path.append_of_relative isName.isAbsolute, String.length_append,
      ← String.length_toList, separated, List.length_append, List.length_singleton]
  have shorter : (absolutePath front).length ≤ above.length + 1 := by
    rw [shape]
    split
    next => exact Nat.le_add_left 1 above.length
    next => rw [String.length_ofList]; exact Nat.le_succ _
  have positive : 0 < name.length := by
    rw [← String.length_toList]
    exact List.length_pos_iff.mpr (by simpa using isName.nonempty)
  omega

theorem length_absolutePath_le (isNames : ∀ name ∈ names, IsName name)
    (inside : front <+: names) :
    (absolutePath front).length ≤ (absolutePath names).length := by
  induction names using List.reverseRecOn with
  | nil => rw [List.prefix_nil.mp inside]
  | append_singleton outer name inductionHypothesis =>
      rcases List.forall_mem_append.mp isNames with ⟨above, last⟩
      cases List.prefix_concat_iff.mp inside with
      | inl same => rw [same]
      | inr inside =>
          have grows := length_absolutePath_lt above (last name List.mem_cons_self)
          exact Nat.le_of_lt (Nat.lt_of_le_of_lt (inductionHypothesis above inside) grows)

end Names

/-! ## The search -/

/-- What is asked of the file system. The current directory is absolute and normalised, and
it is a directory. The status of a path cannot be read where `std::filesystem` throws. -/
structure DirectoryTree where
  current : List String
  isRegularFile : Path → Bool
  pathExists : Path → Bool
  statusFails : Path → Bool
  current_isName : ∀ name ∈ current, IsName name
  current_isDirectory : isRegularFile (absolutePath current) = false

namespace DirectoryTree

def currentPath (tree : DirectoryTree) : CurrentPath :=
  ⟨absolutePath tree.current, isAbsolute_absolutePath tree.current⟩

/-- What is asked about the status of a path, unless an exception is thrown. -/
def status {α : Type} (tree : DirectoryTree) (path : Path) (answer : α) : Option α :=
  if tree.statusFails path then none else some answer

end DirectoryTree

/-- The loop of `getAllParentDirectories`. -/
def parentDirectories (path : Path) : List Path :=
  if path ≠ parentPath path then path :: parentDirectories (parentPath path)
  else [parentPath path]
termination_by path.length
decreasing_by
  rename_i changes
  exact length_parentPath_lt (Ne.symm changes)

/-- The path and all of its parents, unless the process ends. -/
def getAllParentDirectories (tree : DirectoryTree) (path : Path) : Option (List Path) := do
  let path ← if Path.isAbsolute path then some path else Path.absolute tree.currentPath path
  let isRegularFile ← tree.status path (tree.isRegularFile path)
  let path := if isRegularFile then parentPath path else path
  return parentDirectories path

def getHomeDirectory (env : EnvironmentCollection) : Option Path := env["HOME"]?

def getSearchPaths (tree : DirectoryTree) (env : EnvironmentCollection) :
    Option (List Path) := do
  let searchPaths ← getAllParentDirectories tree tree.currentPath.path
  return searchPaths ++ (getHomeDirectory env).toList

namespace ConfigFileSearcher

/-- Whether the path exists, unless the process ends. -/
def fileExist (tree : DirectoryTree) (pathToCheck : Path) : Option Bool :=
  tree.status pathToCheck (tree.pathExists pathToCheck)

/-- The file in the first search path that holds it, unless the process ends. -/
def find (tree : DirectoryTree) (filename : Path) : List Path → Option (Option Path)
  | [] => return none
  | searchPath :: searchPaths => do
      let pathToCheck := Path.append searchPath filename
      let found ← fileExist tree pathToCheck
      if found then return some pathToCheck else find tree filename searchPaths

end ConfigFileSearcher

/-- The settings file or the text of the `runtime_error`, unless the process ends. -/
def getSettingsFile (tree : DirectoryTree) (settingsFilename : Path)
    (env : EnvironmentCollection) : Option (Except String Path) := do
  let searchPaths ← getSearchPaths tree env
  let settingsFile ← ConfigFileSearcher.find tree settingsFilename searchPaths
  return match settingsFile with
    | none => .error "Could not find a settings file"
    | some settingsFile => .ok settingsFile

/-! ## What is found -/

theorem parentDirectories_root : parentDirectories "/" = ["/"] := by
  rw [parentDirectories, if_neg (by decide)]
  rfl

/-- The parents of a named directory are the directories above it, the nearest first and
the root last. -/
theorem parentDirectories_absolutePath {names : List String}
    (isNames : ∀ name ∈ names, IsName name) :
    parentDirectories (absolutePath names) = names.inits.reverse.map absolutePath := by
  induction names using List.reverseRecOn with
  | nil => exact parentDirectories_root
  | append_singleton front name inductionHypothesis =>
      rcases List.forall_mem_append.mp isNames with ⟨above, last⟩
      have isName := last name List.mem_cons_self
      have changes : absolutePath (front ++ [name]) ≠ absolutePath front := fun same =>
        Nat.ne_of_gt (length_absolutePath_lt above isName) (congrArg String.length same)
      rw [parentDirectories, parentPath_concat above isName, if_pos changes,
        inductionHypothesis above, List.inits_append]
      simp

/-- From the nearest directory to the root, the paths become shorter and shorter. -/
theorem pairwise_inits {names : List String} (isNames : ∀ name ∈ names, IsName name) :
    (names.inits.reverse.map absolutePath).Pairwise fun nearer farther =>
      farther.length < nearer.length := by
  induction names using List.reverseRecOn with
  | nil => exact List.pairwise_singleton _ _
  | append_singleton front name inductionHypothesis =>
      rcases List.forall_mem_append.mp isNames with ⟨above, last⟩
      have split : (front ++ [name]).inits.reverse.map absolutePath =
          absolutePath (front ++ [name]) :: front.inits.reverse.map absolutePath := by
        rw [List.inits_append]
        simp
      rw [split, List.pairwise_cons]
      refine ⟨?_, inductionHypothesis above⟩
      intro farther member
      rcases List.mem_map.mp member with ⟨outer, inside, rfl⟩
      rw [List.mem_reverse, List.mem_inits] at inside
      exact Nat.lt_of_le_of_lt (length_absolutePath_le above inside)
        (length_absolutePath_lt above (last name List.mem_cons_self))

/-- The longest prefix that satisfies the test is found first. -/
theorem find?_inits_reverse {α : Type} {test : List α → Bool} {names front : List α}
    (inside : front <+: names) (passes : test front = true)
    (nearest : ∀ other, other <+: names → front.length < other.length → test other = false) :
    names.inits.reverse.find? test = some front := by
  induction names using List.reverseRecOn with
  | nil =>
      rw [List.prefix_nil.mp inside] at passes ⊢
      simp [passes]
  | append_singleton outer name inductionHypothesis =>
      rw [List.inits_append]
      simp only [List.inits, List.tail_cons, List.map_cons, List.map_nil, List.reverse_append,
        List.reverse_singleton, List.singleton_append]
      cases List.prefix_concat_iff.mp inside with
      | inl same =>
          rw [← same, List.find?_cons_of_pos passes]
      | inr inside =>
          have fails := nearest (outer ++ [name]) (List.prefix_refl _) (by
            have sizes := inside.length_le
            rw [List.length_append]
            exact Nat.lt_succ_of_le sizes)
          rw [List.find?_cons_of_neg (by simp [fails])]
          exact inductionHypothesis inside fun other otherInside =>
            nearest other (otherInside.trans (List.prefix_append _ _))

/-- The root is above every directory, and nothing is above it. -/
theorem getLast?_inits_reverse (names : List String) :
    (names.inits.reverse.map absolutePath).getLast? = some "/" := by
  rw [List.getLast?_map, List.getLast?_reverse]
  cases names <;> rfl

section Search

variable (tree : DirectoryTree) (env : EnvironmentCollection) (filename : Path)

/-- The directory with these names holds the file. -/
def DirectoryTree.holds (names : List String) : Bool :=
  tree.pathExists (Path.append (absolutePath names) filename)

/-- The current directory and those above it, the nearest first. -/
def DirectoryTree.parents : List Path := tree.current.inits.reverse.map absolutePath

/-- The status of every path can be read that is not behind an existing one. -/
def DirectoryTree.Answers (paths : List Path) : Prop :=
  ∀ front path back, paths = front ++ path :: back →
    (∀ other ∈ front, tree.pathExists other = false) → tree.statusFails path = false

theorem DirectoryTree.answers_nil : tree.Answers [] := by
  intro front path back split
  exact absurd split.symm (List.append_ne_nil_of_right_ne_nil _ (List.cons_ne_nil _ _))

theorem DirectoryTree.answers_cons_iff {path : Path} {rest : List Path} :
    tree.Answers (path :: rest) ↔
      tree.statusFails path = false ∧ (tree.pathExists path = false → tree.Answers rest) := by
  constructor
  · intro answers
    refine ⟨answers [] path rest rfl (by simp), ?_⟩
    intro missing front other back split before
    apply answers (path :: front) other back (by rw [split, List.cons_append])
    exact List.forall_mem_cons.mpr ⟨missing, before⟩
  · rintro ⟨answered, later⟩ front other back split before
    cases front with
    | nil =>
        rw [List.nil_append, List.cons.injEq] at split
        rw [← split.1]
        exact answered
    | cons first front =>
        rw [List.cons_append, List.cons.injEq] at split
        obtain ⟨rfl, rest⟩ := split
        rcases List.forall_mem_cons.mp before with ⟨missing, before⟩
        exact later missing front other back rest before

/-- The first existing file is found, if the file system answers every question up to it. -/
theorem find_of_answers {searchPaths : List Path}
    (answers : tree.Answers (searchPaths.map fun path => Path.append path filename)) :
    ConfigFileSearcher.find tree filename searchPaths =
      some ((searchPaths.find? fun path => tree.pathExists (Path.append path filename)).map
        fun path => Path.append path filename) := by
  induction searchPaths with
  | nil => rfl
  | cons path rest inductionHypothesis =>
      rw [List.map_cons, DirectoryTree.answers_cons_iff] at answers
      rw [ConfigFileSearcher.find, ConfigFileSearcher.fileExist, DirectoryTree.status,
        answers.1, if_neg Bool.false_ne_true, Option.bind_eq_bind, Option.bind_some,
        List.find?_cons]
      cases found : tree.pathExists (Path.append path filename) with
      | true => rfl
      | false => exact inductionHypothesis (answers.2 found)

/-- The search only comes to an end if all its questions are answered. -/
theorem answers_of_find {searchPaths : List Path} {found : Option Path}
    (finds : ConfigFileSearcher.find tree filename searchPaths = some found) :
    tree.Answers (searchPaths.map fun path => Path.append path filename) := by
  induction searchPaths with
  | nil => exact tree.answers_nil
  | cons path rest inductionHypothesis =>
      rw [ConfigFileSearcher.find, ConfigFileSearcher.fileExist, DirectoryTree.status] at finds
      rw [List.map_cons, DirectoryTree.answers_cons_iff]
      cases fails : tree.statusFails (Path.append path filename) with
      | true =>
          rw [fails, if_pos rfl] at finds
          cases finds
      | false =>
          refine ⟨rfl, fun missing => inductionHypothesis ?_⟩
          rwa [fails, if_neg Bool.false_ne_true, missing] at finds

theorem find?_map_absolutePath (directories : List (List String)) :
    ((directories.map absolutePath).find? fun path =>
        tree.pathExists (Path.append path filename)).map
      (fun path => Path.append path filename) =
        (directories.find? (tree.holds filename)).map fun names =>
          Path.append (absolutePath names) filename := by
  rw [List.find?_map, Option.map_map]
  rfl

/-- The parents are listed if the status of the current directory can be read. -/
theorem getAllParentDirectories_currentPath :
    getAllParentDirectories tree tree.currentPath.path =
      tree.status tree.currentPath.path tree.parents := by
  have isDirectory : tree.isRegularFile tree.currentPath.path = false := tree.current_isDirectory
  have listed : parentDirectories tree.currentPath.path = tree.parents :=
    parentDirectories_absolutePath tree.current_isName
  rw [getAllParentDirectories, if_pos tree.currentPath.rooted]
  simp only [Option.bind_eq_bind, Option.bind_some, Option.pure_def, isDirectory,
    DirectoryTree.status]
  split
  · rfl
  · rw [Option.bind_some, if_neg Bool.false_ne_true, listed]

/-- The paths that can be checked for the file. -/
def candidates : List Path :=
  (tree.parents ++ (getHomeDirectory env).toList).map fun path => Path.append path filename

/-- The file system knows what it is asked: the status of the current directory, and that of
every candidate up to the first one that exists. -/
def Answered : Prop :=
  tree.statusFails tree.currentPath.path = false ∧ tree.Answers (candidates tree env filename)

/-- The file of the nearest directory that holds it is found, and if there is none, the one
in the home directory. The directories are the current one and those above it, each once,
from the nearest to the root. -/
structure FindsNearest : Prop where
  parents : getAllParentDirectories tree tree.currentPath.path = some tree.parents
  nodup : tree.parents.Nodup
  root : tree.parents.getLast? = some "/"
  nearest : ∀ names, names <+: tree.current → tree.holds filename names = true →
    (∀ other, other <+: tree.current → names.length < other.length →
      tree.holds filename other = false) →
    getSettingsFile tree filename env = some (.ok (Path.append (absolutePath names) filename))
  home : (∀ names, names <+: tree.current → tree.holds filename names = false) →
    getSettingsFile tree filename env =
      match getHomeDirectory env with
      | some home =>
          if tree.pathExists (Path.append home filename) then
            some (.ok (Path.append home filename))
          else some (.error "Could not find a settings file")
      | none => some (.error "Could not find a settings file")

variable {tree env filename}

theorem getSettingsFile_of_answered (answered : Answered tree env filename) :
    getSettingsFile tree filename env =
      some (match ((tree.current.inits.reverse.find? (tree.holds filename)).map fun names =>
            Path.append (absolutePath names) filename).or
          (((getHomeDirectory env).toList.find? fun path =>
            tree.pathExists (Path.append path filename)).map fun path =>
              Path.append path filename) with
        | none => .error "Could not find a settings file"
        | some settingsFile => .ok settingsFile) := by
  rw [getSettingsFile, getSearchPaths, getAllParentDirectories_currentPath,
    DirectoryTree.status, answered.1, if_neg Bool.false_ne_true]
  simp only [Option.bind_eq_bind, Option.bind_some, Option.pure_def]
  rw [find_of_answers tree filename answered.2, Option.bind_some, List.find?_append,
    ← find?_map_absolutePath, Option.map_or]
  rfl

/-- The search always comes to an end, but only with an answer to every question. -/
theorem answered_of_getSettingsFile {answer : Except String Path}
    (finds : getSettingsFile tree filename env = some answer) : Answered tree env filename := by
  rw [getSettingsFile, getSearchPaths, getAllParentDirectories_currentPath,
    DirectoryTree.status] at finds
  cases fails : tree.statusFails tree.currentPath.path with
  | true =>
      rw [fails, if_pos rfl] at finds
      cases finds
  | false =>
      rw [fails, if_neg Bool.false_ne_true] at finds
      simp only [Option.bind_eq_bind, Option.bind_some, Option.pure_def] at finds
      obtain ⟨found, searched, -⟩ := Option.bind_eq_some_iff.mp finds
      exact ⟨fails, answers_of_find tree filename searched⟩

/-- One of the prefixes that satisfy a test is the longest one. -/
theorem exists_nearest {α : Type} (test : List α → Bool) (names : List α) :
    (∃ front, front <+: names ∧ test front = true ∧
        ∀ other, other <+: names → front.length < other.length → test other = false) ∨
      ∀ front, front <+: names → test front = false := by
  induction names using List.reverseRecOn with
  | nil =>
      cases passes : test [] with
      | true =>
          refine .inl ⟨[], List.prefix_refl _, passes, ?_⟩
          intro other inside longer
          rw [List.prefix_nil.mp inside] at longer
          exact absurd longer (Nat.lt_irrefl _)
      | false =>
          refine .inr fun front inside => ?_
          rw [List.prefix_nil.mp inside]
          exact passes
  | append_singleton outer name inductionHypothesis =>
      cases passes : test (outer ++ [name]) with
      | true =>
          refine .inl ⟨_, List.prefix_refl _, passes, ?_⟩
          intro other inside longer
          exact absurd inside.length_le (Nat.not_le_of_lt longer)
      | false =>
          have whole : ∀ other, other <+: outer ++ [name] →
              other = outer ++ [name] ∨ other <+: outer :=
            fun _ inside => List.prefix_concat_iff.mp inside
          rcases inductionHypothesis with ⟨front, inside, found, nearest⟩ | missing
          · refine .inl ⟨front, inside.trans (List.prefix_append _ _), found, ?_⟩
            intro other otherInside longer
            rcases whole other otherInside with rfl | below
            · exact passes
            · exact nearest other below longer
          · refine .inr fun other otherInside => ?_
            rcases whole other otherInside with rfl | below
            · exact passes
            · exact missing other below

theorem findsNearest_of_answered (answered : Answered tree env filename) :
    FindsNearest tree env filename where
  parents := by
    rw [getAllParentDirectories_currentPath, DirectoryTree.status, answered.1,
      if_neg Bool.false_ne_true]
  nodup := by
    apply (pairwise_inits tree.current_isName).imp
    intro nearer farther shorter same
    rw [same] at shorter
    exact Nat.lt_irrefl _ shorter
  root := getLast?_inits_reverse tree.current
  nearest := by
    intro names inside found nearest
    rw [getSettingsFile_of_answered answered, find?_inits_reverse inside found nearest]
    rfl
  home := by
    intro missing
    have nowhere : tree.current.inits.reverse.find? (tree.holds filename) = none := by
      rw [List.find?_eq_none]
      intro names member
      rw [List.mem_reverse, List.mem_inits] at member
      simp [missing names member]
    rw [getSettingsFile_of_answered answered, nowhere, Option.map_none, Option.none_or]
    cases getHomeDirectory env with
    | none => rfl
    | some home =>
        rw [Option.toList_some, List.find?_singleton]
        dsimp only
        cases tree.pathExists (Path.append home filename) <;> rfl

/-- A search that finds the nearest file has come to an end. -/
theorem FindsNearest.answered (finds : FindsNearest tree env filename) :
    Answered tree env filename := by
  rcases exists_nearest (tree.holds filename) tree.current with
    ⟨names, inside, found, nearest⟩ | missing
  · exact answered_of_getSettingsFile (finds.nearest names inside found nearest)
  · have searched := finds.home missing
    cases home : getHomeDirectory env with
    | none =>
        rw [home] at searched
        exact answered_of_getSettingsFile searched
    | some directory =>
        rw [home] at searched
        dsimp only at searched
        split at searched <;> exact answered_of_getSettingsFile searched

end Search

/-- The nearest settings file is found exactly when the file system knows what it is asked
on the way to it. -/
theorem getSettingsFile_nearest_iff (tree : DirectoryTree) (env : EnvironmentCollection)
    (settingsFilename : Path) :
    FindsNearest tree env settingsFilename ↔ Answered tree env settingsFilename :=
  ⟨FindsNearest.answered, findsNearest_of_answered⟩

/-- A project with a settings file and a directory in it. The home directory of the superuser
is closed. -/
def projectTree : DirectoryTree where
  current := ["work", "project", "build"]
  isRegularFile path := path = "/work/project/.exec-helper"
  pathExists path := path = "/work/project/.exec-helper"
  statusFails path := "/root/".toList.isPrefixOf path.toList
  current_isName name member := by
    simp only [List.mem_cons, List.not_mem_nil, or_false] at member
    rcases member with rfl | rfl | rfl <;> exact ⟨by decide, by decide⟩
  current_isDirectory := by decide

def rootHome : EnvironmentCollection := (∅ : EnvironmentCollection).insert "HOME" "/root"

/-- The file of the project is found from the directory in it, and the closed directory is
not asked for. -/
theorem getSettingsFile_nearest_iff_project :
    getSettingsFile projectTree ".exec-helper" rootHome =
      some (.ok "/work/project/.exec-helper") := by
  have answered : Answered projectTree rootHome ".exec-helper" := by
    have paths : candidates projectTree rootHome ".exec-helper" =
        ["/work/project/build/.exec-helper", "/work/project/.exec-helper",
          "/work/.exec-helper", "/.exec-helper", "/root/.exec-helper"] := by decide
    refine ⟨by decide, ?_⟩
    rw [paths, DirectoryTree.answers_cons_iff, DirectoryTree.answers_cons_iff]
    exact ⟨by decide, fun _ => ⟨by decide, fun missing => absurd missing (by decide)⟩⟩
  have finds := (getSettingsFile_nearest_iff projectTree rootHome ".exec-helper").mpr answered
  apply finds.nearest ["work", "project"] ⟨["build"], rfl⟩ (by decide)
  intro other inside longer
  have whole : other = projectTree.current :=
    inside.eq_of_length (Nat.le_antisymm inside.length_le longer)
  rw [whole]
  decide

/-- No directory above has a file of this name, and the home directory is closed. -/
theorem getSettingsFile_nearest_counterexample :
    ¬∀ tree env settingsFilename, FindsNearest tree env settingsFilename := by
  intro claimed
  have answered := (claimed projectTree rootHome "settings").answered.2
  have closed := answered ["/work/project/build/settings", "/work/project/settings",
    "/work/settings", "/settings"] "/root/settings" [] (by decide) (by decide)
  revert closed
  decide

end ExecHelper.Applications
