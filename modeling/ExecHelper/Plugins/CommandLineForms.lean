import ExecHelper.Plugins.CommandLineCommand
import ExecHelper.Plugins.WorkingDirectory

/-!
# The two forms of a command-line entry

The first entry alone decides which of the two forms the command-line-command
plugin reads.  Where it has no arguments, identifiers among the later entries are
executed as arguments; where it has some, a later entry without any is an empty
optional that is dereferenced.
-/

namespace ExecHelper.Plugins.CommandLineCommand

open ExecHelper.Library
open ExecHelper.Config
open ExecHelper.Core

variable {variablesMap : VariablesMap} {entries : List SettingsNode}
variable {commandLine : TaskCollection}

/-- A command line that is configured as one: the arguments of an entry, or all the
entries where none of them is an identifier. -/
inductive ConfiguredLine (entries : List SettingsNode) : TaskCollection → Prop where
  | arguments {entry : SettingsNode} {commandLine : TaskCollection} (member : entry ∈ entries)
      (carried : entry.values = some commandLine) : ConfiguredLine entries commandLine
  | plain (plain : ∀ entry ∈ entries, entry.mValues.getD [] = []) :
      ConfiguredLine entries (entries.map SettingsNode.mKey)

/-- No empty optional is dereferenced, and what is executed are configured command lines. -/
structure ExecutesConfigured (variablesMap : VariablesMap) : Prop where
  dereferences : ∀ currentPath fuel task patterns,
    (apply currentPath fuel task variablesMap patterns).StopsOnlyFor fun reason =>
      reason ≠ .emptyOptional .commandLineCommand
  executes : ∀ currentPath fuel task patterns,
    Registers (fun _ => False) AnyValue (apply currentPath fuel task variablesMap patterns) ∨
      ∃ commandLines : List TaskCollection,
        (∀ commandLine ∈ commandLines,
          ConfiguredLine ((variablesMap.subtree [COMMAND_LINE_KEY]).getD []) commandLine) ∧
        apply currentPath fuel task variablesMap patterns =
          registerCommandLines currentPath fuel task variablesMap patterns commandLines

/-- The first entry tells the form of all of them. Where it has no arguments, no entry has,
or the entries happen to be the arguments of one of them; where it has, the first entry with
every key has values. -/
def FirstTellsForm : List SettingsNode → Prop
  | [] => True
  | first :: rest =>
      if first.mValues.getD [] = [] then
        (∀ entry ∈ first :: rest, entry.mValues.getD [] = []) ∨
          ∃ entry ∈ first :: rest, entry.values = some ((first :: rest).map SettingsNode.mKey)
      else
        ∀ entry ∈ first :: rest,
          ((FirstMatch.lookup SettingsNode.mKey entry.mKey (first :: rest)).bind
            SettingsNode.mValues).isSome

/-! ## Where the form is told -/

/-- Stopping for an empty optional breaks the only rule. -/
private def dereferenceProtocol : Protocol Stop pluginInterface where
  Phase := Unit
  allowed reason := reason ≠ .emptyOptional .commandLineCommand
  permitted _ _ := True
  advance _ _ _ := ()

private theorem stopsOnlyFor_registerCommandLines (currentPath : CurrentPath) (fuel : Nat)
    (task : Task) (patterns : Patterns) (commandLines : List TaskCollection) :
    (registerCommandLines currentPath fuel task variablesMap patterns
      commandLines).StopsOnlyFor fun reason => reason ≠ .emptyOptional .commandLineCommand := by
  have terminates : Stop.terminate ≠ .emptyOptional .commandLineCommand := Stop.noConfusion
  have lines (configured : Task) : dereferenceProtocol.Conforms
      (dereferenceProtocol.EndsIn () fun _ => True)
      (registerLines currentPath fuel configured patterns commandLines) () := by
    apply conforms_forEachCombination
      (show Stop.outOfFuel ≠ .emptyOptional .commandLineCommand from Stop.noConfusion)
      (show Stop.outOfBounds ≠ .emptyOptional .commandLineCommand from Stop.noConfusion)
    intro combination
    apply conforms_allM
    intro executeTask _
    cases replacePatternCombinations currentPath executeTask combination with
    | none => exact terminates
    | some newTask => exact ⟨trivial, fun _ => rfl⟩
  rw [registerCommandLines]
  cases configuredTask currentPath task variablesMap with
  | none => exact terminates
  | some configured => exact (lines configured).stopsOnlyFor

theorem executesConfigured_of_lines {commandLines : List TaskCollection}
    (configured : variablesMap.subtree [COMMAND_LINE_KEY] = some entries)
    (lines : ∀ commandLine ∈ commandLines, ConfiguredLine entries commandLine)
    (runs : ∀ currentPath fuel task patterns,
      apply currentPath fuel task variablesMap patterns =
        registerCommandLines currentPath fuel task variablesMap patterns commandLines) :
    ExecutesConfigured variablesMap where
  dereferences := by
    intro currentPath fuel task patterns
    rw [runs]
    exact stopsOnlyFor_registerCommandLines currentPath fuel task patterns commandLines
  executes := by
    intro currentPath fuel task patterns
    rw [configured, Option.getD_some]
    exact Or.inr ⟨commandLines, lines, runs currentPath fuel task patterns⟩

/-- An empty directory ends the process before an entry is looked at. -/
private theorem executesConfigured_of_emptyDirectory
    (empty : variablesMap.getString [WORKING_DIR_KEY] = some "") :
    ExecutesConfigured variablesMap where
  dereferences := by
    intro currentPath fuel task patterns
    rw [apply_of_emptyDirectory currentPath fuel task patterns empty]
    exact Stop.noConfusion
  executes := by
    intro currentPath fuel task patterns
    rw [apply_of_emptyDirectory currentPath fuel task patterns empty]
    exact Or.inl trivial

/-- Without any entry the missing setting is reported. -/
private theorem executesConfigured_nil
    (nonempty : variablesMap.getString [WORKING_DIR_KEY] ≠ some "")
    (configured : variablesMap.subtree [COMMAND_LINE_KEY] = some []) :
    ExecutesConfigured variablesMap := by
  have listed : variablesMap.getValues [COMMAND_LINE_KEY] = some [] :=
    getValues_commandLine configured
  constructor
  case dereferences =>
    intro currentPath fuel task patterns
    rw [apply_of_nil currentPath fuel task patterns nonempty listed]
    exact fun _ => trivial
  case executes =>
    intro currentPath fuel task patterns
    rw [apply_of_nil currentPath fuel task patterns nonempty listed]
    exact Or.inl ((registers_feedbackError _).bind fun _ _ => registers_pure trivial)

section Entries

variable {first : SettingsNode} {rest : List SettingsNode}

private theorem getValues_first
    (configured : variablesMap.subtree [COMMAND_LINE_KEY] = some (first :: rest)) :
    (variablesMap.getValues [COMMAND_LINE_KEY, first.mKey]).getD [] = [] ↔
      first.mValues.getD [] = [] := by
  rw [getValues_identifier configured, FirstMatch.lookup_cons_self, Option.bind_some]
  cases first.mValues <;> simp

theorem executesConfigured_of_plain
    (configured : variablesMap.subtree [COMMAND_LINE_KEY] = some (first :: rest))
    (plain : first.mValues.getD [] = [])
    (line : ConfiguredLine (first :: rest) ((first :: rest).map SettingsNode.mKey)) :
    ExecutesConfigured variablesMap := by
  apply executesConfigured_of_lines configured (List.forall_mem_singleton.mpr line)
  intro currentPath fuel task patterns
  exact apply_of_plain currentPath fuel task patterns (getValues_commandLine configured)
    ((getValues_first configured).mpr plain)

theorem executesConfigured_of_identified
    (configured : variablesMap.subtree [COMMAND_LINE_KEY] = some (first :: rest))
    (identified : first.mValues.getD [] ≠ [])
    (present : ∀ entry ∈ first :: rest,
      ((FirstMatch.lookup SettingsNode.mKey entry.mKey (first :: rest)).bind
        SettingsNode.mValues).isSome) :
    ExecutesConfigured variablesMap := by
  have listed := getValues_commandLine configured
  have found : ∀ identifier ∈ (first :: rest).map SettingsNode.mKey,
      ∃ arguments, variablesMap.getValues [COMMAND_LINE_KEY, identifier] = some arguments ∧
        ConfiguredLine (first :: rest) arguments := by
    intro identifier member
    rcases List.mem_map.mp member with ⟨entry, inside, rfl⟩
    rcases Option.isSome_iff_exists.mp (present entry inside) with ⟨values, carried⟩
    rcases Option.bind_eq_some_iff.mp carried with ⟨child, reached, childCarries⟩
    refine ⟨values.map SettingsNode.mKey, ?_, ?_⟩
    · rw [getValues_identifier configured, carried]
      rfl
    · apply ConfiguredLine.arguments (List.mem_of_find?_eq_some reached)
      rw [SettingsNode.values, childCarries]
      rfl
  have lines : ∀ commandLine ∈ ((first :: rest).map SettingsNode.mKey).map fun identifier =>
      (variablesMap.getValues [COMMAND_LINE_KEY, identifier]).getD [],
        ConfiguredLine (first :: rest) commandLine := by
    intro commandLine member
    rcases List.mem_map.mp member with ⟨identifier, inside, rfl⟩
    rcases found identifier inside with ⟨arguments, given, line⟩
    rwa [given, Option.getD_some]
  apply executesConfigured_of_lines configured lines
  intro currentPath fuel task patterns
  apply apply_of_arguments currentPath fuel task patterns listed
  · exact fun none => identified ((getValues_first configured).mp none)
  · intro identifier member
    rcases found identifier member with ⟨arguments, given, _⟩
    rw [given]
    rfl

/-! ## Where it is not told -/

/-- A pattern whose value is its own placeholder. -/
def idlePattern : Pattern := { key := "IDLE", values := ["\x7bIDLE\x7d"] }

theorem combinations_idlePattern :
    combinations [idlePattern] = [OrderedMap.emplaceAll [("IDLE", "\x7bIDLE\x7d")] ∅] := by
  rw [combinations, MapPermutator.combinations, MapPermutator.columns,
    toList_patternValuesMap (List.cons_ne_nil _ _), patternColumns_singleton]
  rfl

/-- Substituting the pattern changes no text. -/
theorem replaceCombinations_idlePattern (text : String) :
    replaceCombinations text (OrderedMap.emplaceAll [("IDLE", "\x7bIDLE\x7d")] ∅) = text := by
  rw [replaceCombinations, OrderedMap.toList_emplaceAll_of_ordered (by simp)]
  exact replacePatterns_self text "IDLE"

/-- The tasks for the pattern that changes nothing. -/
private def idleTask (configured : Task) (commandLine : TaskCollection) : Task :=
  substitutedTask .root (configured.append commandLine)
    (OrderedMap.emplaceAll [("IDLE", "\x7bIDLE\x7d")] ∅)

private theorem task_idleTask {configured : Task}
    (sets : configuredTask .root (Task.empty .root) variablesMap = some configured)
    (commandLine : TaskCollection) : (idleTask configured commandLine).task = commandLine := by
  simp only [idleTask, substitutedTask, withPWD, substituted, replaceCombinations_idlePattern,
    Task.task_append, task_configuredTask sets, List.map_id']
  rfl

private theorem registerCommandLines_idle {configured : Task}
    (nonempty : variablesMap.getString [WORKING_DIR_KEY] ≠ some "")
    (sets : configuredTask .root (Task.empty .root) variablesMap = some configured)
    (commandLines : List TaskCollection) :
    registerCommandLines .root 2 (Task.empty .root) variablesMap [idlePattern] commandLines =
      (do
        registerAll (commandLines.map (idleTask configured))
        return true) := by
  have permutable : Permutable [idlePattern] := by
    apply permutable_of_columns (List.cons_ne_nil _ _)
    rw [patternColumns_singleton]
    decide
  have placed : configured.workingDirectory ≠ "" := by
    rw [workingDirectory_configuredTask sets, configuredDirectory]
    cases directory : variablesMap.getString [WORKING_DIR_KEY] with
    | none => decide
    | some workingDir => exact fun empty => nonempty (directory.trans (congrArg some empty))
  have directories : ∀ task ∈ commandLines.map fun commandLine => configured.append commandLine,
      replaceCombinations task.workingDirectory
        (OrderedMap.emplaceAll [("IDLE", "\x7bIDLE\x7d")] ∅) ≠ "" := by
    intro task member
    obtain ⟨commandLine, -, rfl⟩ := List.mem_map.mp member
    rw [replaceCombinations_idlePattern, Task.workingDirectory_append]
    exact placed
  rw [registerCommandLines, sets, orTerminate_some, pure_bind, registerLines,
    forEachCombination_eq permutable, combinations_idlePattern, List.allM_cons, List.allM_nil,
    allM_registerTask directories, List.map_map, bind_assoc]
  · rfl
  · rw [combinations_idlePattern]
    decide

/-- A list of entries that is executed as one command line is a configured one. -/
theorem configuredLine_of_executes
    (nonempty : variablesMap.getString [WORKING_DIR_KEY] ≠ some "")
    (configured : variablesMap.subtree [COMMAND_LINE_KEY] = some (first :: rest))
    (plain : first.mValues.getD [] = []) (executes : ExecutesConfigured variablesMap) :
    ConfiguredLine (first :: rest) ((first :: rest).map SettingsNode.mKey) := by
  obtain ⟨start, sets⟩ := exists_configuredTask .root (Task.empty .root) nonempty
  have runs := apply_of_plain .root 2 (Task.empty .root) [idlePattern]
    (getValues_commandLine configured) ((getValues_first configured).mpr plain)
  rw [registerCommandLines_idle nonempty sets] at runs
  rcases executes.executes .root 2 (Task.empty .root) [idlePattern] with
    nothing | ⟨commandLines, lines, same⟩
  · rw [runs] at nothing
    exact absurd rfl (nothing.1 _)
  · rw [configured, Option.getD_some] at lines
    rw [runs, registerCommandLines_idle nonempty sets] at same
    have tasks := registerAll_injective same
    have executed : commandLines = [(first :: rest).map SettingsNode.mKey] := by
      have texts := congrArg (List.map Task.task) tasks
      simpa only [List.map_map, Function.comp_def, task_idleTask sets, List.map_id',
        List.map_cons, List.map_nil] using texts.symm
    apply lines
    rw [executed]
    exact List.mem_singleton_self _

theorem firstTellsForm_of_executes
    (nonempty : variablesMap.getString [WORKING_DIR_KEY] ≠ some "")
    (configured : variablesMap.subtree [COMMAND_LINE_KEY] = some (first :: rest))
    (executes : ExecutesConfigured variablesMap) : FirstTellsForm (first :: rest) := by
  rw [FirstTellsForm]
  split
  next plain =>
    generalize lines : (first :: rest).map SettingsNode.mKey = commandLine
    have line := configuredLine_of_executes nonempty configured plain executes
    rw [lines] at line
    cases line with
    | arguments member carried => exact Or.inr ⟨_, member, carried⟩
    | plain plain => exact Or.inl plain
  next identified =>
    intro entry member
    by_contra missing
    have absent : variablesMap.getValues [COMMAND_LINE_KEY, entry.mKey] = none := by
      rw [getValues_identifier configured, Option.map_eq_none_iff]
      simpa using missing
    have stops := apply_of_missing .root 0 (Task.empty .root) [] nonempty
      (getValues_commandLine configured)
      (fun none => identified ((getValues_first configured).mp none))
      (List.mem_map_of_mem member) absent
    have allowed := executes.dereferences .root 0 (Task.empty .root) []
    rw [stops] at allowed
    exact allowed rfl

end Entries

/-- The plugin executes configured command lines only, without dereferencing an empty
optional, exactly when there are values whose first entry tells the form of all, or the
process ends before they are looked at. -/
theorem executesConfigured_iff (variablesMap : VariablesMap) :
    ExecutesConfigured variablesMap ↔
      variablesMap.getString [WORKING_DIR_KEY] = some "" ∨
        ∃ entries, variablesMap.subtree [COMMAND_LINE_KEY] = some entries ∧
          FirstTellsForm entries := by
  by_cases nonempty : variablesMap.getString [WORKING_DIR_KEY] = some ""
  · exact iff_of_true (executesConfigured_of_emptyDirectory nonempty) (Or.inl nonempty)
  rw [or_iff_right nonempty]
  constructor
  · intro executes
    cases configured : variablesMap.subtree [COMMAND_LINE_KEY] with
    | none =>
        have unlisted : variablesMap.getValues [COMMAND_LINE_KEY] = none := by
          rw [SettingsNode.getValues_eq_subtree, configured, Option.map_none]
        have stops := apply_of_unlisted .root 0 (Task.empty .root) [] nonempty unlisted
        have allowed := executes.dereferences .root 0 (Task.empty .root) []
        rw [stops] at allowed
        exact absurd rfl allowed
    | some entries =>
        refine ⟨entries, rfl, ?_⟩
        cases entries with
        | nil => trivial
        | cons first rest => exact firstTellsForm_of_executes nonempty configured executes
  · rintro ⟨entries, configured, told⟩
    cases entries with
    | nil => exact executesConfigured_nil nonempty configured
    | cons first rest =>
        rw [FirstTellsForm] at told
        split at told
        next plain =>
          apply executesConfigured_of_plain configured plain
          rcases told with none | ⟨entry, member, carried⟩
          · exact ConfiguredLine.plain none
          · exact ConfiguredLine.arguments member carried
        next identified =>
          exact executesConfigured_of_identified configured identified told

/-- Variables that configure the entries of the command line only. -/
def commandLineVariables (entries : List SettingsNode) : VariablesMap :=
  ⟨PLUGIN_NAME, some [⟨COMMAND_LINE_KEY, some entries⟩]⟩

/-- With the identifier without arguments behind the other one, an empty optional is
dereferenced; before it, both identifiers are executed as one command line. -/
theorem executesConfigured_counterexample :
    ¬ExecutesConfigured
        (commandLineVariables [⟨"build", some [.ofKey "make"]⟩, .ofKey "test"]) ∧
      ¬ExecutesConfigured
        (commandLineVariables [.ofKey "test", ⟨"build", some [.ofKey "make"]⟩]) := by
  constructor
  · intro executes
    have stops : apply .root 0 (Task.empty .root)
        (commandLineVariables [⟨"build", some [.ofKey "make"]⟩, .ofKey "test"]) [] =
          .stop (.emptyOptional .commandLineCommand) := rfl
    have allowed := executes.dereferences .root 0 (Task.empty .root) []
    rw [stops] at allowed
    exact allowed rfl
  · intro executes
    have line := configuredLine_of_executes (by decide) rfl rfl executes
    generalize lines : [SettingsNode.ofKey "test", ⟨"build", some [.ofKey "make"]⟩].map
      SettingsNode.mKey = commandLine at line
    cases line with
    | arguments member carried =>
        rcases List.mem_pair.mp member with rfl | rfl
        · cases carried
        · rw [← lines] at carried
          revert carried
          decide
    | plain plain => exact absurd (plain _ (List.mem_pair.mpr (Or.inr rfl))) (List.cons_ne_nil _ _)

end ExecHelper.Plugins.CommandLineCommand
