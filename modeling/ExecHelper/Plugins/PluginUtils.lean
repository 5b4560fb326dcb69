import ExecHelper.Plugins.Plugin
import Mathlib.Data.List.Dedup
import Mathlib.Data.String.Basic

/-!
# Plugin utilities

The pieces all plugins are put together from: the loop over the combinations of
pattern values, the substitution of a combination in a task, and the environment
a plugin is configured with.
-/

namespace ExecHelper.Plugins

open Std (ExtTreeMap)
open ExecHelper.Library
open ExecHelper.Config
open ExecHelper.Core

def patternsKey : PatternKey := "patterns"

def ENVIRONMENT_KEY : SettingsKey := "environment"
def WORKING_DIR_KEY : SettingsKey := "working-dir"
def COMMAND_LINE_KEY : SettingsKey := "command-line"
def VERBOSITY_KEY : SettingsKey := "verbose"
def JOBS_KEY : SettingsKey := "jobs"

/-! ## Combinations -/

/-- The map `makePatternPermutator` permutates: the values of the first pattern
of every key, or a single placeholder so that there is one iteration. -/
def patternValuesMap (patterns : Patterns) : ExtTreeMap PatternKey PatternValues :=
  OrderedMap.emplaceAll (patterns.map fun pattern => (pattern.key, pattern.values))
    (if patterns.isEmpty then
      (∅ : ExtTreeMap PatternKey PatternValues).insertIfNew "NO-KEY" ["NO-VALUE"]
    else ∅)

/-- The loop over `makePatternPermutator(patterns)`, which a body leaves with
`false`. -/
def forEachCombination (fuel : Nat) (patterns : Patterns)
    (body : PatternCombinations → PluginProgram Bool) : PluginProgram Bool :=
  MapPermutator.loop body (MapPermutator.last (patternValuesMap patterns)) fuel
    (MapPermutator.first (patternValuesMap patterns))

/-- The combinations of the values of the patterns, in the order of the loop. -/
def combinations (patterns : Patterns) : List PatternCombinations :=
  MapPermutator.combinations (patternValuesMap patterns)

/-- The loop can go over the patterns: their value lists can be indexed, unless
there is nothing to go over at all. -/
def Permutable (patterns : Patterns) : Prop :=
  MapPermutator.Indexable (patternValuesMap patterns) ∨
    ∃ column ∈ (patternValuesMap patterns).toList, column.2 = []

/-- The distinct keys of the patterns in lexical order, each with the values of the
first pattern of that key. -/
def patternColumns (patterns : Patterns) : Odometer.Columns PatternKey PatternValue :=
  (patterns.map Pattern.key).dedup.mergeSort.map fun key =>
    (key, ((FirstMatch.lookup Pattern.key key patterns).map Pattern.values).getD [])

/-! ## Substitution -/

/-- Replace the patterns of a combination in a text
(`replacePatternCombinations(std::string, ..)`). -/
def replaceCombinations (element : String) (patternCombinations : PatternCombinations) : String :=
  patternCombinations.toList.foldl
    (fun element pattern => replacePatterns element pattern.1 pattern.2) element

/-- Replace the patterns in the names and values of an environment. When two names
become equal, the first one stays. -/
def replacePatternsInEnvironment (env : EnvironmentCollection)
    (patternCombinations : PatternCombinations) : EnvironmentCollection :=
  OrderedMap.emplaceAll
    (env.toList.map fun keyValue =>
      (replaceCombinations keyValue.1 patternCombinations,
        replaceCombinations keyValue.2 patternCombinations))
    ∅

/-- Replace the patterns of a combination in a new task, unless the process ends
(`replacePatternCombinations(const Task&, ..)`). -/
def replacePatternCombinations (currentPath : CurrentPath) (task : Task)
    (patternCombinations : PatternCombinations) : Option Task := do
  let replacedTask ← (Task.empty currentPath).setEnvironment currentPath
    (replacePatternsInEnvironment task.env patternCombinations)
  let replacedTask ← replacedTask.setWorkingDirectory currentPath
    (replaceCombinations task.workingDirectory patternCombinations)
  return task.task.foldl
    (fun replacedTask argument =>
      replacedTask.append [replaceCombinations argument patternCombinations])
    replacedTask

/-! ## Environment -/

/-- The environment variables that are configured with a value. -/
def getEnvironment (variablesMap : VariablesMap) : EnvironmentCollection :=
  OrderedMap.emplaceAll
    (((variablesMap.getValues [ENVIRONMENT_KEY]).getD []).filterMap fun variableName =>
      (variablesMap.getString [ENVIRONMENT_KEY, variableName]).map fun variableValue =>
        (variableName, variableValue))
    ∅

/-! ## The loop goes over the combinations -/

theorem patternValuesMap_ne_nil (patterns : Patterns) :
    (patternValuesMap patterns).toList ≠ [] := by
  rw [Ne, ExtTreeMap.toList_eq_nil_iff]
  cases patterns with
  | nil =>
      intro empty
      have found := congrArg (fun map => map[("NO-KEY" : PatternKey)]?) empty
      simp [patternValuesMap] at found
  | cons pattern rest =>
      intro empty
      have found := congrArg (fun map => map[pattern.key]?) empty
      simp [patternValuesMap, OrderedMap.getElem?_emplaceAll] at found

theorem getElem?_patternValuesMap {patterns : Patterns} (given : patterns ≠ [])
    (key : PatternKey) :
    (patternValuesMap patterns)[key]? =
      (FirstMatch.lookup Pattern.key key patterns).map Pattern.values := by
  have notEmpty : patterns.isEmpty = false := by simpa using given
  rw [patternValuesMap, notEmpty, if_neg (by simp), OrderedMap.getElem?_emplaceAll,
    ExtTreeMap.getElem?_empty, Option.none_or, FirstMatch.lookup, FirstMatch.lookup,
    List.find?_map, Option.map_map, Function.comp_def]
  rfl

/-- Without patterns there is the placeholder only. -/
theorem toList_patternValuesMap_nil :
    (patternValuesMap []).toList = [("NO-KEY", ["NO-VALUE"])] := by
  have entry : patternValuesMap [] = OrderedMap.emplaceAll [("NO-KEY", ["NO-VALUE"])] ∅ := rfl
  rw [entry]
  exact OrderedMap.toList_emplaceAll_of_ordered (by simp)

theorem permutable_nil : Permutable [] := by
  apply Or.inl
  simp [MapPermutator.Indexable, MapPermutator.columns, toList_patternValuesMap_nil]

/-- There is one iteration without patterns. -/
theorem combinations_nil :
    combinations [] = [OrderedMap.emplaceAll [("NO-KEY", "NO-VALUE")] ∅] := by
  rw [combinations, MapPermutator.combinations, MapPermutator.columns,
    toList_patternValuesMap_nil]
  rfl

private theorem pairwise_mergeSort (keys : List PatternKey) :
    keys.mergeSort.Pairwise fun left right => left ≤ right := by
  have transitive : ∀ left middle right : PatternKey, decide (left ≤ middle) = true →
      decide (middle ≤ right) = true → decide (left ≤ right) = true := by
    intro left middle right leftMiddle middleRight
    simp only [decide_eq_true_eq] at leftMiddle middleRight ⊢
    exact le_trans leftMiddle middleRight
  have total : ∀ left right : PatternKey,
      (decide (left ≤ right) || decide (right ≤ left)) = true := by
    intro left right
    simpa using le_total left right
  simpa using List.pairwise_mergeSort transitive total keys

/-- The map has every defined key once, in lexical order. -/
private theorem keys_patternValuesMap {patterns : Patterns} (given : patterns ≠ []) :
    (patternValuesMap patterns).keys = (patterns.map Pattern.key).dedup.mergeSort := by
  have ordered : (patternValuesMap patterns).keys.Pairwise fun left right =>
      left ≤ right := by
    have increasing : (patternValuesMap patterns).keys.Pairwise fun left right =>
      compare left right = .lt := ExtTreeMap.ordered_keys
    apply increasing.imp
    intro left right less
    exact le_of_lt (compare_lt_iff_lt.mp less)
  have permuted : (patternValuesMap patterns).keys.Perm
      (patterns.map Pattern.key).dedup.mergeSort := by
    refine List.Perm.trans ?_ (List.mergeSort_perm _ _).symm
    rw [List.perm_ext_iff_of_nodup ExtTreeMap.nodup_keys (List.nodup_dedup _)]
    intro key
    rw [ExtTreeMap.mem_keys, ExtTreeMap.mem_iff_isSome_getElem?,
      getElem?_patternValuesMap given, Option.isSome_map, FirstMatch.lookup_isSome_iff,
      List.mem_dedup]
  refine permuted.eq_of_pairwise ?_ ordered (pairwise_mergeSort _)
  intro left right _ _ leftRight rightLeft
  exact le_antisymm leftRight rightLeft

/-- The columns the permutator goes over are the sorted first definitions. -/
theorem toList_patternValuesMap {patterns : Patterns} (given : patterns ≠ []) :
    (patternValuesMap patterns).toList = patternColumns patterns := by
  have entries : (patternValuesMap patterns).toList =
      (patternValuesMap patterns).toList.map fun entry =>
        (entry.1, ((FirstMatch.lookup Pattern.key entry.1 patterns).map
          Pattern.values).getD []) := by
    symm
    refine (List.map_congr_left ?_).trans (List.map_id _)
    intro entry member
    have found := ExtTreeMap.mem_toList_iff_getElem?_eq_some.mp member
    rw [getElem?_patternValuesMap given] at found
    rw [found]
    rfl
  rw [entries, patternColumns, ← keys_patternValuesMap given,
    ← ExtTreeMap.map_fst_toList_eq_keys, List.map_map]
  rfl

theorem forEachCombination_eq {patterns : Patterns} (permutable : Permutable patterns)
    (body : PatternCombinations → PluginProgram Bool) {fuel : Nat}
    (enough : (combinations patterns).length < fuel) :
    forEachCombination fuel patterns body = (combinations patterns).allM body :=
  MapPermutator.loop_eq (patternValuesMap_ne_nil patterns) permutable enough

theorem patternColumns_singleton (pattern : Pattern) :
    patternColumns [pattern] = [(pattern.key, pattern.values)] := by
  simp [patternColumns, FirstMatch.lookup_cons]

theorem permutable_of_columns {patterns : Patterns} (given : patterns ≠ [])
    (columns : (∀ column ∈ patternColumns patterns, column.2.length < 2 ^ 32) ∨
      ∃ column ∈ patternColumns patterns, column.2 = []) : Permutable patterns := by
  rw [Permutable, MapPermutator.Indexable, MapPermutator.columns,
    toList_patternValuesMap given]
  exact columns

/-- A list whose size is a positive multiple of `2 ^ 32` leaves nothing to go over. -/
theorem forEachCombination_wrapping {pattern : Pattern} (given : pattern.values ≠ [])
    (wraps : UInt32.ofNat pattern.values.length = 0)
    (body : PatternCombinations → PluginProgram Bool) (fuel : Nat) :
    forEachCombination (fuel + 1) [pattern] body = pure true := by
  rw [forEachCombination, MapPermutator.loop, MapPermutator.equals_last_of_wrapping, if_pos rfl]
  intro column member
  rw [MapPermutator.columns, toList_patternValuesMap (List.cons_ne_nil _ _),
    patternColumns_singleton] at member
  rw [List.mem_singleton.mp member]
  exact ⟨given, wraps⟩

/-! ## Loops under a protocol -/

section Loops

variable {α : Type} {protocol : Protocol Stop pluginInterface} {phase : protocol.Phase}
variable {failure : protocol.Phase → Prop}

theorem conforms_ifSucceeds {step rest : PluginProgram Bool}
    (first : protocol.Conforms (protocol.EndsIn phase failure) step phase)
    (second : protocol.Conforms (protocol.EndsIn phase failure) rest phase) :
    protocol.Conforms (protocol.EndsIn phase failure) (ifSucceeds step rest) phase := by
  apply first.bind
  intro succeeded last ends
  cases succeeded with
  | false => exact ends
  | true =>
      have same : last = phase := ends
      rw [same]
      exact second

theorem conforms_allM {body : α → PluginProgram Bool} {inputs : List α}
    (bodies : ∀ input ∈ inputs,
      protocol.Conforms (protocol.EndsIn phase failure) (body input) phase) :
    protocol.Conforms (protocol.EndsIn phase failure) (inputs.allM body) phase := by
  induction inputs with
  | nil => exact rfl
  | cons input rest inductionHypothesis =>
      rcases List.forall_mem_cons.mp bodies with ⟨first, later⟩
      exact conforms_ifSucceeds first (inductionHypothesis later)

/-- A loop keeps the rules its body keeps for every combination. It can stop when the
fuel is used up and at a position where there is no combination. -/
theorem conforms_forEachCombination (outOfFuel : protocol.allowed .outOfFuel)
    (outOfBounds : protocol.allowed .outOfBounds) (fuel : Nat) (patterns : Patterns)
    {body : PatternCombinations → PluginProgram Bool}
    (bodies : ∀ combination,
      protocol.Conforms (protocol.EndsIn phase failure) (body combination) phase) :
    protocol.Conforms (protocol.EndsIn phase failure) (forEachCombination fuel patterns body)
      phase := by
  rw [forEachCombination]
  generalize MapPermutator.first (patternValuesMap patterns) = iterator
  induction fuel generalizing iterator with
  | zero => exact outOfFuel
  | succ fuel inductionHypothesis =>
      rw [MapPermutator.loop]
      split
      · exact rfl
      · split
        · exact outOfBounds
        · exact conforms_ifSucceeds (bodies _) (inductionHypothesis _)

end Loops

/-! ## Substitution in a task -/

/-- A text without an opening brace contains no placeholder. -/
theorem replaceAllAux_of_notMem (needle replacement : List Char) {text : List Char}
    (plain : '{' ∉ text) :
    replaceAllAux ('{' :: needle) replacement 0 text = text := by
  induction text with
  | nil => rfl
  | cons character rest inductionHypothesis =>
      simp only [List.mem_cons, not_or] at plain
      have noMatch : ('{' :: needle).isPrefixOf (character :: rest) = false := by
        simp [List.isPrefixOf, plain.1]
      rw [replaceAllAux, noMatch, if_neg (by simp), inductionHypothesis plain.2]

/-- The text from an occurrence on consists of the needle and what comes after it. -/
theorem append_drop_of_isPrefixOf {needle rest : List Char} {character : Char}
    (nonempty : needle ≠ []) (occurs : needle.isPrefixOf (character :: rest) = true) :
    needle ++ rest.drop (needle.length - 1) = character :: rest := by
  rcases List.isPrefixOf_iff_prefix.mp occurs with ⟨after, split⟩
  have size := List.length_pos_iff.mpr nonempty
  have dropped := congrArg (List.drop needle.length) split
  rw [List.drop_left] at dropped
  rw [← List.drop_succ_cons, Nat.sub_add_cancel size, ← dropped, split]

/-- Replacing a needle by itself changes nothing. -/
theorem replaceAllAux_self {needle : List Char} (nonempty : needle ≠ []) (skip : Nat)
    (text : List Char) : replaceAllAux needle needle skip text = text.drop skip := by
  induction text generalizing skip with
  | nil => rw [replaceAllAux, List.drop_nil]
  | cons character rest inductionHypothesis =>
      cases skip with
      | succ skip =>
          rw [replaceAllAux, List.drop_succ_cons]
          exact inductionHypothesis skip
      | zero =>
          rw [replaceAllAux, inductionHypothesis, inductionHypothesis, List.drop_zero,
            List.drop_zero]
          split
          next occurs => exact append_drop_of_isPrefixOf nonempty occurs
          next => rfl

/-- A placeholder as it is written in a text. -/
theorem replacePatterns_eq_ofList (text pattern replacement : String) :
    replacePatterns text pattern replacement =
      String.ofList (replaceAllAux ('{' :: (pattern.toList ++ ['}'])) replacement.toList 0
        text.toList) := by
  have needle : ("\x7b" ++ pattern ++ "\x7d").toList = '{' :: (pattern.toList ++ ['}']) := by
    simp
  rw [replacePatterns, replaceAllCopy, needle]

theorem replacePatterns_of_notMem {text : String} (plain : '{' ∉ text.toList)
    (pattern replacement : String) : replacePatterns text pattern replacement = text := by
  rw [replacePatterns_eq_ofList, replaceAllAux_of_notMem _ _ plain, String.ofList_toList]

theorem replacePatterns_self (text pattern : String) :
    replacePatterns text pattern ("\x7b" ++ pattern ++ "\x7d") = text := by
  have nonempty : ("\x7b" ++ pattern ++ "\x7d").toList ≠ [] := by simp
  rw [replacePatterns, replaceAllCopy, replaceAllAux_self nonempty, List.drop_zero,
    String.ofList_toList]

/-- What replacing one pattern keeps, replacing a combination keeps. -/
theorem replaceCombinations_keeps {holds : String → Prop}
    (step : ∀ text pattern replacement, holds text →
      holds (replacePatterns text pattern replacement))
    {text : String} (start : holds text) (combination : PatternCombinations) :
    holds (replaceCombinations text combination) := by
  rw [replaceCombinations]
  generalize combination.toList = entries
  induction entries generalizing text with
  | nil => exact start
  | cons entry rest inductionHypothesis =>
      rw [List.foldl_cons]
      exact inductionHypothesis (step text entry.1 entry.2 start)

theorem replaceCombinations_of_notMem {text : String} (plain : '{' ∉ text.toList)
    (combination : PatternCombinations) : replaceCombinations text combination = text := by
  have step : ∀ replaced pattern replacement, replaced = text →
      replacePatterns replaced pattern replacement = text := by
    rintro _ pattern replacement rfl
    exact replacePatterns_of_notMem plain pattern replacement
  exact replaceCombinations_keeps step rfl combination

/-- Something is left of a text when it is replaced by something. -/
theorem replacePatterns_ne_empty {text replacement : String} (given : text ≠ "")
    (filled : replacement ≠ "") (pattern : String) :
    replacePatterns text pattern replacement ≠ "" := by
  obtain ⟨character, rest, characters⟩ : ∃ character rest, text.toList = character :: rest :=
    List.exists_cons_of_ne_nil (by simpa using given)
  have replaced : replacement.toList ≠ [] := by simpa using filled
  intro nothing
  have none_left := congrArg String.toList nothing
  rw [replacePatterns, replaceAllCopy, String.toList_ofList, characters, replaceAllAux] at none_left
  split at none_left
  · exact replaced (List.append_eq_nil_iff.mp none_left).1
  · cases none_left

theorem replaceCombinations_ne_empty {text : String} {combination : PatternCombinations}
    (given : text ≠ "")
    (filled : ∀ (key : PatternKey) (value : PatternValue), combination[key]? = some value →
      value ≠ "") :
    replaceCombinations text combination ≠ "" := by
  rw [replaceCombinations]
  have each : ∀ entry ∈ combination.toList, entry.2 ≠ "" := fun entry member =>
    filled entry.1 entry.2 (ExtTreeMap.mem_toList_iff_getElem?_eq_some.mp member)
  generalize combination.toList = entries at each
  induction entries generalizing text with
  | nil => exact given
  | cons entry rest inductionHypothesis =>
      obtain ⟨first, later⟩ := List.forall_mem_cons.mp each
      rw [List.foldl_cons]
      exact inductionHypothesis (replacePatterns_ne_empty given first entry.1) later

private theorem foldl_append (replace : String → String) (arguments : List String)
    (task : Task) :
    arguments.foldl (fun task argument => task.append [replace argument]) task =
      task.append (arguments.map replace) := by
  induction arguments generalizing task with
  | nil => simp [Task.append]
  | cons argument rest inductionHypothesis =>
      rw [List.foldl_cons, inductionHypothesis]
      simp [Task.append]

/-- A combination substituted in arguments, environment and working directory. -/
def substituted (task : Task) (combination : PatternCombinations) : Task :=
  { task := task.task.map fun argument => replaceCombinations argument combination
    env := replacePatternsInEnvironment task.env combination
    workingDirectory := replaceCombinations task.workingDirectory combination }

/-- `PWD` names the directory the task is executed in. -/
def withPWD (currentPath : CurrentPath) (task : Task) : Task :=
  { task with
    env := task.env.insert "PWD" (Path.append currentPath.path task.workingDirectory) }

/-- What becomes of a task. `PWD` is the directory the new task is executed in, whatever the
environment of the old one said. -/
def substitutedTask (currentPath : CurrentPath) (task : Task)
    (combination : PatternCombinations) : Task :=
  withPWD currentPath (substituted task combination)

/-- A task is replaced unless nothing is left of its working directory. -/
theorem replacePatternCombinations_eq (currentPath : CurrentPath) (task : Task)
    (combination : PatternCombinations) :
    replacePatternCombinations currentPath task combination =
      if replaceCombinations task.workingDirectory combination = "" then none
      else some (substitutedTask currentPath task combination) := by
  have start : (Task.empty currentPath).setEnvironment currentPath
      (replacePatternsInEnvironment task.env combination) =
        some (Task.placed currentPath
          ⟨[], replacePatternsInEnvironment task.env combination, ""⟩ currentPath.path) := by
    rw [Task.empty_eq, Task.setEnvironment, Task.setWorkingDirectory_eq]
    exact if_neg currentPath.nonempty
  rw [replacePatternCombinations, start, Option.bind_eq_bind, Option.bind_some,
    Task.setWorkingDirectory_eq]
  split
  · rfl
  · refine (congrArg some (foldl_append (fun argument =>
      replaceCombinations argument combination) task.task _)).trans (congrArg some ?_)
    rw [Task.placed, Task.placed, Task.append, substitutedTask, substituted, withPWD,
      List.nil_append]
    congr 1
    apply ExtTreeMap.ext_getElem?
    intro key
    simp only [ExtTreeMap.getElem?_insert]
    split <;> rfl

theorem replacePatternCombinations_eq_some_iff {currentPath : CurrentPath} {task new : Task}
    {combination : PatternCombinations} :
    replacePatternCombinations currentPath task combination = some new ↔
      replaceCombinations task.workingDirectory combination ≠ "" ∧
        new = substitutedTask currentPath task combination := by
  rw [replacePatternCombinations_eq, Option.ite_none_left_eq_some, Option.some.injEq,
    eq_comm (b := new)]

/-- The substituted environment holds under a name the first variable whose name
becomes that name. -/
theorem getElem?_replacePatternsInEnvironment (env : EnvironmentCollection)
    (combination : PatternCombinations) (name : String) :
    (replacePatternsInEnvironment env combination)[name]? =
      ((env.toList.find? fun keyValue =>
        replaceCombinations keyValue.1 combination = name).map fun keyValue =>
          replaceCombinations keyValue.2 combination) := by
  rw [replacePatternsInEnvironment, OrderedMap.getElem?_emplaceAll,
    ExtTreeMap.getElem?_empty, Option.none_or, FirstMatch.lookup, List.find?_map,
    Option.map_map]
  rfl

/-- A variable whose name holds no placeholder only ever decides about its own
name. -/
theorem replacePatternsInEnvironment_insert (env : EnvironmentCollection)
    (combination : PatternCombinations) {name : String} (plain : '{' ∉ name.toList)
    (before after : String) :
    (replacePatternsInEnvironment (env.insert name before) combination).insert name after =
      (replacePatternsInEnvironment env combination).insert name after := by
  apply ExtTreeMap.ext_getElem?
  intro key
  rw [ExtTreeMap.getElem?_insert, ExtTreeMap.getElem?_insert]
  by_cases same : compare name key = .eq
  · rw [if_pos same, if_pos same]
  · rw [if_neg same, if_neg same, getElem?_replacePatternsInEnvironment,
      getElem?_replacePatternsInEnvironment]
    -- The variable itself is never the one that becomes `key`.
    have skips : ∀ entries : List (String × String),
        (entries.find? fun keyValue => replaceCombinations keyValue.1 combination = key) =
          (entries.filter fun keyValue => keyValue.1 ≠ name).find? fun keyValue =>
            replaceCombinations keyValue.1 combination = key := by
      intro entries
      rw [List.find?_filter]
      congr 1
      funext keyValue
      by_cases own : keyValue.1 = name
      · have different : name ≠ key := fun equal => same (by rw [equal]; exact Std.compare_self)
        simp [own, replaceCombinations_of_notMem plain, different]
      · simp [own]
    rw [skips, OrderedMap.filter_toList_insert, ← skips]

end ExecHelper.Plugins
