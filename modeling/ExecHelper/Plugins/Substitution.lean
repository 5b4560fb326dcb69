import ExecHelper.Core.TaskOperations
import ExecHelper.Library.Placeholder
import ExecHelper.Plugins.PluginUtils

/-!
# Substitution as one pass

The source replaces one key after the other, each in what the keys before it have
left behind.  Replacing a single key is a single pass over the text, so the whole
replacement is a sequence of passes; where no placeholder is nested in another
one, that is one pass for all keys at once.
-/

namespace ExecHelper.Plugins

open Std (ExtTreeMap)
open ExecHelper.Library
open ExecHelper.Config
open ExecHelper.Core

/-- Neither brace occurs in the text. -/
def BraceFree (text : String) : Prop :=
  '{' ∉ text.toList ∧ '}' ∉ text.toList

/-- No opening brace is followed by another one before the next closing brace. -/
def Unnested (text : String) : Prop :=
  Placeholder.Unnested '{' '}' text.toList

/-- Replace every `{KEY}` by the value of the key in one pass from the left. -/
def simultaneous (combination : PatternCombinations) (text : String) : String :=
  String.ofList (Placeholder.substitute '{' '}'
    (fun name => combination[String.ofList name]?.map String.toList) text.toList)

/-- The text is a row of placeholders whose values are empty; the empty text is one. -/
def Vanishes (combination : PatternCombinations) (text : String) : Prop :=
  Placeholder.Vanishing '{' '}'
    (fun name => combination[String.ofList name]?.map String.toList) text.toList

variable {combination : PatternCombinations} {text key value : String}

/-! ## One key -/

/-- The value of the only key there is. -/
private def single (key value name : List Char) : Option (List Char) :=
  if name = key then some value else none

private theorem replaceAllAux_eq {key : List Char} (unclosed : '}' ∉ key)
    (value : List Char) (skip : Nat) (text : List Char) :
    replaceAllAux ('{' :: (key ++ ['}'])) value skip text =
      Placeholder.substituteFrom '{' '}' (single key value) skip text := by
  induction text generalizing skip with
  | nil => rw [replaceAllAux, Placeholder.substituteFrom]
  | cons symbol rest inductionHypothesis =>
      cases skip with
      | succ skip =>
          rw [replaceAllAux, Placeholder.substituteFrom]
          exact inductionHypothesis skip
      | zero =>
          have occurs : ('{' :: (key ++ ['}'])).isPrefixOf (symbol :: rest) ↔
              symbol = '{' ∧ Placeholder.name? '}' rest = some key := by
            rw [List.isPrefixOf_iff_prefix, List.cons_prefix_cons,
              Placeholder.name?_eq_some_iff unclosed, eq_comm]
          rw [replaceAllAux, Placeholder.substituteFrom, inductionHypothesis, inductionHypothesis]
          simp only [occurs]
          by_cases opens : symbol = '{'
          · cases named : Placeholder.name? '}' rest with
            | none => simp [opens]
            | some name => by_cases same : name = key <;> simp [opens, same, single]
          · simp [opens]

/-- Replacing one key is one pass. -/
theorem replacePatterns_eq (unclosed : '}' ∉ key.toList) (text value : String) :
    (replacePatterns text key value).toList =
      Placeholder.substitute '{' '}' (single key.toList value.toList) text.toList := by
  rw [replacePatterns_eq_ofList, String.toList_ofList, replaceAllAux_eq unclosed,
    Placeholder.substitute]

/-! ## All keys -/

/-- The value of the first entry with the name. -/
private def valueOf (entries : List (String × String)) (name : List Char) :
    Option (List Char) :=
  (FirstMatch.lookup Prod.fst (String.ofList name) entries).map fun entry => entry.2.toList

private theorem valueOf_cons (entry : String × String) (rest : List (String × String)) :
    valueOf (entry :: rest) = fun name =>
      (single entry.1.toList entry.2.toList name).or (valueOf rest name) := by
  funext name
  rw [valueOf, FirstMatch.lookup_cons, single]
  by_cases same : name = entry.1.toList
  · simp [same]
  · have different : entry.1 ≠ String.ofList name := by
      intro equal
      exact same (by rw [equal, String.toList_ofList])
    simp [same, different, valueOf]

private theorem plain_single (key : String) {value : String}
    (unopened : '{' ∉ value.toList) :
    Placeholder.Plain '{' (single key.toList value.toList) := by
  intro name new defined
  rw [single] at defined
  rcases Option.ite_none_right_eq_some.mp defined with ⟨_, same⟩
  rw [← Option.some.inj same]
  exact unopened

/-- One key after the other is all keys at once: no key reaches beyond the end of a
placeholder, and no value opens one. -/
private theorem foldl_replacePatterns {entries : List (String × String)}
    (separate : ∀ entry ∈ entries, '}' ∉ entry.1.toList ∧ '{' ∉ entry.2.toList) {text : String}
    (flat : Placeholder.Flat '{' '}' text.toList) :
    (entries.foldl (fun text entry => replacePatterns text entry.1 entry.2) text).toList =
      Placeholder.substitute '{' '}' (valueOf entries) text.toList := by
  induction entries generalizing text with
  | nil =>
      have nothing : valueOf [] = fun _ => none := rfl
      rw [List.foldl_nil, nothing]
      exact (Placeholder.substitute_none text.toList).symm
  | cons entry rest inductionHypothesis =>
      rcases separate entry List.mem_cons_self with ⟨unclosed, unopened⟩
      have plain := plain_single entry.1 unopened
      have onePass := replacePatterns_eq unclosed text entry.2
      rw [List.foldl_cons, inductionHypothesis, onePass,
        Placeholder.substitute_substitute (by decide) plain flat, valueOf_cons]
      · exact fun later member => separate later (List.mem_cons_of_mem _ member)
      · rw [onePass]
        exact flat.substitute (by decide) plain

/-! ## Any order of the keys -/

/-- Substitute the entries of a combination one after the other in the given order. -/
def substituteInOrder (order : List (PatternKey × PatternValue)) (text : String) : String :=
  order.foldl (fun text entry => replacePatterns text entry.1 entry.2) text

/-- No key of the combination closes a placeholder and no value opens one. -/
def SeparateCombination (combination : PatternCombinations) : Prop :=
  ∀ (key : PatternKey) (value : PatternValue), combination[key]? = some value →
    '}' ∉ key.toList ∧ '{' ∉ value.toList

private theorem separate_entries (separate : SeparateCombination combination) :
    ∀ entry ∈ combination.toList, '}' ∉ entry.1.toList ∧ '{' ∉ entry.2.toList := by
  intro entry member
  exact separate entry.1 entry.2 (ExtTreeMap.mem_toList_iff_getElem?_eq_some.mp member)

private theorem valueOf_toList (combination : PatternCombinations) :
    valueOf combination.toList =
      fun name => combination[String.ofList name]?.map String.toList := by
  funext name
  have found := OrderedMap.getElem?_emplaceAll combination.toList ∅ (String.ofList name)
  rw [OrderedMap.emplaceAll_toList, ExtTreeMap.getElem?_empty, Option.none_or] at found
  rw [found, valueOf, Option.map_map]
  rfl

private theorem valueOf_perm {order entries : List (String × String)}
    (distinct : (entries.map Prod.fst).Nodup) (same : order.Perm entries) :
    valueOf order = valueOf entries := by
  funext name
  rw [valueOf, valueOf, FirstMatch.lookup_perm distinct same]

private theorem distinct_entries (combination : PatternCombinations) :
    (combination.toList.map Prod.fst).Nodup := by
  rw [ExtTreeMap.map_fst_toList_eq_keys]
  exact ExtTreeMap.nodup_keys

/-- Where no placeholder is nested in another one, no key closes a placeholder and no
value opens one, the entries can be substituted in any order: every order gives what
replacing all of them in one pass gives, in which no value is expanded. -/
theorem substituteInOrder_perm (combination : PatternCombinations) (text : String)
    (separate : SeparateCombination combination) (unnested : Unnested text) :
    replaceCombinations text combination = simultaneous combination text ∧
      ∀ order : List (PatternKey × PatternValue), order.Perm combination.toList →
        substituteInOrder order text = simultaneous combination text := by
  have anyOrder : ∀ order : List (PatternKey × PatternValue),
      order.Perm combination.toList →
        substituteInOrder order text = simultaneous combination text := by
    intro order same
    have flat := Placeholder.flat_of_unnested (by decide) unnested
    have orderSeparate : ∀ entry ∈ order, '}' ∉ entry.1.toList ∧ '{' ∉ entry.2.toList := by
      intro entry member
      exact separate_entries separate entry (same.mem_iff.mp member)
    rw [← String.toList_inj, simultaneous, String.toList_ofList, ← valueOf_toList,
      ← valueOf_perm (distinct_entries combination) same]
    exact foldl_replacePatterns orderSeparate flat
  constructor
  · exact anyOrder combination.toList (List.Perm.refl _)
  · exact anyOrder

/-- A key whose placeholder a value could have completed comes first. -/
theorem substituteInOrder_perm_two :
    substituteInOrder [("B", "x"), ("A", "B\x7d")] "make \x7bA\x7d" =
      simultaneous (OrderedMap.emplaceAll [("A", "B\x7d"), ("B", "x")] ∅) "make \x7bA\x7d" := by
  apply (substituteInOrder_perm _ _ ?_ ?_).2
  · rw [OrderedMap.toList_emplaceAll_of_ordered (by decide)]
    exact List.Perm.swap _ _ _
  · intro key value found
    have member := ExtTreeMap.mem_toList_iff_getElem?_eq_some.mpr found
    rw [OrderedMap.mem_toList_emplaceAll_iff (by decide)] at member
    revert member
    simp only [List.mem_cons, List.not_mem_nil, or_false, Prod.mk.injEq]
    rintro (⟨rfl, rfl⟩ | ⟨rfl, rfl⟩)
    · decide
    · decide
  · exact Placeholder.unnested_of_count (by decide)

/-- Without any of the three conditions the order of the keys shows: a value may open a
placeholder, a replacement inside another placeholder may complete its name, and one
key may reach beyond the end of the other one. -/
theorem substituteInOrder_counterexample :
    substituteInOrder [("A", "\x7bB\x7d"), ("B", "x")] "\x7bA\x7d" ≠
        substituteInOrder [("B", "x"), ("A", "\x7bB\x7d")] "\x7bA\x7d" ∧
      substituteInOrder [("A", "B"), ("B", "x")] "\x7b\x7bA\x7d\x7d" ≠
        substituteInOrder [("B", "x"), ("A", "B")] "\x7b\x7bA\x7d\x7d" ∧
      substituteInOrder [("A", "B"), ("A\x7dB", "x")] "\x7bA\x7dB\x7d" ≠
        substituteInOrder [("A\x7dB", "x"), ("A", "B")] "\x7bA\x7dB\x7d" := by
  decide

/-- The keys and values of the combination hold no brace. -/
def BraceFreeCombination (combination : PatternCombinations) : Prop :=
  ∀ key value, combination[key]? = some value → BraceFree key ∧ BraceFree value

private theorem BraceFreeCombination.separate (braceFree : BraceFreeCombination combination) :
    SeparateCombination combination := by
  intro key value found
  rcases braceFree key value found with ⟨keyFree, valueFree⟩
  exact ⟨keyFree.2, valueFree.1⟩

private theorem plain_combination (braceFree : BraceFreeCombination combination) :
    Placeholder.Plain '{' fun name => combination[String.ofList name]?.map String.toList := by
  intro name new defined
  rcases Option.map_eq_some_iff.mp defined with ⟨value, found, rfl⟩
  exact (braceFree _ value found).2.1

/-- Replacing the keys one after the other is one simultaneous replacement. -/
theorem replaceCombinations_eq_simultaneous (braceFree : BraceFreeCombination combination)
    (unnested : Unnested text) :
    replaceCombinations text combination = simultaneous combination text := by
  have flat := Placeholder.flat_of_unnested (by decide) unnested
  rw [← String.toList_inj, simultaneous, String.toList_ofList, ← valueOf_toList]
  exact foldl_replacePatterns (separate_entries braceFree.separate) flat

theorem simultaneous_eq_empty_iff (unnested : Unnested text) :
    simultaneous combination text = "" ↔ Vanishes combination text := by
  have flat := Placeholder.flat_of_unnested (by decide) unnested
  rw [← String.toList_inj, simultaneous, String.toList_ofList, String.toList_empty]
  exact flat.substitute_eq_nil_iff (by decide)

/-- A second replacement finds nothing to do. -/
theorem replaceCombinations_idempotent (braceFree : BraceFreeCombination combination)
    (unnested : Unnested text) :
    replaceCombinations (replaceCombinations text combination) combination =
      replaceCombinations text combination := by
  have flat := Placeholder.flat_of_unnested (by decide) unnested
  have plain := plain_combination braceFree
  have onePass := foldl_replacePatterns (separate_entries braceFree.separate) flat
  rw [valueOf_toList] at onePass
  rw [← String.toList_inj, replaceCombinations,
    foldl_replacePatterns (separate_entries braceFree.separate)]
  · rw [valueOf_toList, replaceCombinations, onePass]
    exact Placeholder.substitute_idempotent (by decide) plain flat
  · rw [replaceCombinations, onePass]
    exact flat.substitute (by decide) plain

/-! ## Tasks -/

/-- A task and a combination for which the order of the keys does not matter. -/
structure Substitutable (task : Task) (combination : PatternCombinations) : Prop where
  braceFree : BraceFreeCombination combination
  arguments : ∀ argument ∈ task.task, Unnested argument
  environment : ∀ name value, task.env[name]? = some value → Unnested name ∧ Unnested value
  workingDirectory : Unnested task.workingDirectory
  distinct : ∀ name other, name ∈ task.env → other ∈ task.env →
    simultaneous combination name = simultaneous combination other → name = other

section Tasks

variable {task : Task} {currentPath : CurrentPath}

/-- Every variable is found under its substituted name. -/
theorem getElem?_environment_of_mem (substitutable : Substitutable task combination)
    {name value : String} (carried : task.env[name]? = some value) :
    (replacePatternsInEnvironment task.env combination)[simultaneous combination name]? =
      some (simultaneous combination value) := by
  rcases substitutable.environment name value carried with ⟨nameUnnested, valueUnnested⟩
  rw [getElem?_replacePatternsInEnvironment]
  have member := ExtTreeMap.mem_toList_iff_getElem?_eq_some.mpr carried
  have matching : replaceCombinations name combination = simultaneous combination name :=
    replaceCombinations_eq_simultaneous substitutable.braceFree nameUnnested
  cases first : task.env.toList.find? fun keyValue =>
      replaceCombinations keyValue.1 combination = simultaneous combination name with
  | none =>
      have missing := List.find?_eq_none.mp first (name, value) member
      simp [matching] at missing
  | some entry =>
      have listed := List.mem_of_find?_eq_some first
      have named := List.find?_some first
      rw [decide_eq_true_eq] at named
      have found : task.env[entry.1]? = some entry.2 :=
        ExtTreeMap.mem_toList_iff_getElem?_eq_some.mp listed
      have entryUnnested := (substitutable.environment entry.1 entry.2 found).1
      rw [replaceCombinations_eq_simultaneous substitutable.braceFree entryUnnested] at named
      have same : entry.1 = name := by
        apply substitutable.distinct entry.1 name _ _ named
        · rw [ExtTreeMap.mem_iff_isSome_getElem?, found]
          rfl
        · rw [ExtTreeMap.mem_iff_isSome_getElem?, carried]
          rfl
      rw [same, carried] at found
      rw [Option.map_some, ← Option.some.inj found,
        replaceCombinations_eq_simultaneous substitutable.braceFree valueUnnested]

/-- Every variable of the new environment comes from one of the old one. -/
theorem exists_of_getElem?_environment (substitutable : Substitutable task combination)
    {name value : String}
    (carried : (replacePatternsInEnvironment task.env combination)[name]? = some value) :
    ∃ old oldValue, task.env[old]? = some oldValue ∧ name = simultaneous combination old ∧
      value = simultaneous combination oldValue := by
  rw [getElem?_replacePatternsInEnvironment] at carried
  rcases Option.map_eq_some_iff.mp carried with ⟨entry, first, rfl⟩
  have named := List.find?_some first
  rw [decide_eq_true_eq] at named
  have found : task.env[entry.1]? = some entry.2 :=
    ExtTreeMap.mem_toList_iff_getElem?_eq_some.mp (List.mem_of_find?_eq_some first)
  rcases substitutable.environment entry.1 entry.2 found with ⟨nameUnnested, valueUnnested⟩
  refine ⟨entry.1, entry.2, found, ?_, ?_⟩
  · rw [← named, replaceCombinations_eq_simultaneous substitutable.braceFree nameUnnested]
  · exact replaceCombinations_eq_simultaneous substitutable.braceFree valueUnnested

/-- The substituted environment is not changed by the same combination again. -/
theorem replacePatternsInEnvironment_idempotent (substitutable : Substitutable task combination) :
    replacePatternsInEnvironment (replacePatternsInEnvironment task.env combination)
        combination = replacePatternsInEnvironment task.env combination := by
  have fixed : ∀ entry ∈ (replacePatternsInEnvironment task.env combination).toList,
      (replaceCombinations entry.1 combination, replaceCombinations entry.2 combination) =
        entry := by
    intro entry member
    have carried := ExtTreeMap.mem_toList_iff_getElem?_eq_some.mp member
    rcases exists_of_getElem?_environment substitutable carried with
      ⟨old, oldValue, found, named, valued⟩
    rcases substitutable.environment old oldValue found with ⟨nameUnnested, valueUnnested⟩
    have braceFree := substitutable.braceFree
    rw [← replaceCombinations_eq_simultaneous braceFree nameUnnested] at named
    rw [← replaceCombinations_eq_simultaneous braceFree valueUnnested] at valued
    rw [Prod.mk.injEq, named, valued]
    exact ⟨replaceCombinations_idempotent braceFree nameUnnested,
      replaceCombinations_idempotent braceFree valueUnnested⟩
  rw [replacePatternsInEnvironment, (List.map_congr_left fixed).trans (List.map_id _)]
  exact OrderedMap.emplaceAll_toList _

/-- What becomes of a task is not changed by the same combination again. -/
theorem substitutedTask_idempotent (currentPath : CurrentPath)
    (substitutable : Substitutable task combination) :
    substitutedTask currentPath (substitutedTask currentPath task combination) combination =
      substitutedTask currentPath task combination := by
  have arguments : (task.task.map fun argument => replaceCombinations argument combination).map
      (fun argument => replaceCombinations argument combination) =
        task.task.map fun argument => replaceCombinations argument combination := by
    rw [List.map_map]
    apply List.map_congr_left
    intro argument member
    exact replaceCombinations_idempotent substitutable.braceFree
      (substitutable.arguments argument member)
  have directory := replaceCombinations_idempotent substitutable.braceFree
    substitutable.workingDirectory
  have notSubstituted : '{' ∉ "PWD".toList := by decide
  simp only [substitutedTask, withPWD, substituted, arguments, directory,
    replacePatternsInEnvironment_insert _ combination notSubstituted,
    replacePatternsInEnvironment_idempotent substitutable]

/-- The new task is the old one after one simultaneous replacement in each of its texts, and
its `PWD` is where it is executed whatever the environment said. -/
structure IsSimultaneous (currentPath : CurrentPath) (task : Task)
    (combination : PatternCombinations) (new : Task) : Prop where
  arguments : new.task = task.task.map (simultaneous combination)
  workingDirectory : new.workingDirectory = simultaneous combination task.workingDirectory
  holdsPwd : Task.HoldsPwd currentPath new
  carries : ∀ name value, task.env[name]? = some value → simultaneous combination name ≠ "PWD" →
    new.env[simultaneous combination name]? = some (simultaneous combination value)
  carriesOnly : ∀ name value, new.env[name]? = some value → name ≠ "PWD" →
    ∃ old oldValue, task.env[old]? = some oldValue ∧ name = simultaneous combination old ∧
      value = simultaneous combination oldValue
  again : replacePatternCombinations currentPath new combination = some new

theorem isSimultaneous_substitutedTask (substitutable : Substitutable task combination)
    (nonempty : simultaneous combination task.workingDirectory ≠ "") :
    IsSimultaneous currentPath task combination
      (substitutedTask currentPath task combination) := by
  have directory := replaceCombinations_eq_simultaneous substitutable.braceFree
    substitutable.workingDirectory
  have elsewhere : ∀ name, name ≠ "PWD" →
      (substitutedTask currentPath task combination).env[name]? =
        (replacePatternsInEnvironment task.env combination)[name]? := by
    intro name different
    rw [substitutedTask, withPWD, ExtTreeMap.getElem?_insert, if_neg, substituted]
    intro same
    exact different (Std.LawfulEqOrd.eq_of_compare same).symm
  constructor
  · apply List.map_congr_left
    intro argument member
    exact replaceCombinations_eq_simultaneous substitutable.braceFree
      (substitutable.arguments argument member)
  · exact directory
  · refine ⟨_, Path.absolute_of_nonempty (directory.trans_ne nonempty) currentPath, ?_⟩
    exact ExtTreeMap.getElem?_insert_self
  · intro name value carried different
    rw [elsewhere _ different]
    exact getElem?_environment_of_mem substitutable carried
  · intro name value carried different
    rw [elsewhere name different] at carried
    exact exists_of_getElem?_environment substitutable carried
  · have again : replaceCombinations
        (substitutedTask currentPath task combination).workingDirectory combination =
          simultaneous combination task.workingDirectory :=
      (replaceCombinations_idempotent substitutable.braceFree
        substitutable.workingDirectory).trans directory
    rw [replacePatternCombinations_eq_some_iff, again]
    exact ⟨nonempty, (substitutedTask_idempotent currentPath substitutable).symm⟩

/-- Substituting in a task is one simultaneous replacement exactly when its working directory
holds more than placeholders with empty values. Otherwise the process ends. -/
theorem replacePatternCombinations_simultaneous_iff (currentPath : CurrentPath) (task : Task)
    (combination : PatternCombinations) (substitutable : Substitutable task combination) :
    (∃ new, replacePatternCombinations currentPath task combination = some new ∧
        IsSimultaneous currentPath task combination new) ↔
      ¬Vanishes combination task.workingDirectory := by
  have directory := replaceCombinations_eq_simultaneous substitutable.braceFree
    substitutable.workingDirectory
  rw [← simultaneous_eq_empty_iff substitutable.workingDirectory]
  constructor
  · rintro ⟨new, replaced, _⟩
    rw [← directory]
    exact (replacePatternCombinations_eq_some_iff.mp replaced).1
  · intro nonempty
    refine ⟨_, replacePatternCombinations_eq_some_iff.mpr ⟨?_, rfl⟩,
      isSimultaneous_substitutedTask substitutable nonempty⟩
    rwa [directory]

/-! ### A directory that is a placeholder -/

/-- A task in a directory that is a placeholder, with another directory in `PWD`. -/
def targetTask : Task := ⟨["make"], (∅ : EnvironmentCollection).insert "PWD" "/", "{TARGET}"⟩

theorem substitutable_targetTask {value : String} (braceFree : BraceFree value) :
    Substitutable targetTask ((∅ : PatternCombinations).insert "TARGET" value) := by
  constructor
  · intro key other found
    rw [ExtTreeMap.getElem?_insert] at found
    split at found
    next same =>
      rw [← Std.LawfulEqOrd.eq_of_compare same, ← Option.some.inj found]
      exact ⟨⟨by decide, by decide⟩, braceFree⟩
    next => simp at found
  · intro argument member
    rw [List.mem_singleton.mp member]
    exact Placeholder.unnested_of_count (by decide)
  · intro name other found
    rw [targetTask, ExtTreeMap.getElem?_insert] at found
    split at found
    next same =>
      rw [← Std.LawfulEqOrd.eq_of_compare same, ← Option.some.inj found]
      constructor <;> exact Placeholder.unnested_of_count (by decide)
    next => simp at found
  · exact Placeholder.unnested_of_count (by decide)
  · intro name other nameMember otherMember _
    rw [targetTask, ExtTreeMap.mem_insert] at nameMember otherMember
    simp only [ExtTreeMap.not_mem_empty, or_false, compare_eq_iff_eq] at nameMember otherMember
    rw [← nameMember, otherMember]

theorem replacePatternCombinations_simultaneous_iff_target :
    ∃ new, replacePatternCombinations .root targetTask
        ((∅ : PatternCombinations).insert "TARGET" "build") = some new ∧
      new.workingDirectory = "build" ∧ new.env["PWD"]? = some "/build" := by
  have substitutable := @substitutable_targetTask "build" ⟨by decide, by decide⟩
  have named : ¬Vanishes ((∅ : PatternCombinations).insert "TARGET" "build")
      targetTask.workingDirectory := by
    rw [← simultaneous_eq_empty_iff substitutable.workingDirectory]
    decide
  obtain ⟨new, replaced, simultaneously⟩ :=
    (replacePatternCombinations_simultaneous_iff .root _ _ substitutable).mpr named
  have directory : new.workingDirectory = "build" :=
    simultaneously.workingDirectory.trans (by decide)
  obtain ⟨absolutePath, absolute, pwd⟩ := simultaneously.holdsPwd
  rw [directory, Path.absolute_of_nonempty (by decide), Option.some.injEq] at absolute
  exact ⟨new, replaced, directory, pwd.trans (congrArg some (absolute.symm.trans (by decide)))⟩

/-- The placeholder has no text as its value. -/
theorem replacePatternCombinations_simultaneous_counterexample :
    ¬∀ (currentPath : CurrentPath) (task : Task) (combination : PatternCombinations),
      Substitutable task combination →
        ∃ new, replacePatternCombinations currentPath task combination = some new ∧
          IsSimultaneous currentPath task combination new := by
  intro claimed
  obtain ⟨new, replaced, -⟩ := claimed .root targetTask
    ((∅ : PatternCombinations).insert "TARGET" "")
    (substitutable_targetTask ⟨by decide, by decide⟩)
  exact (replacePatternCombinations_eq_some_iff.mp replaced).1 (by decide)

end Tasks

end ExecHelper.Plugins
