import ExecHelper.Config.Envp
import ExecHelper.Library.OrderedMap
import Mathlib.Data.String.Basic

/-!
# The environment of the process

The program is given its environment as a block of strings, which it decodes into a
collection, and a command is given a block that is built from such a collection.  A
string is split at its first delimiter only, so a value may contain further ones, and
of several strings with one name the first decides.
-/

namespace ExecHelper.Applications

open Std
open ExecHelper.Config
open ExecHelper.Core
open ExecHelper.Library

/-! ## Decoding -/

/-- Split a string at the first delimiter. -/
def splitVariable (newEnv : String) : String × String :=
  match newEnv.toList.findIdx? Envp.DELIMITER.toList.contains with
  | some pos =>
      (String.ofList (newEnv.toList.take pos),
        String.ofList (newEnv.toList.drop (pos + Envp.DELIMITER.length)))
  -- The position is the largest number then, and the one after it is 0 again.
  | none => (newEnv, newEnv)

/-- Emplace the strings up to the first null pointer. What is behind the array, or behind
an unterminated buffer, is undefined. -/
def emplaceVariables (result : EnvironmentCollection) :
    PointerArray → Option EnvironmentCollection
  | [] => none
  | none :: _ => some result
  | some envValue :: rest => do
      let newEnv ← CString.text? NUL envValue
      let envVar := splitVariable (String.ofList newEnv)
      emplaceVariables (result.insertIfNew envVar.1 envVar.2) rest

/-- The collection of all variables (`toEnvCollection`). -/
def toEnvCollection (envp : PointerArray) : Option EnvironmentCollection :=
  emplaceVariables ∅ envp

/-- What is before the first equals sign. -/
def variableName (newEnv : String) : String :=
  String.ofList (newEnv.toList.takeWhile fun character => character ≠ '=')

/-! ## Single strings -/

section Variables

variable {envVar : String × String}

theorem toList_envVarString (envVar : String × String) :
    (Envp.envVarString envVar).toList = envVar.1.toList ++ '=' :: envVar.2.toList := by
  rw [Envp.envVarString, String.toList_append, String.toList_append, List.append_assoc]
  rfl

/-- The first delimiter is the one that was put between name and value. -/
theorem findIdx?_envVarString (plain : '=' ∉ envVar.1.toList) :
    (Envp.envVarString envVar).toList.findIdx? Envp.DELIMITER.toList.contains =
      some envVar.1.toList.length := by
  rw [toList_envVarString]
  generalize envVar.1.toList = name at plain
  induction name with
  | nil => rfl
  | cons character rest inductionHypothesis =>
      rcases not_or.mp (List.mem_cons.not.mp plain) with ⟨different, restPlain⟩
      have other : Envp.DELIMITER.toList.contains character = false := by
        simpa [Envp.DELIMITER] using Ne.symm different
      rw [List.cons_append, List.findIdx?_cons, other, inductionHypothesis restPlain]
      rfl

theorem splitVariable_envVarString (plain : '=' ∉ envVar.1.toList) :
    splitVariable (Envp.envVarString envVar) = envVar := by
  rw [splitVariable, findIdx?_envVarString plain, toList_envVarString]
  have rest : (envVar.1.toList ++ '=' :: envVar.2.toList).drop
      (envVar.1.toList.length + Envp.DELIMITER.length) = envVar.2.toList := by
    rw [← List.drop_drop, List.drop_left]
    rfl
  simp only [rest, List.take_left, String.ofList_toList]

theorem variableName_envVarString (plain : '=' ∉ envVar.1.toList) :
    variableName (Envp.envVarString envVar) = envVar.1 := by
  have kept : ∀ character ∈ envVar.1.toList, decide (character ≠ '=') = true := by
    rintro character member
    exact decide_eq_true (ne_of_mem_of_not_mem member plain)
  rw [variableName, toList_envVarString, List.takeWhile_append_of_pos kept]
  simp

/-- A string with a delimiter is a variable. -/
theorem exists_eq_envVarString {newEnv : String} (delimited : '=' ∈ newEnv.toList) :
    ∃ envVar : String × String, '=' ∉ envVar.1.toList ∧ newEnv = Envp.envVarString envVar := by
  rcases List.eq_append_cons_of_mem delimited with ⟨name, value, split, plain⟩
  refine ⟨(String.ofList name, String.ofList value), ?_, ?_⟩
  · rwa [String.toList_ofList]
  · apply String.toList_injective
    rw [toList_envVarString, String.toList_ofList, String.toList_ofList, split]

end Variables

/-! ## Blocks -/

section Blocks

variable {entries : List (String × String)} {block : PointerArray} {strings : List String}

theorem map_splitVariable_map_envVarString (plain : ∀ entry ∈ entries, '=' ∉ entry.1.toList) :
    (entries.map Envp.envVarString).map splitVariable = entries := by
  have same : ∀ entry ∈ entries, (splitVariable ∘ Envp.envVarString) entry = id entry :=
    fun entry member => splitVariable_envVarString (plain entry member)
  rw [List.map_map, List.map_congr_left same, List.map_id]

/-- Strings with delimiters are the strings of their variables. -/
theorem exists_eq_map_envVarString (delimited : ∀ string ∈ strings, '=' ∈ string.toList) :
    ∃ entries : List (String × String), (∀ entry ∈ entries, '=' ∉ entry.1.toList) ∧
      strings = entries.map Envp.envVarString := by
  induction strings with
  | nil => exact ⟨[], List.forall_mem_nil _, rfl⟩
  | cons string rest inductionHypothesis =>
      rcases List.forall_mem_cons.mp delimited with ⟨first, later⟩
      rcases exists_eq_envVarString first with ⟨envVar, plain, rfl⟩
      rcases inductionHypothesis later with ⟨entries, restPlain, rfl⟩
      exact ⟨envVar :: entries, List.forall_mem_cons.mpr ⟨plain, restPlain⟩, rfl⟩

/-- The variables of a block are emplaced one after the other. -/
theorem toEnvCollection_of_holds (holds : block.Holds strings) :
    toEnvCollection block = some (OrderedMap.emplaceAll (strings.map splitVariable) ∅) := by
  rcases holds with ⟨buffers, rfl, texts⟩
  rw [toEnvCollection]
  generalize (∅ : EnvironmentCollection) = result
  induction texts generalizing result with
  | nil => rfl
  | cons text _ inductionHypothesis =>
      rw [List.map_cons, List.cons_append, emplaceVariables, text]
      simp only [Option.bind_eq_bind, Option.bind_some, String.ofList_toList,
        inductionHypothesis]
      rfl

/-- The block that is built from a collection holds the variables in key order. -/
theorem holds_ofEnvironment {env : EnvironmentCollection}
    (plain : ∀ entry ∈ env.toList, NUL ∉ (Envp.envVarString entry).toList) :
    ∃ block, Envp.ofEnvironment env = some block ∧
      block.Holds (env.toList.map Envp.envVarString) := by
  apply PointerArray.holds_ofStrings
  exact List.forall_mem_map.mpr plain

/-- A collection comes back from its block. -/
theorem toEnvCollection_ofEnvironment {env : EnvironmentCollection}
    (plain : ∀ entry ∈ env.toList, '=' ∉ entry.1.toList ∧ NUL ∉ entry.1.toList ∧
      NUL ∉ entry.2.toList) :
    ∃ block, Envp.ofEnvironment env = some block ∧ toEnvCollection block = some env := by
  have plainVariables : ∀ entry ∈ env.toList, NUL ∉ (Envp.envVarString entry).toList := by
    intro entry member
    rcases plain entry member with ⟨_, name, value⟩
    have other : NUL ≠ '=' := by decide
    rw [toList_envVarString]
    simp [name, value, other]
  rcases holds_ofEnvironment plainVariables with ⟨block, built, holds⟩
  refine ⟨block, built, ?_⟩
  rw [toEnvCollection_of_holds holds,
    map_splitVariable_map_envVarString fun entry member => (plain entry member).1,
    OrderedMap.emplaceAll_toList]

/-- The variables come out of the collection in the order of their names. -/
theorem pairwise_variableName {env : EnvironmentCollection}
    (plain : ∀ entry ∈ env.toList, '=' ∉ entry.1.toList) :
    (env.toList.map Envp.envVarString).Pairwise fun string later =>
      variableName string < variableName later := by
  rw [List.pairwise_map]
  apply ExtTreeMap.ordered_keys_toList.imp_of_mem
  intro entry later member laterMember before
  rw [variableName_envVarString (plain entry member),
    variableName_envVarString (plain later laterMember)]
  exact compare_lt_iff_lt.mp before

/-- A block comes back from its collection, but for the order of its strings. -/
theorem ofEnvironment_toEnvCollection (holds : block.Holds strings)
    (delimited : ∀ string ∈ strings, '=' ∈ string.toList)
    (distinct : (strings.map variableName).Nodup) :
    ∃ (env : EnvironmentCollection) (rebuilt : PointerArray) (ordered : List String),
      toEnvCollection block = some env ∧ Envp.ofEnvironment env = some rebuilt ∧
      rebuilt.Holds ordered ∧ ordered.Perm strings ∧
      ordered.Pairwise fun string later => variableName string < variableName later := by
  have plain := holds.plain
  rcases exists_eq_map_envVarString delimited with ⟨entries, plainNames, rfl⟩
  have names : (entries.map Envp.envVarString).map variableName = entries.map Prod.fst := by
    rw [List.map_map]
    apply List.map_congr_left
    exact fun entry member => variableName_envVarString (plainNames entry member)
  rw [names] at distinct
  have inserted := OrderedMap.mem_toList_emplaceAll_iff distinct
  have permuted := (OrderedMap.toList_emplaceAll_perm distinct).map Envp.envVarString
  have plainVariables : ∀ entry ∈ (OrderedMap.emplaceAll entries ∅).toList,
      NUL ∉ (Envp.envVarString entry).toList := by
    intro entry member
    exact plain _ (List.mem_map_of_mem ((inserted entry).mp member))
  rcases holds_ofEnvironment plainVariables with ⟨rebuilt, built, rebuiltHolds⟩
  refine ⟨_, rebuilt, _, ?_, built, rebuiltHolds, permuted, ?_⟩
  · rw [toEnvCollection_of_holds holds, map_splitVariable_map_envVarString plainNames]
  · apply pairwise_variableName
    exact fun entry member => plainNames entry ((inserted entry).mp member)

end Blocks

/-- Encoding and decoding undo each other. A collection comes back from its block, and a
block of delimited strings with different names from its collection, in the order of the
names. -/
theorem toEnvCollection_envp :
    (∀ env : EnvironmentCollection,
      (∀ entry ∈ env.toList, '=' ∉ entry.1.toList ∧ NUL ∉ entry.1.toList ∧
        NUL ∉ entry.2.toList) →
      ∃ block, Envp.ofEnvironment env = some block ∧ toEnvCollection block = some env) ∧
    (∀ (block : PointerArray) (strings : List String), block.Holds strings →
      (∀ string ∈ strings, '=' ∈ string.toList) → (strings.map variableName).Nodup →
      ∃ (env : EnvironmentCollection) (rebuilt : PointerArray) (ordered : List String),
        toEnvCollection block = some env ∧ Envp.ofEnvironment env = some rebuilt ∧
        rebuilt.Holds ordered ∧ ordered.Perm strings ∧
        ordered.Pairwise fun string later => variableName string < variableName later) := by
  constructor
  · exact fun env plain => toEnvCollection_ofEnvironment plain
  · exact fun block strings holds delimited distinct =>
      ofEnvironment_toEnvCollection holds delimited distinct

/-- A value with a delimiter, an empty value and an empty name. -/
theorem toEnvCollection_envp_delimiters :
    (∃ block, Envp.ofEnvironment (ExtTreeMap.ofList [("B", ""), ("A", "x=y")]) = some block ∧
      toEnvCollection block = some (ExtTreeMap.ofList [("B", ""), ("A", "x=y")])) ∧
    ∃ (env : EnvironmentCollection) (rebuilt : PointerArray) (ordered : List String),
      toEnvCollection [some ['B', '=', NUL], some ['=', '=', NUL], none] = some env ∧
      Envp.ofEnvironment env = some rebuilt ∧ rebuilt.Holds ordered ∧
      ordered.Perm ["B=", "=="] ∧
      ordered.Pairwise fun string later => variableName string < variableName later := by
  constructor
  · exact toEnvCollection_envp.1 _ (by decide)
  · refine toEnvCollection_envp.2 _ ["B=", "=="]
      ⟨[['B', '=', NUL], ['=', '=', NUL]], rfl, ?_⟩ (by decide) (by decide)
    exact .cons (by decide) (.cons (by decide) .nil)

end ExecHelper.Applications
