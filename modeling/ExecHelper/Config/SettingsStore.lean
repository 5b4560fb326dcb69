import ExecHelper.Config.SettingsAssign
import ExecHelper.Config.SettingsEquality
import ExecHelper.Config.SettingsReplace
import ExecHelper.Library.PathMap

/-!
# Settings as a store

Settings are written by adding, replacing, clearing and overwriting values, and read by the
values at a key path.  Only the first child with a key is ever reached, so a store is what
it is read as exactly as long as no siblings have the same key.  As long as they do not, a
run of operations on the hierarchy is the same run on the map from key paths to values.
-/

namespace ExecHelper.Config

open ExecHelper.Library
open ExecHelper.Library.Machine

/-- An operation that changes settings. -/
inductive SettingsOperation where
  | add (keys : SettingsKeys) (newValue : SettingsValues)
  | clear (keys : SettingsKeys)
  | replace (keys : SettingsKeys) (newValue : SettingsValues)
  | overwrite (newSettings : SettingsNode)

/-- The operation on the values at key paths. -/
def SettingsOperation.onValues : SettingsOperation → PathMap.Operation SettingsKey
  | .add keys newValue => .append keys newValue
  | .clear keys => .remove keys
  | .replace keys newValue => .replace keys newValue
  | .overwrite newSettings => .overlay newSettings.getValues

namespace SettingsNode

variable {node : SettingsNode} {front keys path : SettingsKeys} {key : SettingsKey}
variable {newValue : SettingsValues} {newSettings : SettingsNode}

def perform (node : SettingsNode) : SettingsOperation → SettingsNode
  | .add keys newValue => node.add keys newValue
  | .clear keys => (node.clear keys).2
  | .replace keys newValue => node.replace keys newValue
  | .overwrite newSettings => node.overwrite newSettings

/-! ## What is read afterwards -/

theorem contains_concat_iff :
    node.contains (front ++ [key]) ↔ key ∈ PathMap.listed node.getValues front := by
  rw [PathMap.listed, getValues_eq, contains_eq, atPath?_append]
  cases node.atPath? front with
  | none => simp
  | some parent =>
      rw [Option.bind_some, Option.bind_some, ← contains_eq, contains_cons]
      have listed : (parent.at? key).isSome ↔ key ∈ parent.values.getD [] := by
        rw [at?, FirstMatch.lookup_isSome_iff, values]
        cases parent.mValues <;> simp
      rw [← listed]
      cases parent.at? key <;> simp

theorem getValues_add (node : SettingsNode) (keys : SettingsKeys) (newValue : SettingsValues) :
    (node.add keys newValue).getValues = PathMap.append node.getValues keys newValue := by
  funext path
  rw [PathMap.append]
  by_cases same : path = keys
  · subst same
    rw [if_pos rfl, getValues_add_self, PathMap.listed]
  · rw [if_neg same]
    cases next : PathMap.nextLabel path keys with
    | none =>
        apply getValues_add_of_ne node keys path newValue same
        intro key rest split
        have found := PathMap.nextLabel_eq_some_iff.mpr ⟨rest, split⟩
        rw [next] at found
        cases found
    | some key =>
        obtain ⟨rest, rfl⟩ := PathMap.nextLabel_eq_some_iff.mp next
        simp only [← contains_concat_iff]
        by_cases present : node.contains (path ++ [key])
        · rw [if_pos present]
          apply getValues_add_of_ne node _ path newValue same
          intro other further split
          obtain ⟨rfl, -⟩ := List.cons.inj (List.append_cancel_left split)
          exact present
        · rw [if_neg present]
          exact getValues_add_created node path key rest newValue present

theorem Cleared.getValues_eq {after : SettingsNode} (cleared : Cleared node after front key) :
    after.getValues = PathMap.remove node.getValues (front ++ [key]) := by
  funext path
  simp only [PathMap.remove_concat]
  by_cases below : front ++ [key] <+: path
  · rw [if_pos below]
    apply getValues_of_not_contains
    rw [cleared.contains]
    exact fun inside => inside.2 below
  · rw [if_neg below]
    by_cases same : path = front
    · subst same
      rw [if_pos rfl]
      exact cleared.parent
    · rw [if_neg same]
      exact cleared.elsewhere path below same

theorem values_overwriteChild (settings : SettingsNode)
    (listed : (newSettings.at? key).isSome) :
    (overwriteChild newSettings settings key).values = PathMap.listOnce settings.values key := by
  obtain ⟨newValue, found⟩ := Option.isSome_iff_exists.mp listed
  have present : settings.containsKey key ↔ key ∈ settings.values.getD [] := by
    rw [containsKey_eq, at?, FirstMatch.lookup_isSome_iff, values]
    cases settings.mValues <;> simp
  rw [overwriteChild, found, PathMap.listOnce]
  dsimp only
  rw [values_modifyAt (deepCopy_keeps newValue key)]
  by_cases known : settings.containsKey key
  · rw [if_pos known, if_pos (present.mp known)]
  · rw [if_neg known, if_neg fun member => known (present.mpr member), addValue_eq,
      values_addValues]

theorem getValues_deepCopy (node newValue : SettingsNode) (path : SettingsKeys) :
    (node.deepCopy newValue).getValues path =
      if newValue.mValues.isSome then newValue.getValues path else node.getValues path := by
  cases carried : newValue.mValues with
  | none => rw [deepCopy, carried]; rfl
  | some children =>
      have same : (node.deepCopy newValue).mValues = newValue.mValues := by
        rw [deepCopy, carried]
      cases path with
      | nil => simp [values, same]
      | cons key rest => simp [getValues_cons, at?, same]

theorem getValues_overwrite (node newSettings : SettingsNode) :
    (node.overwrite newSettings).getValues =
      PathMap.overlay node.getValues newSettings.getValues := by
  funext path
  cases path with
  | nil =>
      have step : ∀ keys : SettingsKeys, (∀ key ∈ keys, (newSettings.at? key).isSome) →
          ∀ settings : SettingsNode, (keys.foldl (overwriteChild newSettings) settings).values =
            keys.foldl PathMap.listOnce settings.values := by
        intro keys
        induction keys with
        | nil => exact fun _ _ => rfl
        | cons key rest inductionHypothesis =>
            intro listed settings
            obtain ⟨first, later⟩ := List.forall_mem_cons.mp listed
            rw [List.foldl_cons, inductionHypothesis later, values_overwriteChild settings first,
              List.foldl_cons]
      rw [getValues_nil, overwrite_eq, PathMap.overlay, PathMap.listed, getValues_nil,
        getValues_nil]
      apply step
      intro key member
      rw [at?, FirstMatch.lookup_isSome_iff]
      rw [values] at member
      cases carried : newSettings.mValues with
      | none => simp [carried] at member
      | some children => simpa [carried] using member
  | cons key rest =>
      rw [getValues_cons, PathMap.overlay, getValues_cons newSettings key []]
      cases found : newSettings.at? key with
      | none =>
          rw [at?_overwrite_of_none node found, ← getValues_cons]
          rfl
      | some newValue =>
          rw [at?_overwrite node found, Option.bind_some, Option.bind_some, getValues_nil,
            getValues_deepCopy, getValues_getD_at?, getValues_cons newSettings, found,
            Option.bind_some, values, Option.isSome_map]

/-! ## Distinct siblings -/

theorem distinctSiblings_iff (node : SettingsNode) :
    node.DistinctSiblings ↔ PathMap.Distinct node.getValues := by
  induction node using childInduction with
  | step node inductionHypothesis =>
      constructor
      · rintro ⟨keys, below⟩ path
        cases path with
        | nil =>
            rw [PathMap.listed, getValues_nil, values]
            cases carried : node.mValues with
            | none => exact List.nodup_nil
            | some children => simpa [carried] using keys
        | cons key rest =>
            rw [PathMap.listed, getValues_cons]
            cases found : node.at? key with
            | none => exact List.nodup_nil
            | some child =>
                have member : child ∈ node.mValues.getD [] := List.mem_of_find?_eq_some found
                exact (inductionHypothesis child member).mp (below child member) rest
      · intro distinct
        have keys : ((node.mValues.getD []).map mKey).Nodup := by
          have root := distinct []
          rw [PathMap.listed, getValues_nil, values] at root
          cases carried : node.mValues with
          | none => exact List.nodup_nil
          | some children => simpa [carried] using root
        refine ⟨keys, fun child member => (inductionHypothesis child member).mpr fun path => ?_⟩
        have own := distinct (child.mKey :: path)
        rwa [PathMap.listed, getValues_cons, at?_of_mem keys member, Option.bind_some] at own

theorem DistinctSiblings.holdsAtMostOne (distinct : node.DistinctSiblings) (front : SettingsKeys)
    (key : SettingsKey) : node.HoldsAtMostOne front key :=
  List.nodup_iff_count_le_one.mp ((distinctSiblings_iff node).mp distinct front) key

/-- Among distinct siblings, an operation does to the values what it is meant to do. -/
theorem DistinctSiblings.getValues_perform (distinct : node.DistinctSiblings)
    (operation : SettingsOperation) :
    (node.perform operation).getValues = PathMap.perform node.getValues operation.onValues := by
  have cleared : ∀ keys, (node.clear keys).2.getValues = PathMap.remove node.getValues keys := by
    intro keys
    rcases List.eq_nil_or_concat keys with rfl | ⟨front, key, rfl⟩
    · rfl
    · rw [List.concat_eq_append]
      exact (cleared_clear (distinct.holdsAtMostOne front key)).getValues_eq
  cases operation with
  | add keys newValue => exact getValues_add node keys newValue
  | clear keys => exact cleared keys
  | replace keys newValue =>
      rw [perform, replace_eq, getValues_add, cleared]
      rfl
  | overwrite newSettings => exact getValues_overwrite node newSettings

/-! ## Runs -/

def step (node : SettingsNode) (operation : SettingsOperation) : Option SettingsNode :=
  some (node.perform operation)

/-- Siblings stay distinct on the hierarchy as the labels do on the map. -/
theorem always_distinctSiblings_iff_always_distinct (start : SettingsNode)
    (operations : List SettingsOperation) :
    Always step DistinctSiblings start operations ↔
      Always PathMap.step PathMap.Distinct start.getValues
        (operations.map SettingsOperation.onValues) := by
  induction operations generalizing start with
  | nil => exact distinctSiblings_iff start
  | cons operation rest inductionHypothesis =>
      constructor
      · rintro ⟨distinct, later⟩
        refine ⟨(distinctSiblings_iff start).mp distinct, ?_⟩
        rintro _ ⟨⟩
        rw [← distinct.getValues_perform operation, ← inductionHypothesis]
        exact later _ rfl
      · rintro ⟨labels, later⟩
        have distinct := (distinctSiblings_iff start).mpr labels
        refine ⟨distinct, ?_⟩
        rintro _ ⟨⟩
        rw [inductionHypothesis, distinct.getValues_perform operation]
        exact later _ rfl

/-- As long as siblings are distinct, a run on the hierarchy is the run on the map. -/
theorem getValues_foldl_perform {start : SettingsNode} {operations : List SettingsOperation}
    (distinct : Always step DistinctSiblings start operations) :
    (operations.foldl perform start).getValues =
      (operations.map SettingsOperation.onValues).foldl PathMap.perform start.getValues := by
  induction operations generalizing start with
  | nil => rfl
  | cons operation rest inductionHypothesis =>
      rw [List.foldl_cons, List.map_cons, List.foldl_cons,
        ← distinct.head.getValues_perform operation]
      exact inductionHypothesis (distinct.2 _ rfl)

/-- Settings are a store of values at key paths.  Siblings are distinct in every state of a
run exactly when they are at the start and no operation lists a value twice, which can be
told from the values alone; and then the values at all key paths are what the same run makes
of them on the map. -/
theorem always_distinctSiblings_iff (start : SettingsNode) (operations : List SettingsOperation) :
    (Always step DistinctSiblings start operations ↔
      PathMap.Distinct start.getValues ∧
        EachStep PathMap.step PathMap.KeepsDistinct start.getValues
          (operations.map SettingsOperation.onValues)) ∧
      (Always step DistinctSiblings start operations →
        (operations.foldl perform start).getValues =
          (operations.map SettingsOperation.onValues).foldl PathMap.perform start.getValues) := by
  constructor
  · rw [always_distinctSiblings_iff_always_distinct]
    exact PathMap.always_distinct_iff _ _
  · exact getValues_foldl_perform

/-- What is written last is read, whatever else is written in between: a run that leaves a key
path alone, after the values there were replaced, ends with these values. -/
theorem getValues_replace_run (start : SettingsNode) (keys : SettingsKeys)
    (newValue : SettingsValues) (operations : List SettingsOperation) (nonempty : keys ≠ [])
    (distinct : Always step DistinctSiblings start (.replace keys newValue :: operations))
    (spares : ∀ operation ∈ operations, operation.onValues.Spares keys) :
    (operations.foldl perform (start.replace keys newValue)).getValues keys = some newValue := by
  have replaced : (start.replace keys newValue).getValues keys = some newValue := by
    have performed := distinct.head.getValues_perform (.replace keys newValue)
    rw [perform] at performed
    obtain ⟨front, key, rfl⟩ := (List.eq_nil_or_concat keys).resolve_left nonempty
    rw [List.concat_eq_append] at performed ⊢
    rw [performed]
    simp [SettingsOperation.onValues, PathMap.perform, PathMap.replace, PathMap.append_self,
      PathMap.listed, PathMap.remove_concat]
  have sparesAll : ∀ operation ∈ operations.map SettingsOperation.onValues,
      operation.Spares keys := by
    intro operation member
    obtain ⟨own, ownMember, rfl⟩ := List.mem_map.mp member
    exact spares own ownMember
  have rest : Always step DistinctSiblings (start.replace keys newValue) operations :=
    distinct.2 _ rfl
  rw [getValues_foldl_perform rest, PathMap.foldl_perform_of_spares sparesAll, replaced]

/-- The number of jobs, whatever commands are given after it. -/
theorem getValues_replace_run_jobs :
    ([SettingsOperation.replace ["command"] ["make"], .add ["command"] ["test"]].foldl perform
      ((ofKey "options").replace ["jobs"] ["4"])).getValues ["jobs"] = some ["4"] := by
  apply getValues_replace_run
  · exact List.cons_ne_nil _ _
  · rw [always_distinctSiblings_iff_always_distinct, PathMap.always_distinct_iff]
    constructor
    · intro path
      rw [PathMap.listed, getValues_ofKey]
      exact List.nodup_nil
    · rintro _ ⟨⟩
      refine ⟨⟨List.nodup_singleton _, fun empty => absurd empty (List.cons_ne_nil _ _)⟩, ?_⟩
      rintro _ ⟨⟩
      refine ⟨⟨List.nodup_singleton _, fun empty => absurd empty (List.cons_ne_nil _ _)⟩, ?_⟩
      rintro _ ⟨⟩
      refine ⟨⟨List.nodup_singleton _, ?_⟩, trivial⟩
      intro label member old
      obtain rfl := List.mem_singleton.mp member
      revert old
      decide
  · intro operation member
    simp only [List.mem_cons, List.not_mem_nil, or_false] at member
    rcases member with rfl | rfl
    · decide
    · decide

end SettingsNode

end ExecHelper.Config
