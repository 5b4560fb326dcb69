import ExecHelper.Config.SettingsAdd

/-!
# Assigning and overwriting

Copy assignment and `overwrite` both copy the content of another node, the one to
the node itself, the other to its children.  A node without values has no content
to copy: what the target held before stays there under the new key.
-/

namespace ExecHelper.Config.SettingsNode

open ExecHelper.Library

variable {node other : SettingsNode} {key : SettingsKey}

/-- Below the key path no lookup tells the nodes apart. -/
def SameBelow (front : SettingsKeys) (left right : SettingsNode) : Prop :=
  ∀ path, left.contains (front ++ path) = right.contains (front ++ path) ∧
    ∀ {τ : Type} (cast : SettingsValues → Option τ),
      left.get cast (front ++ path) = right.get cast (front ++ path)

/-- The children whose keys are not among those of the new settings. -/
def otherChildren (node newSettings : SettingsNode) : List SettingsNode :=
  (node.mValues.getD []).filter fun child => !newSettings.containsKey child.mKey

/-- Every lookup below a key of the new settings gives what it gives there, and every other
child is untouched. -/
structure OverwrittenBy (before newSettings after : SettingsNode) : Prop where
  below : ∀ key, newSettings.containsKey key = true → SameBelow [key] after newSettings
  others : after.otherChildren newSettings = before.otherChildren newSettings

/-! ## Copying the content -/

theorem deepCopy_eq (node other : SettingsNode) :
    node.deepCopy other = ⟨node.mKey, other.mValues.or node.mValues⟩ := by
  rw [deepCopy]
  cases other.mValues with
  | none => cases node; rfl
  | some values => rfl

/-- The copy answers every lookup as its source does, unless the source has no values
where the target had some. -/
theorem sameBelow_deepCopy_iff (sameKey : node.mKey = other.mKey) :
    SameBelow [] (node.deepCopy other) other ↔
      other.mValues.isSome ∨ node.mValues = none := by
  constructor
  · intro same
    have listed := (same []).2 some
    rw [List.nil_append, ← getValues, ← getValues, getValues_nil, getValues_nil, values,
      values, deepCopy_eq] at listed
    cases carried : other.mValues with
    | some children => exact Or.inl rfl
    | none =>
        rw [carried] at listed
        exact Or.inr (by simpa using listed)
  · intro condition
    have content : other.mValues.or node.mValues = other.mValues := by
      rcases condition with carries | empty
      · rcases Option.isSome_iff_exists.mp carries with ⟨children, carried⟩
        rw [carried, Option.some_or]
      · rw [empty, Option.or_none]
    have equal : node.deepCopy other = other := by
      rw [deepCopy_eq, sameKey, content]
      cases other
      rfl
    rw [equal]
    exact fun path => ⟨rfl, fun _ => rfl⟩

theorem sameBelow_cons_iff {left right leftChild rightChild : SettingsNode}
    (foundLeft : left.at? key = some leftChild) (foundRight : right.at? key = some rightChild) :
    SameBelow [key] left right ↔ SameBelow [] leftChild rightChild := by
  simp only [SameBelow, List.cons_append, List.nil_append, contains_cons, get_eq,
    atPath?_cons, foundLeft, foundRight, Option.any_some, Option.bind_some]

/-! ## Overwriting one child after the other -/

/-- Overwrite the child with the key. -/
def overwriteChild (newSettings settings : SettingsNode) (key : SettingsKey) :
    SettingsNode :=
  match newSettings.at? key with
  | none => settings
  | some newValue =>
      let added := if settings.containsKey key then settings else settings.addValue key
      added.modifyAt key fun child => child.deepCopy newValue

theorem overwrite_eq (node newSettings : SettingsNode) :
    node.overwrite newSettings =
      (newSettings.values.getD []).foldl (overwriteChild newSettings) node := rfl

section Child

variable {newSettings settings newValue : SettingsNode} {keys : SettingsKeys}

theorem deepCopy_keeps (newValue : SettingsNode) (key : SettingsKey)
    (child : SettingsNode) (labelled : child.mKey = key) :
    (child.deepCopy newValue).mKey = key := by
  rw [deepCopy_eq, labelled]

private theorem at?_overwriteChild_self (found : newSettings.at? key = some newValue) :
    (overwriteChild newSettings settings key).at? key =
      some (((settings.at? key).getD (ofKey key)).deepCopy newValue) := by
  rw [overwriteChild, found]
  dsimp only
  rw [at?_modifyAt_self (deepCopy_keeps newValue key), containsKey_eq]
  cases present : settings.at? key with
  | some child => simp [present]
  | none => simp [addValue_eq, at?_addValues, present]

private theorem at?_overwriteChild_of_ne {other : SettingsKey} (different : other ≠ key) :
    (overwriteChild newSettings settings key).at? other = settings.at? other := by
  rw [overwriteChild]
  cases newSettings.at? key with
  | none => rfl
  | some newValue =>
      dsimp only
      rw [at?_modifyAt_of_ne (deepCopy_keeps newValue key) different]
      by_cases present : settings.containsKey key
      · simp [present]
      · simp [present, addValue_eq, at?_addValues, different]

/-- A child with another key than those of the new settings stays where it is. -/
private theorem otherChildren_overwriteChild (settings : SettingsNode) (key : SettingsKey) :
    (overwriteChild newSettings settings key).otherChildren newSettings =
      settings.otherChildren newSettings := by
  rw [overwriteChild]
  cases found : newSettings.at? key with
  | none => rfl
  | some newValue =>
      dsimp only
      have known : newSettings.containsKey key = true := by
        rw [containsKey_eq, found]
        rfl
      rw [otherChildren, getD_mValues_modifyAt,
        FirstMatch.filter_modify (deepCopy_keeps newValue key)]
      · by_cases present : settings.containsKey key
        · simp [present, otherChildren]
        · simp [present, otherChildren, addValue, known]
      · intro child labelled
        rw [labelled, known]
        rfl

/-- The first child with every key gets the content of the first one in the new settings.
A key that comes again changes nothing any more. -/
private theorem at?_foldl_overwriteChild (keys : SettingsKeys)
    (settings : SettingsNode) (found : newSettings.at? key = some newValue) :
    (keys.foldl (overwriteChild newSettings) settings).at? key =
      if key ∈ keys then some (((settings.at? key).getD (ofKey key)).deepCopy newValue)
      else settings.at? key := by
  induction keys generalizing settings with
  | nil => rfl
  | cons head rest inductionHypothesis =>
      rw [List.foldl_cons, inductionHypothesis]
      by_cases same : key = head
      · subst same
        rw [at?_overwriteChild_self found, if_pos List.mem_cons_self]
        split
        · simp only [Option.getD_some, deepCopy_eq]
          cases newValue.mValues <;> rfl
        · rfl
      · rw [at?_overwriteChild_of_ne same]
        simp [same]

end Child

section Overwrite

variable {newSettings newValue : SettingsNode}

theorem at?_overwrite (node : SettingsNode) (found : newSettings.at? key = some newValue) :
    (node.overwrite newSettings).at? key =
      some (((node.at? key).getD (ofKey key)).deepCopy newValue) := by
  have listed : key ∈ newSettings.values.getD [] := by
    have present := FirstMatch.lookup_isSome_iff.mp (Option.isSome_of_eq_some found)
    rw [values]
    cases carried : newSettings.mValues with
    | none => simp [carried] at present
    | some children => simpa [carried] using present
  rw [overwrite_eq, at?_foldl_overwriteChild _ _ found, if_pos listed]

theorem at?_overwrite_of_none (node : SettingsNode) (missing : newSettings.at? key = none) :
    (node.overwrite newSettings).at? key = node.at? key := by
  rw [overwrite_eq]
  generalize newSettings.values.getD [] = keys
  induction keys generalizing node with
  | nil => rfl
  | cons head rest inductionHypothesis =>
      rw [List.foldl_cons, inductionHypothesis]
      by_cases same : key = head
      · subst same
        rw [overwriteChild, missing]
      · exact at?_overwriteChild_of_ne same

/-- Overwriting a node without children copies all of them, as far as lookups tell. -/
theorem at?_overwrite_ofKey (own key : SettingsKey) (newSettings : SettingsNode) :
    ((ofKey own).overwrite newSettings).at? key = newSettings.at? key := by
  cases found : newSettings.at? key with
  | none =>
      rw [at?_overwrite_of_none _ found]
      rfl
  | some newValue =>
      have copied : (ofKey key).deepCopy newValue = newValue := by
        rw [deepCopy_eq, mKey_ofKey, mValues_ofKey, Option.or_none, ← mKey_of_at? found]
        cases newValue
        rfl
      rw [at?_overwrite _ found]
      exact congrArg some copied

theorem otherChildren_overwrite (node newSettings : SettingsNode) :
    (node.overwrite newSettings).otherChildren newSettings =
      node.otherChildren newSettings := by
  rw [overwrite_eq]
  generalize newSettings.values.getD [] = keys
  induction keys generalizing node with
  | nil => rfl
  | cons key rest inductionHypothesis =>
      rw [List.foldl_cons, inductionHypothesis, otherChildren_overwriteChild]

/-- A node answers every lookup as the one assigned to it exactly when that one has values
or there were none to keep; overwriting does the same for every child. -/
theorem assign_overwrite_iff (node other : SettingsNode) :
    (SameBelow [] (node.assign other) other ↔ other.mValues.isSome ∨ node.mValues = none) ∧
      (OverwrittenBy node other (node.overwrite other) ↔
        ∀ key newValue, other.at? key = some newValue →
          newValue.mValues.isSome ∨ ∀ child, node.at? key = some child →
            child.mValues = none) := by
  constructor
  · exact sameBelow_deepCopy_iff rfl
  · have each : ∀ key newValue, other.at? key = some newValue →
        (SameBelow [key] (node.overwrite other) other ↔
          newValue.mValues.isSome ∨ ∀ child, node.at? key = some child →
            child.mValues = none) := by
      intro key newValue found
      have sameKey : ((node.at? key).getD (ofKey key)).mKey = newValue.mKey := by
        rw [mKey_of_at? found]
        cases present : node.at? key with
        | none => rfl
        | some child => exact mKey_of_at? present
      rw [sameBelow_cons_iff (at?_overwrite node found) found, sameBelow_deepCopy_iff sameKey]
      cases node.at? key <;> simp
    constructor
    · intro overwritten key newValue found
      apply (each key newValue found).mp
      apply overwritten.below
      rw [containsKey_eq, found]
      rfl
    · intro condition
      constructor
      case below =>
        intro key known
        rw [containsKey_eq] at known
        rcases Option.isSome_iff_exists.mp known with ⟨newValue, found⟩
        exact (each key newValue found).mpr (condition key newValue found)
      case others => exact otherChildren_overwrite node other

/-- What a node held survives when a node without values is assigned to it or
overwrites it. -/
theorem assign_overwrite_counterexample :
    ¬SameBelow [] (((ofKey "a").addValue "old").assign (ofKey "b")) (ofKey "b") ∧
      ¬OverwrittenBy ((ofKey "root").add ["a"] ["old"]) ((ofKey "root").addValue "a")
        (((ofKey "root").add ["a"] ["old"]).overwrite ((ofKey "root").addValue "a")) := by
  constructor
  · intro same
    have survives := (same ["old"]).1
    revert survives
    decide
  · intro overwritten
    have survives := (overwritten.below "a" (by decide) ["old"]).1
    revert survives
    decide

end Overwrite

end ExecHelper.Config.SettingsNode
