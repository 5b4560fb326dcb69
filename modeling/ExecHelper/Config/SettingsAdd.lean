import ExecHelper.Config.SettingsNode

/-!
# Adding values below a key path

`add` walks down a key path, creates what is missing on the way and appends the
new values to the node at its end.  Every law below is proved one key at a time:
the first key of the path leads to one child, which may have just been created,
and the rest of the walk happens inside that child.
-/

namespace ExecHelper.Config.SettingsNode

open ExecHelper.Library

variable {node : SettingsNode} {key other : SettingsKey}
variable {keys path rest : SettingsKeys} {newValue : SettingsValues}

/-! ## One level -/

@[simp] theorem at?_ofKey (key other : SettingsKey) : (ofKey key).at? other = none := rfl

@[simp] theorem mValues_modifyAt (node : SettingsNode) (key : SettingsKey)
    (change : SettingsNode → SettingsNode) :
    (node.modifyAt key change).mValues =
      node.mValues.map (FirstMatch.modify mKey key change) := rfl

theorem getD_mValues_modifyAt (node : SettingsNode) (key : SettingsKey)
    (change : SettingsNode → SettingsNode) :
    (node.modifyAt key change).mValues.getD [] =
      FirstMatch.modify mKey key change (node.mValues.getD []) := by
  rw [mValues_modifyAt]
  cases node.mValues <;> rfl

theorem at?_modifyAt_self {change : SettingsNode → SettingsNode}
    (keeps : ∀ child, child.mKey = key → (change child).mKey = key) :
    (node.modifyAt key change).at? key = (node.at? key).map change := by
  rw [at?, getD_mValues_modifyAt]
  exact FirstMatch.lookup_modify_self keeps _

theorem at?_modifyAt_of_ne {change : SettingsNode → SettingsNode}
    (keeps : ∀ child, child.mKey = key → (change child).mKey = key)
    (different : other ≠ key) :
    (node.modifyAt key change).at? other = node.at? other := by
  rw [at?, getD_mValues_modifyAt]
  exact FirstMatch.lookup_modify_of_ne keeps different _

theorem values_modifyAt {change : SettingsNode → SettingsNode}
    (keeps : ∀ child, child.mKey = key → (change child).mKey = key) :
    (node.modifyAt key change).values = node.values := by
  rw [values, values, mValues_modifyAt]
  cases node.mValues with
  | none => rfl
  | some children => simp [FirstMatch.map_label_modify keeps]

theorem at?_addValues (node : SettingsNode) (newValue : SettingsValues)
    (key : SettingsKey) :
    (node.addValues newValue).at? key =
      (node.at? key).or (if key ∈ newValue then some (ofKey key) else none) := by
  rw [at?, addValues, at?]
  simp only [Option.getD_some]
  rw [FirstMatch.lookup_append, FirstMatch.lookup_map ofKey mKey_ofKey]

theorem addValue_eq (node : SettingsNode) (newValue : SettingsValue) :
    node.addValue newValue = node.addValues [newValue] := rfl

theorem values_addValues (node : SettingsNode) (newValue : SettingsValues) :
    (node.addValues newValue).values = some (node.values.getD [] ++ newValue) := by
  cases node with
  | mk mKey mValues => cases mValues <;> simp [values, addValues, Function.comp_def]

/-! ## One step of the walk -/

theorem add_cons (node : SettingsNode) (key : SettingsKey) (rest : SettingsKeys)
    (newValue : SettingsValues) :
    node.add (key :: rest) newValue =
      (if node.containsKey key then node else node.addValue key).modifyAt key
        fun child => child.add rest newValue := by
  rw [add]

@[simp] theorem mKey_add (node : SettingsNode) (keys : SettingsKeys)
    (newValue : SettingsValues) : (node.add keys newValue).mKey = node.mKey := by
  cases keys with
  | nil => rfl
  | cons key rest =>
      rw [add_cons]
      by_cases present : node.containsKey key <;> simp [present, modifyAt, addValue]

private theorem add_keeps (rest : SettingsKeys) (newValue : SettingsValues)
    (key : SettingsKey) (child : SettingsNode) (labelled : child.mKey = key) :
    (child.add rest newValue).mKey = key := by
  rw [mKey_add, labelled]

/-- The child a walk enters: the existing one, or a fresh node. -/
theorem at?_add_self (node : SettingsNode) (key : SettingsKey) (rest : SettingsKeys)
    (newValue : SettingsValues) :
    (node.add (key :: rest) newValue).at? key =
      some (((node.at? key).getD (ofKey key)).add rest newValue) := by
  rw [add_cons, at?_modifyAt_self (add_keeps rest newValue key), containsKey_eq]
  cases found : node.at? key with
  | some child => simp [found]
  | none => simp [addValue_eq, at?_addValues, found]

theorem at?_add_of_ne (node : SettingsNode) (rest : SettingsKeys)
    (newValue : SettingsValues) (different : other ≠ key) :
    (node.add (key :: rest) newValue).at? other = node.at? other := by
  rw [add_cons, at?_modifyAt_of_ne (add_keeps rest newValue key) different]
  by_cases present : node.containsKey key
  · simp [present]
  · simp [present, addValue_eq, at?_addValues, different]

/-- A walk gives the node it leaves a new value exactly when the next key is
missing. -/
theorem values_add_cons (node : SettingsNode) (key : SettingsKey)
    (rest : SettingsKeys) (newValue : SettingsValues) :
    (node.add (key :: rest) newValue).values =
      if node.containsKey key then node.values
      else some (node.values.getD [] ++ [key]) := by
  rw [add_cons, values_modifyAt (add_keeps rest newValue key)]
  by_cases present : node.containsKey key
  · simp [present]
  · simp [present, addValue_eq, values_addValues]

/-! ## Fresh nodes

Where the first key is missing, the walk enters a fresh node, which answers every
longer path as the missing child would. -/

theorem getValues_cons (node : SettingsNode) (key : SettingsKey) (rest : SettingsKeys) :
    node.getValues (key :: rest) =
      (node.at? key).bind fun child => child.getValues rest := by
  rw [getValues_eq, atPath?_cons, Option.bind_assoc]
  simp only [getValues_eq]

@[simp] theorem getValues_nil (node : SettingsNode) : node.getValues [] = node.values := by
  simp [getValues_eq]

@[simp] theorem getValues_ofKey (key : SettingsKey) (path : SettingsKeys) :
    (ofKey key).getValues path = none := by
  cases path with
  | nil => rfl
  | cons head rest => simp [getValues_cons]

theorem contains_ofKey (key : SettingsKey) (path : SettingsKeys) :
    (ofKey key).contains path ↔ path = [] := by
  cases path <;> simp [contains_cons]

theorem getValues_getD_at? (node : SettingsNode) (key : SettingsKey)
    (path : SettingsKeys) :
    ((node.at? key).getD (ofKey key)).getValues path = node.getValues (key :: path) := by
  rw [getValues_cons]
  cases node.at? key <;> simp

theorem contains_getD_at? (node : SettingsNode) (key : SettingsKey)
    (path : SettingsKeys) :
    ((node.at? key).getD (ofKey key)).contains path ↔
      node.contains (key :: path) ∨ path = [] := by
  rw [contains_cons]
  cases node.at? key with
  | none => simp [contains_ofKey]
  | some child =>
      constructor
      · exact fun present => Or.inl present
      · rintro (present | rfl)
        · exact present
        · simp

/-! ## The whole path -/

/-- The value list at the end of the path is continued with the new values. -/
theorem getValues_add_self (node : SettingsNode) (keys : SettingsKeys)
    (newValue : SettingsValues) :
    (node.add keys newValue).getValues keys =
      some ((node.getValues keys).getD [] ++ newValue) := by
  induction keys generalizing node with
  | nil =>
      rw [add, getValues_nil, getValues_nil]
      exact values_addValues node newValue
  | cons key rest inductionHypothesis =>
      rw [getValues_cons, at?_add_self, Option.bind_some, inductionHypothesis,
        getValues_getD_at?]

/-- A proper prefix of the path whose next key was missing gains that key at its
end. -/
theorem getValues_add_created (node : SettingsNode) (path : SettingsKeys)
    (key : SettingsKey) (rest : SettingsKeys) (newValue : SettingsValues)
    (missing : ¬node.contains (path ++ [key])) :
    (node.add (path ++ key :: rest) newValue).getValues path =
      some ((node.getValues path).getD [] ++ [key]) := by
  induction path generalizing node with
  | nil =>
      have absent : node.containsKey key = false := by
        simpa [contains_cons, containsKey_eq] using missing
      rw [List.nil_append, getValues_nil, getValues_nil, values_add_cons, absent]
      simp
  | cons head tail inductionHypothesis =>
      have tailMissing :
          ¬((node.at? head).getD (ofKey head)).contains (tail ++ [key]) := by
        simpa [contains_getD_at?] using missing
      rw [List.cons_append, getValues_cons, at?_add_self, Option.bind_some,
        inductionHypothesis _ tailMissing, getValues_getD_at?]

/-- Every other value list is left alone. -/
theorem getValues_add_of_ne (node : SettingsNode) (keys path : SettingsKeys)
    (newValue : SettingsValues) (different : path ≠ keys)
    (existing : ∀ key rest, keys = path ++ key :: rest → node.contains (path ++ [key])) :
    (node.add keys newValue).getValues path = node.getValues path := by
  induction keys generalizing node path with
  | nil =>
      cases path with
      | nil => contradiction
      | cons head tail =>
          rw [add, getValues_cons, getValues_cons, at?_addValues]
          cases node.at? head with
          | some child => rfl
          | none => by_cases listed : head ∈ newValue <;> simp [listed]
  | cons key rest inductionHypothesis =>
      cases path with
      | nil =>
          have present : node.containsKey key := by
            simpa [contains_cons, containsKey_eq] using existing key rest rfl
          rw [getValues_nil, getValues_nil, values_add_cons, if_pos present]
      | cons head tail =>
          rw [getValues_cons]
          by_cases same : head = key
          · subst same
            rw [at?_add_self, Option.bind_some, inductionHypothesis, getValues_getD_at?]
            · exact fun equal => different (by rw [equal])
            · intro next further split
              rw [contains_getD_at?]
              exact Or.inl (existing next further (by rw [split, List.cons_append]))
          · rw [at?_add_of_ne node rest newValue same, getValues_cons]

/-- The contained paths afterwards: the old ones, the way down and the new
values. -/
theorem contains_add (node : SettingsNode) (keys path : SettingsKeys)
    (newValue : SettingsValues) :
    (node.add keys newValue).contains path ↔
      node.contains path ∨ path <+: keys ∨
        ∃ value ∈ newValue, path = keys ++ [value] := by
  induction keys generalizing node path with
  | nil =>
      cases path with
      | nil => simp
      | cons head tail =>
          rw [add, contains_cons, contains_cons, at?_addValues]
          cases node.at? head with
          | some child => 
              simp only [Option.some_or, Option.any_some]
              constructor
              · exact Or.inl
              · rintro (present | prefixed | ⟨value, _, equal⟩)
                · exact present
                · simp at prefixed
                · have tailNil : tail = [] := (List.cons.inj equal).2
                  simp [tailNil]
          | none =>
              by_cases listed : head ∈ newValue
              · simp [listed, contains_ofKey]
              · simp only [listed, Option.none_or, if_false, Option.any_none,
                  Bool.false_eq_true, false_or, false_iff]
                rintro (prefixed | ⟨value, member, equal⟩)
                · simp at prefixed
                · exact listed ((List.cons.inj equal).1 ▸ member)
  | cons key rest inductionHypothesis =>
      cases path with
      | nil => simp
      | cons head tail =>
          rw [contains_cons]
          by_cases same : head = key
          · subst same
            rw [at?_add_self, Option.any_some, inductionHypothesis, contains_getD_at?]
            have emptyPrefixed : tail = [] → tail <+: rest := by
              rintro rfl
              exact List.nil_prefix
            simp only [List.cons_prefix_cons, true_and, List.cons_append,
              List.cons.injEq]
            tauto
          · rw [at?_add_of_ne node rest newValue same, contains_cons]
            simp [List.cons_prefix_cons, same]

/-! ## Contained paths

Nothing has to be created on the way to a path that is contained. -/

theorem contains_add_of_contains (present : node.contains keys) :
    (node.add keys newValue).contains path ↔
      node.contains path ∨ ∃ value ∈ newValue, path = keys ++ [value] := by
  rw [contains_add]
  constructor
  · rintro (old | inside | added)
    · exact Or.inl old
    · exact Or.inl (contains_front inside present)
    · exact Or.inr added
  · rintro (old | added)
    · exact Or.inl old
    · exact Or.inr (Or.inr added)

theorem getValues_add_of_contains (present : node.contains keys) (different : path ≠ keys) :
    (node.add keys newValue).getValues path = node.getValues path := by
  apply getValues_add_of_ne node keys path newValue different
  rintro key rest rfl
  exact contains_front ⟨rest, by simp⟩ present

/-- What `add` does to a settings node, seen through every lookup: the values
are appended at the path, nothing that was contained is lost, the only other
value lists that change are those of proper prefixes whose next key was missing,
and nothing is contained that was neither there before nor asked for. -/
theorem add_extends (node : SettingsNode) (keys : SettingsKeys)
    (newValue : SettingsValues) :
    (node.add keys newValue).getValues keys =
        some ((node.getValues keys).getD [] ++ newValue) ∧
      (∀ path, node.contains path → (node.add keys newValue).contains path) ∧
      (∀ path key rest, keys = path ++ key :: rest → ¬node.contains (path ++ [key]) →
        (node.add keys newValue).getValues path =
          some ((node.getValues path).getD [] ++ [key])) ∧
      (∀ path, path ≠ keys →
        (∀ key rest, keys = path ++ key :: rest → node.contains (path ++ [key])) →
        (node.add keys newValue).getValues path = node.getValues path) ∧
      (∀ path, (node.add keys newValue).contains path ↔
        node.contains path ∨ path <+: keys ∨
          ∃ value ∈ newValue, path = keys ++ [value]) := by
  refine ⟨getValues_add_self node keys newValue, ?_, ?_, ?_, ?_⟩
  · intro path present
    exact (contains_add node keys path newValue).mpr (Or.inl present)
  · rintro path key rest rfl missing
    exact getValues_add_created node path key rest newValue missing
  · intro path different existing
    exact getValues_add_of_ne node keys path newValue different existing
  · exact fun path => contains_add node keys path newValue

end ExecHelper.Config.SettingsNode
