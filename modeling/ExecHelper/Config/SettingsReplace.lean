import ExecHelper.Config.SettingsAdd

/-!
# Clearing and replacing below a key path

`clear` removes the child at the end of a key path, and `replace` adds the new
values to the path after it has been cleared.  What is left of a cleared tree is
stated for every path at once: whether it is contained and which values it has.

A lookup addresses the first child with a key.  Where the parent of the last key
has a second one, clearing the first uncovers it; the laws are about parents
that have at most one.
-/

namespace ExecHelper.Config.SettingsNode

open ExecHelper.Library

variable {node : SettingsNode} {key other : SettingsKey}
variable {front path rest : SettingsKeys} {newValue : SettingsValues}

/-- The node at the end of `front`, if there is one, has at most one child with the
key. -/
def HoldsAtMostOne (node : SettingsNode) (front : SettingsKeys) (key : SettingsKey) : Prop :=
  ((node.getValues front).getD []).count key ≤ 1

/-! ## One level -/

theorem eraseAt_cons (node : SettingsNode) (key : SettingsKey) (below : rest ≠ []) :
    node.eraseAt (key :: rest) = node.modifyAt key fun child => child.eraseAt rest := by
  cases rest with
  | nil => contradiction
  | cons next further => rw [eraseAt]

@[simp] theorem mKey_eraseAt (node : SettingsNode) (keys : SettingsKeys) :
    (node.eraseAt keys).mKey = node.mKey := by
  cases keys with
  | nil => rw [eraseAt]
  | cons key rest =>
      cases rest with
      | nil => rw [eraseAt]
      | cons next further =>
          rw [eraseAt]
          rfl

private theorem eraseAt_keeps (rest : SettingsKeys) (key : SettingsKey)
    (child : SettingsNode) (labelled : child.mKey = key) :
    (child.eraseAt rest).mKey = key := by
  rw [mKey_eraseAt, labelled]

private theorem getD_mValues_eraseAt (node : SettingsNode) (key : SettingsKey) :
    (node.eraseAt [key]).mValues.getD [] =
      FirstMatch.erase mKey key (node.mValues.getD []) := by
  rw [eraseAt]
  cases node.mValues <;> rfl

theorem at?_eraseAt_self (once : (node.values.getD []).count key ≤ 1) :
    (node.eraseAt [key]).at? key = none := by
  rw [at?, getD_mValues_eraseAt]
  apply FirstMatch.lookup_erase_self
  rw [values] at once
  cases carried : node.mValues with
  | none => simp
  | some children => simpa [carried] using once

theorem at?_eraseAt_cons (node : SettingsNode) (key : SettingsKey) (below : rest ≠ []) :
    (node.eraseAt (key :: rest)).at? key = (node.at? key).map fun child =>
      child.eraseAt rest := by
  rw [eraseAt_cons node key below, at?_modifyAt_self (eraseAt_keeps rest key)]

theorem at?_eraseAt_of_ne (node : SettingsNode) (rest : SettingsKeys)
    (different : other ≠ key) :
    (node.eraseAt (key :: rest)).at? other = node.at? other := by
  cases rest with
  | nil =>
      rw [at?, getD_mValues_eraseAt]
      exact FirstMatch.lookup_erase_of_ne different _
  | cons next further =>
      rw [eraseAt]
      exact at?_modifyAt_of_ne (eraseAt_keeps (next :: further) key) different

theorem values_eraseAt_singleton (node : SettingsNode) (key : SettingsKey) :
    (node.eraseAt [key]).values = node.values.map fun keys => keys.erase key := by
  rw [eraseAt, values, values]
  cases node.mValues with
  | none => rfl
  | some children => exact congrArg some (FirstMatch.map_label_erase key children)

theorem values_eraseAt_cons (node : SettingsNode) (key : SettingsKey) (below : rest ≠ []) :
    (node.eraseAt (key :: rest)).values = node.values := by
  rw [eraseAt_cons node key below]
  exact values_modifyAt (eraseAt_keeps rest key)

/-! ## The whole path -/

theorem HoldsAtMostOne.below {child : SettingsNode}
    (once : node.HoldsAtMostOne (other :: front) key) (found : node.at? other = some child) :
    child.HoldsAtMostOne front key := by
  rw [HoldsAtMostOne, getValues_cons, found] at once
  exact once

/-- After erasing, the path and what is below it are gone. -/
theorem contains_eraseAt (once : node.HoldsAtMostOne front key) (path : SettingsKeys) :
    (node.eraseAt (front ++ [key])).contains path ↔
      node.contains path ∧ ¬front ++ [key] <+: path := by
  induction front generalizing node path with
  | nil =>
      cases path with
      | nil => simp
      | cons head tail =>
          rw [List.nil_append, contains_cons, contains_cons]
          by_cases same : head = key
          · subst same
            rw [HoldsAtMostOne, getValues_nil] at once
            rw [at?_eraseAt_self once]
            simp
          · rw [at?_eraseAt_of_ne node [] same]
            simp [List.cons_prefix_cons, Ne.symm same]
  | cons first front inductionHypothesis =>
      cases path with
      | nil => simp
      | cons head tail =>
          rw [List.cons_append, contains_cons, contains_cons]
          by_cases same : head = first
          · subst same
            rw [at?_eraseAt_cons node head (List.concat_ne_nil key front),
              List.cons_prefix_cons]
            cases found : node.at? head with
            | none => simp
            | some child => simpa using inductionHypothesis (once.below found) tail
          · rw [at?_eraseAt_of_ne node _ same]
            simp [List.cons_prefix_cons, Ne.symm same]

/-- Only the parent of the last key loses a value. -/
theorem getValues_eraseAt (once : node.HoldsAtMostOne front key)
    (outside : ¬front ++ [key] <+: path) :
    (node.eraseAt (front ++ [key])).getValues path =
      if path = front then (node.getValues front).map fun keys => keys.erase key
      else node.getValues path := by
  induction front generalizing node path with
  | nil =>
      cases path with
      | nil => simpa using values_eraseAt_singleton node key
      | cons head tail =>
          have different : head ≠ key := by
            rintro rfl
            exact outside (List.cons_prefix_cons.mpr ⟨rfl, List.nil_prefix⟩)
          rw [List.nil_append, getValues_cons, getValues_cons,
            at?_eraseAt_of_ne node [] different]
          simp
  | cons first front inductionHypothesis =>
      have below := List.concat_ne_nil key front
      cases path with
      | nil =>
          rw [List.cons_append, getValues_nil, getValues_nil, values_eraseAt_cons node _ below]
          simp
      | cons head tail =>
          rw [List.cons_append, getValues_cons, getValues_cons, getValues_cons]
          by_cases same : head = first
          · subst same
            have tailOutside : ¬front ++ [key] <+: tail := by
              intro inside
              exact outside (List.cons_prefix_cons.mpr ⟨rfl, inside⟩)
            rw [at?_eraseAt_cons node head below]
            cases found : node.at? head with
            | none => simp
            | some child =>
                simpa using inductionHypothesis (once.below found) tailOutside
          · rw [at?_eraseAt_of_ne node _ same]
            simp [same]

/-- Every value at a path extends it to a contained one. -/
theorem contains_of_mem_getValues {keys : SettingsValues}
    (carried : node.getValues front = some keys) (member : key ∈ keys) :
    node.contains (front ++ [key]) := by
  rw [getValues_eq] at carried
  rcases Option.bind_eq_some_iff.mp carried with ⟨parent, reached, listed⟩
  rw [contains_eq, atPath?_append, reached, Option.bind_some, ← contains_eq, contains_cons]
  have found : (parent.at? key).isSome := by
    rw [at?, FirstMatch.lookup_isSome_iff]
    rw [values] at listed
    rcases Option.map_eq_some_iff.mp listed with ⟨children, present, rfl⟩
    simpa [present] using member
  rcases Option.isSome_iff_exists.mp found with ⟨child, lookedUp⟩
  simp [lookedUp]

/-- A contained path ends in one of the values at its front. -/
theorem mem_getValues_of_contains {keys : SettingsValues}
    (carried : node.getValues front = some keys) (present : node.contains (front ++ [key])) :
    key ∈ keys := by
  rw [getValues_eq] at carried
  rcases Option.bind_eq_some_iff.mp carried with ⟨parent, reached, listed⟩
  rw [contains_eq, atPath?_append, reached, Option.bind_some, ← contains_eq, contains_cons,
    Option.any_eq_true] at present
  rcases present with ⟨child, lookedUp, -⟩
  rw [values] at listed
  rcases Option.map_eq_some_iff.mp listed with ⟨children, given, rfl⟩
  rw [at?, given, Option.getD_some] at lookedUp
  exact FirstMatch.lookup_isSome_iff.mp (Option.isSome_iff_exists.mpr ⟨child, lookedUp⟩)

/-! ## Clearing -/

/-- What is left of a node after its child at the end of the path was cleared. -/
structure Cleared (node after : SettingsNode) (front : SettingsKeys) (key : SettingsKey) :
    Prop where
  contains : ∀ path, after.contains path ↔ node.contains path ∧ ¬front ++ [key] <+: path
  parent : after.getValues front = (node.getValues front).map fun keys => keys.erase key
  elsewhere : ∀ path, ¬front ++ [key] <+: path → path ≠ front →
    after.getValues path = node.getValues path

theorem clear_fst (node : SettingsNode) {keys : SettingsKeys} (nonempty : keys ≠ []) :
    (node.clear keys).1 = true := by
  rw [clear, if_neg (by simpa using nonempty)]
  cases node.contains keys <;> rfl

theorem clear_snd (node : SettingsNode) {keys : SettingsKeys} (nonempty : keys ≠ []) :
    (node.clear keys).2 = if node.contains keys then node.eraseAt keys else node := by
  rw [clear, if_neg (by simpa using nonempty)]
  cases node.contains keys <;> rfl

theorem not_prefix_front (front : SettingsKeys) (key : SettingsKey) :
    ¬front ++ [key] <+: front := by
  intro inside
  have shorter := inside.length_le
  rw [List.length_append, List.length_singleton] at shorter
  omega

theorem cleared_eraseAt (once : node.HoldsAtMostOne front key) :
    Cleared node (node.eraseAt (front ++ [key])) front key where
  contains := contains_eraseAt once
  parent := by
    rw [getValues_eraseAt once (not_prefix_front front key), if_pos rfl]
  elsewhere := by
    intro path outside different
    rw [getValues_eraseAt once outside, if_neg different]

/-- A path that is not contained is already cleared. -/
theorem cleared_of_not_contains (missing : ¬node.contains (front ++ [key])) :
    Cleared node node front key where
  contains := by
    intro path
    constructor
    · intro present
      exact ⟨present, fun inside => missing (contains_front inside present)⟩
    · exact And.left
  parent := by
    cases carried : node.getValues front with
    | none => rfl
    | some keys =>
        have absent : key ∉ keys := by
          intro member
          exact missing (contains_of_mem_getValues carried member)
        rw [Option.map_some, List.erase_of_not_mem absent]
  elsewhere := fun _ _ _ => rfl

theorem cleared_clear (once : node.HoldsAtMostOne front key) :
    Cleared node (node.clear (front ++ [key])).2 front key := by
  rw [clear_snd node (List.concat_ne_nil key front)]
  by_cases present : node.contains (front ++ [key])
  · rw [if_pos present]
    exact cleared_eraseAt once
  · rw [if_neg present]
    exact cleared_of_not_contains present

/-! ## Replacing -/

/-- What a node looks like after the values at the path were replaced: exactly the
new values at the path, and outside it only the way down to the path is new. -/
structure Replaced (node after : SettingsNode) (front : SettingsKeys) (key : SettingsKey)
    (newValue : SettingsValues) : Prop where
  values : after.getValues (front ++ [key]) = some newValue
  below : ∀ rest, after.contains (front ++ [key] ++ rest) ↔
    rest = [] ∨ ∃ value ∈ newValue, rest = [value]
  leaves : ∀ rest, rest ≠ [] → after.getValues (front ++ [key] ++ rest) = none
  contains : ∀ path, ¬front ++ [key] <+: path →
    (after.contains path ↔ node.contains path ∨ path <+: front)
  parent : after.getValues front = some (((node.getValues front).getD []).erase key ++ [key])
  created : ∀ path next rest, front = path ++ next :: rest →
    ¬node.contains (path ++ [next]) →
      after.getValues path = some ((node.getValues path).getD [] ++ [next])
  elsewhere : ∀ path, ¬front ++ [key] <+: path → path ≠ front →
    (∀ next rest, front = path ++ next :: rest → node.contains (path ++ [next])) →
      after.getValues path = node.getValues path

theorem replace_eq (node : SettingsNode) (keys : SettingsKeys) (newValue : SettingsValues) :
    node.replace keys newValue = (node.clear keys).2.add keys newValue := by
  rw [replace, clear]
  by_cases present : node.contains keys
  · simp [present]
  · cases keys with
    | nil => simp at present
    | cons head tail => simp [present]

section Replace

variable {cleared : SettingsNode}

theorem Cleared.not_contains (after : Cleared node cleared front key) (rest : SettingsKeys) :
    ¬cleared.contains (front ++ [key] ++ rest) := by
  rw [after.contains]
  exact fun inside => inside.2 (List.prefix_append _ rest)

private theorem prefix_concat_iff (outside : ¬front ++ [key] <+: path) :
    path <+: front ++ [key] ↔ path <+: front := by
  rw [List.prefix_concat_iff]
  constructor
  · rintro (rfl | inside)
    · exact absurd (List.prefix_refl _) outside
    · exact inside
  · exact Or.inr

/-- Adding to a cleared path replaces it. -/
theorem Cleared.add (after : Cleared node cleared front key) (newValue : SettingsValues) :
    Replaced node (cleared.add (front ++ [key]) newValue) front key newValue where
  values := by
    have missing := after.not_contains []
    rw [List.append_nil] at missing
    rw [getValues_add_self, getValues_of_not_contains missing]
    rfl
  below := by
    intro rest
    rw [contains_add]
    constructor
    · rintro (present | inside | ⟨value, member, same⟩)
      · exact absurd present (after.not_contains rest)
      · exact Or.inl (by simpa using inside)
      · exact Or.inr ⟨value, member, List.append_cancel_left same⟩
    · rintro (rfl | ⟨value, member, rfl⟩)
      · exact Or.inr (Or.inl (by simp))
      · exact Or.inr (Or.inr ⟨value, member, rfl⟩)
  leaves := by
    intro rest nonempty
    rw [getValues_add_of_ne, getValues_of_not_contains (after.not_contains rest)]
    · simpa using nonempty
    · intro next further split
      have lengths := congrArg List.length split
      simp at lengths
  contains := by
    intro path outside
    rw [contains_add, after.contains, prefix_concat_iff outside]
    constructor
    · rintro (⟨present, _⟩ | inside | ⟨value, _, rfl⟩)
      · exact Or.inl present
      · exact Or.inr inside
      · exact absurd (List.prefix_append _ [value]) outside
    · rintro (present | inside)
      · exact Or.inl ⟨present, outside⟩
      · exact Or.inr (Or.inl inside)
  parent := by
    have missing := after.not_contains []
    rw [List.append_nil] at missing
    rw [getValues_add_created cleared front key [] newValue missing, after.parent]
    cases node.getValues front <;> simp
  created := by
    rintro path next rest rfl missing
    have outside : ¬path ++ next :: rest ++ [key] <+: path := by
      intro inside
      have shorter := inside.length_le
      simp only [List.length_append, List.length_cons] at shorter
      omega
    have clearedMissing : ¬cleared.contains (path ++ [next]) := by
      rw [after.contains]
      exact fun present => missing present.1
    rw [List.append_assoc, List.cons_append,
      getValues_add_created cleared path next (rest ++ [key]) newValue clearedMissing,
      after.elsewhere path outside (by simp)]
  elsewhere := by
    intro path outside different existing
    rw [getValues_add_of_ne, after.elsewhere path outside different]
    · rintro rfl
      exact outside (List.prefix_refl _)
    · intro next rest split
      rcases List.eq_nil_or_concat' rest with rfl | ⟨further, last, rfl⟩
      · exact absurd (List.append_inj' split rfl).1.symm different
      · rw [← List.cons_append, ← List.append_assoc] at split
        have parent := (List.append_inj' split rfl).1
        rw [after.contains]
        constructor
        · exact existing next further parent
        · intro inside
          have shorter := inside.length_le
          simp [parent] at shorter

end Replace

/-- Clearing and replacing at a path whose parent holds the last key at most once,
seen through every lookup; the empty path is not cleared at all. -/
theorem clear_replace (node : SettingsNode) (front : SettingsKeys) (key : SettingsKey)
    (newValue : SettingsValues) (once : node.HoldsAtMostOne front key) :
    (node.clear (front ++ [key])).1 = true ∧
      Cleared node (node.clear (front ++ [key])).2 front key ∧
      Replaced node (node.replace (front ++ [key]) newValue) front key newValue ∧
      node.clear [] = (false, node) := by
  have cleared := cleared_clear once
  rw [replace_eq]
  exact ⟨clear_fst node (List.concat_ne_nil key front), cleared, cleared.add newValue, rfl⟩

/-- The old values of a nested key go, its sibling stays before it. -/
theorem clear_replace_nested :
    ((((ofKey "root").add ["build", "mode"] ["old"]).add ["build"] ["target"]).replace
      ["build", "mode"] ["new"]).getValues ["build"] = some ["target", "mode"] := by
  have once : (((ofKey "root").add ["build", "mode"] ["old"]).add ["build"]
      ["target"]).HoldsAtMostOne ["build"] "mode" := by
    rw [HoldsAtMostOne]
    decide
  exact (clear_replace _ ["build"] "mode" ["new"] once).2.2.1.parent

end ExecHelper.Config.SettingsNode
