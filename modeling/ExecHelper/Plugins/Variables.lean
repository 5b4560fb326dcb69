import ExecHelper.Config.SettingsAdd
import ExecHelper.Core.Stop

/-!
# Resolving the variables of a command

`ExecutePlugin` builds the variables map of a plugin from three levels: the
defaults of the plugin, the section of the command in the settings, and the
section of the command below that of the command it is called from.  Each level
is laid over the previous one by `index`, which replaces the value list of the
section's own name and then assigns every entry of the section.

The assignment copies nothing from an entry without values, so for one option
the last level that carries values decides alone.  That is the content of
`index_subtree`, and two uses of it give the law for the resolved map.
-/

namespace ExecHelper.Plugins.ExecutePlugin

open ExecHelper.Library
open ExecHelper.Config
open ExecHelper.Core

/-- Assign every entry of a section to the variable of the same name, in the
order of the section. -/
def assignEntries (variablesMap currentDepth : SettingsNode) : VariablesMap :=
  ((currentDepth.getValues []).getD []).foldl
    (fun variablesMap depthKey =>
      match currentDepth.at? depthKey with
      | some entry => variablesMap.subscript depthKey fun current => current.assign entry
      | none => variablesMap)
    variablesMap

/-- Lay the section at the key path over the variables (`ExecutePlugin::index`).
The value list at the path is dereferenced although only its containment was
tested. -/
def index (variablesMap : VariablesMap) (settings : SettingsNode) (key : SettingsKeys) :
    Except Stop VariablesMap :=
  if !settings.contains key then pure variablesMap
  else
    match key.getLast?, settings.getValues key, settings.atPath? key with
    | some back, some values, some currentDepth =>
        pure (assignEntries (variablesMap.replace [back] values) currentDepth)
    | some _, _, _ => throw (.emptyOptional .index)
    | none, _, _ => throw .outOfBounds

/-- Lay every section that exists over the variables, in order
(`ExecutePlugin::getVariablesMap`). -/
def getVariablesMap (variablesMap : VariablesMap) (keys : List SettingsKeys)
    (rootSettings : SettingsNode) : Except Stop VariablesMap :=
  keys.foldlM
    (fun variablesMap key =>
      if rootSettings.contains key then index variablesMap rootSettings key
      else pure variablesMap)
    variablesMap

/-- The key paths `apply` resolves a command with. -/
def sectionKeys (command initialCommand : SettingsKey) : List SettingsKeys :=
  [[command], [command, initialCommand]]

/-- A section that exists carries a value list. -/
def CarriesValues (settings : SettingsNode) (key : SettingsKeys) : Prop :=
  settings.contains key = true → (settings.getValues key).isSome = true

instance (settings : SettingsNode) (key : SettingsKeys) :
    Decidable (CarriesValues settings key) :=
  inferInstanceAs (Decidable (_ → _))

/-- Both sections a command is resolved with carry values as far as they exist. -/
def Resolvable (settings : SettingsNode) (command initialCommand : SettingsKey) : Prop :=
  ∀ key ∈ sectionKeys command initialCommand, CarriesValues settings key

/-! ## One assignment -/

section Assign

variable {variablesMap entry : SettingsNode} {key other : SettingsKey}

/-- Copying an entry without values leaves what was there. -/
@[simp] theorem mValues_assign (current entry : SettingsNode) :
    (current.assign entry).mValues = entry.mValues.or current.mValues := by
  cases values : entry.mValues <;> simp [SettingsNode.assign, SettingsNode.deepCopy, values]

@[simp] theorem mKey_assign (current entry : SettingsNode) :
    (current.assign entry).mKey = entry.mKey := by
  cases values : entry.mValues <;> simp [SettingsNode.assign, SettingsNode.deepCopy, values]

private theorem assign_keeps (named : entry.mKey = key) (child : SettingsNode)
    (_ : child.mKey = key) : (child.assign entry).mKey = key := by
  rw [mKey_assign, named]

theorem subtree_subscript_self (variablesMap : SettingsNode) (named : entry.mKey = key) :
    (variablesMap.subscript key fun current => current.assign entry).subtree [key] =
      entry.mValues.or (variablesMap.subtree [key]) := by
  rw [SettingsNode.subtree_singleton, SettingsNode.subtree_singleton,
    SettingsNode.subscript, SettingsNode.containsKey_eq]
  cases found : variablesMap.at? key with
  | some child =>
      rw [Option.isSome_some, if_pos rfl,
        SettingsNode.at?_modifyAt_self (assign_keeps named), found]
      simp
  | none =>
      have missing : FirstMatch.lookup SettingsNode.mKey key
          (variablesMap.mValues.getD []) = none := found
      simp [SettingsNode.at?, FirstMatch.lookup_append, missing,
        FirstMatch.lookup_cons, named]

theorem at?_subscript_of_ne (variablesMap : SettingsNode) (named : entry.mKey = key)
    (different : other ≠ key) :
    (variablesMap.subscript key fun current => current.assign entry).at? other =
      variablesMap.at? other := by
  rw [SettingsNode.subscript]
  by_cases present : variablesMap.containsKey key
  · rw [if_pos present]
    exact SettingsNode.at?_modifyAt_of_ne (assign_keeps named) different
  · rw [if_neg present]
    simp [SettingsNode.at?, FirstMatch.lookup_append, FirstMatch.lookup_cons, named,
      Ne.symm different]

end Assign

/-! ## One section -/

section Entries

variable (currentDepth variablesMap : SettingsNode)

/-- Assigning the entry of one name decides about the option of that name, where the
entry carries values. -/
private theorem subtree_assignEntry_self (name : SettingsKey) :
    (match currentDepth.at? name with
      | some entry => variablesMap.subscript name fun current => current.assign entry
      | none => variablesMap).subtree [name] =
      (currentDepth.subtree [name]).or (variablesMap.subtree [name]) := by
  rw [SettingsNode.subtree_singleton currentDepth]
  cases found : currentDepth.at? name with
  | none => simp
  | some entry => exact subtree_subscript_self variablesMap (SettingsNode.mKey_of_at? found)

private theorem subtree_assignEntry_of_ne {option name : SettingsKey}
    (different : option ≠ name) :
    (match currentDepth.at? name with
      | some entry => variablesMap.subscript name fun current => current.assign entry
      | none => variablesMap).subtree [option] = variablesMap.subtree [option] := by
  cases found : currentDepth.at? name with
  | none => rfl
  | some entry =>
      rw [SettingsNode.subtree_singleton, SettingsNode.subtree_singleton,
        at?_subscript_of_ne variablesMap (SettingsNode.mKey_of_at? found) different]

/-- After the entries named in a list were assigned, a listed option has the
entry's subtree, where the entry carries values, and what it had before
otherwise. -/
private theorem subtree_foldl_assign (option : SettingsKey) (names : List SettingsKey) :
    (names.foldl
        (fun variablesMap depthKey =>
          match currentDepth.at? depthKey with
          | some entry =>
              variablesMap.subscript depthKey fun current => current.assign entry
          | none => variablesMap)
        variablesMap).subtree [option] =
      if option ∈ names then
        (currentDepth.subtree [option]).or (variablesMap.subtree [option])
      else variablesMap.subtree [option] := by
  induction names generalizing variablesMap with
  | nil => simp
  | cons name rest inductionHypothesis =>
      rw [List.foldl_cons, inductionHypothesis]
      by_cases same : option = name
      · subst same
        rw [subtree_assignEntry_self]
        -- A repeated name assigns the same first entry once more.
        by_cases again : option ∈ rest
        · simp only [again, List.mem_cons, or_true, if_true]
          cases currentDepth.subtree [option] <;> rfl
        · simp [again]
      · rw [subtree_assignEntry_of_ne currentDepth variablesMap same]
        simp [same]

end Entries

theorem subtree_assignEntries (variablesMap currentDepth : SettingsNode)
    (option : SettingsKey) :
    (assignEntries variablesMap currentDepth).subtree [option] =
      (currentDepth.subtree [option]).or (variablesMap.subtree [option]) := by
  rw [assignEntries, subtree_foldl_assign]
  by_cases listed : option ∈ (currentDepth.getValues []).getD []
  · rw [if_pos listed]
  · have missing : currentDepth.at? option = none := by
      apply FirstMatch.lookup_eq_none_iff.mpr
      intro member
      apply listed
      rw [SettingsNode.getValues_eq_subtree, SettingsNode.subtree_nil]
      cases carried : currentDepth.mValues with
      | none => simp [carried] at member
      | some children => simpa [carried] using member
    rw [if_neg listed, SettingsNode.subtree_singleton currentDepth, missing]
    rfl

/-- Replacing the value list of one variable leaves every other variable. -/
theorem at?_replace_of_ne (variablesMap : SettingsNode) {key option : SettingsKey}
    (values : SettingsValues) (different : option ≠ key) :
    (variablesMap.replace [key] values).at? option = variablesMap.at? option := by
  rw [SettingsNode.replace, SettingsNode.at?_add_of_ne _ _ _ different]
  by_cases present : variablesMap.contains [key]
  · have cleared : (variablesMap.clear [key]).2 = variablesMap.eraseAt [key] := by
      simp [SettingsNode.clear, present]
    rw [if_pos present, cleared, SettingsNode.at?, SettingsNode.eraseAt,
      SettingsNode.at?]
    cases variablesMap.mValues with
    | none => rfl
    | some children => exact FirstMatch.lookup_erase_of_ne different children
  · rw [if_neg present]

/-- `index` succeeds exactly when the section, if it exists, carries values. -/
theorem index_isOk_iff (variablesMap settings : SettingsNode) (front : SettingsKeys)
    (back : SettingsKey) :
    (∃ resolved, index variablesMap settings (front ++ [back]) = .ok resolved) ↔
      CarriesValues settings (front ++ [back]) := by
  rw [index, CarriesValues]
  cases present : settings.contains (front ++ [back]) with
  | false => simp [pure, Except.pure]
  | true =>
      have reached : (settings.atPath? (front ++ [back])).isSome := by
        rw [← SettingsNode.contains_eq, present]
      rcases Option.isSome_iff_exists.mp reached with ⟨currentDepth, found⟩
      cases values : settings.getValues (front ++ [back]) with
      | none => simp [found, throw, throwThe, MonadExceptOf.throw]
      | some values => simp [found, pure, Except.pure]

/-- The only way `index` fails is the dereference of a missing value list. -/
theorem index_error (variablesMap settings : SettingsNode) (front : SettingsKeys)
    (back : SettingsKey) (valueless : ¬CarriesValues settings (front ++ [back])) :
    index variablesMap settings (front ++ [back]) = .error (.emptyOptional .index) := by
  rw [CarriesValues, Classical.not_imp] at valueless
  rcases valueless with ⟨present, missing⟩
  have none : settings.getValues (front ++ [back]) = none := by simpa using missing
  rw [index, present]
  simp [none, throw, throwThe, MonadExceptOf.throw]

/-- One section laid over the variables: for an option other than the section's
own name, the entry decides where it carries values, and nothing changes where it
does not. -/
theorem index_subtree (variablesMap settings : SettingsNode) (front : SettingsKeys)
    (back option : SettingsKey) (different : option ≠ back)
    (carries : CarriesValues settings (front ++ [back])) :
    ∃ resolved, index variablesMap settings (front ++ [back]) = .ok resolved ∧
      resolved.subtree [option] =
        (settings.subtree (front ++ [back] ++ [option])).or
          (variablesMap.subtree [option]) := by
  cases present : settings.contains (front ++ [back]) with
  | false =>
      refine ⟨variablesMap, by simp [index, present, pure, Except.pure], ?_⟩
      have unreached : settings.atPath? (front ++ [back]) = none := by
        simpa [SettingsNode.contains_eq] using present
      rw [SettingsNode.subtree_append, unreached]
      rfl
  | true =>
      have reached : (settings.atPath? (front ++ [back])).isSome := by
        rw [← SettingsNode.contains_eq, present]
      rcases Option.isSome_iff_exists.mp reached with ⟨currentDepth, found⟩
      rcases Option.isSome_iff_exists.mp (carries present) with ⟨values, listed⟩
      refine ⟨assignEntries (variablesMap.replace [back] values) currentDepth, ?_, ?_⟩
      · simp [index, present, found, listed, pure, Except.pure]
      · rw [subtree_assignEntries, SettingsNode.subtree_append, found,
          SettingsNode.subtree_singleton (variablesMap.replace [back] values),
          at?_replace_of_ne variablesMap values different,
          ← SettingsNode.subtree_singleton]
        rfl

/-! ## The resolved map -/

theorem getVariablesMap_nil (variablesMap rootSettings : SettingsNode) :
    getVariablesMap variablesMap [] rootSettings = .ok variablesMap := rfl

/-- The containment test of `getVariablesMap` repeats that of `index`. -/
theorem getVariablesMap_cons (variablesMap rootSettings : SettingsNode)
    (key : SettingsKeys) (keys : List SettingsKeys) :
    getVariablesMap variablesMap (key :: keys) rootSettings =
      (index variablesMap rootSettings key).bind fun resolved =>
        getVariablesMap resolved keys rootSettings := by
  rw [getVariablesMap, List.foldlM_cons]
  by_cases present : rootSettings.contains key
  · rw [if_pos present]
    rfl
  · rw [if_neg present, index]
    simp only [present]
    rfl

/-- Resolving a command succeeds exactly when both of its sections, as far as
they exist, carry values. -/
theorem getVariablesMap_isOk_iff (variablesMap rootSettings : SettingsNode)
    (command initialCommand : SettingsKey) :
    (∃ resolved,
        getVariablesMap variablesMap (sectionKeys command initialCommand) rootSettings =
          .ok resolved) ↔
      Resolvable rootSettings command initialCommand := by
  have first := fun variablesMap => index_isOk_iff variablesMap rootSettings [] command
  have second := fun variablesMap =>
    index_isOk_iff variablesMap rootSettings [command] initialCommand
  simp only [List.nil_append, List.singleton_append] at first second
  simp only [Resolvable, sectionKeys, getVariablesMap_cons, List.forall_mem_cons, List.not_mem_nil,
    false_implies, implies_true, and_true]
  rw [← first variablesMap]
  constructor
  · rintro ⟨resolved, succeeded⟩
    cases commandLevel : index variablesMap rootSettings [command] with
    | error reason => simp [commandLevel, Except.bind] at succeeded
    | ok laid =>
        refine ⟨⟨laid, rfl⟩, ?_⟩
        rw [← second laid]
        cases initialLevel : index laid rootSettings [command, initialCommand] with
        | error reason =>
            simp [commandLevel, initialLevel, Except.bind] at succeeded
        | ok both => exact ⟨both, rfl⟩
  · rintro ⟨⟨laid, commandLevel⟩, carries⟩
    rcases (second laid).mpr carries with ⟨both, initialLevel⟩
    refine ⟨both, ?_⟩
    rw [commandLevel]
    simp only [Except.bind, initialLevel, getVariablesMap_nil]

/-- The only way to fail is the dereference in `index`. -/
theorem getVariablesMap_error {variablesMap rootSettings : SettingsNode}
    {command initialCommand : SettingsKey} {reason : Stop}
    (failed : getVariablesMap variablesMap (sectionKeys command initialCommand)
      rootSettings = .error reason) : reason = .emptyOptional .index := by
  have only : ∀ (variablesMap : SettingsNode) (front : SettingsKeys) (back : SettingsKey),
      index variablesMap rootSettings (front ++ [back]) = .error reason →
        reason = .emptyOptional .index := by
    intro variablesMap front back indexFailed
    by_cases carries : CarriesValues rootSettings (front ++ [back])
    · obtain ⟨resolved, succeeded⟩ :=
        (index_isOk_iff variablesMap rootSettings front back).mpr carries
      rw [succeeded] at indexFailed
      cases indexFailed
    · rw [index_error variablesMap rootSettings front back carries] at indexFailed
      exact (Except.error.inj indexFailed).symm
  simp only [sectionKeys, getVariablesMap_cons] at failed
  cases commandLevel : index variablesMap rootSettings [command] with
  | error commandReason =>
      rw [commandLevel] at failed
      exact only variablesMap [] command (commandLevel.trans failed)
  | ok laid =>
      rw [commandLevel] at failed
      cases initialLevel : index laid rootSettings [command, initialCommand] with
      | error initialReason =>
          simp only [Except.bind, initialLevel] at failed
          exact only laid [command] initialCommand (initialLevel.trans failed)
      | ok both =>
          simp only [Except.bind, initialLevel, getVariablesMap_nil] at failed
          cases failed

/-- For every option other than the two section names, the resolved map holds
the whole subtree of the innermost of the three levels that carries values. -/
theorem getVariablesMap_option (defaults rootSettings : SettingsNode)
    (command initialCommand option : SettingsKey)
    (notCommand : option ≠ command) (notInitial : option ≠ initialCommand)
    (carries : ∀ key ∈ sectionKeys command initialCommand,
      CarriesValues rootSettings key) :
    ∃ resolved,
      getVariablesMap defaults (sectionKeys command initialCommand) rootSettings =
          .ok resolved ∧
        resolved.subtree [option] =
          ((rootSettings.subtree [command, initialCommand, option]).or
            (rootSettings.subtree [command, option])).or
              (defaults.subtree [option]) := by
  obtain ⟨laid, commandLevel, commandOption⟩ :=
    index_subtree defaults rootSettings [] command option notCommand
      (carries [command] (by simp [sectionKeys]))
  obtain ⟨resolved, initialLevel, initialOption⟩ :=
    index_subtree laid rootSettings [command] initialCommand option notInitial
      (carries [command, initialCommand] (by simp [sectionKeys]))
  simp only [List.nil_append, List.singleton_append] at commandLevel commandOption
  simp only [List.cons_append, List.nil_append] at initialLevel initialOption
  refine ⟨resolved, ?_, ?_⟩
  · rw [sectionKeys, getVariablesMap_cons, commandLevel]
    simp only [Except.bind]
    rw [getVariablesMap_cons, initialLevel]
    rfl
  · rw [initialOption, commandOption]
    cases rootSettings.subtree [command, initialCommand, option] <;> rfl

/-- The own section of a build command gives the command line, the section of the
command below the calling one gives the working directory. -/
theorem getVariablesMap_option_buildCommand :
    ∃ resolved,
      getVariablesMap (.ofKey "command-line-command")
          (sectionKeys "command-line-command" "build")
          ⟨"settings", some
            [⟨"command-line-command", some
              [⟨"command-line", some [.ofKey "make"]⟩,
                ⟨"build", some [⟨"working-dir", some [.ofKey "out"]⟩]⟩]⟩]⟩ =
          .ok resolved ∧
        resolved.subtree ["command-line"] = some [.ofKey "make"] := by
  obtain ⟨resolved, succeeded, found⟩ :=
    getVariablesMap_option (.ofKey "command-line-command")
      ⟨"settings", some
        [⟨"command-line-command", some
          [⟨"command-line", some [.ofKey "make"]⟩,
            ⟨"build", some [⟨"working-dir", some [.ofKey "out"]⟩]⟩]⟩]⟩
      "command-line-command" "build" "command-line" (by decide) (by decide) (by decide)
  exact ⟨resolved, succeeded, found.trans rfl⟩

end ExecHelper.Plugins.ExecutePlugin
