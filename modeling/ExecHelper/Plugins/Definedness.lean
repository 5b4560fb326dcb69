import ExecHelper.Plugins.Termination

/-!
# Variables without gaps

Plugins dereference what they read of their variables.  An option with a default is there,
and has a value if the default has one, as long as it is overridden by entries.  Where the
entries of an option have values of their own, all of them are looked up, so either all of
them or none must have some.  Under these conditions no plugin dereferences an empty
optional; for a script this is seen call by call.
-/

namespace ExecHelper.Plugins

open ExecHelper.Library
open ExecHelper.Config
open ExecHelper.Core

/-! ## Overridden options -/

/-- Either no entry has values of its own, or all of them have some. -/
def Uniform (entries : List SettingsNode) : Prop :=
  (∀ entry ∈ entries, entry.mValues = none) ∨ ∀ entry ∈ entries, entry.mValues.getD [] ≠ []

/-- Every option is left as it was, or overridden by entries, all with values or without. -/
def Overrides (defaults variablesMap : VariablesMap) : Prop :=
  ∀ option, variablesMap.subtree [option] = defaults.subtree [option] ∨
    ∃ entries, variablesMap.subtree [option] = some entries ∧ entries ≠ [] ∧ Uniform entries

section Options

variable {defaults between variablesMap : VariablesMap} {key : SettingsKey}

theorem Overrides.refl (variablesMap : VariablesMap) : Overrides variablesMap variablesMap :=
  fun _ => Or.inl rfl

theorem Overrides.trans (first : Overrides defaults between)
    (second : Overrides between variablesMap) : Overrides defaults variablesMap := by
  intro option
  rcases second option with kept | overridden
  · rw [kept]
    exact first option
  · exact Or.inr overridden

/-- An option with a default is there, with a value if the default has one. -/
theorem Overrides.exists_getValues (overrides : Overrides defaults variablesMap)
    {values : SettingsValues} (default : defaults.getValues [key] = some values) :
    ∃ given, variablesMap.getValues [key] = some given ∧ (values ≠ [] → given ≠ []) := by
  rcases overrides key with kept | ⟨entries, overridden, nonempty, -⟩
  · refine ⟨values, ?_, id⟩
    rw [SettingsNode.getValues_eq_subtree, kept, ← SettingsNode.getValues_eq_subtree, default]
  · refine ⟨entries.map SettingsNode.mKey, ?_, ?_⟩
    · rw [SettingsNode.getValues_eq_subtree, overridden, Option.map_some]
    · exact fun _ empty => nonempty (List.map_eq_nil_iff.mp empty)

theorem Overrides.isSome_getValues (overrides : Overrides defaults variablesMap)
    {values : SettingsValues} (default : defaults.getValues [key] = some values) :
    (variablesMap.getValues [key]).isSome := by
  obtain ⟨given, found, -⟩ := overrides.exists_getValues default
  rw [found, Option.isSome_some]

theorem Overrides.isSome_getString (overrides : Overrides defaults variablesMap)
    {value : SettingsValue} (default : defaults.getValues [key] = some [value]) :
    (variablesMap.getString [key]).isSome := by
  obtain ⟨given, found, nonempty⟩ := overrides.exists_getValues default
  rw [SettingsNode.getString, SettingsNode.get_eq_getValues_bind, found, Option.bind_some,
    Cast.string, List.getLast?_isSome]
  exact nonempty (List.cons_ne_nil _ _)

theorem Overrides.isSome_getBool (overrides : Overrides defaults variablesMap)
    {value : SettingsValue} (default : defaults.getValues [key] = some [value]) :
    (variablesMap.getBool [key]).isSome := by
  obtain ⟨given, found, nonempty⟩ := overrides.exists_getValues default
  rw [SettingsNode.getBool, SettingsNode.get_eq_getValues_bind, found, Option.bind_some,
    Cast.bool, Option.isSome_map, List.getLast?_isSome]
  exact nonempty (List.cons_ne_nil _ _)

end Options

/-! ## Plugins -/

section Plugins

variable {allowed : Stop → Prop} {fleetingOptions : FleetingOptions}
variable {variablesMap : VariablesMap}

/-- Where all entries have values, so has the first one of every name. -/
theorem exists_values_of_lookup {entries : List SettingsNode}
    (given : ∀ entry ∈ entries, entry.mValues.getD [] ≠ []) {name : SettingsKey}
    (named : name ∈ entries.map SettingsNode.mKey) :
    ∃ found first rest, FirstMatch.lookup SettingsNode.mKey name entries = some found ∧
      found.mValues = some (first :: rest) := by
  obtain ⟨found, lookedUp⟩ :=
    Option.isSome_iff_exists.mp (FirstMatch.lookup_isSome_iff.mpr named)
  have values := given found (List.mem_of_find?_eq_some lookedUp)
  cases carried : found.mValues with
  | none =>
      rw [carried] at values
      exact absurd rfl values
  | some children =>
      rw [carried, Option.getD_some] at values
      obtain ⟨first, rest, rfl⟩ := List.exists_cons_of_ne_nil values
      exact ⟨found, first, rest, lookedUp, carried⟩

/-- All entries of a uniform list have a table together. -/
theorem exists_get_of_uniform {key : SettingsKey}
    (uniform : ∀ entries, variablesMap.subtree [key] = some entries → Uniform entries) :
    ∃ table, LuaConfig.get variablesMap key = .ok table := by
  rw [LuaConfig.exists_get_iff]
  intro first rest configured carries entry member
  rcases uniform _ configured with plain | given
  · rw [plain first List.mem_cons_self] at carries
    cases carries
  · obtain ⟨found, value, values, lookedUp, carried⟩ :=
      exists_values_of_lookup given (List.mem_map_of_mem member)
    rw [lookedUp, Option.bind_some, LuaConfig.carriedValue, SettingsNode.values, carried,
      Option.map_some, Option.bind_some, List.getLast?_isSome]
    exact List.cons_ne_nil _ _

/-- By default the options of a script only have plain values. -/
theorem plain_luaPlugin {option : SettingsKey} {entries : List SettingsNode}
    (default : (LuaPlugin.getVariablesMap fleetingOptions).subtree [option] = some entries) :
    ∀ entry ∈ entries, entry.mValues = none := by
  have children : (LuaPlugin.getVariablesMap fleetingOptions).mValues =
      some [⟨VERBOSITY_KEY, some [.ofKey (verbosityValue fleetingOptions)]⟩,
        ⟨JOBS_KEY, some [.ofKey (toString fleetingOptions.jobs.toNat)]⟩] := rfl
  rw [SettingsNode.subtree_singleton] at default
  obtain ⟨found, lookedUp, carried⟩ := Option.bind_eq_some_iff.mp default
  have member := List.mem_of_find?_eq_some lookedUp
  rw [children, Option.getD_some] at member
  obtain rfl | rfl := List.mem_pair.mp member
  · obtain rfl := Option.some.inj carried
    exact List.forall_mem_singleton.mpr rfl
  · obtain rfl := Option.some.inj carried
    exact List.forall_mem_singleton.mpr rfl

/-- What is listed under an entry of an option. -/
theorem getValues_entry (variablesMap : VariablesMap) (option identifier : SettingsKey) :
    variablesMap.getValues [option, identifier] =
      (variablesMap.subtree [option]).bind fun entries =>
        (FirstMatch.lookup SettingsNode.mKey identifier entries).bind SettingsNode.values := by
  rw [SettingsNode.getValues_cons, SettingsNode.subtree_singleton]
  cases variablesMap.at? option with
  | none => rfl
  | some child =>
      rw [Option.bind_some, Option.bind_some, SettingsNode.getValues_cons, SettingsNode.at?]
      cases child.mValues with
      | none => rfl
      | some entries =>
          rw [Option.getD_some, Option.bind_some]
          exact Option.bind_congr fun entry _ => SettingsNode.getValues_nil entry

theorem present_commandLineCommand
    (overrides : Overrides (CommandLineCommand.getVariablesMap fleetingOptions) variablesMap) :
    CommandLineCommand.Present variablesMap := by
  rcases overrides COMMAND_LINE_KEY with kept | ⟨entries, overridden, -, uniform⟩
  · have default : (CommandLineCommand.getVariablesMap fleetingOptions).subtree
        [COMMAND_LINE_KEY] = some [] := rfl
    refine ⟨[], ?_, ?_⟩
    · rw [SettingsNode.getValues_eq_subtree, kept, default]
      rfl
    · intro front rest impossible
      cases impossible
  · refine ⟨entries.map SettingsNode.mKey, ?_, ?_⟩
    · rw [SettingsNode.getValues_eq_subtree, overridden, Option.map_some]
    · intro front rest _ identified identifier member
      rw [getValues_entry, overridden, Option.bind_some] at identified ⊢
      rcases uniform with plain | given
      · cases lookedUp : FirstMatch.lookup SettingsNode.mKey front entries with
        | none =>
            rw [lookedUp] at identified
            exact absurd rfl identified
        | some found =>
            rw [lookedUp, Option.bind_some, SettingsNode.values,
              plain found (List.mem_of_find?_eq_some lookedUp)] at identified
            exact absurd rfl identified
      · obtain ⟨found, first, rest, lookedUp, carried⟩ := exists_values_of_lookup given member
        rw [lookedUp, Option.bind_some, SettingsNode.values, carried]
        rfl

/-- A plugin reads nothing that is missing if its defaults are only overridden, and moves to
no empty directory. -/
theorem Plugin.reads_of_overrides {plugin : Plugin}
    (overrides : Overrides (plugin.getVariablesMap fleetingOptions) variablesMap)
    (located : Located allowed variablesMap)
    (bundled : ∀ script, plugin = .luaPlugin script → ∃ entry ∈ Script.bundled,
      ∃ path pairs callbackError, script = entry.2.file path pairs callbackError) :
    plugin.Reads allowed variablesMap := by
  cases plugin with
  | memory returnCode => trivial
  | commandLineCommand =>
      exact ⟨located, Or.inr (@present_commandLineCommand fleetingOptions _ overrides)⟩
  | commandPlugin =>
      have default : (CommandPlugin.getVariablesMap fleetingOptions).getValues
          [CommandPlugin.PLUGIN_NAME] = some fleetingOptions.commands := by
        rw [CommandPlugin.getVariablesMap, SettingsNode.getValues_add_self,
          SettingsNode.getValues_ofKey]
        rfl
      exact Or.inr (overrides.isSome_getValues default)
  | valgrind =>
      have verbosity : (Valgrind.getVariablesMap fleetingOptions).getValues [VERBOSITY_KEY] =
          some [verbosityValue fleetingOptions] := rfl
      have commandLine : (Valgrind.getVariablesMap fleetingOptions).getValues [COMMAND_LINE_KEY] =
          some [] := rfl
      exact Or.inr ⟨overrides.isSome_getBool verbosity, overrides.isSome_getValues commandLine⟩
  | pmd =>
      have exec : (Pmd.getVariablesMap fleetingOptions).getValues [Pmd.EXEC_KEY] =
          some [Pmd.PLUGIN_NAME] := rfl
      have tool : (Pmd.getVariablesMap fleetingOptions).getValues [Pmd.TOOL_KEY] =
          some ["cpd"] := rfl
      have verbosity : (Pmd.getVariablesMap fleetingOptions).getValues [VERBOSITY_KEY] =
          some [verbosityValue fleetingOptions] := rfl
      have commandLine : (Pmd.getVariablesMap fleetingOptions).getValues [COMMAND_LINE_KEY] =
          some [] := rfl
      exact Or.inr ⟨overrides.isSome_getString exec, overrides.isSome_getString tool,
        overrides.isSome_getString verbosity, overrides.isSome_getValues commandLine⟩
  | lcov =>
      have present : Lcov.DefaultsPresent variablesMap :=
        fun key values default => overrides.exists_getValues default
      exact Or.inr (Option.isSome_iff_exists.mpr (Lcov.exists_readSettings present))
  | luaPlugin script =>
      obtain ⟨entry, member, path, pairs, callbackError, rfl⟩ := bundled script rfl
      have append := (kept_placed allowed CurrentPath.root).append
      refine ⟨located, Script.keeps_file append member path pairs callbackError, ?_⟩
      intro verbose jobs task patterns
      apply Script.stopsOnlyFor_file member
      intro key reason failed
      have uniform : ∀ entries, variablesMap.subtree [key] = some entries → Uniform entries := by
        intro entries configured
        rcases overrides key with kept | ⟨_, overridden, -, uniform⟩
        · rw [kept] at configured
          exact Or.inl (plain_luaPlugin configured)
        · obtain rfl := Option.some.inj (configured.symm.trans overridden)
          exact uniform
      obtain ⟨table, computed⟩ := exists_get_of_uniform uniform
      rw [computed] at failed
      cases failed

end Plugins

end ExecHelper.Plugins
