import ExecHelper.Applications.Termination
import ExecHelper.Plugins.Definedness

/-!
# Well-written settings

The program dereferences what it reads of its settings without asking whether it is there:
the values of a section that exists, and the options of a plugin that have a default.  Nor
does it ask whether a directory it moves a task to is empty.  In well-written settings a
section lists something, an option has entries, all of them with values or none, and
neither a working directory nor a pattern value is empty.  Then nothing that is
dereferenced is missing, and an invocation that ends without an exit status was ended by
its shell.
-/

namespace ExecHelper.Applications

open ExecHelper.Library
open ExecHelper.Config
open ExecHelper.Core
open ExecHelper.Plugins

/-! ## Sections -/

/-- The section lists something if it exists, and its options have entries, all with values
or without. -/
structure WrittenSection (settings : SettingsNode) (path : SettingsKeys) : Prop where
  lists : settings.contains path = true → (settings.getValues path).getD [] ≠ []
  options : ∀ option entries, settings.subtree (path ++ [option]) = some entries →
    entries ≠ [] ∧ Uniform entries

/-- The sections of plugins are well written, for every command they can be called for. -/
def WellWritten (context : Context) : Prop :=
  ∀ command ∈ ExecutePlugin.getPluginNames context.plugins, ∀ initialCommand,
    context.CalledFor command initialCommand →
      ∀ path ∈ ExecutePlugin.sectionKeys command initialCommand,
        WrittenSection context.settings path

section Sections

variable {settings variablesMap resolved : SettingsNode} {path : SettingsKeys}

theorem WrittenSection.carriesValues (written : WrittenSection settings path) :
    ExecutePlugin.CarriesValues settings path := by
  intro present
  have listed := written.lists present
  cases values : settings.getValues path with
  | none =>
      rw [values] at listed
      exact absurd rfl listed
  | some _ => rfl

theorem writtenSection_of_missing (missing : settings.atPath? path = none) :
    WrittenSection settings path where
  lists present := by
    rw [SettingsNode.contains_eq, missing] at present
    cases present
  options option entries found := by
    rw [SettingsNode.subtree_append, missing] at found
    cases found

/-- It is enough to look at the children of the section. -/
theorem writtenSection_of_atPath? {node first : SettingsNode} {rest : List SettingsNode}
    (found : settings.atPath? path = some node) (carried : node.mValues = some (first :: rest))
    (options : ∀ child ∈ first :: rest, ∀ entries, child.mValues = some entries →
      entries ≠ [] ∧ Uniform entries) : WrittenSection settings path where
  lists _ := by
    rw [SettingsNode.getValues_eq, found, Option.bind_some, SettingsNode.values, carried]
    exact List.cons_ne_nil _ _
  options option entries listed := by
    rw [SettingsNode.subtree_append, found, Option.bind_some,
      SettingsNode.subtree_singleton] at listed
    obtain ⟨child, lookedUp, given⟩ := Option.bind_eq_some_iff.mp listed
    have member := List.mem_of_find?_eq_some lookedUp
    rw [carried, Option.getD_some] at member
    exact options child member entries given

/-- A section is well written below any name if all its children are. -/
theorem writtenSection_below {node : SettingsNode} (found : settings.atPath? path = some node)
    (below : ∀ child ∈ node.mValues.getD [], WrittenSection child []) (name : SettingsKey) :
    WrittenSection settings (path ++ [name]) := by
  cases lookedUp : node.at? name with
  | none =>
      apply writtenSection_of_missing
      rw [SettingsNode.atPath?_append, found, Option.bind_some, SettingsNode.atPath?_cons,
        lookedUp, Option.bind_none]
  | some child =>
      have written := below child (List.mem_of_find?_eq_some lookedUp)
      have reached : settings.atPath? (path ++ [name]) = some child := by
        rw [SettingsNode.atPath?_append, found, Option.bind_some, SettingsNode.atPath?_cons,
          lookedUp, Option.bind_some, SettingsNode.atPath?_nil]
      constructor
      case lists =>
        intro _
        have listed := written.lists (SettingsNode.contains_nil child)
        rw [SettingsNode.getValues_nil] at listed
        rw [SettingsNode.getValues_eq, reached, Option.bind_some]
        exact listed
      case options =>
        intro option entries given
        rw [SettingsNode.subtree_append, reached, Option.bind_some] at given
        exact written.options option entries given

/-- A section laid over the variables overrides options with its entries, and the option of
its own name with what it lists. -/
private theorem index_overrides (distinct : DistinctKeys variablesMap)
    (written : WrittenSection settings path)
    (laid : ExecutePlugin.index variablesMap settings path = .ok resolved) :
    DistinctKeys resolved ∧ Overrides variablesMap resolved := by
  rcases index_cases laid with rfl | ⟨front, back, values, currentDepth, rfl, listed, found, rfl⟩
  · exact ⟨distinct, .refl _⟩
  · refine ⟨(distinct.replace back values).assignEntries currentDepth, ?_⟩
    intro option
    rw [ExecutePlugin.subtree_assignEntries]
    cases below : currentDepth.subtree [option] with
    | some entries =>
        have there : settings.subtree (front ++ [back] ++ [option]) = some entries := by
          rw [SettingsNode.subtree_append, found, Option.bind_some, below]
        exact Or.inr ⟨entries, rfl, written.options option entries there⟩
    | none =>
        rw [Option.none_or]
        by_cases own : option = back
        · subst own
          have present : settings.contains (front ++ [option]) = true := by
            rw [SettingsNode.contains_eq, found, Option.isSome_some]
          have given := written.lists present
          rw [listed, Option.getD_some] at given
          refine Or.inr ⟨_, distinct.subtree_replace_self option values, ?_, Or.inl ?_⟩
          · exact fun empty => given (List.map_eq_nil_iff.mp empty)
          · exact List.forall_mem_map.mpr fun _ _ => rfl
        · rw [SettingsNode.subtree_singleton, ExecutePlugin.at?_replace_of_ne _ _ own,
            ← SettingsNode.subtree_singleton]
          exact Or.inl rfl

private theorem getVariablesMap_overrides (distinct : DistinctKeys variablesMap)
    {keys : List SettingsKeys} (written : ∀ path ∈ keys, WrittenSection settings path)
    (laid : ExecutePlugin.getVariablesMap variablesMap keys settings = .ok resolved) :
    Overrides variablesMap resolved := by
  induction keys generalizing variablesMap with
  | nil =>
      obtain rfl := Except.ok.inj laid
      exact .refl _
  | cons key rest inductionHypothesis =>
      obtain ⟨first, later⟩ := List.forall_mem_cons.mp written
      rw [ExecutePlugin.getVariablesMap_cons] at laid
      cases indexed : ExecutePlugin.index variablesMap settings key with
      | error reason =>
          rw [indexed] at laid
          cases laid
      | ok next =>
          rw [indexed] at laid
          obtain ⟨nextDistinct, overrides⟩ := index_overrides distinct first indexed
          exact overrides.trans (inductionHypothesis nextDistinct later laid)

end Sections

/-! ## Commands without cycles -/

section Resolvable

variable {context : Context} {command initialCommand : Command}

/-- A name that is no plugin has no section for the command it is called for: it would lead
back to that command. -/
theorem resolvable_of_acyclic (acyclic : Acyclic context.Leads command)
    (called : context.CalledFor command initialCommand)
    (notPlugin : command ∉ ExecutePlugin.getPluginNames context.plugins)
    (found : ExecutePlugin.getNextStep context command ≠ none) :
    ExecutePlugin.Resolvable context.settings command initialCommand := by
  have listed : (context.settings.getValues [command]).isSome := by
    rw [ExecutePlugin.getNextStep, if_neg notPlugin] at found
    simpa [Option.isSome_iff_ne_none] using found
  intro key member
  rcases List.mem_pair.mp member with rfl | rfl
  · exact fun _ => listed
  · intro present
    exfalso
    obtain ⟨values, values_eq⟩ := Option.isSome_iff_exists.mp listed
    have leads : context.Leads command initialCommand := by
      refine Or.inl ⟨notPlugin, values, values_eq, ?_⟩
      exact SettingsNode.mem_getValues_of_contains values_eq present
    rcases called with rfl | refers
    · exact acyclic initialCommand .refl (.single leads)
    · exact acyclic command .refl (.tail (.single leads) (Or.inl refers))

/-- A command is only resolved to a working directory the settings list. -/
theorem located_of_resolves {variablesMap : VariablesMap}
    (resolves : context.Resolves variablesMap)
    (directories : ¬Lists context.settings WORKING_DIR_KEY "") (allowed : Stop → Prop) :
    Located allowed variablesMap := by
  right
  intro empty
  rw [SettingsNode.getString, SettingsNode.get_eq_getValues_bind] at empty
  obtain ⟨values, listed, last⟩ := Option.bind_eq_some_iff.mp empty
  apply directories
  apply lists_of_resolves resolves (Or.inr rfl)
  rw [listed]
  exact List.mem_of_getLast? last

/-- Where settings are well written, what a plugin dereferences is there, so no reason has to
be allowed. -/
theorem provides_of_wellWritten {invocation : Invocation}
    (countable : Countable invocation.patterns) (filled : Filled invocation.patterns)
    (bundled : invocation.context.OnlyBundled)
    (directories : ¬Lists invocation.settings WORKING_DIR_KEY "")
    (written : WellWritten invocation.context) (allowed : Stop → Prop) :
    invocation.context.Provides allowed where
  countable := countable_context countable
  filled := Or.inr (filled_context filled)
  sections command initialCommand called acyclic found missing := by
    exfalso
    apply missing
    by_cases plugin : command ∈ ExecutePlugin.getPluginNames invocation.context.plugins
    · exact fun key member =>
        (written command plugin initialCommand called key member).carriesValues
    · exact resolvable_of_acyclic acyclic called plugin found
  plugins command initialCommand plugin variablesMap called resolves := by
    have located : Located allowed variablesMap :=
      located_of_resolves ⟨command, initialCommand, _, resolves⟩ directories allowed
    obtain ⟨found, laid⟩ := resolves
    have named : command ∈ ExecutePlugin.getPluginNames invocation.context.plugins := by
      by_contra notPlugin
      rw [ExecutePlugin.getNextStep, if_neg notPlugin] at found
      obtain ⟨_, -, impossible⟩ := Option.map_eq_some_iff.mp found
      cases impossible
    have distinct := (stepVariables_default invocation.context.fleeting
      (.plugin plugin) (Or.inl rfl)).1
    apply Plugin.reads_of_overrides
      (getVariablesMap_overrides distinct (written command named initialCommand called) laid)
      located
    rintro script rfl
    exact bundled command script (ExecutePlugin.getElem?_of_luaPlugin found)

end Resolvable

/-! ## Invocations -/

section Run

/-- A platform's shell finds nothing to execute in the arguments of a task exactly when they
expand to no word at all. -/
theorem PosixShell.onPlatform_frontOfEmpty_iff (platform : Core.PosixShell.Platform)
    (filesystemError : String)
    (system : Nat → Path → TaskCollection → Path → EnvironmentCollection →
      Except String ShellReturnCode) (index : Nat) (task : Task) :
    (PosixShell.onPlatform platform filesystemError system index task).result = .frontOfEmpty ↔
      task.task ≠ [] ∧ Core.PosixShell.expanded platform task = [] := by
  by_cases given : task.task = []
  · rw [PosixShell.onPlatform, Core.PosixShell.execute, given]
    exact iff_of_false ShellResult.noConfusion fun both => both.1 rfl
  · rw [PosixShell.onPlatform, Core.PosixShell.execute_outcome given]
    cases words : Core.PosixShell.expanded platform task with
    | nil => exact iff_of_true rfl ⟨given, rfl⟩
    | cons front rest =>
        refine iff_of_false ?_ fun both => List.cons_ne_nil _ _ both.2
        dsimp only
        cases platform.pathExists (Core.PosixShell.binaryPath platform task front) with
        | none => exact ShellResult.noConfusion
        | some found =>
            cases found with
            | false => exact ShellResult.noConfusion
            | true =>
                dsimp only
                cases system index (Core.PosixShell.binaryPath platform task front) rest
                    task.workingDirectory (Core.PosixShell.childEnvironment platform task) with
                | ok returnCode => exact ShellResult.noConfusion
                | error what => exact ShellResult.noConfusion

/-- An invocation with well-written settings whose commands lead to no cycle accesses nothing
that is missing, and nothing but its shell ends it without an exit status.  On a platform, the
shell itself accesses a missing word only where the arguments of its last task expand to no
word at all. -/
theorem execHelperMain_isDefined (invocation : Invocation)
    (countable : Countable invocation.patterns) (filled : Filled invocation.patterns)
    (bundled : invocation.context.OnlyBundled)
    (acyclic : ∀ command ∈ invocation.fleetingOptions.commands,
      Acyclic invocation.context.Leads command)
    (written : WellWritten invocation.context)
    (directories : ¬Lists invocation.settings WORKING_DIR_KEY "")
    (starts : invocation.settingsFileParentPath ≠ "") :
    ∃ enough, ∀ fuel, enough ≤ fuel →
      (∀ shell process reason final,
        execHelperMain invocation shell fuel process = .error reason final →
          CausedBy invocation.fleetingOptions shell reason final.surroundings) ∧
      ∀ platform filesystemError system process final,
        execHelperMain invocation (PosixShell.onPlatform platform filesystemError system) fuel
            process = .error .outOfBounds final →
          ∃ before task, final.surroundings.executed = before ++ [task] ∧ task.task ≠ [] ∧
            Core.PosixShell.expanded platform task = [] := by
  obtain ⟨enough, ends⟩ := exists_execHelperMain_ends acyclic
  refine ⟨enough, ?_⟩
  intro fuel above
  have caused : ∀ shell process reason final,
      execHelperMain invocation shell fuel process = .error reason final →
        CausedBy invocation.fleetingOptions shell reason final.surroundings := by
    intro shell process reason final stopped
    obtain ⟨-, within⟩ := ends fuel above shell (fun _ => False)
      (CausedBy invocation.fleetingOptions shell)
      (provides_of_wellWritten countable filled bundled directories written _)
      (fun _ impossible => impossible.elim) (fun _ _ caused => caused) (Or.inr starts)
    exact within.stops stopped
  refine ⟨caused, ?_⟩
  intro platform filesystemError system process final stopped
  obtain ⟨-, before, task, executed, answered⟩ := caused _ process .outOfBounds final stopped
  have empty := (PosixShell.onPlatform_frontOfEmpty_iff platform filesystemError system
    before.length task).mp answered
  exact ⟨before, task, executed, empty⟩

/-- The text is the key of a node below another one. -/
private inductive Occurs (text : SettingsValue) : SettingsNode → Prop where
  | child {node child : SettingsNode} (member : child ∈ node.mValues.getD [])
      (named : child.mKey = text) : Occurs text node
  | deeper {node child : SettingsNode} (member : child ∈ node.mValues.getD [])
      (occurs : Occurs text child) : Occurs text node

private theorem occurs_iff {text : SettingsValue} {node : SettingsNode} :
    Occurs text node ↔ ∃ child ∈ node.mValues.getD [], child.mKey = text ∨ Occurs text child := by
  constructor
  · rintro (⟨member, named⟩ | ⟨member, occurs⟩)
    · exact ⟨_, member, Or.inl named⟩
    · exact ⟨_, member, Or.inr occurs⟩
  · rintro ⟨child, member, named | occurs⟩
    · exact .child member named
    · exact .deeper member occurs

private theorem not_occurs_ofKey (text key : SettingsValue) : ¬Occurs text (.ofKey key) := by
  rw [occurs_iff]
  rintro ⟨child, member, -⟩
  cases member

private theorem occurs_of_getValues {settings : SettingsNode} {path : SettingsKeys}
    {values : SettingsValues} (listed : settings.getValues path = some values)
    {value : SettingsValue} (member : value ∈ values) : Occurs value settings := by
  induction path generalizing settings with
  | nil =>
      rw [SettingsNode.getValues_nil, SettingsNode.values] at listed
      obtain ⟨children, carried, rfl⟩ := Option.map_eq_some_iff.mp listed
      obtain ⟨child, inside, named⟩ := List.mem_map.mp member
      refine .child ?_ named
      rw [carried]
      exact inside
  | cons key rest inductionHypothesis =>
      rw [SettingsNode.getValues_cons] at listed
      obtain ⟨child, found, below⟩ := Option.bind_eq_some_iff.mp listed
      exact .deeper (List.mem_of_find?_eq_some found) (inductionHypothesis below)

/-- The invocation of a command for which its plugin has a section, with a pattern. -/
def sectionedInvocation : Invocation :=
  { memoryInvocation with
    settings := ⟨"settings", some
      [⟨"build", some [.ofKey "command-line-command"]⟩,
        ⟨"command-line-command", some
          [⟨"command-line", some [.ofKey "make", .ofKey "all"]⟩,
            ⟨"build", some [⟨"working-dir", some [.ofKey "\x7bMODE\x7d"]⟩]⟩]⟩]⟩
    patterns := [{ key := "MODE", values := ["debug", "release"] }] }

private theorem wellWritten_sectionedInvocation : WellWritten sectionedInvocation.context := by
  have plain : ∀ texts : List String, texts ≠ [] →
      texts.map SettingsNode.ofKey ≠ [] ∧ Uniform (texts.map SettingsNode.ofKey) := by
    intro texts given
    refine ⟨fun empty => given (List.map_eq_nil_iff.mp empty), Or.inl ?_⟩
    exact List.forall_mem_map.mpr fun _ _ => rfl
  intro command named initialCommand _ path member
  by_cases own : command = "command-line-command"
  · subst own
    rcases List.mem_pair.mp member with rfl | rfl
    · apply writtenSection_of_atPath? rfl rfl
      intro child member entries given
      rcases List.mem_pair.mp member with rfl | rfl
      · obtain rfl := Option.some.inj given
        exact plain ["make", "all"] (List.cons_ne_nil _ _)
      · obtain rfl := Option.some.inj given
        exact ⟨List.cons_ne_nil _ _, Or.inr (List.forall_mem_singleton.mpr (List.cons_ne_nil _ _))⟩
    · refine @writtenSection_below _ ["command-line-command"] _ rfl ?_ initialCommand
      intro child member
      rcases List.mem_pair.mp member with rfl | rfl
      · apply writtenSection_of_atPath? (SettingsNode.atPath?_nil _) rfl
        intro entry inside entries given
        rcases List.mem_pair.mp inside with rfl | rfl
        · cases given
        · cases given
      · apply writtenSection_of_atPath? (SettingsNode.atPath?_nil _) rfl
        intro entry inside entries given
        obtain rfl := List.mem_singleton.mp inside
        obtain rfl := Option.some.inj given
        exact plain ["\x7bMODE\x7d"] (List.cons_ne_nil _ _)
  · apply writtenSection_of_missing
    have notBuild : command ≠ "build" := by
      rintro rfl
      exact absurd named (by decide)
    have missing : sectionedInvocation.context.settings.at? command = none := by
      change FirstMatch.lookup SettingsNode.mKey command
        [⟨"build", _⟩, ⟨"command-line-command", _⟩] = none
      rw [FirstMatch.lookup_cons, if_neg (Ne.symm notBuild), FirstMatch.lookup_cons,
        if_neg (Ne.symm own)]
      rfl
    rcases List.mem_pair.mp member with rfl | rfl
    · rw [SettingsNode.atPath?_cons, missing, Option.bind_none]
    · rw [SettingsNode.atPath?_cons, missing, Option.bind_none]

private theorem occurs_mk {text key : SettingsValue} {children : List SettingsNode} :
    Occurs text ⟨key, some children⟩ ↔
      ∃ child ∈ children, child.mKey = text ∨ Occurs text child :=
  occurs_iff

private theorem not_occurs_sectionedInvocation : ¬Occurs "" sectionedInvocation.settings := by
  simp [sectionedInvocation, occurs_mk, not_occurs_ofKey]

/-- With any shell, it ends in a defined way. -/
theorem execHelperMain_isDefined_sections :
    ∃ enough, ∀ fuel, enough ≤ fuel →
      (∀ shell process reason final,
        execHelperMain sectionedInvocation shell fuel process = .error reason final →
          CausedBy sectionedInvocation.fleetingOptions shell reason final.surroundings) ∧
      ∀ platform filesystemError system process final,
        execHelperMain sectionedInvocation
            (PosixShell.onPlatform platform filesystemError system) fuel process =
              .error .outOfBounds final →
          ∃ before task, final.surroundings.executed = before ++ [task] ∧ task.task ≠ [] ∧
            Core.PosixShell.expanded platform task = [] := by
  apply execHelperMain_isDefined sectionedInvocation
  · exact List.forall_mem_singleton.mpr (by decide)
  · exact List.forall_mem_singleton.mpr (by decide)
  · exact onlyBundled_bundledInvocation
  · intro command listed
    obtain rfl : command = "build" := by
      simpa [sectionedInvocation, memoryInvocation] using listed
    have build : ExecutePlugin.getNextStep sectionedInvocation.context "build" =
        some (.commands (.ofInitialCommand ["command-line-command"] "build")) := rfl
    have commandLine : ExecutePlugin.getNextStep sectionedInvocation.context
        "command-line-command" = some (.plugin .commandLineCommand) := rfl
    apply ExecutePlugin.acyclic_of_commands build
    exact List.forall_mem_singleton.mpr (ExecutePlugin.acyclic_of_commandLineCommand commandLine)
  · exact wellWritten_sectionedInvocation
  · rintro ⟨path, values, listed, member⟩
    exact not_occurs_sectionedInvocation (occurs_of_getValues listed member)
  · decide

end Run

end ExecHelper.Applications
