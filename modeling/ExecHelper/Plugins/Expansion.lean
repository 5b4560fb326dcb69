import ExecHelper.Library.Acyclic
import ExecHelper.Plugins.ExecutePlugin

/-!
# The expansion of commands

A list of commands expands to a flat sequence of steps, depth first and from left
to right: a plugin name is a call of that plugin, any other name is replaced by
its values in the settings.  Executing the commands is running through this
sequence until the first call that fails or the first name that resolves to
nothing.

The sequence exists when the definitions of the commands are not cyclic.  Nothing
in the source looks for cycles, so a cyclic definition has no end to come to.
-/

namespace ExecHelper.Plugins.ExecutePlugin

open ExecHelper.Library
open ExecHelper.Config
open ExecHelper.Core

/-! ## The flat sequence -/

/-- A step of the flat sequence. -/
inductive Step where
  /-- The variables of a command are resolved before it is replaced. -/
  | enter (command initialCommand : Command)
  /-- A plugin is called under its name, for the command it is listed in. -/
  | call (plugin : Plugin) (command initialCommand : Command)
  /-- A name resolves to nothing. -/
  | unresolved (command : Command)

/-- Commands, each with the command it is executed for, expand to a sequence. -/
inductive Expands (context : Context) : List (Command × Command) → List Step → Prop where
  | nil : Expands context [] []
  | plugin {command initialCommand : Command} {plugin : Plugin}
      {rest : List (Command × Command)} {steps : List Step}
      (resolved : getNextStep context command = some (.plugin plugin))
      (others : Expands context rest steps) :
      Expands context ((command, initialCommand) :: rest)
        (.call plugin command initialCommand :: steps)
  | unresolved {command initialCommand : Command} {rest : List (Command × Command)}
      {steps : List Step} (resolved : getNextStep context command = none)
      (others : Expands context rest steps) :
      Expands context ((command, initialCommand) :: rest) (.unresolved command :: steps)
  | commands {command initialCommand : Command} {executePlugin : ExecutePlugin}
      {rest : List (Command × Command)} {inner steps : List Step}
      (resolved : getNextStep context command = some (.commands executePlugin))
      (nested : Expands context executePlugin.pairs inner)
      (others : Expands context rest steps) :
      Expands context ((command, initialCommand) :: rest)
        (.enter command initialCommand :: (inner ++ steps))

/-- The patterns a plugin is called with: those of the keys in its variables that
are patterns. -/
def knownPatterns (context : Context) (variablesMap : VariablesMap) : Patterns :=
  ((variablesMap.getValues [patternsKey]).getD []).filterMap fun key =>
    context.patterns[key]?

/-- Run through a sequence until a call fails or a name is not resolved. Every
plugin gets the task as it is and its own variables. -/
def runSteps {σ : Type} (context : Context)
    (call : Plugin → Task → VariablesMap → Patterns → EStateM Stop σ Bool) (task : Task) :
    List Step → EStateM Stop σ Bool
  | [] => return true
  | .enter command initialCommand :: rest => do
      let _ ← stepVariablesMap context (.ofKey "execute-plugin") command initialCommand
      runSteps context call task rest
  | .call plugin command initialCommand :: rest => do
      let variablesMap ← stepVariablesMap context
        (plugin.getVariablesMap context.fleeting) command initialCommand
      match ← call plugin task variablesMap (knownPatterns context variablesMap) with
      | true => runSteps context call task rest
      | false => return false
  | .unresolved _ :: _ => return false

/-- Messages and marks have no effect on what plugins are called. -/
def silent {σ : Type} (_ : RunEvent) : EStateM Stop σ Unit := return ()

/-! ## Definitions without cycles -/

/-- A command is replaced by commands among which is the other one. -/
def Refers (context : Context) (command other : Command) : Prop :=
  command ∉ getPluginNames context.plugins ∧
    ∃ commands, context.settings.getValues [command] = some commands ∧ other ∈ commands

/-- The definitions of the commands, and of the commands in them, are not cyclic. -/
def NotCyclic (context : Context) (commands : CommandCollection) : Prop :=
  ∀ command ∈ commands, Acyclic (Refers context) command

section Resolution

variable {context : Context} {command other : Command}

theorem getNextStep_commands {executePlugin : ExecutePlugin}
    (resolved : getNextStep context command = some (.commands executePlugin)) :
    command ∉ getPluginNames context.plugins ∧ ∃ commands,
      context.settings.getValues [command] = some commands ∧
        executePlugin = .ofInitialCommand commands command := by
  rw [getNextStep] at resolved
  split at resolved
  · cases found : getPlugin context.plugins command with
    | none => simp [found] at resolved
    | some plugin => simp [found] at resolved
  · rename_i notPlugin
    rcases Option.map_eq_some_iff.mp resolved with ⟨commands, listed, same⟩
    exact ⟨notPlugin, commands, listed, (NextStep.commands.inj same).symm⟩

/-- What a command is replaced by is what it refers to. -/
theorem refers_of_mem_pairs {executePlugin : ExecutePlugin}
    (resolved : getNextStep context command = some (.commands executePlugin))
    {pair : Command × Command} (member : pair ∈ executePlugin.pairs) :
    Refers context command pair.1 ∧ pair.2 = command := by
  rcases getNextStep_commands resolved with ⟨notPlugin, commands, listed, same⟩
  rw [same, pairs_ofInitialCommand] at member
  rcases List.mem_map.mp member with ⟨name, named, rfl⟩
  exact ⟨⟨notPlugin, commands, listed, named⟩, rfl⟩

theorem mem_pairs_of_refers (refers : Refers context command other) :
    ∃ executePlugin, getNextStep context command = some (.commands executePlugin) ∧
      (other, command) ∈ executePlugin.pairs := by
  rcases refers with ⟨notPlugin, commands, listed, named⟩
  refine ⟨.ofInitialCommand commands command, ?_, ?_⟩
  · rw [getNextStep, if_neg notPlugin, listed]
    rfl
  · rw [pairs_ofInitialCommand]
    exact List.mem_map.mpr ⟨other, named, rfl⟩

theorem mem_commands_of_mem_pairs {executePlugin : ExecutePlugin}
    {pair : Command × Command} (member : pair ∈ executePlugin.pairs) :
    pair.1 ∈ executePlugin.commands :=
  (List.of_mem_zip member).1

/-- Only the finitely many root keys of the settings refer to other commands. -/
theorem mem_roots_of_refers (context : Context) (command other : Command)
    (refers : Refers context command other) :
    command ∈ (context.settings.mValues.getD []).map SettingsNode.mKey := by
  rcases refers with ⟨-, commands, listed, -⟩
  rw [SettingsNode.getValues_eq_subtree, SettingsNode.subtree_singleton] at listed
  rcases Option.map_eq_some_iff.mp listed with ⟨subtree, found, -⟩
  rcases Option.bind_eq_some_iff.mp found with ⟨child, present, -⟩
  rw [← FirstMatch.lookup_isSome_iff]
  exact Option.isSome_iff_exists.mpr ⟨child, present⟩

end Resolution

/-! ## The sequence exists -/

section Existence

variable {context : Context}

private theorem expands_of_forall {pairs : List (Command × Command)}
    (heads : ∀ pair ∈ pairs, ∀ rest steps, Expands context rest steps →
      ∃ all, Expands context (pair :: rest) all) :
    ∃ steps, Expands context pairs steps := by
  induction pairs with
  | nil => exact ⟨[], .nil⟩
  | cons pair rest inductionHypothesis =>
      obtain ⟨steps, others⟩ := inductionHypothesis fun pair member =>
        heads pair (List.mem_cons_of_mem _ member)
      exact heads pair (List.mem_cons_self ..) rest steps others

private theorem expands_cons {command : Command}
    (accessible : Acc (fun next current => Refers context current next) command) :
    ∀ initialCommand rest steps, Expands context rest steps →
      ∃ all, Expands context ((command, initialCommand) :: rest) all := by
  induction accessible with
  | intro command _ inductionHypothesis =>
      intro initialCommand rest steps others
      cases resolved : getNextStep context command with
      | none => exact ⟨_, .unresolved resolved others⟩
      | some step =>
          cases step with
          | plugin plugin => exact ⟨_, .plugin resolved others⟩
          | commands executePlugin =>
              have nested : ∃ inner, Expands context executePlugin.pairs inner := by
                apply expands_of_forall
                intro pair member
                exact inductionHypothesis pair.1 (refers_of_mem_pairs resolved member).1
                  pair.2
              rcases nested with ⟨inner, expanded⟩
              exact ⟨_, .commands resolved expanded others⟩

/-- Commands whose definitions are not cyclic expand to a sequence. -/
theorem exists_expands {executePlugin : ExecutePlugin}
    (notCyclic : NotCyclic context executePlugin.commands) :
    ∃ steps, Expands context executePlugin.pairs steps := by
  apply expands_of_forall
  intro pair member
  have acyclic := notCyclic pair.1 (mem_commands_of_mem_pairs member)
  exact expands_cons (acyclic.acc _ (mem_roots_of_refers context)) pair.2

/-- There is only one such sequence. -/
theorem Expands.unique {pairs : List (Command × Command)} {left right : List Step}
    (first : Expands context pairs left) (second : Expands context pairs right) :
    left = right := by
  induction first generalizing right with
  | nil =>
      cases second
      rfl
  | plugin resolved others inductionHypothesis =>
      cases second with
      | plugin again rest =>
          rw [resolved] at again
          cases again
          rw [inductionHypothesis rest]
      | unresolved again rest => simp [resolved] at again
      | commands again nested rest => simp [resolved] at again
  | unresolved resolved others inductionHypothesis =>
      cases second with
      | plugin again rest => simp [resolved] at again
      | unresolved again rest => rw [inductionHypothesis rest]
      | commands again nested rest => simp [resolved] at again
  | commands resolved nested others nestedHypothesis othersHypothesis =>
      cases second with
      | plugin again rest => simp [resolved] at again
      | unresolved again rest => simp [resolved] at again
      | commands again nestedAgain rest =>
          rw [resolved] at again
          cases again
          rw [nestedHypothesis nestedAgain, othersHypothesis rest]

end Existence

/-! ## Execution runs through the sequence -/

section Run

variable {σ : Type} {context : Context}
variable {call : Plugin → Task → VariablesMap → Patterns → EStateM Stop σ Bool}

private theorem getNextPatterns_silent (variablesMap : VariablesMap) :
    getNextPatterns (silent : RunEvent → EStateM Stop σ Unit) context variablesMap =
      pure (knownPatterns context variablesMap) := by
  rw [getNextPatterns, knownPatterns]
  generalize (variablesMap.getValues [patternsKey]).getD [] = keys
  induction keys with
  | nil => rfl
  | cons key rest inductionHypothesis =>
      rw [getNextPatterns.go, List.filterMap_cons]
      cases context.patterns[key]? with
      | some pattern =>
          dsimp only
          rw [inductionHypothesis, pure_bind]
      | none =>
          dsimp only
          rw [silent, pure_bind, inductionHypothesis]

private theorem resolve_silent (step : NextStep) (command initialCommand : Command) :
    resolve (silent : RunEvent → EStateM Stop σ Unit) context step command initialCommand =
      stepVariablesMap context (stepVariables context.fleeting step) command
        initialCommand := by
  rw [resolve, silent, pure_bind]

private theorem apply_silent (fuel : Nat) (executePlugin : ExecutePlugin) (task : Task) :
    apply silent context call (fuel + 1) executePlugin task =
      applyCommands silent context call (apply silent context call fuel) task
        executePlugin.pairs := by
  rw [apply]
  simp only [silent, pure_bind, bind_pure, ite_self]

theorem runSteps_append (task : Task) (front back : List Step) :
    runSteps context call task (front ++ back) = (do
      match ← runSteps context call task front with
      | true => runSteps context call task back
      | false => return false) := by
  induction front with
  | nil => rw [List.nil_append, runSteps, pure_bind]
  | cons step rest inductionHypothesis =>
      cases step with
      | enter command initialCommand =>
          rw [List.cons_append, runSteps, runSteps, bind_assoc, inductionHypothesis]
      | call plugin command initialCommand =>
          rw [List.cons_append, runSteps, runSteps, bind_assoc]
          congr 1
          funext variablesMap
          rw [bind_assoc]
          congr 1
          funext succeeded
          cases succeeded with
          | true => exact inductionHypothesis
          | false => rw [pure_bind]
      | unresolved command => rw [List.cons_append, runSteps, runSteps, pure_bind]

variable (call) in
/-- With enough nesting, executing commands is running through their sequence. -/
private theorem applyCommands_eq_runSteps {pairs : List (Command × Command)}
    {steps : List Step} (expands : Expands context pairs steps) :
    ∃ enough, ∀ fuel, enough ≤ fuel → ∀ task,
      applyCommands silent context call (apply silent context call fuel) task pairs =
        runSteps context call task steps := by
  induction expands with
  | nil => exact ⟨0, fun _ _ _ => rfl⟩
  | @plugin command initialCommand plugin rest steps resolved others inductionHypothesis =>
      rcases inductionHypothesis with ⟨enough, runs⟩
      refine ⟨enough, fun fuel sufficient task => ?_⟩
      rw [applyCommands, resolved, runSteps]
      dsimp only
      rw [resolve_silent]
      congr 1
      funext variablesMap
      rw [getNextPatterns_silent, pure_bind, runs fuel sufficient task]
      congr 1
  | unresolved resolved others inductionHypothesis =>
      refine ⟨0, fun fuel _ task => ?_⟩
      rw [applyCommands, resolved]
      rfl
  | @commands command initialCommand executePlugin rest inner steps resolved nested others
      nestedHypothesis othersHypothesis =>
      rcases nestedHypothesis with ⟨enoughNested, runsNested⟩
      rcases othersHypothesis with ⟨enough, runs⟩
      refine ⟨max (enoughNested + 1) enough, fun fuel sufficient task => ?_⟩
      obtain ⟨less, rfl⟩ := Nat.exists_eq_add_of_le'
        (Nat.le_trans (Nat.le_trans (Nat.le_add_left 1 enoughNested)
          (Nat.le_max_left ..)) sufficient)
      rw [applyCommands, resolved, runSteps, runSteps_append]
      dsimp only
      rw [resolve_silent]
      congr 1
      funext variablesMap
      rw [getNextPatterns_silent, pure_bind, runs (less + 1) (by omega) task, applyStep,
        apply_silent, runsNested less (by omega) task]
      congr 1

/-- Commands whose definitions are not cyclic are executed by running through the
sequence they expand to, whatever plugin calls do. -/
theorem apply_expansion (context : Context)
    (call : Plugin → Task → VariablesMap → Patterns → EStateM Stop σ Bool)
    (executePlugin : ExecutePlugin)
    (notCyclic : NotCyclic context executePlugin.commands) :
    ∃ steps, Expands context executePlugin.pairs steps ∧
      ∃ enough, ∀ fuel, enough ≤ fuel → ∀ task,
        apply silent context call fuel executePlugin task =
          runSteps context call task steps := by
  rcases exists_expands notCyclic with ⟨steps, expands⟩
  rcases applyCommands_eq_runSteps call expands with ⟨enough, runs⟩
  refine ⟨steps, expands, enough + 1, fun fuel sufficient task => ?_⟩
  obtain ⟨less, rfl⟩ := Nat.exists_eq_add_of_le' (Nat.le_trans (Nat.le_add_left 1 enough)
    sufficient)
  rw [apply_silent]
  exact runs less (by omega) task

end Run

/-- Nested commands, of which one is listed under two others and twice under one of them. -/
def nestedContext : Context where
  fleeting := {}
  settings := ⟨"settings", some [
    ⟨"all", some [.ofKey "compile", .ofKey "test", .ofKey "compile"]⟩,
    ⟨"test", some [.ofKey "compile", .ofKey "memory"]⟩,
    ⟨"compile", some [.ofKey "memory"]⟩]⟩
  patterns := ∅
  plugins := ∅
  currentPath := .root

/-- Every plugin call succeeds. -/
def succeedingCall (_ : Plugin) (_ : Task) (_ : VariablesMap) (_ : Patterns) :
    EStateM Stop Unit Bool := return true

private theorem refers_nestedContext {command other : Command}
    (refers : Refers nestedContext command other) :
    (command, other) ∈ [("all", "compile"), ("all", "test"), ("test", "compile"),
      ("test", "memory"), ("compile", "memory")] := by
  have root := mem_roots_of_refers nestedContext command other refers
  have roots : command = "all" ∨ command = "test" ∨ command = "compile" := by
    simpa [nestedContext] using root
  obtain ⟨-, commands, listed, named⟩ := refers
  rcases roots with rfl | rfl | rfl
  · have values : commands = ["compile", "test", "compile"] := (Option.some.inj listed).symm
    rw [values] at named
    simp only [List.mem_cons, List.not_mem_nil, or_false] at named
    rcases named with rfl | rfl | rfl <;> decide
  · have values : commands = ["compile", "memory"] := (Option.some.inj listed).symm
    rw [values] at named
    rcases List.mem_pair.mp named with rfl | rfl <;> decide
  · have values : commands = ["memory"] := (Option.some.inj listed).symm
    rw [values] at named
    obtain rfl := List.mem_singleton.mp named
    decide

private theorem notCyclic_nestedContext (commands : CommandCollection) :
    NotCyclic nestedContext commands := by
  have lower : ∀ pair ∈ [("all", "compile"), ("all", "test"), ("test", "compile"),
      ("test", "memory"), ("compile", "memory")],
      ["memory", "compile", "test", "all"].idxOf pair.2 <
        ["memory", "compile", "test", "all"].idxOf pair.1 := by decide
  intro start _
  apply @Acyclic.of_decreasing _ _ fun command =>
    ["memory", "compile", "test", "all"].idxOf command
  intro command other refers
  exact lower (command, other) (refers_nestedContext refers)

/-- The commands are executed by running through the calls of the plugin. -/
theorem apply_expansion_all :
    ∃ steps, Expands nestedContext (ofCommands ["all", "compile"]).pairs steps ∧
      ∃ enough, ∀ fuel, enough ≤ fuel → ∀ task,
        apply silent nestedContext succeedingCall fuel (.ofCommands ["all", "compile"]) task =
          runSteps nestedContext succeedingCall task steps :=
  apply_expansion nestedContext succeedingCall (.ofCommands ["all", "compile"])
    (notCyclic_nestedContext _)

/-! ## Termination -/

section Termination

variable {σ : Type} {context : Context}
variable {call : Plugin → Task → VariablesMap → Patterns → EStateM Stop σ Bool}

/-- Executing the commands from a state ends: with enough fuel, it does not run out
of it. -/
def Terminates (context : Context)
    (call : Plugin → Task → VariablesMap → Patterns → EStateM Stop σ Bool)
    (executePlugin : ExecutePlugin) (task : Task) (start : σ) : Prop :=
  ∃ enough, ∀ fuel, enough ≤ fuel → ∀ final,
    apply silent context call fuel executePlugin task start ≠ .error .outOfFuel final

/-- The commands an execution can come to, each with the command it is executed
for. -/
inductive Reaches (context : Context) (pairs : List (Command × Command)) :
    Command → Command → Prop where
  | listed {command initialCommand : Command} (member : (command, initialCommand) ∈ pairs) :
      Reaches context pairs command initialCommand
  | nested {command initialCommand other : Command}
      (reaches : Reaches context pairs command initialCommand)
      (refers : Refers context command other) : Reaches context pairs other command

private theorem Reaches.of_listed {pairs others : List (Command × Command)}
    (listed : ∀ pair ∈ others, Reaches context pairs pair.1 pair.2)
    {command initialCommand : Command}
    (reaches : Reaches context others command initialCommand) :
    Reaches context pairs command initialCommand := by
  induction reaches with
  | listed member => exact listed _ member
  | nested _ refers inductionHypothesis => exact .nested inductionHypothesis refers

/-- Every command the execution can come to resolves to a step, and its variables
can be resolved. -/
def AllResolve (context : Context) (pairs : List (Command × Command)) : Prop :=
  ∀ command initialCommand, Reaches context pairs command initialCommand →
    getNextStep context command ≠ none ∧
      Resolvable context.settings command initialCommand

/-- No run of the computation runs out of fuel. -/
private def neverOutOfFuel : Contract Stop σ where
  returns _ _ := True
  stops _ reason _ := reason ≠ .outOfFuel
  refl _ := trivial
  trans _ _ := trivial
  after _ stops := stops

private theorem stepVariablesMap_neverOutOfFuel (defaults : VariablesMap)
    (command initialCommand : Command) :
    neverOutOfFuel.Holds
      (stepVariablesMap context defaults command initialCommand : EStateM Stop σ _) := by
  intro start
  rw [stepVariablesMap]
  cases resolved : getVariablesMap defaults (sectionKeys command initialCommand)
      context.settings with
  | ok variablesMap => trivial
  | error reason =>
      rw [getVariablesMap_error resolved]
      exact show Stop.emptyOptional .index ≠ .outOfFuel by decide

private theorem runSteps_neverOutOfFuel
    (returns : ∀ plugin task variablesMap patterns start, ∃ result final,
      call plugin task variablesMap patterns start = .ok result final)
    (task : Task) (steps : List Step) :
    neverOutOfFuel.Holds (runSteps context call task steps) := by
  induction steps with
  | nil => exact neverOutOfFuel.simulation.pure true
  | cons step rest inductionHypothesis =>
      cases step with
      | enter command initialCommand =>
          apply neverOutOfFuel.holds_bind (stepVariablesMap_neverOutOfFuel _ _ _)
          intro _
          exact inductionHypothesis
      | call plugin command initialCommand =>
          apply neverOutOfFuel.holds_bind (stepVariablesMap_neverOutOfFuel _ _ _)
          intro variablesMap
          apply neverOutOfFuel.holds_bind
          · intro start
            obtain ⟨result, final, run⟩ := returns plugin task variablesMap
              (knownPatterns context variablesMap) start
            rw [run]
            trivial
          · intro succeeded
            cases succeeded with
            | true => exact inductionHypothesis
            | false => exact neverOutOfFuel.simulation.pure false
      | unresolved command => exact neverOutOfFuel.simulation.pure false

variable (call) in
/-- The first command of a list whose names resolve. -/
private theorem applyCommands_cons {command initialCommand : Command} {step : NextStep}
    (nested : ExecutePlugin → Task → EStateM Stop σ Bool) (start : σ)
    (resolved : getNextStep context command = some step)
    (resolvable : Resolvable context.settings command initialCommand) (task : Task)
    (rest : List (Command × Command)) :
    ∃ variablesMap,
      applyCommands silent context call nested task ((command, initialCommand) :: rest)
          start =
        (do
          match ← applyStep call nested step task variablesMap
              (knownPatterns context variablesMap) with
          | true => applyCommands silent context call nested task rest
          | false => return false) start := by
  obtain ⟨variablesMap, found⟩ :=
    (getVariablesMap_isOk_iff (stepVariables context.fleeting step) context.settings
      command initialCommand).mpr resolvable
  refine ⟨variablesMap, ?_⟩
  rw [applyCommands, resolved]
  dsimp only
  rw [resolve_silent, stepVariablesMap, found]
  dsimp only
  rw [pure_bind, getNextPatterns_silent, pure_bind]
  rfl

/-- A command that is replaced by commands whose execution has no end. -/
private theorem apply_outOfFuel_of_first {fuel : Nat} {executePlugin nested : ExecutePlugin}
    {command initialCommand : Command} {task : Task} {start : σ}
    (only : executePlugin.pairs = [(command, initialCommand)])
    (resolved : getNextStep context command = some (.commands nested))
    (resolvable : Resolvable context.settings command initialCommand)
    (endless : apply silent context call fuel nested task start = .error .outOfFuel start) :
    apply silent context call (fuel + 1) executePlugin task start =
      .error .outOfFuel start := by
  obtain ⟨variablesMap, unfolded⟩ := applyCommands_cons call
    (apply silent context call fuel) start resolved resolvable task []
  rw [apply_silent, only, unfolded]
  exact bind_of_eq_error endless

/-- Where all names resolve and all calls succeed, commands are executed with
success or without an end. -/
private theorem apply_succeeds_or_outOfFuel
    (succeeds : ∀ plugin task variablesMap patterns start, ∃ final,
      call plugin task variablesMap patterns start = .ok true final)
    (fuel : Nat) (executePlugin : ExecutePlugin)
    (resolves : AllResolve context executePlugin.pairs) (task : Task) (start : σ) :
    (∃ final, apply silent context call fuel executePlugin task start = .ok true final) ∨
      ∃ final, apply silent context call fuel executePlugin task start =
        .error .outOfFuel final := by
  induction fuel generalizing executePlugin start with
  | zero => exact Or.inr ⟨start, rfl⟩
  | succ fuel inductionHypothesis =>
      rw [apply_silent]
      revert resolves
      generalize executePlugin.pairs = pairs
      intro resolves
      induction pairs generalizing start with
      | nil => exact Or.inl ⟨start, rfl⟩
      | cons pair rest restHypothesis =>
          rcases pair with ⟨command, initialCommand⟩
          obtain ⟨found, resolvable⟩ :=
            resolves command initialCommand (.listed (List.mem_cons_self ..))
          rcases Option.ne_none_iff_exists'.mp found with ⟨step, resolved⟩
          obtain ⟨variablesMap, unfolded⟩ := applyCommands_cons call
            (apply silent context call fuel) start resolved resolvable task rest
          have restResolves : AllResolve context rest := by
            intro command initialCommand reaches
            apply resolves command initialCommand
            exact reaches.of_listed fun pair member => .listed (List.mem_cons_of_mem _ member)
          have stepRuns :
              (∃ final, applyStep call (apply silent context call fuel) step task
                variablesMap (knownPatterns context variablesMap) start = .ok true final) ∨
              ∃ final, applyStep call (apply silent context call fuel) step task
                variablesMap (knownPatterns context variablesMap) start =
                  .error .outOfFuel final := by
            cases step with
            | plugin plugin => exact Or.inl (succeeds plugin task _ _ start)
            | commands executePlugin =>
                apply inductionHypothesis executePlugin
                intro inner innerInitial reaches
                apply resolves inner innerInitial
                apply reaches.of_listed
                rintro ⟨other, otherInitial⟩ member
                rcases refers_of_mem_pairs resolved member with ⟨refers, rfl⟩
                exact .nested (.listed (List.mem_cons_self ..)) refers
          rw [unfolded]
          rcases stepRuns with ⟨middle, ran⟩ | ⟨final, ran⟩
          · rw [bind_of_eq_ok ran]
            exact restHypothesis middle restResolves
          · exact Or.inr ⟨final, bind_of_eq_error ran⟩

/-- Commands that are executed with success reach no cycle. -/
private theorem acyclic_of_apply_eq_true {fuel : Nat} {executePlugin : ExecutePlugin}
    {task : Task} {start final : σ}
    (succeeded : apply silent context call fuel executePlugin task start = .ok true final) :
    ∀ pair ∈ executePlugin.pairs, Acyclic (Refers context) pair.1 := by
  induction fuel generalizing executePlugin start final with
  | zero => cases succeeded
  | succ fuel inductionHypothesis =>
      rw [apply_silent] at succeeded
      revert succeeded
      generalize executePlugin.pairs = pairs
      induction pairs generalizing start with
      | nil => exact fun _ _ member => absurd member List.not_mem_nil
      | cons pair rest restHypothesis =>
          rcases pair with ⟨command, initialCommand⟩
          intro succeeded
          rw [applyCommands] at succeeded
          cases resolved : getNextStep context command with
          | none =>
              rw [resolved] at succeeded
              cases succeeded
          | some step =>
              rw [resolved] at succeeded
              rcases exists_of_bind_eq_ok succeeded with ⟨variablesMap, _, -, afterResolve⟩
              rcases exists_of_bind_eq_ok afterResolve with ⟨patterns, _, -, afterPatterns⟩
              rcases exists_of_bind_eq_ok afterPatterns with ⟨result, middle, stepRun, restRun⟩
              cases result with
              | false => cases restRun
              | true =>
                  have first : Acyclic (Refers context) command := by
                    by_contra cyclic
                    rcases Acyclic.exists_step_of_not cyclic with ⟨other, refers, otherCyclic⟩
                    rcases mem_pairs_of_refers refers with ⟨nested, next, listed⟩
                    rw [resolved] at next
                    cases next
                    exact otherCyclic (inductionHypothesis stepRun _ listed)
                  intro pair member
                  rcases List.mem_cons.mp member with rfl | later
                  · exact first
                  · exact restHypothesis restRun pair later

private theorem mem_pairs_of_mem_commands {executePlugin : ExecutePlugin} {command : Command}
    (listed : command ∈ executePlugin.commands) : ∃ pair ∈ executePlugin.pairs,
      pair.1 = command := by
  have names : executePlugin.pairs.map Prod.fst = executePlugin.commands :=
    List.map_fst_zip (le_of_eq executePlugin.sameSize)
  rw [← names] at listed
  exact List.mem_map.mp listed

/-- Executing commands whose definitions are not cyclic ends, as long as every plugin
call does. Cycles are not looked for: where all names resolve and all calls succeed,
an execution that ends has come to no cycle. -/
theorem apply_termination (context : Context)
    (call : Plugin → Task → VariablesMap → Patterns → EStateM Stop σ Bool)
    (executePlugin : ExecutePlugin) (task : Task) (start : σ)
    (returns : ∀ plugin task variablesMap patterns start, ∃ result final,
      call plugin task variablesMap patterns start = .ok result final) :
    (NotCyclic context executePlugin.commands →
      Terminates context call executePlugin task start) ∧
    (AllResolve context executePlugin.pairs →
      (∀ plugin task variablesMap patterns start, ∃ final,
        call plugin task variablesMap patterns start = .ok true final) →
      (Terminates context call executePlugin task start ↔
        NotCyclic context executePlugin.commands)) := by
  have ends : NotCyclic context executePlugin.commands →
      Terminates context call executePlugin task start := by
    intro notCyclic
    rcases exists_expands notCyclic with ⟨steps, expands⟩
    rcases applyCommands_eq_runSteps call expands with ⟨enough, runs⟩
    refine ⟨enough + 1, fun fuel sufficient final outOfFuel => ?_⟩
    obtain ⟨less, rfl⟩ := Nat.exists_eq_add_of_le' (Nat.le_trans (Nat.le_add_left 1 enough)
      sufficient)
    rw [apply_silent, runs less (by omega) task] at outOfFuel
    exact (runSteps_neverOutOfFuel returns task steps).stops outOfFuel rfl
  refine ⟨ends, fun resolves succeeds => ⟨fun terminates => ?_, ends⟩⟩
  rcases terminates with ⟨enough, terminated⟩
  intro command listed
  rcases mem_pairs_of_mem_commands listed with ⟨pair, member, rfl⟩
  rcases apply_succeeds_or_outOfFuel succeeds enough executePlugin resolves task start
    with ⟨final, succeeded⟩ | ⟨final, outOfFuel⟩
  · exact acyclic_of_apply_eq_true succeeded pair member
  · exact absurd outOfFuel (terminated enough le_rfl final)

end Termination

/-- What the execution of the nested commands comes to. -/
private theorem reaches_nestedContext {command initialCommand : Command}
    (reaches : Reaches nestedContext (ofCommands ["all"]).pairs command initialCommand) :
    (command, initialCommand) ∈ [("all", "all"), ("compile", "all"), ("test", "all"),
      ("compile", "test"), ("memory", "test"), ("memory", "compile")] := by
  induction reaches with
  | listed member =>
      rw [List.mem_singleton.mp member]
      decide
  | nested _ refers _ =>
      have turned : ∀ pair ∈ [("all", "compile"), ("all", "test"), ("test", "compile"),
          ("test", "memory"), ("compile", "memory")], (pair.2, pair.1) ∈
            [("all", "all"), ("compile", "all"), ("test", "all"), ("compile", "test"),
              ("memory", "test"), ("memory", "compile")] := by decide
      exact turned _ (refers_nestedContext refers)

private theorem allResolve_nestedContext :
    AllResolve nestedContext (ofCommands ["all"]).pairs := by
  intro command initialCommand reaches
  have resolve : ∀ pair ∈ [("all", "all"), ("compile", "all"), ("test", "all"),
      ("compile", "test"), ("memory", "test"), ("memory", "compile")],
      (getNextStep nestedContext pair.1).isSome = true ∧
        Resolvable nestedContext.settings pair.1 pair.2 := by
    unfold Resolvable
    decide
  obtain ⟨found, resolvable⟩ := resolve _ (reaches_nestedContext reaches)
  exact ⟨Option.isSome_iff_ne_none.mp found, resolvable⟩

/-- The execution of the nested commands ends, since their definitions are not cyclic. -/
theorem apply_termination_all :
    Terminates nestedContext succeedingCall (.ofCommands ["all"]) (Task.empty .root) () ∧
      (Terminates nestedContext succeedingCall (.ofCommands ["all"]) (Task.empty .root) () ↔
        NotCyclic nestedContext ["all"]) := by
  obtain ⟨ends, exactly⟩ := apply_termination nestedContext succeedingCall (.ofCommands ["all"])
    (Task.empty .root) () fun _ _ _ _ start => ⟨true, start, rfl⟩
  exact ⟨ends (notCyclic_nestedContext _),
    exactly allResolve_nestedContext fun _ _ _ _ start => ⟨start, rfl⟩⟩

/-- Three commands that are defined by each other. -/
def cyclicContext : Context where
  fleeting := {}
  settings := ⟨"settings", some [⟨"configure", some [.ofKey "build"]⟩,
    ⟨"build", some [.ofKey "install"]⟩, ⟨"install", some [.ofKey "configure"]⟩]⟩
  patterns := ∅
  plugins := ∅
  currentPath := .root

/-- The commands in the order they replace each other, each with the one before it. -/
private theorem cyclicContext_outOfFuel (fuel : Nat) {command initialCommand : Command}
    (member : (command, initialCommand) ∈ [("configure", "configure"), ("build", "configure"),
      ("install", "build"), ("configure", "install")]) :
    apply silent cyclicContext succeedingCall fuel (.ofInitialCommand [command] initialCommand)
      (Task.empty .root) () = .error .outOfFuel () := by
  induction fuel generalizing command initialCommand with
  | zero => rfl
  | succ fuel inductionHypothesis =>
      simp only [List.mem_cons, Prod.mk.injEq, List.not_mem_nil, or_false] at member
      rcases member with ⟨rfl, rfl⟩ | ⟨rfl, rfl⟩ | ⟨rfl, rfl⟩ | ⟨rfl, rfl⟩ <;>
        exact apply_outOfFuel_of_first rfl rfl (by unfold Resolvable; decide)
          (inductionHypothesis (by decide))

/-- Executing one of them never ends, although every plugin call succeeds. -/
theorem apply_termination_counterexample :
    ¬∀ (context : Context) (call : Plugin → Task → VariablesMap → Patterns →
        EStateM Stop Unit Bool) (executePlugin : ExecutePlugin) (task : Task) (start : Unit),
      (∀ plugin task variablesMap patterns start, ∃ result final,
        call plugin task variablesMap patterns start = .ok result final) →
      Terminates context call executePlugin task start := by
  intro claimed
  obtain ⟨enough, terminated⟩ := claimed cyclicContext succeedingCall
    (.ofCommands ["configure"]) (Task.empty .root) () fun _ _ _ _ start => ⟨true, start, rfl⟩
  exact terminated enough le_rfl () (cyclicContext_outOfFuel enough (List.mem_cons_self ..))

end ExecHelper.Plugins.ExecutePlugin
