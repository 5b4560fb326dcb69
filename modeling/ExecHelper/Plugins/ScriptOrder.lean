import ExecHelper.Plugins.LuaPlugin

/-!
# The order of the calls of a script

A script hands tasks to the executor in two ways.  `run_target` executes commands
while the script runs; `register_task` only queues its task, which is registered
when the script has ended.  Where both are used, the tasks do not reach the
executor in the order of the calls.
-/

namespace ExecHelper.Plugins

open ExecHelper.Library
open ExecHelper.Config
open ExecHelper.Core

/-! ## The order of the calls -/

/-- What does not reach the executor: everything but registered tasks and executed
commands. -/
def notForExecutor : (op : PluginOp) → Option op.Answer
  | .host (.registerTask _) => none
  | .host _ => some ()
  | .execute _ _ => none

/-- Nothing else has more than one answer. -/
private theorem notForExecutor_determined (op : PluginOp) (answer : op.Answer)
    (_ : notForExecutor op = some answer) (other : op.Answer) : other = answer := by
  cases op with
  | host event => rfl
  | execute commands task => contradiction

/-- What reaches the executor, in which order. -/
def reachesExecutor (program : PluginProgram Bool) : Program.Trace pluginInterface :=
  program.trace notForExecutor

namespace LuaPlugin

/-- The script with every call taking effect where it is made: `register_task` hands its
task to the executor for every combination before the script goes on. -/
def inOrder (currentPath : CurrentPath) (fuel : Nat) (script : Path) (patterns : Patterns) :
    ScriptRun → Bool → PluginProgram Bool
  | .finished, failed => do
      if failed then host .failureDropped
      return true
  | .failed error, _ => do
      match error.feedback script with
      | some message => feedbackError message
      | none => pure ()
      return false
  | .undefined, _ => .stop (.emptyOptional .luaConfig)
  | .diverged, _ => .stop .outOfFuel
  | .userFeedbackError message next, failed => do
      feedbackError message
      inOrder currentPath fuel script patterns next failed
  | .registerTask task next, failed =>
      ifSucceeds (registerTasks currentPath fuel patterns [task])
        (inOrder currentPath fuel script patterns next failed)
  | .runTarget task commands next, failed => do
      let result ← runTarget currentPath fuel patterns task commands
      inOrder currentPath fuel script patterns (next result) (failed || !result)

/-- The tasks of a script reach the executor in the order of its calls. -/
def KeepsOrder (currentPath : CurrentPath) (fuel : Nat) (script : Path) (patterns : Patterns)
    (run : ScriptRun) : Prop :=
  reachesExecutor (runScript currentPath fuel script patterns run [] false) =
    reachesExecutor (inOrder currentPath fuel script patterns run false)

end LuaPlugin

/-- There is no combination of pattern values to go over. -/
def NoCombination (patterns : Patterns) : Prop :=
  (MapPermutator.first (patternValuesMap patterns)).equals
    (MapPermutator.last (patternValuesMap patterns)) = true

/-- The combination the loop begins with leaves something of the directory. -/
def Begins (patterns : Patterns) (directory : Path) : Prop :=
  ∀ combination, (MapPermutator.first (patternValuesMap patterns)).deref = some combination →
    replaceCombinations directory combination ≠ ""

/-- The loop over the combinations comes to its end, and every one of them leaves something
of the directory. -/
def Completes (fuel : Nat) (patterns : Patterns) (directory : Path) : Prop :=
  forEachCombination fuel patterns (fun combination =>
    if replaceCombinations directory combination = "" then .stop .terminate else pure true) =
      pure true

namespace ScriptRun

/-- The script only registers further tasks and then finishes. -/
def OnlyRegisters : ScriptRun → Prop
  | .finished => True
  | .failed _ => False
  | .undefined => False
  | .diverged => False
  | .userFeedbackError _ next => next.OnlyRegisters
  | .registerTask _ next => next.OnlyRegisters
  | .runTarget _ _ _ => False

variable (begins completes : Path → Prop)

/-- The first commands the script executes, if any, are those of a task that ends the
process. -/
def ExecutesNothing : ScriptRun → Prop
  | .finished => True
  | .failed _ => True
  | .undefined => True
  | .diverged => True
  | .userFeedbackError _ next => next.ExecutesNothing
  | .registerTask _ next => next.ExecutesNothing
  | .runTarget task _ _ => ¬begins task.workingDirectory

/-- From its first registered task on, the script only registers tasks and finishes; where
registering this task ends the process, it executes nothing. That commands are executed is
only possible in a directory the loop begins in, and that they succeed only if the loop over
the combinations ends. -/
def RegistersLast : ScriptRun → Prop
  | .finished => True
  | .failed _ => True
  | .undefined => True
  | .diverged => True
  | .userFeedbackError _ next => next.RegistersLast
  | .registerTask task next =>
      (begins task.workingDirectory → next.OnlyRegisters) ∧
        (¬begins task.workingDirectory → next.ExecutesNothing begins)
  | .runTarget task _ next =>
      (begins task.workingDirectory → (next false).RegistersLast) ∧
        (completes task.workingDirectory → (next true).RegistersLast)

end ScriptRun

/-! ## The loop over the combinations -/

section Loop

variable {patterns : Patterns} {fuel : Nat} {body : PatternCombinations → PluginProgram Bool}

theorem forEachCombination_of_noCombination (none : NoCombination patterns) :
    forEachCombination (fuel + 1) patterns body = pure true := by
  rw [NoCombination] at none
  rw [forEachCombination, MapPermutator.loop, if_pos none]

/-- The loop over some combinations starts with its body for the first one. -/
theorem forEachCombination_first (some : ¬NoCombination patterns) (fuel : Nat) :
    ∃ combination,
      (MapPermutator.first (patternValuesMap patterns)).deref = Option.some combination ∧
        ∀ body : PatternCombinations → PluginProgram Bool,
          forEachCombination (fuel + 1) patterns body =
            ifSucceeds (body combination)
              (MapPermutator.loop body (MapPermutator.last (patternValuesMap patterns)) fuel
                (MapPermutator.first (patternValuesMap patterns)).next) := by
  have begins : (MapPermutator.first (patternValuesMap patterns)).equals
      (MapPermutator.last (patternValuesMap patterns)) = false := by
    rwa [NoCombination, Bool.not_eq_true] at some
  rcases MapPermutator.deref_first begins with ⟨combination, read⟩
  refine ⟨combination, read, fun body => ?_⟩
  rw [forEachCombination, MapPermutator.loop, begins, read]
  rfl

/-- A loop whose bodies can succeed in the directory can succeed itself exactly where the
loop over the combinations comes to its end in this directory. -/
theorem canReturn_forEachCombination_iff {directory : Path}
    (bodies : ∀ combination,
      (body combination).CanReturn true ↔ replaceCombinations directory combination ≠ "") :
    (forEachCombination fuel patterns body).CanReturn true ↔
      Completes fuel patterns directory := by
  unfold Completes forEachCombination
  generalize MapPermutator.first (patternValuesMap patterns) = iterator
  induction fuel generalizing iterator with
  | zero =>
      constructor
      · exact False.elim
      · intro impossible
        cases impossible
  | succ fuel inductionHypothesis =>
      rw [MapPermutator.loop, MapPermutator.loop]
      split
      next => exact iff_of_true rfl rfl
      next =>
        cases iterator.deref with
        | none =>
            constructor
            · exact False.elim
            · intro impossible
              cases impossible
        | some combination =>
            dsimp only
            rw [Program.canReturn_bind_iff]
            by_cases empty : replaceCombinations directory combination = ""
            · rw [if_pos empty]
              constructor
              · rintro ⟨succeeded, returns, later⟩
                cases succeeded with
                | true => exact absurd empty ((bodies combination).mp returns)
                | false => cases later
              · intro impossible
                cases impossible
            · rw [if_neg empty]
              refine Iff.trans ?_ (inductionHypothesis iterator.next)
              constructor
              · rintro ⟨succeeded, _, later⟩
                cases succeeded with
                | true => exact later
                | false => cases later
              · intro later
                exact ⟨true, (bodies combination).mpr empty, later⟩

end Loop

namespace LuaPlugin

variable {currentPath : CurrentPath} {fuel : Nat} {script : Path} {patterns : Patterns}

/-! ## Scripts that keep the order -/

private theorem registerTasks_cons (task : Task) (rest : List Task) :
    registerTasks currentPath fuel patterns (task :: rest) =
      ifSucceeds
        (forEachCombination fuel patterns fun combination => do
          let newTask ← orTerminate (replacePatternCombinations currentPath task combination)
          registerTask newTask)
        (registerTasks currentPath fuel patterns rest) := by
  rw [registerTasks, List.allM_cons]
  congr 1
  funext succeeded
  cases succeeded <;> rfl

/-- Registering tasks starts with the first one under the first combination. -/
private theorem registerTasks_first (some : ¬NoCombination patterns) (task : Task)
    (rest : List Task) :
    (Begins patterns task.workingDirectory ∧ ∃ newTask next,
        registerTasks currentPath (fuel + 1) patterns (task :: rest) =
          .call (.host (.registerTask newTask)) next) ∨
      (¬Begins patterns task.workingDirectory ∧
        registerTasks currentPath (fuel + 1) patterns (task :: rest) = .stop .terminate) := by
  obtain ⟨combination, read, first⟩ := forEachCombination_first some fuel
  rw [registerTasks_cons, first, replacePatternCombinations_eq]
  by_cases empty : replaceCombinations task.workingDirectory combination = ""
  · rw [if_pos empty]
    exact .inr ⟨fun begins => begins combination read empty, rfl⟩
  · rw [if_neg empty]
    refine .inl ⟨fun other same => ?_, _, _, rfl⟩
    rwa [← Option.some.inj (read.symm.trans same)]

/-- Executing commands starts with the first combination. -/
private theorem runTarget_first (some : ¬NoCombination patterns) (task : Task)
    (commands : CommandCollection) :
    (Begins patterns task.workingDirectory ∧ ∃ own newTask next,
        runTarget currentPath (fuel + 1) patterns task commands =
            .call (.execute own newTask) next ∧
          next false = pure false) ∨
      (¬Begins patterns task.workingDirectory ∧
        runTarget currentPath (fuel + 1) patterns task commands = .stop .terminate) := by
  obtain ⟨combination, read, first⟩ := forEachCombination_first some fuel
  rw [runTarget, first, replacePatternCombinations_eq]
  by_cases empty : replaceCombinations task.workingDirectory combination = ""
  · rw [if_pos empty]
    exact .inr ⟨fun begins => begins combination read empty, rfl⟩
  · rw [if_neg empty]
    refine .inl ⟨fun other same => ?_, _, _, _, rfl, rfl⟩
    rwa [← Option.some.inj (read.symm.trans same)]

private theorem registerTasks_append (queued : List Task) (task : Task) :
    registerTasks currentPath fuel patterns (queued ++ [task]) =
      ifSucceeds (registerTasks currentPath fuel patterns queued)
        (registerTasks currentPath fuel patterns [task]) := by
  induction queued with
  | nil => rfl
  | cons first rest inductionHypothesis =>
      rw [List.cons_append, registerTasks_cons, inductionHypothesis,
        registerTasks_cons first rest, ifSucceeds_assoc]

/-- What follows a first part decides what is seen of the whole. -/
private theorem reachesExecutor_ifSucceeds {first left right : PluginProgram Bool}
    (same : reachesExecutor left = reachesExecutor right) :
    reachesExecutor (ifSucceeds first left) = reachesExecutor (ifSucceeds first right) := by
  apply Program.trace_bind_congr
  intro succeeded _
  cases succeeded with
  | true => exact same
  | false => rfl

private theorem reachesExecutor_mark (failed : Bool) (rest : PluginProgram Bool) :
    reachesExecutor (do
      if failed then host .failureDropped
      rest) = reachesExecutor rest := by
  cases failed <;> rfl

/-- A script that only registers tasks registers those it has queued first. -/
private theorem reachesExecutor_of_onlyRegisters {run : ScriptRun}
    (only : run.OnlyRegisters) (queued : List Task) (failed : Bool) :
    reachesExecutor (runScript currentPath fuel script patterns run queued failed) =
      reachesExecutor (ifSucceeds (registerTasks currentPath fuel patterns queued)
        (inOrder currentPath fuel script patterns run failed)) := by
  induction run generalizing queued with
  | failed error => cases only
  | undefined => cases only
  | diverged => cases only
  | runTarget task commands next inductionHypothesis => cases only
  | finished =>
      rw [runScript, reachesExecutor_mark, inOrder,
        reachesExecutor_ifSucceeds (reachesExecutor_mark failed _), ifSucceeds_pure]
  | userFeedbackError message next inductionHypothesis =>
      have silent : reachesExecutor (inOrder currentPath fuel script patterns
          (.userFeedbackError message next) failed) =
            reachesExecutor (inOrder currentPath fuel script patterns next failed) := rfl
      rw [reachesExecutor_ifSucceeds silent, ← inductionHypothesis only queued]
      rfl
  | registerTask task next inductionHypothesis =>
      rw [runScript, inductionHypothesis only, registerTasks_append, ifSucceeds_assoc]
      rfl

private theorem canReturn_runTarget_iff (task : Task) (commands : CommandCollection) :
    (runTarget currentPath fuel patterns task commands).CanReturn true ↔
      Completes fuel patterns task.workingDirectory := by
  apply canReturn_forEachCombination_iff
  intro combination
  rw [replacePatternCombinations_eq]
  by_cases empty : replaceCombinations task.workingDirectory combination = ""
  · rw [if_pos empty]
    exact iff_of_false nofun (not_not_intro empty)
  · rw [if_neg empty]
    exact iff_of_true ⟨true, rfl⟩ empty

/-- Commands can fail where the loop begins. -/
private theorem canReturn_false_runTarget_iff (some : ¬NoCombination patterns) (task : Task)
    (commands : CommandCollection) :
    (runTarget currentPath (fuel + 1) patterns task commands).CanReturn false ↔
      Begins patterns task.workingDirectory := by
  rcases @runTarget_first currentPath fuel patterns some task commands with
    ⟨begins, own, newTask, next, runs, fails⟩ | ⟨ends, runs⟩
  · rw [runs]
    exact iff_of_true ⟨false, by rw [fails]; rfl⟩ begins
  · rw [runs]
    exact iff_of_false nofun ends

/-- A script that has first queued a task that ends the process lets nothing reach the
executor exactly where it executes nothing. -/
private theorem reachesExecutor_eq_ended_iff (some : ¬NoCombination patterns) {first : Task}
    (ends : ¬Begins patterns first.workingDirectory) {run : ScriptRun} (queued : List Task)
    (failed : Bool) :
    reachesExecutor
        (runScript currentPath (fuel + 1) script patterns run (first :: queued) failed) =
          .ended ↔ run.ExecutesNothing (Begins patterns) := by
  induction run generalizing queued with
  | finished =>
      rcases @registerTasks_first currentPath fuel patterns some first queued with
        ⟨begins, -⟩ | ⟨-, stops⟩
      · exact absurd begins ends
      · rw [runScript, reachesExecutor_mark, stops]
        exact iff_of_true rfl trivial
  | failed error =>
      rw [runScript]
      cases error.feedback script <;> exact iff_of_true rfl trivial
  | undefined => exact iff_of_true rfl trivial
  | diverged => exact iff_of_true rfl trivial
  | userFeedbackError message next inductionHypothesis => exact inductionHypothesis queued
  | registerTask task next inductionHypothesis =>
      rw [runScript, List.cons_append]
      exact inductionHypothesis (queued ++ [task])
  | runTarget task commands next inductionHypothesis =>
      rw [runScript]
      rcases @runTarget_first currentPath fuel patterns some task commands with
        ⟨begins, own, newTask, next, runs, -⟩ | ⟨stays, runs⟩
      · rw [runs]
        exact iff_of_false nofun (not_not_intro begins)
      · rw [runs]
        exact iff_of_true rfl stays

/-- Tasks that are registered last are registered in the order of the calls. -/
private theorem reachesExecutor_of_registersLast (some : ¬NoCombination patterns)
    {run : ScriptRun}
    (last : run.RegistersLast (Begins patterns) (Completes (fuel + 1) patterns))
    (failed : Bool) :
    reachesExecutor (runScript currentPath (fuel + 1) script patterns run [] failed) =
      reachesExecutor (inOrder currentPath (fuel + 1) script patterns run failed) := by
  induction run generalizing failed with
  | failed error => rfl
  | undefined => rfl
  | diverged => rfl
  | finished =>
      rw [runScript, reachesExecutor_mark, inOrder, reachesExecutor_mark]
      rfl
  | userFeedbackError message next inductionHypothesis => exact inductionHypothesis last failed
  | registerTask task next inductionHypothesis =>
      rcases @registerTasks_first currentPath fuel patterns some task [] with
        ⟨begins, -⟩ | ⟨ends, stops⟩
      · exact reachesExecutor_of_onlyRegisters (last.1 begins) [task] failed
      · rw [inOrder, stops]
        exact (reachesExecutor_eq_ended_iff some ends [] failed).mpr (last.2 ends)
  | runTarget task commands next inductionHypothesis =>
      rw [runScript, inOrder]
      apply Program.trace_bind_congr
      intro succeeded returned
      apply inductionHypothesis
      cases succeeded with
      | true => exact last.2 ((canReturn_runTarget_iff task commands).mp returned)
      | false => exact last.1 ((canReturn_false_runTarget_iff some task commands).mp returned)

/-! ## Scripts that lose the order -/

/-- A script whose queued tasks are the next to reach the executor only registers tasks
from there on. -/
private theorem onlyRegisters_of_trace (some : ¬NoCombination patterns) {run : ScriptRun}
    {queued : List Task} {failed : Bool} {task : Task}
    {next : Unit → Program.Trace pluginInterface}
    (registers : reachesExecutor
      (runScript currentPath (fuel + 1) script patterns run queued failed) =
        .call (.host (.registerTask task)) next) :
    run.OnlyRegisters := by
  induction run generalizing queued failed with
  | finished => trivial
  | failed error =>
      rw [runScript] at registers
      cases feedback : error.feedback script <;> rw [feedback] at registers <;> cases registers
  | undefined => cases registers
  | diverged => cases registers
  | userFeedbackError message next inductionHypothesis => exact inductionHypothesis registers
  | registerTask task next inductionHypothesis => exact inductionHypothesis registers
  | runTarget task commands next inductionHypothesis =>
      rw [runScript] at registers
      rcases @runTarget_first currentPath fuel patterns some task commands with
        ⟨-, own, newTask, next, runs, -⟩ | ⟨-, runs⟩
      · rw [runs] at registers
        cases registers
      · rw [runs] at registers
        cases registers

/-- A script that keeps the order registers its tasks last. -/
private theorem registersLast_of_reachesExecutor (some : ¬NoCombination patterns)
    {run : ScriptRun} {failed : Bool}
    (same : reachesExecutor
        (runScript currentPath (fuel + 1) script patterns run [] failed) =
      reachesExecutor (inOrder currentPath (fuel + 1) script patterns run failed)) :
    run.RegistersLast (Begins patterns) (Completes (fuel + 1) patterns) := by
  induction run generalizing failed with
  | finished => trivial
  | failed error => trivial
  | undefined => trivial
  | diverged => trivial
  | userFeedbackError message next inductionHypothesis => exact inductionHypothesis same
  | registerTask task next inductionHypothesis =>
      rw [inOrder] at same
      rcases @registerTasks_first currentPath fuel patterns some task [] with
        ⟨begins, newTask, after, registers⟩ | ⟨ends, stops⟩
      · rw [registers] at same
        exact ⟨fun _ => onlyRegisters_of_trace some same, fun ends => absurd begins ends⟩
      · rw [stops] at same
        refine ⟨fun begins => absurd begins ends, fun _ => ?_⟩
        exact (reachesExecutor_eq_ended_iff some ends [] failed).mp same
  | runTarget task commands next inductionHypothesis =>
      rw [runScript, inOrder] at same
      have after : ∀ value : Bool,
          (runTarget currentPath (fuel + 1) patterns task commands).CanReturn value →
            (next value).RegistersLast (Begins patterns) (Completes (fuel + 1) patterns) := by
        intro value returned
        exact inductionHypothesis value
          (Program.trace_bind_cancel notForExecutor_determined same returned)
      constructor
      · intro begins
        exact after false ((canReturn_false_runTarget_iff some task commands).mpr begins)
      · intro completes
        exact after true ((canReturn_runTarget_iff task commands).mpr completes)

/-! ## The exact condition -/

private theorem reachesExecutor_of_noCombination (none : NoCombination patterns)
    (run : ScriptRun) (queued : List Task) (failed : Bool) :
    reachesExecutor (runScript currentPath (fuel + 1) script patterns run queued failed) =
        .ended ∧
      reachesExecutor (inOrder currentPath (fuel + 1) script patterns run failed) = .ended := by
  have registers : ∀ queued : List Task,
      registerTasks currentPath (fuel + 1) patterns queued = pure true := by
    intro queued
    induction queued with
    | nil => rfl
    | cons task rest inductionHypothesis =>
        rw [registerTasks_cons, forEachCombination_of_noCombination none, inductionHypothesis]
        rfl
  induction run generalizing queued failed with
  | finished =>
      rw [runScript, reachesExecutor_mark, registers, inOrder, reachesExecutor_mark]
      exact ⟨rfl, rfl⟩
  | failed error =>
      rw [runScript, inOrder]
      cases error.feedback script <;> exact ⟨rfl, rfl⟩
  | undefined => exact ⟨rfl, rfl⟩
  | diverged => exact ⟨rfl, rfl⟩
  | userFeedbackError message next inductionHypothesis =>
      exact inductionHypothesis queued failed
  | registerTask task next inductionHypothesis =>
      rw [runScript, inOrder, registers, ifSucceeds_pure_true]
      exact inductionHypothesis (queued ++ [task]) failed
  | runTarget task commands next inductionHypothesis =>
      rw [runScript, inOrder, runTarget, forEachCombination_of_noCombination none, pure_bind,
        pure_bind]
      exact inductionHypothesis true queued _

/-- The tasks of a script reach the executor in the order of its calls exactly when it
registers tasks last, or when there is no combination to hand anything on for. -/
theorem keepsOrder_iff (currentPath : CurrentPath) (fuel : Nat) (script : Path)
    (patterns : Patterns) (run : ScriptRun) :
    KeepsOrder currentPath (fuel + 1) script patterns run ↔
      NoCombination patterns ∨
        run.RegistersLast (Begins patterns) (Completes (fuel + 1) patterns) := by
  constructor
  · intro keeps
    rw [or_iff_not_imp_left]
    exact fun some => registersLast_of_reachesExecutor some keeps
  · intro condition
    by_cases none : NoCombination patterns
    · rcases reachesExecutor_of_noCombination none run [] false with ⟨queues, ordered⟩
      exact queues.trans ordered.symm
    · exact reachesExecutor_of_registersLast none (condition.resolve_left none) false

/-- A pre-task that a script registers is executed after the commands it was meant to
prepare. -/
theorem keepsOrder_counterexample :
    ¬KeepsOrder .root 2 "/plugin.lua" []
      (.registerTask ⟨["prepare"], ∅, "/"⟩
        (.runTarget ⟨[], ∅, "/"⟩ ["build"] fun _ => .finished)) := by
  have some : ¬NoCombination [] := by
    intro none
    have yielded := (MapPermutator.yielded_eq (patternValuesMap_ne_nil []) permutable_nil 1).1
    rw [NoCombination] at none
    rw [MapPermutator.yielded, if_pos none, ← combinations, combinations_nil] at yielded
    cases yielded
  intro keeps
  refine (registersLast_of_reachesExecutor some keeps).1 ?_
  intro combination _
  rw [replaceCombinations_of_notMem (by decide)]
  decide

end LuaPlugin

end ExecHelper.Plugins
