import ExecHelper.Core.Permutations
import ExecHelper.Library.Placeholder
import ExecHelper.Plugins.PluginUtils

/-!
# What patterns leave alone

Iterating over the combinations of patterns replaces nothing in a task but the
placeholders of these patterns.  Without any pattern there is one iteration, for
which the source makes up a pattern; its placeholder is the only text that does
not come out of that iteration as it went in.
-/

namespace ExecHelper.Plugins

open Std (ExtTreeMap)
open ExecHelper.Library
open ExecHelper.Config
open ExecHelper.Core

/-! ## The frame -/

/-- What a pass leaves of a text, from the left: a value for every occurrence, and what
does not start an occurrence as it is. -/
private inductive Pass (needle value : List Char) : List Char → List Char → Prop where
  | nil : Pass needle value [] []
  | occurrence {rest new : List Char} :
      Pass needle value rest new → Pass needle value (needle ++ rest) (value ++ new)
  | literal {symbol : Char} {rest new : List Char} :
      ¬needle <+: symbol :: rest → Pass needle value rest new →
        Pass needle value (symbol :: rest) (symbol :: new)

section Pass

variable {needle value text new : List Char}

/-- A pass replaces one placeholder after the other. -/
private theorem Pass.steps {rules : List Char → List Char → Prop} {key : List Char}
    (rule : rules key value) (pass : Pass ('{' :: (key ++ ['}'])) value text new)
    (before : List Char) :
    Placeholder.Steps '{' '}' rules (before ++ text) (before ++ new) := by
  induction pass generalizing before with
  | nil => exact .refl
  | @occurrence rest new pass inductionHypothesis =>
      have later := inductionHypothesis (before ++ value)
      rw [List.append_assoc, List.append_assoc] at later
      apply Relation.ReflTransGen.head _ later
      rw [List.cons_append, List.append_assoc, List.singleton_append]
      exact .placeholder before rest rule
  | @literal symbol rest new absent pass inductionHypothesis =>
      simpa using inductionHypothesis (before ++ [symbol])

end Pass

section Frame

variable {patterns : Patterns} {combination : PatternCombinations}

end Frame

/-! ## No pattern at all -/

end ExecHelper.Plugins
