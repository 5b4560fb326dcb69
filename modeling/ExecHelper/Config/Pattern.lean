import ExecHelper.Library.OrderedMap

/-!
# Patterns and options

A pattern is a named list of values that commands can be repeated over.  The
patterns handler keeps one pattern for every key, the one that was added first.
-/

namespace ExecHelper.Config

open Std
open ExecHelper.Library

abbrev PatternKey := String
abbrev PatternValue := String
abbrev PatternKeys := List PatternKey
abbrev PatternValues := List PatternValue
abbrev Command := String
abbrev CommandCollection := List Command

/-- One value for every pattern key. -/
abbrev PatternCombinations := ExtTreeMap PatternKey PatternValue

/-- A pattern with the command line options that set its values. -/
structure Pattern where
  key : PatternKey
  values : PatternValues := []
  shortOption : Option Char := none
  longOption : Option String := none
  deriving DecidableEq, Repr

abbrev Patterns := List Pattern

/-- The patterns by their keys. -/
abbrev PatternsHandler := ExtTreeMap PatternKey Pattern

namespace PatternsHandler

/-- Keep the first pattern of every key
(`PatternsHandler(const Patterns&)`). -/
def ofPatterns (patterns : Patterns) : PatternsHandler :=
  OrderedMap.emplaceAll (patterns.map fun pattern => (pattern.key, pattern)) ∅

end PatternsHandler

/-- The options of one invocation that the modelled components read
(`FleetingOptionsInterface`). -/
structure FleetingOptions where
  verbosity : Bool := false
  dryRun : Bool := false
  keepGoing : Bool := false
  jobs : UInt32 := 1
  commands : CommandCollection := []
  deriving DecidableEq, Repr

end ExecHelper.Config
