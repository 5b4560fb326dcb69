/-!
# How a run can end without returning

Everything the source does between its entry point and its return value can also
end in a way no caller sees: the process exits inside a callback, an exception
reaches a function that is declared `noexcept`, or the code does something the
language gives no meaning to.  A run of the model ends in one of these reasons
instead of a value.
-/

namespace ExecHelper.Core

/-- Where the source dereferences an optional without testing it. -/
inductive Dereference where
  | index
  | commandLineCommand
  | valgrind
  | pmd
  | lcov
  | commandPlugin
  | luaConfig
  | autoComplete
  deriving DecidableEq, Repr

/-- Why a run ends without returning. -/
inductive Stop where
  /-- `exit` is called with this status. -/
  | exit (status : UInt8)
  /-- An exception leaves a `noexcept` function, or is caught nowhere. -/
  | terminate
  /-- An optional without a value is dereferenced. -/
  | emptyOptional (site : Dereference)
  /-- A vector or an array is accessed beyond its elements. -/
  | outOfBounds
  /-- The steps granted to the model are used up. -/
  | outOfFuel
  deriving DecidableEq, Repr

end ExecHelper.Core
