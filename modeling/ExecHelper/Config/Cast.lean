import ExecHelper.Config.SettingsNode
import Mathlib.Algebra.Group.Nat.Defs

/-!
# Typed values

`SettingsNode::get` converts a value list to the type it is asked for.  A list
converts to a list of strings as it is, while every other type is read from the
last value and does not exist for the empty list.
-/

namespace ExecHelper.Config

abbrev Path := String

namespace Cast

/-- Conversion to a string (`Cast<T, U>` for a string). -/
def string (values : SettingsValues) : Option String := values.getLast?

/-- Conversion to a Boolean (`Cast<bool, U>`). -/
def bool (values : SettingsValues) : Option Bool :=
  values.getLast?.map fun back => back == "yes" || back == "1" || back == "true"

/-- Conversion to a path (`Cast<Path, U>`). -/
def path (values : SettingsValues) : Option Path := string values

/-- The number a text denotes as an unsigned 32-bit value, as the lexical cast
reads it: an optional sign and decimal digits, where a minus sign negates modulo
`2 ^ 32`. -/
def parseUInt32 (text : String) : Option UInt32 :=
  let digits (characters : List Char) : Option UInt32 :=
    if characters.isEmpty || !characters.all Char.isDigit then none
    else
      let number := characters.foldl
        (fun number digit => number * 10 + (digit.toNat - '0'.toNat)) 0
      if number < 2 ^ 32 then some (UInt32.ofNat number) else none
  match text.toList with
  | '-' :: rest => (digits rest).map fun number => -number
  | '+' :: rest => digits rest
  | rest => digits rest

end Cast

namespace SettingsNode

variable (node : SettingsNode) (keys : SettingsKeys)

/-- The last value at a key path (`get<string>`). -/
def getString : Option String := node.get Cast.string keys

/-- The flag at a key path (`get<bool>`). -/
def getBool : Option Bool := node.get Cast.bool keys

/-- The path at a key path (`get<Path>`). -/
def getPath : Option Path := node.get Cast.path keys

/-- Every conversion starts from the value list. -/
theorem get_eq_getValues_bind {τ : Type} (cast : SettingsValues → Option τ) :
    node.get cast keys = (node.getValues keys).bind cast := by
  rw [get_eq, getValues_eq, Option.bind_assoc]

end SettingsNode

end ExecHelper.Config
