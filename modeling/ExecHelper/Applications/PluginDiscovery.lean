import ExecHelper.Applications.ExecHelperMain
import ExecHelper.Config.SettingsAdd

/-!
# Plugin discovery

Plugins are looked for in the search paths from the lowest priority to the highest,
and a script that is found replaces whatever had its name before.  The search paths
are put together in that order from lists that are given the other way around.
-/

namespace ExecHelper.Applications

open Std (ExtTreeMap)
open ExecHelper.Library
open ExecHelper.Config
open ExecHelper.Core
open ExecHelper.Plugins

abbrev Paths := List Path

/-! ## File names -/

/-- A path as it is written to a stream. -/
def quoted (path : Path) : String :=
  "\"" ++ String.ofList (path.toList.flatMap fun character =>
    if character = '"' ∨ character = '\\' then ['\\', character] else [character]) ++ "\""

/-! ## Search paths -/

structure DirectoryEntry where
  filename : String
  isRegularFile : Bool

/-- What the directories contain, and what the scripts in them do. Listing a directory
fails where there is no listing. -/
structure FileSystem where
  directoryIterator : Path → Option (List DirectoryEntry)
  script : Path → Bool → UInt32 → VariablesMap → Task → Patterns → ScriptRun

/-- The plugin for a script file. -/
def FileSystem.luaPlugin (fileSystem : FileSystem) (path : Path) : Plugin :=
  .luaPlugin ⟨path, fileSystem.script path⟩

section Precedence

variable {fileSystem : FileSystem} {plugins : PluginMap} {path : Path} {name : String}

end Precedence

end ExecHelper.Applications
