import ExecHelper.Applications.SettingsFile
import ExecHelper.Config.SettingsAssign
import ExecHelper.Config.SettingsReplace

/-!
# Patterns of the settings file

The entries below the root key `patterns` become patterns, and the key is removed
from the settings.  Every entry is read through a fresh map that its settings
overwrite, which loses nothing: an entry describes the same pattern on its own, no
matter which entries surround it.
-/

namespace ExecHelper.Applications

open ExecHelper.Library
open ExecHelper.Config
open ExecHelper.Plugins
open ExecHelper.Yaml

variable {settings patternSettings entry : SettingsNode}

/-- The entries of the settings that are meant to be patterns, in the order of the file. -/
def patternEntries (settings : SettingsNode) : List SettingsNode :=
  (settings.subtree [patternsKey]).getD []

/-- The patterns that the entries describe. -/
def configuredPatterns (settings : SettingsNode) : Patterns :=
  (patternEntries settings).filterMap fun entry => describedPattern entry.mKey entry

theorem patternEntries_eq (found : settings.at? patternsKey = some patternSettings) :
    patternEntries settings = patternSettings.mValues.getD [] := by
  rw [patternEntries, SettingsNode.subtree_singleton, found]
  rfl

theorem getValues_patternMapOf (found : patternSettings.at? entry.mKey = some entry)
    (option : SettingsKey) :
    (patternMapOf patternSettings entry.mKey).getValues [option] = entry.getValues [option] := by
  rw [SettingsNode.getValues_eq, SettingsNode.getValues_eq, SettingsNode.atPath?_cons,
    SettingsNode.atPath?_cons, patternMapOf, found, Option.getD_some,
    SettingsNode.at?_overwrite_ofKey]

/-- Among entries with distinct keys, looking the keys up again gives every entry. -/
theorem filterMap_describedPattern
    (distinct : ((patternSettings.mValues.getD []).map SettingsNode.mKey).Nodup) :
    ((patternSettings.values.getD []).filterMap fun patternKey =>
        describedPattern patternKey (patternMapOf patternSettings patternKey)) =
      (patternSettings.mValues.getD []).filterMap fun entry =>
        describedPattern entry.mKey entry := by
  have keys : patternSettings.values.getD [] =
      (patternSettings.mValues.getD []).map SettingsNode.mKey := by
    rw [SettingsNode.values]
    cases patternSettings.mValues <;> rfl
  rw [keys, List.filterMap_map]
  apply List.filterMap_congr
  intro entry member
  have found : patternSettings.at? entry.mKey = some entry :=
    FirstMatch.lookup_of_mem distinct member
  exact describedPattern_congr entry.mKey (getValues_patternMapOf found)

theorem yields_configuredPatterns
    (distinct : ((patternEntries settings).map SettingsNode.mKey).Nodup) :
    Yields (processPatterns settings) (configuredPatterns settings) := by
  have yielded := yields_processPatterns settings
  cases found : settings.at? patternsKey with
  | none =>
      have empty : configuredPatterns settings = [] := by
        rw [configuredPatterns, patternEntries, SettingsNode.subtree_singleton, found]
        rfl
      rw [found] at yielded
      rwa [empty]
  | some patternSettings =>
      rw [patternEntries_eq found] at distinct
      rw [found] at yielded
      dsimp only at yielded
      rwa [filterMap_describedPattern distinct, ← patternEntries_eq found] at yielded

/-- The settings are split into the patterns that the entries describe and the settings
without the entries, and that is what parsing a file with these settings returns. -/
theorem processPatterns_clear (settings : SettingsNode)
    (once : settings.HoldsAtMostOne [] patternsKey)
    (distinct : ((patternEntries settings).map SettingsNode.mKey).Nodup) :
    Yields (processPatterns settings) (configuredPatterns settings) ∧
      SettingsNode.Cleared settings (settings.clear [patternsKey]).2 [] patternsKey ∧
      ∀ (asString : YamlNode → Option SettingsValue) (document : YamlNode) (system : System),
        getTree asString document [] (SettingsNode.ofKey "exec-helper") = (true, settings) →
          ∃ final, (parseSettingsFile asString (.ok document)).run system =
            .ok (.ok (some (configuredPatterns settings,
              (settings.clear [patternsKey]).2))) final := by
  have processed := yields_configuredPatterns distinct
  refine ⟨processed, SettingsNode.cleared_clear once, ?_⟩
  intro asString document system success
  exact parseSettingsFile_of_success success processed system

/-- An entry without default values and one with a short option of two characters. -/
def twoEntries : YamlNode :=
  YamlNode.mapOf [
    ("patterns", YamlNode.mapOf [
      ("EMPTY", YamlNode.mapOf [("long-option", .scalar "empty")]),
      ("MODE", YamlNode.mapOf [
        ("default-values", .sequence [.scalar "debug", .scalar "release"]),
        ("short-option", .scalar "mo"), ("long-option", .scalar "mode")])]),
    ("build-dir", .scalar "build")]

theorem processPatterns_clear_twoEntries :
    ∃ others final, (parseSettingsFile YamlNode.scalar? (.ok twoEntries)).run {} =
        .ok (.ok (some ([⟨"MODE", ["debug", "release"], none, some "mode"⟩], others))) final ∧
      others.getValues [] = some ["build-dir"] := by
  have once : (getTree YamlNode.scalar? twoEntries []
      (SettingsNode.ofKey "exec-helper")).2.HoldsAtMostOne [] patternsKey := by
    rw [SettingsNode.HoldsAtMostOne]
    decide
  have split := processPatterns_clear _ once (by decide)
  rcases split.2.2 YamlNode.scalar? twoEntries {} rfl with ⟨final, parsed⟩
  exact ⟨_, final, parsed, split.2.1.parent⟩

end ExecHelper.Applications
