import ExecHelper.Applications.ExecHelperMain
import ExecHelper.Yaml.YamlWrapper

/-!
# Loading the settings file

The settings file is parsed by a function that is declared not to throw and that
returns nothing when it fails.  The YAML library throws on a file it cannot parse,
and its caller throws when it gets nothing; neither exception is caught.
-/

namespace ExecHelper.Applications

open ExecHelper.Library
open ExecHelper.Config
open ExecHelper.Core
open ExecHelper.Plugins
open ExecHelper.Yaml

abbrev PatternSettingsPair := Patterns × SettingsNode

/-! ## Patterns of the settings -/

def DEFAULT_VALUES_KEY : SettingsKey := "default-values"
def SHORT_OPTION_KEY : SettingsKey := "short-option"
def LONG_OPTION_KEY : SettingsKey := "long-option"

/-- The last value as a character (`get<char>`), where the characters of a text are the
`char`s of the source. Another text than one character cannot be cast, which the user is
told. -/
def getChar (settings : SettingsNode) (key : SettingsKey) : EStateM Stop System (Option Char) :=
  match settings.getString [key] with
  | none => return none
  | some value =>
      match value.toList with
      | [character] => return some character
      | _ => do
          userFeedbackError "Internal error"
          return none

/-- The pattern that is described by a map of variables. -/
def toPattern (key : PatternKey) (patternMap : VariablesMap) :
    EStateM Stop System (Option Pattern) :=
  match patternMap.getValues [DEFAULT_VALUES_KEY] with
  | none | some [] => do
      userFeedbackError "The default values must be defined and can not be empty"
      return none
  | some defaultValues => do
      let shortOption ← getChar patternMap SHORT_OPTION_KEY
      let longOption := patternMap.getString [LONG_OPTION_KEY]
      return some ⟨key, defaultValues, shortOption, longOption⟩

/-- One round of the loop over the configured patterns; those without default values are
left out. -/
def processPattern (patternSettings : SettingsNode) (result : Patterns) (patternKey : PatternKey) :
    EStateM Stop System Patterns := do
  let newPatternMap := (SettingsNode.ofKey patternKey).overwrite
    ((patternSettings.at? patternKey).getD (SettingsNode.ofKey patternKey))
  match ← toPattern patternKey newPatternMap with
  | none => return result
  | some newPattern => return result ++ [newPattern]

/-- The patterns of the settings. -/
def processPatterns (settings : SettingsNode) : EStateM Stop System Patterns :=
  match settings.at? patternsKey with
  | none => return []
  | some patternSettings =>
      ((settings.getValues [patternsKey]).getD []).foldlM (processPattern patternSettings) []

/-! ## What the patterns are -/

section Described

variable {left right : SettingsNode} {text : String}

/-- The text as a character, if it is one. -/
def singleCharacter (text : String) : Option Char :=
  match text.toList with
  | [character] => some character
  | _ => none

/-- The last of the values at a key. -/
def lastText (settings : SettingsNode) (key : SettingsKey) : Option String :=
  (settings.getValues [key]).bind List.getLast?

/-- The pattern that settings describe, if they have default values. -/
def describedPattern (key : PatternKey) (settings : SettingsNode) : Option Pattern :=
  match settings.getValues [DEFAULT_VALUES_KEY] with
  | none | some [] => none
  | some defaultValues => some
      { key := key
        values := defaultValues
        shortOption := (lastText settings SHORT_OPTION_KEY).bind singleCharacter
        longOption := lastText settings LONG_OPTION_KEY }

theorem getString_eq_lastText (settings : SettingsNode) (key : SettingsKey) :
    settings.getString [key] = lastText settings key := by
  rw [SettingsNode.getString, SettingsNode.get_eq_getValues_bind]
  rfl

/-- Only what is read by the lookups below the keys matters. -/
theorem describedPattern_congr (key : PatternKey)
    (same : ∀ option, left.getValues [option] = right.getValues [option]) :
    describedPattern key left = describedPattern key right := by
  rw [describedPattern, describedPattern, lastText, lastText, lastText, lastText,
    same DEFAULT_VALUES_KEY, same SHORT_OPTION_KEY, same LONG_OPTION_KEY]

theorem yields_userFeedbackError (text : String) : Yields (userFeedbackError text) () :=
  fun _ => ⟨_, rfl⟩

theorem yields_getChar (settings : SettingsNode) (key : SettingsKey) :
    Yields (getChar settings key) ((lastText settings key).bind singleCharacter) := by
  rw [getChar, getString_eq_lastText]
  cases lastText settings key with
  | none => exact Yields.pure none
  | some value =>
      dsimp only [Option.bind_some]
      rw [singleCharacter]
      split
      · exact Yields.pure _
      · exact (yields_userFeedbackError _).bind (Yields.pure none)

theorem yields_toPattern (key : PatternKey) (patternMap : VariablesMap) :
    Yields (toPattern key patternMap) (describedPattern key patternMap) := by
  rw [toPattern, describedPattern]
  split
  · exact (yields_userFeedbackError _).bind (Yields.pure none)
  · exact (yields_userFeedbackError _).bind (Yields.pure none)
  · rw [getString_eq_lastText]
    exact (yields_getChar patternMap SHORT_OPTION_KEY).bind (Yields.pure _)

/-- The settings that the pattern with the key is read from: those of the entry, copied
into an empty map. -/
def patternMapOf (patternSettings : SettingsNode) (patternKey : PatternKey) : VariablesMap :=
  (SettingsNode.ofKey patternKey).overwrite
    ((patternSettings.at? patternKey).getD (SettingsNode.ofKey patternKey))

theorem yields_processPattern (patternSettings : SettingsNode) (result : Patterns)
    (patternKey : PatternKey) :
    Yields (processPattern patternSettings result patternKey) (result ++
      (describedPattern patternKey (patternMapOf patternSettings patternKey)).toList) := by
  apply (yields_toPattern patternKey (patternMapOf patternSettings patternKey)).bind
  cases describedPattern patternKey (patternMapOf patternSettings patternKey) with
  | none =>
      rw [Option.toList_none, List.append_nil]
      exact Yields.pure result
  | some newPattern => exact Yields.pure (result ++ [newPattern])

/-- One pattern for every key that describes one, whatever the others describe. -/
theorem yields_processPatterns (settings : SettingsNode) :
    Yields (processPatterns settings) (match settings.at? patternsKey with
      | none => []
      | some patternSettings => (patternSettings.values.getD []).filterMap fun patternKey =>
          describedPattern patternKey (patternMapOf patternSettings patternKey)) := by
  rw [processPatterns, SettingsNode.getValues_eq, SettingsNode.atPath?_cons]
  cases settings.at? patternsKey with
  | none => exact Yields.pure []
  | some patternSettings =>
      have each := yields_processPattern patternSettings
      exact Yields.foldlM_append each (patternSettings.values.getD []) []

end Described

/-! ## The settings file -/

/-- What the YAML library makes of a settings file: a document, or the text of the
exception it throws. -/
abbrev FileContent := Except String YamlNode

section Loading

variable (asString : YamlNode → Option SettingsValue)

/-- Parse the settings file into its patterns and the other settings. -/
def parseSettingsFile (content : FileContent) : Throwing (Option PatternSettingsPair) :=
  declaredNoexcept do
    let yaml ← ExceptT.mk (return content)
    let (success, configuration) := getTree asString yaml [] (SettingsNode.ofKey "exec-helper")
    if !success then return none
    let patterns ← processPatterns configuration
    return some (patterns, (configuration.clear [patternsKey]).2)

/-- A command line option that sets the values of a pattern. -/
structure PatternOption where
  longOption : String
  shortOption : Option Char
  explanation : String

/-- The option of a pattern, if it has a long one. -/
def patternOption (pattern : Pattern) : Option PatternOption :=
  pattern.longOption.map fun longOption =>
    ⟨longOption, pattern.shortOption, "Values for pattern '" ++ longOption ++ "'"⟩

/-- The settings file with the options for its patterns. -/
def addPatternsFromSettingsFile (settingsFile : Path) (content : FileContent) :
    Throwing (PatternSettingsPair × List PatternOption) := do
  match ← parseSettingsFile asString content with
  | none => throw ("Could not parse settings file '" ++ settingsFile ++ "'")
  | some patternSettingsPair =>
      return (patternSettingsPair, patternSettingsPair.1.filterMap patternOption)

/-- The settings file is loaded in the main function, which catches nothing there; an
exception that leaves it ends the process. -/
def loadSettingsFile (settingsFile : Path) (content : FileContent) :
    EStateM Stop System (PatternSettingsPair × List PatternOption) := do
  match ← (addPatternsFromSettingsFile asString settingsFile content).run with
  | .ok loaded => return loaded
  | .error _ => throw .terminate

end Loading

/-! ## How loading ends -/

section Ending

variable {asString : YamlNode → Option SettingsValue} {settingsFile : Path}
variable {content : FileContent} {document : YamlNode} {system : System}

/-- No exception leaves the parser, and loading goes on with what was parsed or exits with
a failure that the user is told. -/
structure EndsProperly (asString : YamlNode → Option SettingsValue) (settingsFile : Path)
    (content : FileContent) : Prop where
  parses : ∀ system, ∃ result final,
    (parseSettingsFile asString content).run system = .ok (.ok result) final
  ends : ∀ system,
    (∃ loaded final, loadSettingsFile asString settingsFile content system = .ok loaded final) ∨
      ∃ status text final,
        loadSettingsFile asString settingsFile content system = .error (.exit status) final ∧
          status ≠ EXIT_SUCCESS ∧ final.feedback = system.feedback ++ [.error text]

theorem run_declaredNoexcept_of_ok {α : Type} {body : Throwing α} {value : α} {final : System}
    (ran : body.run system = .ok (.ok value) final) :
    (declaredNoexcept body).run system = .ok (.ok value) final :=
  bind_of_eq_ok ran

theorem run_liftM_of_ok {α : Type} {body : EStateM Stop System α} {value : α} {final : System}
    (ran : body system = .ok value final) :
    (liftM body : Throwing α).run system = .ok (.ok value) final := by
  have mapped : (Except.ok <$> body : EStateM Stop System (Except String α)) system =
      .ok (.ok value) final := by
    rw [map_eq_pure_bind]
    exact bind_of_eq_ok ran
  exact mapped

theorem run_bind_of_ok {α β : Type} {body : Throwing α} {next : α → Throwing β} {value : α}
    {middle : System} (ran : body.run system = .ok (.ok value) middle) :
    (body >>= next).run system = (next value).run middle :=
  bind_of_eq_ok ran

/-- What the library throws meets the `noexcept` of the parser. -/
theorem parseSettingsFile_of_error (what : String) :
    (parseSettingsFile asString (.error what)).run system = .error .terminate system := rfl

/-- The parser of a document goes on only when the document can be read. -/
theorem parseSettingsFile_of_document (document : YamlNode) :
    (parseSettingsFile asString (.ok document)).run =
      (declaredNoexcept do
        if !(getTree asString document [] (SettingsNode.ofKey "exec-helper")).1 then return none
        let configuration := (getTree asString document [] (SettingsNode.ofKey "exec-helper")).2
        let patterns ← processPatterns configuration
        return some (patterns, (configuration.clear [patternsKey]).2)).run := rfl

theorem parseSettingsFile_of_failure
    (failure : (getTree asString document [] (SettingsNode.ofKey "exec-helper")).1 = false) :
    (parseSettingsFile asString (.ok document)).run system = .ok (.ok none) system := by
  rw [parseSettingsFile_of_document, failure]
  rfl

theorem parseSettingsFile_of_success {configuration : SettingsNode} {patterns : Patterns}
    (success : getTree asString document [] (SettingsNode.ofKey "exec-helper") =
      (true, configuration))
    (processed : Yields (processPatterns configuration) patterns) (system : System) :
    ∃ final, (parseSettingsFile asString (.ok document)).run system =
      .ok (.ok (some (patterns, (configuration.clear [patternsKey]).2))) final := by
  rcases processed system with ⟨final, ran⟩
  refine ⟨final, ?_⟩
  rw [parseSettingsFile_of_document, success]
  apply run_declaredNoexcept_of_ok
  exact run_bind_of_ok (run_liftM_of_ok ran)

/-- Nobody catches what is thrown when there is nothing to go on with. -/
theorem loadSettingsFile_of_none {final : System}
    (parsed : (parseSettingsFile asString content).run system = .ok (.ok none) final) :
    loadSettingsFile asString settingsFile content system = .error .terminate final := by
  have thrown : (addPatternsFromSettingsFile asString settingsFile content).run system =
      .ok (.error ("Could not parse settings file '" ++ settingsFile ++ "'")) final :=
    run_bind_of_ok parsed
  exact bind_of_eq_ok thrown

theorem loadSettingsFile_of_some {pair : PatternSettingsPair} {final : System}
    (parsed : (parseSettingsFile asString content).run system = .ok (.ok (some pair)) final) :
    loadSettingsFile asString settingsFile content system =
      .ok (pair, pair.1.filterMap patternOption) final := by
  have added : (addPatternsFromSettingsFile asString settingsFile content).run system =
      .ok (.ok (pair, pair.1.filterMap patternOption)) final := run_bind_of_ok parsed
  exact bind_of_eq_ok added

/-- Loading ends as it should exactly when the file is a document that is read: a
collection that is not empty and in which everything that is read as a string is
one. -/
theorem endsProperly_iff (asString : YamlNode → Option SettingsValue) (settingsFile : Path)
    (content : FileContent) :
    EndsProperly asString settingsFile content ↔
      ∃ document, content = .ok document ∧ document.size ≠ 0 ∧
        convertible asString document = true := by
  constructor
  · intro proper
    cases content with
    | error what =>
        rcases proper.parses {} with ⟨result, final, ran⟩
        cases (parseSettingsFile_of_error what).symm.trans ran
    | ok document =>
        cases success : (getTree asString document [] (SettingsNode.ofKey "exec-helper")).1 with
        | true =>
            rw [getTree_fst, Bool.and_eq_true, decide_eq_true_eq] at success
            exact ⟨document, rfl, success.1, success.2⟩
        | false =>
            have parsed : (parseSettingsFile asString (.ok document)).run ({} : System) =
                .ok (.ok none) {} := parseSettingsFile_of_failure success
            have stops : loadSettingsFile asString settingsFile (.ok document) ({} : System) =
                .error .terminate {} := loadSettingsFile_of_none parsed
            rcases proper.ends {} with ⟨loaded, final, ran⟩ | ⟨status, text, final, ran, _⟩
            · cases stops.symm.trans ran
            · cases stops.symm.trans ran
  · rintro ⟨document, rfl, nonempty, converts⟩
    have success : getTree asString document [] (SettingsNode.ofKey "exec-helper") =
        (true, (getTree asString document [] (SettingsNode.ofKey "exec-helper")).2) := by
      ext1
      · simp [getTree_fst, nonempty, converts]
      · rfl
    have parses := parseSettingsFile_of_success success (yields_processPatterns _)
    constructor
    · intro system
      rcases parses system with ⟨final, parsed⟩
      exact ⟨some _, final, parsed⟩
    · intro system
      rcases parses system with ⟨final, parsed⟩
      exact Or.inl ⟨_, final, loadSettingsFile_of_some parsed⟩

/-- Neither a malformed file nor an empty one ends properly. -/
theorem endsProperly_counterexample :
    ¬EndsProperly YamlNode.scalar? "/.exec-helper" (.error "yaml-cpp: error at line 1") ∧
      ¬EndsProperly YamlNode.scalar? "/.exec-helper" (.ok .null) := by
  constructor
  · intro proper
    rcases proper.parses {} with ⟨result, final, ran⟩
    cases ran
  · intro proper
    rcases proper.ends {} with ⟨loaded, final, ran⟩ | ⟨status, text, final, ran, _⟩
    · cases ran
    · cases ran

end Ending

end ExecHelper.Applications
