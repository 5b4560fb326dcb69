import ExecHelper.Applications.Jobs
import ExecHelper.Applications.PluginDiscovery
import ExecHelper.Applications.SettingsFile
import ExecHelper.Config.Argv
import ExecHelper.Config.SettingsReplace

/-!
# Options of the command line

The options are described first, and what the parser makes of the command line is laid
over a map of default values.  Everything the program wants to know of its options it
reads from that map.

The parser belongs to a library.  It knows the values of the options by their types, and
what it stores for an option has the type that the option was described with.  It reads the
copy that the program makes of its arguments, up to the end of every string in it.
-/

namespace ExecHelper.Applications

open Std (ExtTreeMap)
open ExecHelper.Library
open ExecHelper.Config
open ExecHelper.Core
open ExecHelper.Plugins

def HELP_OPTION_KEY : SettingsKey := "help"
def VERSION_KEY : SettingsKey := "version"
def SETTINGS_FILE_KEY : SettingsKey := "settings-file"
def LIST_PLUGINS_KEY : SettingsKey := "list-plugins"
def APPEND_SEARCH_PATH_KEY : SettingsKey := "additional-search-path"
def LOG_LEVEL_KEY : SettingsKey := "debug"
def AUTO_COMPLETE_KEY : SettingsKey := "auto-complete"

/-! ## Descriptions -/

/-- The specialisations of `Option<T>`: a flag, one value, or a list of values. -/
inductive OptionKind where
  | flag
  | value
  | values
  deriving DecidableEq

/-- An option with its other name and its explanation (`Option<T>`). -/
structure OptionDescription where
  identifyingOption : String
  argumentOptions : List String
  kind : OptionKind
  explanation : String

/-- The descriptions of the options. Each of them is found under its own name. -/
structure OptionDescriptions where
  optionKeys : List String
  optionDescription : List OptionDescription
  options : ExtTreeMap String OptionDescription
  positional : Option String
  named : ∀ (key : String) option, options[key]? = some option → option.identifyingOption = key

namespace OptionDescriptions

def empty : OptionDescriptions where
  optionKeys := []
  optionDescription := []
  options := ∅
  positional := none
  named := by simp

/-- Add an option. One that is added under a name once more is described, but the map of
the options keeps the first one. -/
def addOption (descriptions : OptionDescriptions) (option : OptionDescription) :
    OptionDescriptions where
  optionKeys := descriptions.optionKeys ++ ("--" ++ option.identifyingOption) ::
    option.argumentOptions.map fun argumentOption =>
      if argumentOption.length = 1 then "-" ++ argumentOption else "--" ++ argumentOption
  optionDescription := descriptions.optionDescription ++ [option]
  options := descriptions.options.insertIfNew option.identifyingOption option
  positional := descriptions.positional
  named := by
    intro key added found
    rw [ExtTreeMap.getElem?_insertIfNew] at found
    split at found
    next own =>
      rw [← Option.some.inj found]
      exact Std.LawfulEqOrd.eq_of_compare own.1
    next => exact descriptions.named key added found

def setPositionalArgument (descriptions : OptionDescriptions) (option : OptionDescription) :
    OptionDescriptions :=
  { descriptions with positional := some option.identifyingOption }

end OptionDescriptions

def settingsFileOption : OptionDescription :=
  ⟨SETTINGS_FILE_KEY, ["s"], .value, "Set the settings file"⟩

def commandOption : OptionDescription := ⟨COMMAND_KEY, ["z"], .values, "Commands to execute"⟩

def getDefaultOptions : OptionDescriptions :=
  [⟨HELP_OPTION_KEY, ["h"], .flag, "Produce help message"⟩,
    ⟨VERSION_KEY, [], .flag, "Print the version of this binary"⟩,
    ⟨VERBOSE_KEY, ["v"], .flag, "Set verbosity"⟩,
    ⟨JOBS_KEY, ["j"], .value, "Set number of jobs to use. Default: auto"⟩,
    ⟨DRY_RUN_KEY, ["n"], .flag, "Dry run exec-helper"⟩,
    ⟨KEEP_GOING_KEY, ["k"], .flag, "Keep going, even when commands fail"⟩,
    ⟨LIST_PLUGINS_KEY, [], .flag, "List all plugins"⟩,
    ⟨APPEND_SEARCH_PATH_KEY, [], .values,
      "Append to plugin search path. Plugins discovered earlier in the list " ++
        "overwrite plugins with the same name in later ones."⟩,
    settingsFileOption,
    ⟨LOG_LEVEL_KEY, ["d"], .value, "Set the log level"⟩,
    ⟨AUTO_COMPLETE_KEY, [], .value, "List autocomplete options for the given word"⟩,
    commandOption].foldl OptionDescriptions.addOption .empty

/-- The option that sets the values of a pattern (`Option<PatternValues>`). -/
def PatternOption.description (option : PatternOption) : OptionDescription :=
  ⟨option.longOption, (option.shortOption.map fun short => String.ofList [short]).toList, .values,
    option.explanation⟩

/-- Add the options of the patterns. -/
def OptionDescriptions.addPatternOptions (descriptions : OptionDescriptions)
    (patternOptions : List PatternOption) : OptionDescriptions :=
  (patternOptions.map PatternOption.description).foldl addOption descriptions

/-! ## Arguments -/

/-- What the program is started with. The characters of a text are the `char`s of the source,
and no argument holds the one that ends it. -/
structure CommandLine where
  binaryName : String
  arguments : List String
  plain : ∀ argument ∈ binaryName :: arguments, NUL ∉ argument.toList

/-- The arguments as the program gets them. -/
def CommandLine.argv (commandLine : CommandLine) : List Buffer :=
  (commandLine.binaryName :: commandLine.arguments).map fun argument =>
    CString.ofText NUL argument.toList

/-- What is read, unless that is beyond the end of an array. -/
def withinBounds {α : Type} : Option α → EStateM Stop System α
  | some value => return value
  | none => throw .outOfBounds

/-- Read the string behind a pointer, up to where it is terminated. -/
def readString (pointer : Option Buffer) : EStateM Stop System String :=
  withinBounds ((pointer.bind (CString.text? NUL)).map String.ofList)

/-- Read all arguments but the name of the program (`command_line_parser`). -/
def readArguments (argv : PointerArray) : EStateM Stop System (List String) :=
  match argv.data with
  | .ok pointers => ((pointers.take (Argv.getArgc argv)).drop 1).mapM readString
  | .error reason => throw reason

/-! ## Parsing -/

/-- A value that the parser stores for an option. -/
inductive ParsedValue where
  | flag (isSet : Bool)
  | value (text : String)
  | values (texts : List String)

def ParsedValue.kind : ParsedValue → OptionKind
  | .flag _ => .flag
  | .value _ => .value
  | .values _ => .values

/-- What the parser stores (`variables_map`). -/
abbrev ParsedOptions := ExtTreeMap String ParsedValue

/-- An exception of the parser. -/
inductive ParseError where
  | unknownOption (what : String)
  | other (what : String)

/-- The parser of the library. For every option it stores a value of its type. -/
structure CommandLineParser where
  run : OptionDescriptions → Bool → List String → Except ParseError ParsedOptions
  wellTyped : ∀ descriptions allowUnregistered arguments parsed,
    run descriptions allowUnregistered arguments = .ok parsed →
      ∀ (key : String) value option, parsed[key]? = some value →
        descriptions.options[key]? = some option → value.kind = option.kind

/-! ### A parser

Where the options are written with their long names and every value is a word of its own, what
the library stores can be said in a few lines. -/

/-- The name after two dashes. -/
def longName (word : String) : Option String :=
  match word.toList with
  | '-' :: '-' :: name => some (String.ofList name)
  | _ => none

/-- The options and their values, one after the other. A word belongs to the latest option that
takes it, or to the positional one; a flag has no value. -/
def occurrences (descriptions : OptionDescriptions) (allowUnregistered : Bool)
    (latest : Option OptionDescription) :
    List String → Except ParseError (List (String × Option String))
  | [] => return []
  | word :: words =>
      match longName word with
      | some name =>
          match descriptions.options[name]? with
          | some option => do
              let flag := option.kind = .flag
              let rest ← occurrences descriptions allowUnregistered
                (if flag then none else some option) words
              return (if flag then [(name, none)] else []) ++ rest
          | none =>
              if allowUnregistered then occurrences descriptions allowUnregistered none words
              else throw (.unknownOption ("unrecognised option '" ++ word ++ "'"))
      | none => do
          let owner := (latest.map OptionDescription.identifyingOption).or descriptions.positional
          let rest ← occurrences descriptions allowUnregistered
            (latest.filter fun option => option.kind = .values) words
          return (owner.map fun key => (key, some word)).toList ++ rest

/-- What is stored for an option: a flag always, the others where they have values. -/
def OptionDescription.stored (option : OptionDescription)
    (entries : List (String × Option String)) : Option ParsedValue :=
  let own := entries.filter fun entry => entry.1 = option.identifyingOption
  let texts := own.filterMap Prod.snd
  match option.kind with
  | .flag => some (.flag !own.isEmpty)
  | .value => texts.getLast?.map .value
  | .values => if texts.isEmpty then none else some (.values texts)

theorem OptionDescription.kind_stored {option : OptionDescription}
    {entries : List (String × Option String)} {value : ParsedValue}
    (stores : option.stored entries = some value) : value.kind = option.kind := by
  rw [stored] at stores
  split at stores
  next flag => rw [← Option.some.inj stores, flag]; rfl
  next single =>
    obtain ⟨text, last, rfl⟩ := Option.map_eq_some_iff.mp stores
    exact single.symm
  next several =>
    obtain ⟨given, same⟩ := Option.ite_none_left_eq_some.mp stores
    rw [← Option.some.inj same, several]
    rfl

/-- The parser for such words. -/
def longNameParser : CommandLineParser where
  run descriptions allowUnregistered arguments := do
    let entries ← occurrences descriptions allowUnregistered none arguments
    return descriptions.options.filterMap fun _ option => option.stored entries
  wellTyped := by
    intro descriptions allowUnregistered arguments parsed parses key value option found described
    cases read : occurrences descriptions allowUnregistered none arguments with
    | error reason => simp [read] at parses
    | ok entries =>
        rw [read] at parses
        obtain rfl := Except.ok.inj parses
        rw [ExtTreeMap.getElem?_filterMap', described, Option.bind_some] at found
        exact OptionDescription.kind_stored found

/-! ### The variables -/

/-- Write what was parsed for an option into the variables (`Option<T>::toMap`). A value of
another type cannot be cast. -/
def OptionDescription.toMap (option : OptionDescription) (variablesMap : VariablesMap)
    (optionsMap : ParsedOptions) : EStateM Stop System VariablesMap :=
  match option.kind, optionsMap[option.identifyingOption]? with
  | .flag, none => return variablesMap.replace [option.identifyingOption] ["0"]
  | .flag, some (.flag isSet) =>
      return variablesMap.replace [option.identifyingOption] [if isSet then "1" else "0"]
  | .value, some (.value text) => return variablesMap.replace [option.identifyingOption] [text]
  | .values, some (.values texts) =>
      return variablesMap.replace [option.identifyingOption] texts
  | _, _ => do
      userFeedbackError ("Bad_any_cast exception caught: boost::bad_any_cast: " ++
        "failed conversion using boost::any_cast")
      return variablesMap

namespace OptionDescriptions

/-- Write what was parsed for the described options into the variables. -/
def toMap (descriptions : OptionDescriptions) (variablesMap : VariablesMap)
    (optionsMap : ParsedOptions) : EStateM Stop System VariablesMap :=
  optionsMap.toList.foldlM
    (fun variablesMap entry =>
      match descriptions.options[entry.1]? with
      | some option => option.toMap variablesMap optionsMap
      | none => pure variablesMap)
    variablesMap

/-- Parse the arguments into the variables. There is no map where that fails. -/
def getOptionsMap (parser : CommandLineParser) (descriptions : OptionDescriptions)
    (variablesMap : VariablesMap) (argv : PointerArray) (allowUnregistered : Bool) :
    EStateM Stop System (Option VariablesMap) := do
  let arguments ← readArguments argv
  match parser.run descriptions allowUnregistered arguments with
  | .error (.unknownOption what) => do
      userFeedbackError ("Could not parse command line arguments: " ++ what)
      return none
  | .error (.other _) => return none
  | .ok optionsMap => do
      let variablesMap ← descriptions.toMap variablesMap optionsMap
      return some variablesMap

end OptionDescriptions

/-! ## The options of an invocation -/

/-- The default values of the options (`FleetingOptions::getDefault`). The settings file has
a key only. -/
def getDefault : VariablesMap :=
  let defaults := SettingsNode.ofKey "exec-helper"
  let defaults := defaults.add [HELP_OPTION_KEY] ["no"]
  let defaults := defaults.add [VERSION_KEY] ["no"]
  let defaults := defaults.add [VERBOSE_KEY] ["no"]
  let defaults := defaults.add [DRY_RUN_KEY] ["no"]
  let defaults := defaults.add [KEEP_GOING_KEY] ["no"]
  let defaults := defaults.add [JOBS_KEY] ["auto"]
  let defaults := defaults.addValue SETTINGS_FILE_KEY
  let defaults := defaults.add [LOG_LEVEL_KEY] ["none"]
  let defaults := defaults.add [LIST_PLUGINS_KEY] ["no"]
  let defaults := defaults.add [APPEND_SEARCH_PATH_KEY] []
  defaults.add [COMMAND_KEY] []

/-- Parse the arguments when all options are described. Words without an option are
commands. -/
def handleConfiguration (parser : CommandLineParser) (options : OptionDescriptions)
    (argv : PointerArray) : Throwing VariablesMap := do
  let options := options.setPositionalArgument commandOption
  match ← options.getOptionsMap parser getDefault argv false with
  | none => throw "Could not properly parse the command line options"
  | some optionsMap => return optionsMap

/-- All options of an invocation (`FleetingOptions`). -/
structure AllOptions extends FleetingOptions where
  help : Bool
  version : Bool
  logLevel : String
  listPlugins : Bool
  appendSearchPaths : Paths
  autocomplete : Option String
  deriving DecidableEq

def readOptions (hardwareConcurrency : UInt32) (optionsMap : VariablesMap) : AllOptions where
  toFleetingOptions := readFleetingOptions hardwareConcurrency optionsMap
  help := (optionsMap.getBool [HELP_OPTION_KEY]).getD false
  version := (optionsMap.getBool [VERSION_KEY]).getD false
  logLevel := (optionsMap.getString [LOG_LEVEL_KEY]).getD "warning"
  listPlugins := (optionsMap.getBool [LIST_PLUGINS_KEY]).getD false
  appendSearchPaths := (optionsMap.getValues [APPEND_SEARCH_PATH_KEY]).getD []
  autocomplete := optionsMap.getString [AUTO_COMPLETE_KEY]

/-- Set the values of a pattern to the ones its option has. -/
def overridePattern (optionsMap : VariablesMap) (pattern : Pattern) : Pattern :=
  match pattern.longOption with
  | none => pattern
  | some longOption =>
      if optionsMap.contains [longOption] then
        { pattern with values := (optionsMap.getValues [longOption]).getD pattern.values }
      else pattern

/-! ## What the arguments hold -/

section Arguments

variable {commandLine : CommandLine} {args : PointerArray}

/-- The other arguments in the copy, if all of them end there. -/
def CommandLine.copiedArguments (commandLine : CommandLine) : Option (List String) :=
  commandLine.arguments.mapM Argv.copiedText

/-- The copies of the arguments. -/
private def copies (arguments : List String) : List Buffer :=
  arguments.map fun argument => argument.toList.takeD (min argument.length 256 + 1) NUL

private theorem CommandLine.ofArgv_eq_copies (commandLine : CommandLine) :
    Argv.ofArgv commandLine.argv =
      some ((copies (commandLine.binaryName :: commandLine.arguments)).map some ++ [none]) :=
  Argv.ofArgv_eq commandLine.plain

theorem CommandLine.exists_ofArgv (commandLine : CommandLine) :
    ∃ args, Argv.ofArgv commandLine.argv = some args :=
  ⟨_, commandLine.ofArgv_eq_copies⟩

theorem readString_copied {argument : String} (plain : NUL ∉ argument.toList) :
    readString (some (argument.toList.takeD (min argument.length 256 + 1) NUL)) =
      withinBounds (Argv.copiedText argument) := by
  rw [readString, Option.bind_some, Argv.text?_copied plain, Option.map_map]
  simp

theorem mapM_readString_copies {arguments : List String}
    (plain : ∀ argument ∈ arguments, NUL ∉ argument.toList) :
    ((copies arguments).map some).mapM readString =
      withinBounds (arguments.mapM Argv.copiedText) := by
  induction arguments with
  | nil => rfl
  | cons argument rest inductionHypothesis =>
      rcases List.forall_mem_cons.mp plain with ⟨plainArgument, plainRest⟩
      rw [copies, List.map_cons, List.map_cons, List.mapM_cons, readString_copied plainArgument,
        ← copies, inductionHypothesis plainRest, List.mapM_cons]
      cases Argv.copiedText argument with
      | none => rfl
      | some text =>
          cases rest.mapM Argv.copiedText with
          | none => rfl
          | some texts => rfl

theorem CommandLine.readArguments_eq (copied : Argv.ofArgv commandLine.argv = some args) :
    readArguments args = withinBounds commandLine.copiedArguments := by
  obtain rfl := Option.some.inj (commandLine.ofArgv_eq_copies.symm.trans copied)
  have sound := PointerArray.Terminated.sound
    ⟨copies (commandLine.binaryName :: commandLine.arguments), rfl⟩
  have counted : Argv.getArgc
      ((copies (commandLine.binaryName :: commandLine.arguments)).map some ++ [none]) =
        ((copies (commandLine.binaryName :: commandLine.arguments)).map some).length := by
    rw [Argv.getArgc]
    exact Nat.succ.inj (sound.count.trans List.length_append)
  have plain := (List.forall_mem_cons.mp commandLine.plain).2
  rw [readArguments, sound.data]
  dsimp only
  rw [counted, List.take_left]
  exact mapM_readString_copies plain

end Arguments

/-! ## What is read -/

section Reading

variable {descriptions : OptionDescriptions} {parsed : ParsedOptions}
variable {hardwareConcurrency : UInt32}

/-- The texts a value becomes in the variables. -/
def ParsedValue.texts : ParsedValue → SettingsValues
  | .flag isSet => [if isSet then "1" else "0"]
  | .value text => [text]
  | .values texts => texts

/-- The values that are stored have the types of the options. -/
def WellTyped (descriptions : OptionDescriptions) (parsed : ParsedOptions) : Prop :=
  ∀ (key : String) value option, parsed[key]? = some value →
    descriptions.options[key]? = some option → value.kind = option.kind

/-- What an option is given on the command line. -/
def given (descriptions : OptionDescriptions) (parsed : ParsedOptions) (key : String) :
    Option SettingsValues :=
  if key ∈ descriptions.options then parsed[key]?.map ParsedValue.texts else none

/-- Every key is there once at most. -/
def DistinctKeys (node : SettingsNode) : Prop := (node.values.getD []).Nodup

theorem DistinctKeys.cleared_clear {node : SettingsNode} (distinct : DistinctKeys node)
    (key : SettingsKey) : SettingsNode.Cleared node (node.clear [key]).2 [] key := by
  have once : node.HoldsAtMostOne [] key := by
    rw [SettingsNode.HoldsAtMostOne, SettingsNode.getValues_nil]
    exact List.nodup_iff_count_le_one.mp distinct key
  exact SettingsNode.cleared_clear once

theorem DistinctKeys.replaced {node : SettingsNode} (distinct : DistinctKeys node)
    (key : SettingsKey) (newValue : SettingsValues) :
    SettingsNode.Replaced node (node.replace [key] newValue) [] key newValue := by
  rw [SettingsNode.replace_eq]
  exact (distinct.cleared_clear key).add newValue

/-- The new values are plain. -/
theorem DistinctKeys.subtree_replace_self {node : SettingsNode} (distinct : DistinctKeys node)
    (key : SettingsKey) (newValue : SettingsValues) :
    (node.replace [key] newValue).subtree [key] = some (newValue.map .ofKey) := by
  have cleared := (distinct.cleared_clear key).not_contains []
  rw [List.nil_append, List.append_nil, SettingsNode.contains_cons] at cleared
  have missing : (node.clear [key]).2.at? key = none := by
    cases found : (node.clear [key]).2.at? key with
    | none => rfl
    | some child => simp [found] at cleared
  rw [SettingsNode.replace_eq, SettingsNode.subtree_singleton, SettingsNode.at?_add_self, missing]
  rfl

theorem DistinctKeys.replace {node : SettingsNode} (distinct : DistinctKeys node)
    (key : SettingsKey) (newValue : SettingsValues) :
    DistinctKeys (node.replace [key] newValue) := by
  have parent := (distinct.replaced key newValue).parent
  rw [SettingsNode.getValues_nil, SettingsNode.getValues_nil] at parent
  rw [DistinctKeys, parent, Option.getD_some, List.nodup_append]
  refine ⟨distinct.erase key, List.nodup_singleton key, ?_⟩
  intro other member last lastMember same
  rw [List.mem_singleton] at lastMember
  subst lastMember
  subst same
  exact distinct.not_mem_erase member

theorem DistinctKeys.getValues_replace {node : SettingsNode} (distinct : DistinctKeys node)
    (key other : SettingsKey) (newValue : SettingsValues) :
    (node.replace [key] newValue).getValues [other] =
      if other = key then some newValue else node.getValues [other] := by
  have replaced := distinct.replaced key newValue
  by_cases same : other = key
  · subst same
    rw [if_pos rfl]
    exact replaced.values
  · rw [if_neg same]
    apply replaced.elsewhere
    · simp [List.cons_prefix_cons, Ne.symm same]
    · simp
    · intro next rest split
      simp at split

theorem OptionDescription.yields_toMap {option : OptionDescription} {value : ParsedValue}
    (found : parsed[option.identifyingOption]? = some value) (sameKind : value.kind = option.kind)
    (variablesMap : VariablesMap) :
    Yields (option.toMap variablesMap parsed)
      (variablesMap.replace [option.identifyingOption] value.texts) := by
  unfold OptionDescription.toMap
  simp only [found, ← sameKind]
  cases value with
  | flag isSet => exact Yields.pure _
  | value text => exact Yields.pure _
  | values texts => exact Yields.pure _

/-- The variables after one round of the loop. -/
def OptionDescriptions.written (descriptions : OptionDescriptions) (variablesMap : VariablesMap)
    (entry : String × ParsedValue) : VariablesMap :=
  if entry.1 ∈ descriptions.options then variablesMap.replace [entry.1] entry.2.texts
  else variablesMap

theorem OptionDescriptions.yields_toMap (wellTyped : WellTyped descriptions parsed)
    (variablesMap : VariablesMap) :
    Yields (descriptions.toMap variablesMap parsed)
      (parsed.toList.foldl descriptions.written variablesMap) := by
  apply Yields.foldlM_of_mem
  rintro ⟨key, value⟩ member variablesMap
  have stored : parsed[key]? = some value := ExtTreeMap.mem_toList_iff_getElem?_eq_some.mp member
  simp only [OptionDescriptions.written, ExtTreeMap.mem_iff_isSome_getElem?]
  cases found : descriptions.options[key]? with
  | none => simpa using Yields.pure variablesMap
  | some option =>
      obtain rfl := descriptions.named key option found
      simpa using option.yields_toMap stored (wellTyped _ _ _ stored found) variablesMap

/-- Of the entries with a key the last one decides. -/
theorem OptionDescriptions.getValues_foldl_written {variablesMap : VariablesMap}
    (distinct : DistinctKeys variablesMap) (entries : List (String × ParsedValue)) :
    DistinctKeys (entries.foldl descriptions.written variablesMap) ∧
      ∀ key, (entries.foldl descriptions.written variablesMap).getValues [key] =
        (if key ∈ descriptions.options then
          ((FirstMatch.lookup Prod.fst key entries.reverse).map Prod.snd).map ParsedValue.texts
        else none).or (variablesMap.getValues [key]) := by
  induction entries generalizing variablesMap with
  | nil => exact ⟨distinct, fun key => by simp [FirstMatch.lookup]⟩
  | cons entry rest inductionHypothesis =>
      have first : DistinctKeys (descriptions.written variablesMap entry) ∧
          ∀ key, (descriptions.written variablesMap entry).getValues [key] =
            if key = entry.1 ∧ key ∈ descriptions.options then some entry.2.texts
            else variablesMap.getValues [key] := by
        rw [OptionDescriptions.written]
        by_cases described : entry.1 ∈ descriptions.options
        · rw [if_pos described]
          refine ⟨distinct.replace entry.1 _, fun key => ?_⟩
          rw [distinct.getValues_replace]
          by_cases own : key = entry.1
          · subst own
            simp [described]
          · simp [own]
        · rw [if_neg described]
          refine ⟨distinct, fun key => ?_⟩
          by_cases own : key = entry.1
          · subst own
            simp [described]
          · simp [own]
      obtain ⟨kept, later⟩ := inductionHypothesis first.1
      refine ⟨kept, fun key => ?_⟩
      rw [List.foldl_cons, later, first.2, List.reverse_cons, FirstMatch.lookup_append]
      by_cases described : key ∈ descriptions.options
      · cases FirstMatch.lookup Prod.fst key rest.reverse with
        | some last => simp [described]
        | none =>
            rw [FirstMatch.lookup_cons]
            by_cases own : key = entry.1
            · subst own
              simp [described]
            · simp [own, Ne.symm own, FirstMatch.lookup]
      · simp [described]

/-- What is given on the command line is read, and what is not keeps its value. -/
theorem OptionDescriptions.exists_yields_toMap (wellTyped : WellTyped descriptions parsed)
    {variablesMap : VariablesMap} (distinct : DistinctKeys variablesMap) :
    ∃ read, Yields (descriptions.toMap variablesMap parsed) read ∧
      ∀ key, read.getValues [key] =
        (given descriptions parsed key).or (variablesMap.getValues [key]) := by
  refine ⟨_, descriptions.yields_toMap wellTyped variablesMap, fun key => ?_⟩
  rw [(descriptions.getValues_foldl_written distinct _).2, OrderedMap.lookup_reverse_toList, given]

/-! ## What is described -/

/-- Of the options with a name the first one is kept. -/
theorem options_foldl_addOption (added : List OptionDescription)
    (descriptions : OptionDescriptions) :
    (added.foldl OptionDescriptions.addOption descriptions).options =
      OrderedMap.emplaceAll (added.map fun option => (option.identifyingOption, option))
        descriptions.options := by
  induction added generalizing descriptions with
  | nil => rfl
  | cons option rest inductionHypothesis =>
      rw [List.foldl_cons, inductionHypothesis]
      rfl

/-- An option that is described stays described, whatever the patterns add. -/
theorem OptionDescriptions.getElem?_addPatternOptions {key : String} {option : OptionDescription}
    (described : descriptions.options[key]? = some option) (patternOptions : List PatternOption) :
    (descriptions.addPatternOptions patternOptions).options[key]? = some option := by
  rw [addPatternOptions, options_foldl_addOption, OrderedMap.getElem?_emplaceAll, described,
    Option.some_or]

/-- The option of every pattern is described, if not in its own words. -/
theorem OptionDescriptions.mem_addPatternOptions {patternOptions : List PatternOption}
    {patternOption : PatternOption} (member : patternOption ∈ patternOptions) :
    patternOption.longOption ∈ (descriptions.addPatternOptions patternOptions).options := by
  rw [addPatternOptions, options_foldl_addOption, ExtTreeMap.mem_iff_isSome_getElem?,
    OrderedMap.getElem?_emplaceAll, Option.isSome_or, Option.isSome_map,
    Bool.or_eq_true, FirstMatch.lookup_isSome_iff]
  right
  simp only [List.map_map, List.mem_map]
  exact ⟨patternOption, member, rfl⟩

/-- The options of the program are described. -/
def OptionDescriptions.Extends (descriptions : OptionDescriptions) : Prop :=
  ∀ (key : String) option, getDefaultOptions.options[key]? = some option →
    descriptions.options[key]? = some option

theorem OptionDescriptions.extends_addPatternOptions (patternOptions : List PatternOption) :
    (getDefaultOptions.addPatternOptions patternOptions).Extends :=
  fun _ _ described => getElem?_addPatternOptions described patternOptions

/-- The kind of an option of the program. -/
def optionKind (key : String) : Option OptionKind :=
  getDefaultOptions.options[key]?.map OptionDescription.kind

/-! ## What the options say -/

/-- A flag is given. -/
def ParsedOptions.isSet (parsed : ParsedOptions) (key : String) : Bool :=
  match parsed[key]? with
  | some (.flag isSet) => isSet
  | _ => false

def ParsedOptions.text? (parsed : ParsedOptions) (key : String) : Option String :=
  match parsed[key]? with
  | some (.value text) => some text
  | _ => none

def ParsedOptions.texts (parsed : ParsedOptions) (key : String) : List String :=
  match parsed[key]? with
  | some (.values texts) => texts
  | _ => []

/-- The options that the command line asks for. -/
def ParsedOptions.allOptions (hardwareConcurrency : UInt32) (parsed : ParsedOptions) :
    AllOptions where
  verbosity := parsed.isSet VERBOSE_KEY
  dryRun := parsed.isSet DRY_RUN_KEY
  keepGoing := parsed.isSet KEEP_GOING_KEY
  jobs :=
    match parsed.text? JOBS_KEY with
    | none => hardwareConcurrency
    | some text =>
        if text = "auto" then hardwareConcurrency else (Cast.parseUInt32 text).getD 1
  commands := parsed.texts COMMAND_KEY
  help := parsed.isSet HELP_OPTION_KEY
  version := parsed.isSet VERSION_KEY
  logLevel := (parsed.text? LOG_LEVEL_KEY).getD "none"
  listPlugins := parsed.isSet LIST_PLUGINS_KEY
  appendSearchPaths := parsed.texts APPEND_SEARCH_PATH_KEY
  autocomplete := parsed.text? AUTO_COMPLETE_KEY

/-- The map holds what is given, over the default values. -/
structure IsRead (descriptions : OptionDescriptions) (parsed : ParsedOptions)
    (optionsMap : VariablesMap) : Prop where
  described : descriptions.Extends
  wellTyped : WellTyped descriptions parsed
  values : ∀ key, optionsMap.getValues [key] =
    (given descriptions parsed key).or (getDefault.getValues [key])

variable {optionsMap : VariablesMap} {key : String}

/-- An option of the program is given by a value of its kind. -/
theorem IsRead.given_eq (isRead : IsRead descriptions parsed optionsMap) {kind : OptionKind}
    (own : optionKind key = some kind) :
    (∃ value : ParsedValue, parsed[key]? = some value ∧ value.kind = kind ∧
        optionsMap.getValues [key] = some value.texts) ∨
      parsed[key]? = none ∧ optionsMap.getValues [key] = getDefault.getValues [key] := by
  obtain ⟨option, default, rfl⟩ := Option.map_eq_some_iff.mp own
  have described := isRead.described key option default
  have values := isRead.values key
  rw [given, if_pos (ExtTreeMap.mem_iff_isSome_getElem?.mpr (by simp [described]))] at values
  cases stored : parsed[key]? with
  | none =>
      rw [stored] at values
      exact Or.inr ⟨rfl, values⟩
  | some value =>
      rw [stored] at values
      exact Or.inl ⟨value, rfl, isRead.wellTyped key value option stored described, values⟩

theorem IsRead.getBool (isRead : IsRead descriptions parsed optionsMap)
    (own : optionKind key = some .flag) (default : getDefault.getValues [key] = some ["no"]) :
    (optionsMap.getBool [key]).getD false = parsed.isSet key := by
  rw [SettingsNode.getBool, SettingsNode.get_eq_getValues_bind, ParsedOptions.isSet]
  obtain ⟨value, stored, kind, values⟩ | ⟨stored, values⟩ := isRead.given_eq own
  · rw [values, stored]
    cases value with
    | flag isSet => cases isSet <;> rfl
    | value text => cases kind
    | values texts => cases kind
  · rw [values, stored, default]
    rfl

theorem IsRead.getString (isRead : IsRead descriptions parsed optionsMap)
    (own : optionKind key = some .value) :
    optionsMap.getString [key] = (parsed.text? key).or (getDefault.getString [key]) := by
  rw [SettingsNode.getString, SettingsNode.get_eq_getValues_bind, SettingsNode.getString,
    SettingsNode.get_eq_getValues_bind, ParsedOptions.text?]
  obtain ⟨value, stored, kind, values⟩ | ⟨stored, values⟩ := isRead.given_eq own
  · rw [values, stored]
    cases value with
    | flag isSet => cases kind
    | value text => rfl
    | values texts => cases kind
  · rw [values, stored, Option.none_or]

theorem IsRead.getValues (isRead : IsRead descriptions parsed optionsMap)
    (own : optionKind key = some .values) (default : getDefault.getValues [key] = some []) :
    (optionsMap.getValues [key]).getD [] = parsed.texts key := by
  rw [ParsedOptions.texts]
  obtain ⟨value, stored, kind, values⟩ | ⟨stored, values⟩ := isRead.given_eq own
  · rw [values, stored]
    cases value with
    | flag isSet => cases kind
    | value text => cases kind
    | values texts => rfl
  · rw [values, stored, default]
    rfl

theorem IsRead.readJobs_eq (isRead : IsRead descriptions parsed optionsMap) :
    readJobs hardwareConcurrency optionsMap =
      (parsed.allOptions hardwareConcurrency).jobs := by
  have jobs : optionsMap.getString [JOBS_KEY] = (parsed.text? JOBS_KEY).or (some "auto") :=
    isRead.getString rfl
  rw [readJobs, jobs, ParsedOptions.allOptions]
  cases parsed.text? JOBS_KEY with
  | none => rfl
  | some text => rfl

/-- The options that are read are those the command line asks for. -/
theorem IsRead.readOptions_eq (isRead : IsRead descriptions parsed optionsMap) :
    readOptions hardwareConcurrency optionsMap = parsed.allOptions hardwareConcurrency := by
  have logLevel : optionsMap.getString [LOG_LEVEL_KEY] =
      (parsed.text? LOG_LEVEL_KEY).or (some "none") := isRead.getString rfl
  have autocomplete : optionsMap.getString [AUTO_COMPLETE_KEY] =
      (parsed.text? AUTO_COMPLETE_KEY).or none := isRead.getString rfl
  have logLevels : (optionsMap.getString [LOG_LEVEL_KEY]).getD "warning" =
      (parsed.text? LOG_LEVEL_KEY).getD "none" := by
    rw [logLevel]
    cases parsed.text? LOG_LEVEL_KEY with
    | none => rfl
    | some text => rfl
  have help := isRead.getBool (by rfl) (by rfl : getDefault.getValues [HELP_OPTION_KEY] = _)
  have version := isRead.getBool (by rfl) (by rfl : getDefault.getValues [VERSION_KEY] = _)
  have verbosity := isRead.getBool (by rfl) (by rfl : getDefault.getValues [VERBOSE_KEY] = _)
  have dryRun := isRead.getBool (by rfl) (by rfl : getDefault.getValues [DRY_RUN_KEY] = _)
  have keepGoing := isRead.getBool (by rfl) (by rfl : getDefault.getValues [KEEP_GOING_KEY] = _)
  have listPlugins :=
    isRead.getBool (by rfl) (by rfl : getDefault.getValues [LIST_PLUGINS_KEY] = _)
  have commands := isRead.getValues (by rfl) (by rfl : getDefault.getValues [COMMAND_KEY] = _)
  have appendSearchPaths :=
    isRead.getValues (by rfl) (by rfl : getDefault.getValues [APPEND_SEARCH_PATH_KEY] = _)
  rw [Option.or_none] at autocomplete
  rw [readOptions, readFleetingOptions, help, version, verbosity, dryRun, keepGoing, listPlugins,
    commands, appendSearchPaths, logLevels, autocomplete, isRead.readJobs_eq]
  rfl

/-- The values of a pattern: those its option is given, those of an option of the program
with the same name, or its own. -/
def ParsedOptions.patternValues (parsed : ParsedOptions) (pattern : Pattern) : PatternValues :=
  (pattern.longOption.bind fun longOption =>
    (parsed[longOption]?.map ParsedValue.texts).or (getDefault.getValues [longOption])).getD
      pattern.values

theorem IsRead.overridePattern_eq (isRead : IsRead descriptions parsed optionsMap)
    (pattern : Pattern)
    (described : ∀ longOption, pattern.longOption = some longOption →
      longOption ∈ descriptions.options) :
    overridePattern optionsMap pattern =
      { pattern with values := parsed.patternValues pattern } := by
  obtain ⟨key, own, shortOption, longOption⟩ := pattern
  cases longOption with
  | none => rfl
  | some longOption =>
      have values := isRead.values longOption
      rw [given, if_pos (described longOption rfl)] at values
      simp only [overridePattern, ParsedOptions.patternValues, Option.bind_some, ← values]
      by_cases present : optionsMap.contains [longOption]
      · rw [if_pos present]
      · rw [if_neg present, SettingsNode.getValues_of_not_contains present, Option.getD_none]

theorem distinctKeys_getDefault : DistinctKeys getDefault := by
  rw [DistinctKeys]
  decide

/-- Where the library parses the arguments, the map is filled. -/
theorem OptionDescriptions.exists_isRead (parser : CommandLineParser)
    (extended : descriptions.Extends) {args : PointerArray} {arguments : List String}
    {allowUnregistered : Bool} (reads : readArguments args = pure arguments)
    (parses : parser.run descriptions allowUnregistered arguments = .ok parsed) :
    ∃ optionsMap, IsRead descriptions parsed optionsMap ∧
      Yields (descriptions.getOptionsMap parser getDefault args allowUnregistered)
        (some optionsMap) := by
  have wellTyped := parser.wellTyped descriptions allowUnregistered arguments parsed parses
  obtain ⟨read, yields, values⟩ := exists_yields_toMap wellTyped distinctKeys_getDefault
  refine ⟨read, ⟨extended, wellTyped, values⟩, ?_⟩
  rw [getOptionsMap, reads, pure_bind, parses]
  exact yields.bind (Yields.pure (some read))

theorem OptionDescriptions.getOptionsMap_of_error (parser : CommandLineParser)
    {args : PointerArray} {arguments : List String} {allowUnregistered : Bool}
    {reason : ParseError} (reads : readArguments args = pure arguments)
    (fails : parser.run descriptions allowUnregistered arguments = .error reason)
    (variablesMap : VariablesMap) :
    Yields (descriptions.getOptionsMap parser variablesMap args allowUnregistered) none := by
  rw [getOptionsMap, reads, pure_bind, fails]
  cases reason with
  | unknownOption what => exact (yields_userFeedbackError _).bind (Yields.pure none)
  | other what => exact Yields.pure none

/-- The descriptions for patterns from a settings file. -/
def patternDescriptions (patterns : Patterns) : OptionDescriptions :=
  (getDefaultOptions.addPatternOptions (patterns.filterMap patternOption)).setPositionalArgument
    commandOption

theorem mem_patternDescriptions {patterns : Patterns} {pattern : Pattern} {longOption : String}
    (member : pattern ∈ patterns) (named : pattern.longOption = some longOption) :
    longOption ∈ (patternDescriptions patterns).options := by
  have option : patternOption pattern = some ⟨longOption, pattern.shortOption,
      "Values for pattern '" ++ longOption ++ "'"⟩ := by
    rw [patternOption, named, Option.map_some]
  exact OptionDescriptions.mem_addPatternOptions
    (List.mem_filterMap.mpr ⟨pattern, member, option⟩)

theorem IsRead.map_overridePattern {patterns : Patterns}
    (isRead : IsRead (patternDescriptions patterns) parsed optionsMap) :
    patterns.map (overridePattern optionsMap) =
      patterns.map fun pattern => { pattern with values := parsed.patternValues pattern } := by
  apply List.map_congr_left
  intro pattern member
  exact isRead.overridePattern_eq pattern fun longOption named =>
    mem_patternDescriptions member named

/-- What the command line says reaches the options and the patterns of a run: where the
arguments are parsed, the options are those that are asked for, with the defaults for the
others, and a pattern has the values it is given.  No pattern changes an option of the
program, whatever name it has.  Of an argument with more than 256 characters the copy is
read beyond its end. -/
theorem handleConfiguration_reads (parser : CommandLineParser) (hardwareConcurrency : UInt32)
    (patterns : Patterns) (commandLine : CommandLine) :
    ∃ args, Argv.ofArgv commandLine.argv = some args ∧
      if ∀ argument ∈ commandLine.arguments, argument.length ≤ 256 then
        match parser.run (patternDescriptions patterns) false commandLine.arguments with
        | .error _ =>
            Yields (handleConfiguration parser
              (getDefaultOptions.addPatternOptions (patterns.filterMap patternOption)) args).run
              (.error "Could not properly parse the command line options")
        | .ok parsed => ∃ optionsMap,
            Yields (handleConfiguration parser
              (getDefaultOptions.addPatternOptions (patterns.filterMap patternOption)) args).run
              (.ok optionsMap) ∧
            readOptions hardwareConcurrency optionsMap = parsed.allOptions hardwareConcurrency ∧
            patterns.map (overridePattern optionsMap) =
              patterns.map fun pattern =>
                { pattern with values := parsed.patternValues pattern }
      else
        ∀ system, (handleConfiguration parser
          (getDefaultOptions.addPatternOptions (patterns.filterMap patternOption)) args).run
            system = .error .outOfBounds system := by
  obtain ⟨args, copies⟩ := commandLine.exists_ofArgv
  have read := CommandLine.readArguments_eq copies
  refine ⟨args, copies, ?_⟩
  by_cases short : ∀ argument ∈ commandLine.arguments, argument.length ≤ 256
  · have copied : commandLine.copiedArguments = some commandLine.arguments :=
      Argv.mapM_copiedText_eq_some_iff.mpr ⟨short, rfl⟩
    rw [copied] at read
    rw [if_pos short]
    cases parses : parser.run (patternDescriptions patterns) false commandLine.arguments with
    | error reason =>
        intro system
        obtain ⟨final, ran⟩ :=
          OptionDescriptions.getOptionsMap_of_error parser read parses getDefault system
        exact ⟨final, run_bind_of_ok (run_liftM_of_ok ran)⟩
    | ok parsed =>
        have extended : (patternDescriptions patterns).Extends :=
          OptionDescriptions.extends_addPatternOptions _
        obtain ⟨optionsMap, isRead, yields⟩ :=
          OptionDescriptions.exists_isRead parser extended read parses
        refine ⟨optionsMap, ?_, isRead.readOptions_eq, isRead.map_overridePattern⟩
        intro system
        obtain ⟨final, ran⟩ := yields system
        exact ⟨final, run_bind_of_ok (run_liftM_of_ok ran)⟩
  · have copied : commandLine.copiedArguments = none := by
      rw [CommandLine.copiedArguments, Argv.mapM_copiedText_eq_none_iff]
      simpa using short
    rw [copied] at read
    rw [if_neg short]
    intro system
    rw [handleConfiguration, OptionDescriptions.getOptionsMap, read]
    rfl

/-- A build in another mode, after which the program goes on. -/
def buildCommandLine : CommandLine where
  binaryName := "exec-helper"
  arguments := ["build", "--mode", "debug", "--keep-going"]
  plain := by decide

/-- One pattern has an option of its own, one that of the program, and one none. -/
def buildPatterns : Patterns :=
  [⟨"MODE", ["release"], none, some "mode"⟩, ⟨"TARGET", ["all"], none, some "jobs"⟩,
    ⟨"ARCHITECTURE", ["x86"], none, none⟩]

theorem handleConfiguration_reads_build :
    ∃ args optionsMap, Argv.ofArgv buildCommandLine.argv = some args ∧
      Yields (handleConfiguration longNameParser
        (getDefaultOptions.addPatternOptions (buildPatterns.filterMap patternOption)) args).run
        (.ok optionsMap) ∧
      readOptions 8 optionsMap =
        { verbosity := false, dryRun := false, keepGoing := true, jobs := 8,
          commands := ["build"], help := false, version := false, logLevel := "none",
          listPlugins := false, appendSearchPaths := [], autocomplete := none } ∧
      buildPatterns.map (overridePattern optionsMap) =
        [⟨"MODE", ["debug"], none, some "mode"⟩, ⟨"TARGET", ["auto"], none, some "jobs"⟩,
          ⟨"ARCHITECTURE", ["x86"], none, none⟩] := by
  obtain ⟨args, copied, reads⟩ :=
    handleConfiguration_reads longNameParser 8 buildPatterns buildCommandLine
  rw [if_pos (by decide)] at reads
  have words : occurrences (patternDescriptions buildPatterns) false none
      buildCommandLine.arguments =
        .ok [("command", some "build"), ("mode", some "debug"), ("keep-going", none)] := by rfl
  have parses : longNameParser.run (patternDescriptions buildPatterns) false
      buildCommandLine.arguments = .ok ((patternDescriptions buildPatterns).options.filterMap
        fun _ option => option.stored
          [("command", some "build"), ("mode", some "debug"), ("keep-going", none)]) := by
    simp only [longNameParser, words]
    rfl
  rw [parses] at reads
  obtain ⟨optionsMap, yields, options, patterns⟩ := reads
  refine ⟨args, optionsMap, copied, yields, options.trans ?_, patterns.trans ?_⟩
  · decide +kernel
  · decide +kernel

end Reading

end ExecHelper.Applications
