import ExecHelper.Config.SettingsAdd
import ExecHelper.Plugins.LuaPlugin

/-!
# The number of jobs

The text of the `jobs` option becomes a number when the options are read, is checked to be
strictly positive, is written into the variables of a plugin as a text again, and is read
from there once more.  Both times the text is read by a lexical cast to an unsigned number,
which also takes a minus sign and goes on modulo `2 ^ 32`.
-/

namespace ExecHelper.Applications

open ExecHelper.Config
open ExecHelper.Core
open ExecHelper.Library
open ExecHelper.Plugins

/-! ## The options -/

def VERBOSE_KEY : SettingsKey := "verbose"
def DRY_RUN_KEY : SettingsKey := "dry-run"
def KEEP_GOING_KEY : SettingsKey := "keep-going"
def COMMAND_KEY : SettingsKey := "command"

/-- The number of jobs that are asked for: as many as the machine runs at once for `auto`,
and one for a text that is no number. -/
def readJobs (hardwareConcurrency : UInt32) (optionsMap : VariablesMap) : UInt32 :=
  let jobs := (optionsMap.getString [JOBS_KEY]).getD "auto"
  if jobs = "auto" then hardwareConcurrency else (Cast.parseUInt32 jobs).getD 1

/-- Read the options of an invocation (`FleetingOptions(const VariablesMap&)`). -/
def readFleetingOptions (hardwareConcurrency : UInt32) (optionsMap : VariablesMap) :
    FleetingOptions where
  verbosity := (optionsMap.getBool [VERBOSE_KEY]).getD false
  dryRun := (optionsMap.getBool [DRY_RUN_KEY]).getD false
  keepGoing := (optionsMap.getBool [KEEP_GOING_KEY]).getD false
  jobs := readJobs hardwareConcurrency optionsMap
  commands := (optionsMap.getValues [COMMAND_KEY]).getD []

/-- Check the options. A failure comes with what the user is told. -/
def verifyOptions (options : FleetingOptions) : Except String Unit :=
  if options.jobs = 0 then
    .error ("Invalid value passed for the number of jobs (0): " ++
      "it must be strictly positive.")
  else .ok ()

/-! ## What a text denotes -/

/-- The number that is written with decimal digits. -/
def digitsValue (characters : List Char) : Option Nat :=
  if characters.isEmpty || !characters.all Char.isDigit then none
  else some (Nat.ofDigitChars 10 characters 0)

/-- The number a text denotes in decimal. -/
def decimalValue (text : String) : Option Nat :=
  match text.toList with
  | '+' :: rest => digitsValue rest
  | rest => digitsValue rest

/-- The number of jobs a text stands for. -/
def denotedJobs (hardwareConcurrency : UInt32) (text : String) : Nat :=
  if text = "auto" then hardwareConcurrency.toNat
  else
    match decimalValue text with
    | some number => if 0 < number ∧ number < 2 ^ 32 then number else 1
    | none => 1

/-- The text is a minus sign before a number, and the number that is left of `2 ^ 32` is
none that is allowed by chance. -/
def Wraps (text : String) : Prop :=
  ∃ digits number, text.toList = '-' :: digits ∧ digitsValue digits = some number ∧
    0 < number ∧ number < 2 ^ 32 - 1

/-- The number as an unsigned 32-bit value, if it fits. -/
def narrow (number : Nat) : Option UInt32 :=
  if number < 2 ^ 32 then some (UInt32.ofNat number) else none

theorem parseUInt32_eq (text : String) :
    Cast.parseUInt32 text =
      match text.toList with
      | '-' :: rest => ((digitsValue rest).bind narrow).map fun number => -number
      | '+' :: rest => (digitsValue rest).bind narrow
      | rest => (digitsValue rest).bind narrow := by
  have digits : ∀ characters : List Char,
      (if characters.isEmpty || !characters.all Char.isDigit then none
      else
        let number := characters.foldl
          (fun number digit => number * 10 + (digit.toNat - '0'.toNat)) 0
        if number < 2 ^ 32 then some (UInt32.ofNat number) else none) =
        (digitsValue characters).bind narrow := by
    intro characters
    rw [digitsValue, Nat.ofDigitChars_eq_foldl]
    simp only [Nat.mul_comm 10]
    split
    · rfl
    · rw [Option.bind_some, narrow]
  simp only [← digits]
  rfl

/-- A number is written without a sign. -/
theorem isDigit_of_toDigits {number : Nat} {first : Char} {rest : List Char}
    (digits : Nat.toDigits 10 number = first :: rest) : first.isDigit = true := by
  have member : first ∈ Nat.toDigits 10 number := by
    rw [digits]
    exact List.mem_cons_self
  exact Nat.isDigit_of_mem_toDigits (by decide) (by decide) member

/-- A number that is written out is read back. -/
theorem parseUInt32_toString (number : UInt32) :
    Cast.parseUInt32 (toString number.toNat) = some number := by
  have valid : digitsValue (Nat.toDigits 10 number.toNat) = some number.toNat := by
    rw [digitsValue, if_neg, Nat.ofDigitChars_ten_toDigits]
    simp only [Bool.or_eq_true, List.isEmpty_iff, Bool.not_eq_true', List.all_eq_false, not_or]
    constructor
    · exact Nat.toDigits_ne_nil
    · intro wrong
      obtain ⟨character, member, noDigit⟩ := wrong
      exact noDigit (Nat.isDigit_of_mem_toDigits (by decide) (by decide) member)
  have fits : narrow number.toNat = some number := by
    rw [narrow, if_pos number.toNat_lt, UInt32.ofNat_toNat]
  rw [parseUInt32_eq, Nat.toString_eq_repr, Nat.toList_repr]
  split
  next rest digits => exact absurd (isDigit_of_toDigits digits) (by decide)
  next rest digits => exact absurd (isDigit_of_toDigits digits) (by decide)
  next => rw [valid, Option.bind_some, fits]

/-- What the plugins get is what the options say. -/
theorem jobs_getVariablesMap (fleetingOptions : FleetingOptions) :
    LuaPlugin.jobs (LuaPlugin.getVariablesMap fleetingOptions) =
      pure fleetingOptions.jobs := by
  have written : (LuaPlugin.getVariablesMap fleetingOptions).getValues [JOBS_KEY] =
      some [toString fleetingOptions.jobs.toNat] := by
    rw [LuaPlugin.getVariablesMap, SettingsNode.getValues_add_self,
      SettingsNode.getValues_add_of_ne, SettingsNode.getValues_ofKey]
    · rfl
    · decide
    · intro key rest path
      exact absurd (congrArg List.length path) (by simp)
  rw [LuaPlugin.jobs, written]
  simp only [Option.bind_some, List.getLast?_singleton, parseUInt32_toString]

/-! ## What is received -/

/-- A number without a minus sign is the number it denotes. -/
theorem narrow_denotes (value : Option Nat) :
    (value.bind narrow).getD 1 ≠ 0 →
      ((value.bind narrow).getD 1).toNat =
        match value with
        | some number => if 0 < number ∧ number < 2 ^ 32 then number else 1
        | none => 1 := by
  intro allowed
  cases value with
  | none => rfl
  | some number =>
      rw [Option.bind_some, narrow] at allowed ⊢
      dsimp only
      by_cases fits : number < 2 ^ 32
      · rw [if_pos fits, Option.getD_some] at allowed ⊢
        have positive : 0 < number := by
          rcases Nat.eq_zero_or_pos number with rfl | positive
          · exact absurd rfl allowed
          · exact positive
        rw [if_pos ⟨positive, fits⟩, UInt32.toNat_ofNat_of_lt' fits]
      · rw [if_neg fits, if_neg fun both => fits both.2]
        rfl

/-- A number with a minus sign is the default only if it is too large, or by chance. -/
theorem negated_denotes_iff (value : Option Nat) :
    (((value.bind narrow).map fun number => -number).getD 1 ≠ 0 →
        (((value.bind narrow).map fun number => -number).getD 1).toNat = 1) ↔
      ¬∃ number, value = some number ∧ 0 < number ∧ number < 2 ^ 32 - 1 := by
  cases value with
  | none => simp
  | some number =>
      rw [Option.bind_some, narrow]
      by_cases fits : number < 2 ^ 32
      · have size : (-UInt32.ofNat number).toNat = (2 ^ 32 - number) % 2 ^ 32 := by
          rw [UInt32.toNat_neg, UInt32.toNat_ofNat_of_lt' fits]
          rfl
        have exists_iff : (∃ other, some number = some other ∧ 0 < other ∧
            other < 2 ^ 32 - 1) ↔ 0 < number ∧ number < 2 ^ 32 - 1 := by
          constructor
          · rintro ⟨_, ⟨⟩, bounds⟩
            exact bounds
          · exact fun bounds => ⟨number, rfl, bounds⟩
        have limit : 2 ^ 32 = 4294967296 := by decide
        rw [if_pos fits, Option.map_some, Option.getD_some, Ne, ← UInt32.toNat_inj, size,
          exists_iff, UInt32.toNat_zero]
        rw [limit] at fits ⊢
        omega
      · rw [if_neg fits]
        apply iff_of_true (fun _ => rfl)
        rintro ⟨_, ⟨⟩, _, bound⟩
        omega

variable {hardwareConcurrency : UInt32} {optionsMap : VariablesMap} {text : String}

theorem verifyOptions_eq_ok_iff {options : FleetingOptions} :
    verifyOptions options = .ok () ↔ options.jobs ≠ 0 := by
  rw [verifyOptions]
  split
  next zero => simp [zero]
  next positive => simp [positive]

theorem decimalValue_of_negative {digits : List Char} (negative : text.toList = '-' :: digits) :
    decimalValue text = none := by
  have noDigits : digitsValue text.toList = none := by
    rw [digitsValue, negative]
    exact if_pos rfl
  rw [decimalValue]
  split
  next rest positive =>
    rw [negative] at positive
    exact absurd (List.cons.inj positive).1 (by decide)
  next => exact noDigits

theorem not_wraps_of_head {first : Char} {rest : List Char}
    (starts : text.toList = first :: rest) (unsigned : first ≠ '-') : ¬Wraps text := by
  intro wraps
  obtain ⟨digits, _, negative, _⟩ := wraps
  rw [starts] at negative
  exact unsigned (List.cons.inj negative).1

/-- A text that starts with a minus sign wraps with the number after it. -/
theorem wraps_iff_of_negative {digits : List Char} (negative : text.toList = '-' :: digits) :
    Wraps text ↔
      ∃ number, digitsValue digits = some number ∧ 0 < number ∧ number < 2 ^ 32 - 1 := by
  constructor
  · intro wraps
    obtain ⟨others, number, same, value, bounds⟩ := wraps
    rw [negative] at same
    rw [← (List.cons.inj same).2] at value
    exact ⟨number, value, bounds⟩
  · intro wraps
    obtain ⟨number, value, bounds⟩ := wraps
    exact ⟨digits, number, negative, value, bounds⟩

/-- The number of jobs is the one the text stands for, unless a minus sign wraps it. -/
theorem readJobs_denotes_iff (given : optionsMap.getString [JOBS_KEY] = some text) :
    (readJobs hardwareConcurrency optionsMap ≠ 0 →
        (readJobs hardwareConcurrency optionsMap).toNat =
          denotedJobs hardwareConcurrency text) ↔ ¬Wraps text := by
  rw [readJobs, given, Option.getD_some, denotedJobs]
  by_cases auto : text = "auto"
  · rw [if_pos auto, if_pos auto]
    apply iff_of_true (fun _ => rfl)
    rw [auto]
    exact not_wraps_of_head rfl (by decide)
  · rw [if_neg auto, if_neg auto, parseUInt32_eq]
    split
    next digits negative =>
      rw [decimalValue_of_negative negative, negated_denotes_iff,
        wraps_iff_of_negative negative]
    next digits positive =>
      have denoted : decimalValue text = digitsValue digits := by
        rw [decimalValue, positive]
        rfl
      rw [denoted]
      exact iff_of_true (narrow_denotes _) (not_wraps_of_head positive (by decide))
    next noMinus noPlus =>
      have denoted : decimalValue text = digitsValue text.toList := by
        rw [decimalValue]
        split
        next digits positive => exact absurd positive (noPlus digits)
        next => rfl
      rw [denoted]
      apply iff_of_true (narrow_denotes _)
      intro wraps
      obtain ⟨digits, _, negative, _⟩ := wraps
      exact noMinus digits negative

/-- Where the options are accepted, a plugin gets the number of jobs the text stands for,
exactly when the text is not a minus sign before a number that wraps. -/
theorem jobs_denotes_iff (hardwareConcurrency : UInt32) (optionsMap : VariablesMap)
    (text : String) (given : optionsMap.getString [JOBS_KEY] = some text) :
    (verifyOptions (readFleetingOptions hardwareConcurrency optionsMap) = .ok () →
        ∃ received, LuaPlugin.jobs (LuaPlugin.getVariablesMap
            (readFleetingOptions hardwareConcurrency optionsMap)) = pure received ∧
          received.toNat = denotedJobs hardwareConcurrency text) ↔
      ¬Wraps text := by
  rw [verifyOptions_eq_ok_iff, ← readJobs_denotes_iff given, jobs_getVariablesMap]
  apply imp_congr_right
  intro _
  constructor
  · intro answer
    obtain ⟨received, same, denoted⟩ := answer
    have received_eq := Program.pure.inj same
    rw [← received_eq] at denoted
    exact denoted
  · exact fun denoted => ⟨_, rfl, denoted⟩

/-- The options of a command line with this number of jobs. -/
def jobsOptions (text : String) : VariablesMap :=
  (SettingsNode.ofKey "exec-helper").add [JOBS_KEY] [text]

/-- Eight jobs are eight jobs. -/
theorem jobs_denotes_iff_eight :
    ∃ received, LuaPlugin.jobs (LuaPlugin.getVariablesMap
        (readFleetingOptions 4 (jobsOptions "8"))) = pure received ∧
      received.toNat = denotedJobs 4 "8" := by
  apply (jobs_denotes_iff 4 (jobsOptions "8") "8" (by decide)).mpr
  · exact not_wraps_of_head rfl (by decide)
  · decide

/-- The option `--jobs=-1` is accepted, and asks for `2 ^ 32 - 1` jobs. -/
theorem jobs_denotes_counterexample :
    ¬∀ (hardwareConcurrency : UInt32) (optionsMap : VariablesMap) (text : String),
        optionsMap.getString [JOBS_KEY] = some text →
        verifyOptions (readFleetingOptions hardwareConcurrency optionsMap) = .ok () →
        ∃ received, LuaPlugin.jobs (LuaPlugin.getVariablesMap
            (readFleetingOptions hardwareConcurrency optionsMap)) = pure received ∧
          received.toNat = denotedJobs hardwareConcurrency text := by
  intro claimed
  obtain ⟨received, same, denoted⟩ :=
    claimed 4 (jobsOptions "-1") "-1" (by decide) (by decide)
  have one : denotedJobs 4 "-1" = 1 := by
    rw [denotedJobs, if_neg (by decide), decimalValue_of_negative rfl]
  have many : (readFleetingOptions 4 (jobsOptions "-1")).jobs = -1 := by
    have read : (jobsOptions "-1").getString [JOBS_KEY] = some "-1" := by decide
    rw [readFleetingOptions, readJobs, read, Option.getD_some, if_neg (by decide)]
    rfl
  rw [jobs_getVariablesMap, many] at same
  rw [← Program.pure.inj same, one] at denoted
  cases denoted

end ExecHelper.Applications
