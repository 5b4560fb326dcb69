import Mathlib.Data.List.TakeWhile
import Mathlib.Logic.Relation

/-!
# Placeholders

A text holds placeholders: a name between an opening and a closing symbol.
Substituting goes over the text once from the left and never looks at what it
has put in.  Texts in which no placeholder opens inside another one are the
texts in which substituting in several passes is the same as substituting once,
provided that what is put in opens no placeholder itself.  In any text, several
passes replace one placeholder after the other.
-/

namespace ExecHelper.Library.Placeholder

variable {γ : Type}

/-! ## Flat texts -/

/-- No placeholder opens inside one that is closed later. -/
def Unnested (opening closing : γ) (text : List γ) : Prop :=
  ∀ before middle after,
    text = before ++ opening :: (middle ++ opening :: after) → closing ∈ after →
      closing ∈ middle

/-- The same, along the text: a symbol that opens nothing, a complete placeholder
with nothing opened in its name, or a rest in which nothing is closed. -/
inductive Flat (opening closing : γ) : List γ → Prop where
  | unclosed {text : List γ} : closing ∉ text → Flat opening closing text
  | literal {symbol : γ} {rest : List γ} :
      symbol ≠ opening → Flat opening closing rest → Flat opening closing (symbol :: rest)
  | placeholder {name rest : List γ} :
      opening ∉ name → closing ∉ name → Flat opening closing rest →
      Flat opening closing (opening :: (name ++ closing :: rest))

section Flat

variable {opening closing : γ} {text plain rest : List γ}

theorem Flat.append (unopened : opening ∉ plain) (flat : Flat opening closing rest) :
    Flat opening closing (plain ++ rest) := by
  induction plain with
  | nil => exact flat
  | cons symbol plain inductionHypothesis =>
      have different := List.ne_of_not_mem_cons unopened
      have restUnopened := List.not_mem_of_not_mem_cons unopened
      exact Flat.literal (Ne.symm different) (inductionHypothesis restUnopened)

theorem Unnested.of_append (front : List γ)
    (unnested : Unnested opening closing (front ++ rest)) : Unnested opening closing rest := by
  intro before middle after split
  apply unnested (front ++ before) middle after
  rw [split, List.append_assoc]

/-- The name of a placeholder is where the first closing symbol ends it. -/
theorem Unnested.name {name : List γ}
    (unnested : Unnested opening closing (opening :: (name ++ closing :: rest)))
    (unclosed : closing ∉ name) : opening ∉ name := by
  intro opened
  rcases List.append_of_mem opened with ⟨middle, after, rfl⟩
  apply unclosed
  have closed := unnested [] middle (after ++ closing :: rest) (by simp) (by simp)
  exact List.mem_append_left _ closed

/-- A text without nested placeholders is flat: its first opening symbol starts a
complete placeholder, or nothing is closed any more. -/
theorem flat_of_unnested (distinct : opening ≠ closing)
    (unnested : Unnested opening closing text) : Flat opening closing text := by
  induction lengths : text.length using Nat.strong_induction_on generalizing text with
  | h size inductionHypothesis =>
      subst lengths
      cases text with
      | nil => exact Flat.unclosed (by simp)
      | cons symbol rest =>
          by_cases opens : symbol = opening
          · subst opens
            by_cases closed : closing ∈ rest
            · rcases List.eq_append_cons_of_mem closed with ⟨name, after, rfl, unclosed⟩
              have shorter : after.length < (symbol :: (name ++ closing :: after)).length := by
                simp
                omega
              have afterUnnested : Unnested symbol closing after := by
                apply Unnested.of_append (symbol :: (name ++ [closing]))
                simpa using unnested
              exact Flat.placeholder (unnested.name unclosed) unclosed
                (inductionHypothesis after.length shorter afterUnnested rfl)
            · exact Flat.unclosed (by simp [closed, Ne.symm distinct])
          · exact Flat.literal opens
              (inductionHypothesis rest.length (by simp) (Unnested.of_append [symbol] unnested) rfl)

theorem unnested_of_count [BEq γ] [LawfulBEq γ] (once : text.count opening ≤ 1) :
    Unnested opening closing text := by
  intro before middle after split closed
  rw [split] at once
  simp only [List.count_append, List.count_cons_self] at once
  omega

end Flat

/-! ## Substituting -/

section Substitute

variable [DecidableEq γ]

/-- The name of a placeholder that has just been opened, if it is closed at all. -/
def name? (closing : γ) (text : List γ) : Option (List γ) :=
  if closing ∈ text then some (text.takeWhile fun symbol => symbol ≠ closing) else none

/-- Substitute in what is left of the text after the symbols to skip. -/
def substituteFrom (opening closing : γ) (value : List γ → Option (List γ)) :
    Nat → List γ → List γ
  | _, [] => []
  | skip + 1, _ :: rest => substituteFrom opening closing value skip rest
  | 0, symbol :: rest =>
      match if symbol = opening then name? closing rest else none with
      | none => symbol :: substituteFrom opening closing value 0 rest
      | some name =>
          match value name with
          | none => symbol :: substituteFrom opening closing value 0 rest
          | some new => new ++ substituteFrom opening closing value (name.length + 1) rest

/-- Replace every placeholder whose name has a value by that value, in one pass from
the left. -/
def substitute (opening closing : γ) (value : List γ → Option (List γ)) (text : List γ) :
    List γ :=
  substituteFrom opening closing value 0 text

variable {opening closing : γ} {value further : List γ → Option (List γ)}
variable {name text plain rest : List γ}

theorem name?_of_closed (unclosed : closing ∉ name) (rest : List γ) :
    name? closing (name ++ closing :: rest) = some name := by
  have members : ∀ symbol ∈ name, symbol ≠ closing := by
    rintro symbol member rfl
    exact unclosed member
  rw [name?, if_pos (by simp),
    List.takeWhile_append_of_pos (by simpa using members),
    List.takeWhile_cons_of_neg (by simp), List.append_nil]

/-- The text starts with the name and the symbol that closes it. -/
theorem name?_eq_some_iff (unclosed : closing ∉ name) :
    name? closing text = some name ↔ name ++ [closing] <+: text := by
  constructor
  · intro named
    have closed : closing ∈ text := by
      by_contra missing
      simp [name?, missing] at named
    rcases List.eq_append_cons_of_mem closed with ⟨front, after, rfl, frontUnclosed⟩
    rw [name?_of_closed frontUnclosed] at named
    rcases Option.some.inj named with rfl
    exact ⟨after, by simp⟩
  · rintro ⟨after, rfl⟩
    rw [List.append_assoc, List.singleton_append]
    exact name?_of_closed unclosed after

/-- What follows the skipped symbols is substituted in. -/
theorem substituteFrom_eq (skip : Nat) (text : List γ) :
    substituteFrom opening closing value skip text =
      substitute opening closing value (text.drop skip) := by
  induction text generalizing skip with
  | nil => simp [substitute, substituteFrom]
  | cons symbol rest inductionHypothesis =>
      cases skip with
      | zero => rfl
      | succ skip =>
          rw [substituteFrom, List.drop_succ_cons]
          exact inductionHypothesis skip

theorem substitute_cons_of_ne {symbol : γ} (different : symbol ≠ opening) (rest : List γ) :
    substitute opening closing value (symbol :: rest) =
      symbol :: substitute opening closing value rest := by
  rw [substitute, substituteFrom, if_neg different]
  rfl

theorem substitute_of_unclosed (unclosed : closing ∉ text) :
    substitute opening closing value text = text := by
  induction text with
  | nil => rfl
  | cons symbol rest inductionHypothesis =>
      have restUnclosed := List.not_mem_of_not_mem_cons unclosed
      have unnamed : (if symbol = opening then name? closing rest else none) = none := by
        simp [name?, restUnclosed]
      rw [substitute, substituteFrom, unnamed]
      exact congrArg _ (inductionHypothesis restUnclosed)

/-- Without any values nothing happens. -/
theorem substitute_none (text : List γ) :
    substitute opening closing (fun _ => none) text = text := by
  induction text with
  | nil => rfl
  | cons symbol rest inductionHypothesis =>
      rw [substitute, substituteFrom]
      cases if symbol = opening then name? closing rest else none with
      | none => exact congrArg _ inductionHypothesis
      | some name => exact congrArg _ inductionHypothesis

/-- Nothing happens before the first opening symbol. -/
theorem substitute_append (unopened : opening ∉ plain) (rest : List γ) :
    substitute opening closing value (plain ++ rest) =
      plain ++ substitute opening closing value rest := by
  induction plain with
  | nil => rfl
  | cons symbol plain inductionHypothesis =>
      have different := List.ne_of_not_mem_cons unopened
      have restUnopened := List.not_mem_of_not_mem_cons unopened
      rw [List.cons_append, substitute_cons_of_ne (Ne.symm different),
        inductionHypothesis restUnopened, List.cons_append]

/-- A placeholder becomes the value of its name or stays as it is. -/
theorem substitute_placeholder (distinct : opening ≠ closing) (unopened : opening ∉ name)
    (unclosed : closing ∉ name) (rest : List γ) :
    substitute opening closing value (opening :: (name ++ closing :: rest)) =
      (value name).getD (opening :: (name ++ [closing])) ++
        substitute opening closing value rest := by
  rw [substitute, substituteFrom, if_pos rfl, name?_of_closed unclosed]
  cases defined : value name with
  | some new =>
      have skipped : (name ++ closing :: rest).drop (name.length + 1) = rest := by
        rw [← List.drop_drop, List.drop_left]
        rfl
      simp only [defined, substituteFrom_eq, skipped, Option.getD_some]
  | none =>
      have passed : substitute opening closing value (name ++ closing :: rest) =
          name ++ closing :: substitute opening closing value rest := by
        rw [substitute_append unopened, substitute_cons_of_ne (Ne.symm distinct)]
      simp only [defined, substituteFrom_eq, List.drop_zero, passed]
      simp

/-- What is put in opens no placeholder. -/
def Plain (opening : γ) (value : List γ → Option (List γ)) : Prop :=
  ∀ name new, value name = some new → opening ∉ new

theorem Flat.substitute (distinct : opening ≠ closing) (plain : Plain opening value)
    (flat : Flat opening closing text) :
    Flat opening closing (Placeholder.substitute opening closing value text) := by
  induction flat with
  | unclosed missing =>
      rw [substitute_of_unclosed missing]
      exact Flat.unclosed missing
  | literal different flat inductionHypothesis =>
      rw [substitute_cons_of_ne different]
      exact Flat.literal different inductionHypothesis
  | @placeholder name rest unopened unclosed flat inductionHypothesis =>
      rw [substitute_placeholder distinct unopened unclosed]
      cases defined : value name with
      | some new => exact Flat.append (plain name new defined) inductionHypothesis
      | none =>
          rw [Option.getD_none, List.cons_append, List.append_assoc]
          exact Flat.placeholder unopened unclosed inductionHypothesis

/-- A row of placeholders whose values are empty, and nothing else. -/
inductive Vanishing (opening closing : γ) (value : List γ → Option (List γ)) :
    List γ → Prop where
  | nil : Vanishing opening closing value []
  | placeholder {name rest : List γ} :
      closing ∉ name → value name = some [] → Vanishing opening closing value rest →
      Vanishing opening closing value (opening :: (name ++ closing :: rest))

theorem vanishing_placeholder_iff (unclosed : closing ∉ name) :
    Vanishing opening closing value (opening :: (name ++ closing :: rest)) ↔
      value name = some [] ∧ Vanishing opening closing value rest := by
  constructor
  · intro row
    generalize same : opening :: (name ++ closing :: rest) = text at row
    cases row with
    | nil => exact absurd same (List.cons_ne_nil _ _)
    | @placeholder first further firstUnclosed empty vanishing =>
        have split := (List.cons.inj same).2
        have named := name?_of_closed unclosed rest
        rw [split, name?_of_closed firstUnclosed] at named
        rcases Option.some.inj named with rfl
        rcases (List.cons.inj (List.append_cancel_left split)).2 with rfl
        exact ⟨empty, vanishing⟩
  · rintro ⟨empty, vanishing⟩
    exact Vanishing.placeholder unclosed empty vanishing

/-- Nothing is left of a flat text exactly when it is such a row. -/
theorem Flat.substitute_eq_nil_iff (distinct : opening ≠ closing)
    (flat : Flat opening closing text) :
    Placeholder.substitute opening closing value text = [] ↔
      Vanishing opening closing value text := by
  induction flat with
  | @unclosed text missing =>
      rw [substitute_of_unclosed missing]
      constructor
      · rintro rfl
        exact Vanishing.nil
      · intro row
        cases row with
        | nil => rfl
        | placeholder _ _ _ => simp at missing
  | literal different flat inductionHypothesis =>
      rw [substitute_cons_of_ne different]
      constructor
      · intro nothing
        exact absurd nothing (List.cons_ne_nil _ _)
      · intro row
        cases row with
        | placeholder _ _ _ => exact absurd rfl different
  | placeholder unopened unclosed flat inductionHypothesis =>
      rw [substitute_placeholder distinct unopened unclosed, List.append_eq_nil_iff,
        inductionHypothesis, vanishing_placeholder_iff unclosed, and_congr_left_iff]
      intro _
      cases value _ with
      | none => simp
      | some new => simp

/-- Two passes over a flat text are one pass in which the first substitution wins. -/
theorem substitute_substitute (distinct : opening ≠ closing) (plain : Plain opening value)
    (flat : Flat opening closing text) :
    substitute opening closing further (substitute opening closing value text) =
      substitute opening closing (fun name => (value name).or (further name)) text := by
  induction flat with
  | unclosed missing => simp only [substitute_of_unclosed missing]
  | literal different flat inductionHypothesis =>
      simp only [substitute_cons_of_ne different, inductionHypothesis]
  | @placeholder name rest unopened unclosed flat inductionHypothesis =>
      rw [substitute_placeholder distinct unopened unclosed,
        substitute_placeholder distinct unopened unclosed]
      cases defined : value name with
      | some new =>
          rw [Option.getD_some, substitute_append (plain name new defined), inductionHypothesis]
          rfl
      | none =>
          rw [Option.getD_none, List.cons_append, List.append_assoc, List.singleton_append,
            substitute_placeholder distinct unopened unclosed, inductionHypothesis]
          rfl

/-- A second pass with the same values finds nothing to do. -/
theorem substitute_idempotent (distinct : opening ≠ closing) (plain : Plain opening value)
    (flat : Flat opening closing text) :
    substitute opening closing value (substitute opening closing value text) =
      substitute opening closing value text := by
  rw [substitute_substitute distinct plain flat]
  congr 1
  funext name
  exact Option.or_self

end Substitute

/-! ## Replacing step by step -/

/-- One placeholder whose name has a value is replaced by such a value. -/
inductive Step (opening closing : γ) (rules : List γ → List γ → Prop) :
    List γ → List γ → Prop where
  | placeholder {name value : List γ} (before after : List γ) (rule : rules name value) :
      Step opening closing rules (before ++ opening :: (name ++ closing :: after))
        (before ++ (value ++ after))

/-- Placeholders are replaced one after the other. -/
abbrev Steps (opening closing : γ) (rules : List γ → List γ → Prop) :
    List γ → List γ → Prop :=
  Relation.ReflTransGen (Step opening closing rules)

end ExecHelper.Library.Placeholder
