import Mathlib.Data.List.TakeDrop
import Mathlib.Data.List.TakeWhile

/-!
# Terminated strings in buffers

A buffer is an allocated block of symbols.  The text it holds ends at the first
terminator, if there is one within the block; what reads up to the terminator is
undefined when there is none.
-/

namespace ExecHelper.Library.CString

variable {γ : Type} [DecidableEq γ]

/-- The text in a buffer, when it is terminated within the buffer. -/
def text? (terminator : γ) (buffer : List γ) : Option (List γ) :=
  if terminator ∈ buffer then some (buffer.takeWhile fun symbol => symbol ≠ terminator) else none

/-- The buffer that holds just the text. -/
def ofText (terminator : γ) (text : List γ) : List γ := text ++ [terminator]

/-- The length of the text. -/
def strlen (terminator : γ) (buffer : List γ) : Option Nat :=
  (text? terminator buffer).map List.length

/-- The length of the text, of which at most `maxlen` symbols are looked at. -/
def strnlen (terminator : γ) (buffer : List γ) (maxlen : Nat) : Option Nat :=
  if terminator ∈ buffer ∨ maxlen ≤ buffer.length then
    some (min (buffer.takeWhile fun symbol => symbol ≠ terminator).length maxlen)
  else none

/-- The `count` symbols that are written when the text is copied: what there is of it, and
terminators for the rest. -/
def strncpy (terminator : γ) (source : List γ) (count : Nat) : Option (List γ) :=
  if terminator ∈ source ∨ count ≤ source.length then
    some ((source.takeWhile fun symbol => symbol ≠ terminator).takeD count terminator)
  else none

variable {terminator : γ} {text buffer : List γ} {count : Nat}

theorem takeWhile_ofText (plain : terminator ∉ text) :
    (ofText terminator text).takeWhile (fun symbol => symbol ≠ terminator) = text := by
  have members : ∀ symbol ∈ text, symbol ≠ terminator := by
    rintro symbol member rfl
    exact plain member
  rw [ofText, List.takeWhile_append_of_pos (by simpa using members),
    List.takeWhile_cons_of_neg (by simp), List.append_nil]

omit [DecidableEq γ] in
theorem mem_ofText (terminator : γ) (text : List γ) : terminator ∈ ofText terminator text := by
  simp [ofText]

theorem text?_ofText (plain : terminator ∉ text) :
    text? terminator (ofText terminator text) = some text := by
  rw [text?, if_pos (mem_ofText terminator text), takeWhile_ofText plain]

theorem text?_eq_none_iff : text? terminator buffer = none ↔ terminator ∉ buffer := by
  rw [text?]
  split
  next member => simp [member]
  next missing => simp [missing]

/-- What is read up to the terminator does not contain it. -/
theorem notMem_of_text? (holds : text? terminator buffer = some text) : terminator ∉ text := by
  rw [text?] at holds
  rcases Option.ite_none_right_eq_some.mp holds with ⟨_, same⟩
  intro member
  rw [← Option.some.inj same] at member
  have kept := List.mem_takeWhile_imp member
  simp at kept

theorem strnlen_ofText (plain : terminator ∉ text) (maxlen : Nat) :
    strnlen terminator (ofText terminator text) maxlen = some (min text.length maxlen) := by
  rw [strnlen, if_pos (Or.inl (mem_ofText terminator text)), takeWhile_ofText plain]

theorem strncpy_of_text? (holds : text? terminator buffer = some text) (count : Nat) :
    strncpy terminator buffer count = some (text.takeD count terminator) := by
  rw [text?] at holds
  rcases Option.ite_none_right_eq_some.mp holds with ⟨member, same⟩
  rw [strncpy, if_pos (Or.inl member), Option.some.inj same]

omit [DecidableEq γ] in
theorem takeD_length_succ (terminator : γ) (text : List γ) :
    text.takeD (text.length + 1) terminator = ofText terminator text := by
  induction text with
  | nil => rfl
  | cons symbol rest inductionHypothesis =>
      rw [List.length_cons, List.takeD]
      exact congrArg _ inductionHypothesis

/-- A copy without room for it is not terminated. -/
theorem text?_takeD_of_le (plain : terminator ∉ text) (full : count ≤ text.length) :
    text? terminator (text.takeD count terminator) = none := by
  rw [text?_eq_none_iff, List.takeD_eq_take terminator full]
  exact fun member => plain (List.mem_of_mem_take member)

end ExecHelper.Library.CString
