import ExecHelper.Core.Stop
import ExecHelper.Library.CString
import ExecHelper.Library.Machine
import ExecHelper.Library.Program
import Mathlib.Algebra.Group.Nat.Defs
import Mathlib.Data.List.Forall2
import Mathlib.Logic.Function.Basic

/-!
# Arrays of pointers to strings

The arguments and the environment of a program are passed as arrays of pointers to
terminated strings, and such an array ends in a null pointer.  The two classes that
wrap them keep a vector of pointers and treat it in the same way: they count all
elements but the last one without asking whether there is a last one.
-/

namespace ExecHelper.Config

open ExecHelper.Core
open ExecHelper.Library

/-- The character a string ends with. -/
def NUL : Char := Char.ofNat 0

/-- An allocated array of characters. -/
abbrev Buffer := List Char

/-- A vector of pointers to buffers, null pointers being `none`. -/
abbrev PointerArray := List (Option Buffer)

namespace PointerArray

/-! ## Filling -/

/-- The buffers for a list of strings, and the null pointer. The size of every buffer is
taken from its string. -/
def ofStrings (strings : List String) : Option PointerArray := do
  let buffers ← strings.mapM fun string =>
    CString.strncpy NUL (CString.ofText NUL string.toList) (string.length + 1)
  return buffers.map some ++ [none]

/-- Copy the strings up to the first null pointer (`deepCopy`). The copy is undefined where
the length of an element is. -/
def deepCopy : PointerArray → Option PointerArray
  | [] => some [none]
  | none :: _ => some [none]
  | some otherElement :: rest => do
      let length ← CString.strlen NUL otherElement
      let newElement ← CString.strncpy NUL otherElement (length + 1)
      let copied ← deepCopy rest
      return some newElement :: copied

/-! ## Reading -/

/-- The size of the vector minus one, as an unsigned number of 64 bits. -/
def count (pointers : PointerArray) : Nat :=
  if pointers.isEmpty then 2 ^ 64 - 1 else pointers.length - 1

/-- The element at an index, or a null pointer from the counted elements on. -/
def subscript (pointers : PointerArray) (index : Nat) : Except Stop (Option Buffer) :=
  if pointers.count ≤ index then .ok none
  else
    match pointers[index]? with
    | some element => .ok element
    | none => .error .outOfBounds

/-- The array behind the address of the first element; there the vector is asked for its
element 0, and the exception meets a `noexcept`. -/
def data (pointers : PointerArray) : Except Stop PointerArray :=
  if pointers.isEmpty then .error .terminate else .ok pointers

/-! ## Terminated arrays -/

/-- The array ends in a null pointer and has no other one. -/
def Terminated (pointers : PointerArray) : Prop :=
  ∃ buffers : List Buffer, pointers = buffers.map some ++ [none]

/-- What can be relied on: the array is terminated, the counted elements are those before
the last one, an index beyond them leads to a null pointer, and there is an address of
the first element. -/
structure Sound (pointers : PointerArray) : Prop where
  terminated : pointers.Terminated
  count : pointers.count + 1 = pointers.length
  beyond : ∀ index, pointers.length ≤ index + 1 → pointers.subscript index = .ok none
  data : pointers.data = .ok pointers

variable {pointers copied : PointerArray}

theorem Terminated.sound (terminated : pointers.Terminated) : pointers.Sound := by
  have nonempty : pointers ≠ [] := by
    rcases terminated with ⟨buffers, rfl⟩
    exact List.concat_ne_nil _ _
  have notEmpty : pointers.isEmpty = false := by simpa using nonempty
  have counted : pointers.count + 1 = pointers.length := by
    have positive := List.length_pos_iff.mpr nonempty
    rw [count, notEmpty, if_neg Bool.false_ne_true]
    omega
  refine ⟨terminated, counted, ?_, ?_⟩
  · intro index beyond
    rw [subscript, if_pos (by omega)]
  · rw [data, notEmpty, if_neg Bool.false_ne_true]

theorem not_sound_nil : ¬Sound [] := by
  rintro ⟨⟨buffers, same⟩, _⟩
  simp at same

/-- A copy is terminated whatever it was copied from. -/
theorem terminated_deepCopy (copies : deepCopy pointers = some copied) : copied.Terminated := by
  induction pointers generalizing copied with
  | nil =>
      rcases Option.some.inj copies with rfl
      exact ⟨[], rfl⟩
  | cons element rest inductionHypothesis =>
      cases element with
      | none =>
          rcases Option.some.inj copies with rfl
          exact ⟨[], rfl⟩
      | some otherElement =>
          rw [deepCopy] at copies
          rcases Option.bind_eq_some_iff.mp copies with ⟨length, _, copies⟩
          rcases Option.bind_eq_some_iff.mp copies with ⟨newElement, _, copies⟩
          rcases Option.bind_eq_some_iff.mp copies with ⟨restCopied, restCopies, same⟩
          rcases inductionHypothesis restCopies with ⟨buffers, rfl⟩
          rcases Option.some.inj same with rfl
          exact ⟨newElement :: buffers, rfl⟩

theorem terminated_ofStrings {strings : List String} (filled : ofStrings strings = some pointers) :
    pointers.Terminated := by
  rcases Option.bind_eq_some_iff.mp filled with ⟨buffers, _, same⟩
  exact ⟨buffers, (Option.some.inj same).symm⟩

/-- The buffers are just long enough for their strings. -/
theorem ofStrings_eq {strings : List String} (plain : ∀ string ∈ strings, NUL ∉ string.toList) :
    ofStrings strings =
      some ((strings.map fun string => CString.ofText NUL string.toList).map some ++ [none]) := by
  have written : strings.mapM (fun string =>
      CString.strncpy NUL (CString.ofText NUL string.toList) (string.length + 1)) =
        pure (strings.map fun string => CString.ofText NUL string.toList) := by
    apply mapM_pure
    intro string member
    rw [← String.length_toList,
      CString.strncpy_of_text? (CString.text?_ofText (plain string member)),
      CString.takeD_length_succ]
    rfl
  rw [ofStrings, written]
  rfl

/-- The strings are the texts of the buffers before the null pointer at the end. -/
def Holds (pointers : PointerArray) (strings : List String) : Prop :=
  ∃ buffers : List Buffer, pointers = buffers.map some ++ [none] ∧
    List.Forall₂ (fun buffer string => CString.text? NUL buffer = some string.toList)
      buffers strings

theorem Holds.plain {strings : List String} (holds : pointers.Holds strings) :
    ∀ string ∈ strings, NUL ∉ string.toList := by
  rcases holds with ⟨buffers, -, texts⟩
  induction texts with
  | nil => exact List.forall_mem_nil _
  | cons text _ inductionHypothesis =>
      exact List.forall_mem_cons.mpr ⟨CString.notMem_of_text? text, inductionHypothesis⟩

theorem forall₂_ofText {strings : List String} (plain : ∀ string ∈ strings, NUL ∉ string.toList) :
    List.Forall₂ (fun buffer string => CString.text? NUL buffer = some (String.toList string))
      (strings.map fun string => CString.ofText NUL string.toList) strings := by
  rw [List.forall₂_map_left_iff, List.forall₂_same]
  exact fun string member => CString.text?_ofText (plain string member)

theorem holds_ofStrings {strings : List String} (plain : ∀ string ∈ strings, NUL ∉ string.toList) :
    ∃ filled, ofStrings strings = some filled ∧ filled.Holds strings :=
  ⟨_, ofStrings_eq plain, _, rfl, forall₂_ofText plain⟩

/-- Strings in terminated buffers are copied as they are. -/
theorem deepCopy_eq {buffers : List Buffer} {texts : List (List Char)}
    (hold : List.Forall₂ (fun buffer text => CString.text? NUL buffer = some text) buffers texts) :
    deepCopy (buffers.map some ++ [none]) =
      some ((texts.map fun text => CString.ofText NUL text).map some ++ [none]) := by
  induction hold with
  | nil => rfl
  | @cons buffer text buffers texts holds _ inductionHypothesis =>
      rw [List.map_cons, List.cons_append, deepCopy, inductionHypothesis, CString.strlen, holds]
      simp only [Option.map_some, Option.bind_eq_bind, Option.bind_some,
        CString.strncpy_of_text? holds, CString.takeD_length_succ]
      rfl

/-! ## Objects -/

section Objects

variable {ι : Type}

/-- The operations on objects of a class that wraps a pointer array. An object is
constructed from an input, copied or moved. -/
inductive Operation (ι : Type) where
  | construct (object : Nat) (input : ι)
  | copyConstruct (object other : Nat)
  | moveConstruct (object other : Nat)
  | copyAssign (object other : Nat)
  | moveAssign (object other : Nat)
  | swap (object other : Nat)
  | clear (object : Nat)
  | destroy (object : Nat)

/-- The live objects with their arrays. -/
abbrev Objects := Nat → Option PointerArray

/-- Exchange the arrays of two objects. -/
def exchange (objects : Objects) (object other : Nat) (pointers otherPointers : PointerArray) :
    Objects :=
  Function.update (Function.update objects object (some otherPointers)) other (some pointers)

/-- The objects after an operation. It is refused where an object is not live, or already
is, and where it has no defined effect. -/
def step (construct : ι → Option PointerArray) (objects : Objects) :
    Operation ι → Option Objects
  | .construct object input =>
      match objects object with
      | some _ => none
      | none => (construct input).map fun pointers =>
          Function.update objects object (some pointers)
  | .copyConstruct object other =>
      match objects object, objects other with
      | none, some otherPointers => (deepCopy otherPointers).map fun copied =>
          Function.update objects object (some copied)
      | _, _ => none
  | .moveConstruct object other =>
      match objects object, objects other with
      -- The new object starts with an empty vector, which the other one is left with.
      | none, some otherPointers => some (exchange objects object other [] otherPointers)
      | _, _ => none
  | .copyAssign object other =>
      match objects object, objects other with
      | some _, some otherPointers =>
          if object = other then some objects
          else (deepCopy otherPointers).map fun copied =>
            Function.update objects object (some copied)
      | _, _ => none
  | .moveAssign object other | .swap object other =>
      match objects object, objects other with
      | some pointers, some otherPointers =>
          some (exchange objects object other pointers otherPointers)
      | _, _ => none
  | .clear object => (objects object).map fun _ => Function.update objects object (some [])
  | .destroy object => (objects object).map fun _ => Function.update objects object none

/-- Every live object can be relied on. -/
def AllSound (objects : Objects) : Prop :=
  ∀ object pointers, objects object = some pointers → pointers.Sound

/-- The operation leaves no object without elements behind. -/
def LeavesNoneEmpty : Operation ι → Prop
  | .moveConstruct _ _ => False
  | .clear _ => False
  | _ => True

variable {construct : ι → Option PointerArray} {objects next : Objects} {object other : Nat}

theorem AllSound.update (sound : AllSound objects) (new : pointers.Sound) :
    AllSound (Function.update objects object (some pointers)) := by
  intro changed array live
  rw [Function.update_apply] at live
  split at live
  · rcases Option.some.inj live with rfl
    exact new
  · exact sound changed array live

theorem not_allSound_update_nil : ¬AllSound (Function.update objects object (some [])) := by
  intro sound
  exact not_sound_nil (sound object [] (Function.update_self object (some []) objects))

/-- After an exchange, an object has the array of the other one. -/
theorem exchange_apply {otherPointers : PointerArray} (live : objects object = some pointers)
    (otherLive : objects other = some otherPointers) :
    exchange objects object other pointers otherPointers object = some otherPointers := by
  rw [exchange, Function.update_apply]
  split
  next same => rw [← live, ← otherLive, same]
  next => exact Function.update_self object (some otherPointers) objects

/-- What one operation does to the objects. -/
theorem allSound_step (constructs : ∀ input array, construct input = some array → array.Terminated)
    {operation : Operation ι} (stepped : step construct objects operation = some next)
    (sound : AllSound objects) : AllSound next ↔ LeavesNoneEmpty operation := by
  cases operation with
  | construct object input =>
      refine iff_of_true ?_ trivial
      rw [step] at stepped
      cases live : objects object with
      | some old => simp [live] at stepped
      | none =>
          rw [live] at stepped
          rcases Option.map_eq_some_iff.mp stepped with ⟨array, constructed, rfl⟩
          exact sound.update (constructs input array constructed).sound
  | copyConstruct object other =>
      refine iff_of_true ?_ trivial
      rw [step] at stepped
      split at stepped
      · rcases Option.map_eq_some_iff.mp stepped with ⟨copied, copies, rfl⟩
        exact sound.update (terminated_deepCopy copies).sound
      · cases stepped
  | moveConstruct object other =>
      refine iff_of_false ?_ not_false
      rw [step] at stepped
      split at stepped
      · rcases Option.some.inj stepped with rfl
        exact not_allSound_update_nil
      · cases stepped
  | copyAssign object other =>
      refine iff_of_true ?_ trivial
      rw [step] at stepped
      split at stepped
      · split at stepped
        · rcases Option.some.inj stepped with rfl
          exact sound
        · rcases Option.map_eq_some_iff.mp stepped with ⟨copied, copies, rfl⟩
          exact sound.update (terminated_deepCopy copies).sound
      · cases stepped
  | moveAssign object other | swap object other =>
      refine iff_of_true ?_ trivial
      rw [step] at stepped
      split at stepped
      next array otherArray live otherLive =>
        rcases Option.some.inj stepped with rfl
        exact (sound.update (sound other otherArray otherLive)).update (sound object array live)
      next => cases stepped
  | clear object =>
      refine iff_of_false ?_ not_false
      rcases Option.map_eq_some_iff.mp stepped with ⟨array, _, rfl⟩
      exact not_allSound_update_nil
  | destroy object =>
      refine iff_of_true ?_ trivial
      rcases Option.map_eq_some_iff.mp stepped with ⟨array, _, rfl⟩
      intro changed kept live
      rw [Function.update_apply] at live
      split at live
      · cases live
      · exact sound changed kept live

/-- Every object can be relied on in every state of a run exactly when no operation is
executed that leaves an object without elements. -/
theorem always_allSound_iff
    (constructs : ∀ input array, construct input = some array → array.Terminated)
    (operations : List (Operation ι)) :
    Machine.Always (step construct) AllSound (fun _ => none) operations ↔
      Machine.EachStep (step construct) (fun _ operation => LeavesNoneEmpty operation)
        (fun _ => none) operations := by
  apply Machine.always_iff_eachStep
  · intro state operation next stepped sound
    exact allSound_step constructs stepped sound
  · intro object pointers live
    cases live

end Objects

end PointerArray

end ExecHelper.Config
