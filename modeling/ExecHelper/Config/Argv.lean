import ExecHelper.Config.PointerArray

/-!
# Program arguments

The arguments of a program are taken over from the arguments of the process or from
a list of strings.  The two constructors do not agree on how long an argument may
be: the first one measures at most a fixed number of characters and allocates no
more, and a longer argument is then copied without its terminator.
-/

namespace ExecHelper.Config

open ExecHelper.Core
open ExecHelper.Library

namespace Argv

/-- The arguments of a process, of which `argc` is the number
(`Argv(int, const char* const*)`). -/
def ofArgv (argv : List Buffer) : Option PointerArray := do
  let buffers ← argv.mapM fun arg => do
    let argLength := (← CString.strnlen NUL arg 256) + 1
    CString.strncpy NUL arg argLength
  return buffers.map some ++ [none]

/-- The arguments of a task (`Argv(const std::vector<std::string>&)`). -/
def ofTask (task : List String) : Option PointerArray := PointerArray.ofStrings task

/-- What arguments are constructed from. -/
inductive Input where
  | argv (argv : List Buffer)
  | task (task : List String)

def construct : Input → Option PointerArray
  | .argv argv => ofArgv argv
  | .task task => ofTask task

/-- The number of arguments. -/
def getArgc (pointers : PointerArray) : Nat := pointers.count

theorem terminated_construct {input : Input} {pointers : PointerArray}
    (constructed : construct input = some pointers) : pointers.Terminated := by
  cases input with
  | task task => exact PointerArray.terminated_ofStrings constructed
  | argv argv =>
      rcases Option.bind_eq_some_iff.mp constructed with ⟨buffers, _, same⟩
      exact ⟨buffers, (Option.some.inj same).symm⟩

/-! ## What arguments hold -/

/-- The array has as many elements as there are arguments, and each of them is a buffer
that is terminated and holds the argument. -/
structure Holds (pointers : PointerArray) (arguments : List String) : Prop where
  argc : getArgc pointers = arguments.length
  text : ∀ index (below : index < arguments.length), ∃ buffer,
    pointers.subscript index = .ok (some buffer) ∧
      CString.text? NUL buffer = some arguments[index].toList

/-- Objects that are copied or assigned from the array hold the arguments too. -/
structure Preserves (pointers : PointerArray) (arguments : List String) : Prop where
  copyConstruct : ∀ (objects : PointerArray.Objects) object other,
    objects object = none → objects other = some pointers →
      ∃ next copied, PointerArray.step construct objects (.copyConstruct object other) =
        some next ∧ next object = some copied ∧ Holds copied arguments
  copyAssign : ∀ (objects : PointerArray.Objects) object other old,
    objects object = some old → objects other = some pointers →
      ∃ next copied, PointerArray.step construct objects (.copyAssign object other) =
        some next ∧ next object = some copied ∧ Holds copied arguments
  moveAssign : ∀ (objects : PointerArray.Objects) object other old,
    objects object = some old → objects other = some pointers →
      ∃ next moved, PointerArray.step construct objects (.moveAssign object other) =
        some next ∧ next object = some moved ∧ Holds moved arguments

/-- Both constructors take the arguments over, and so does what is copied from them. -/
structure Conforms (arguments : List String) : Prop where
  argv : ∃ pointers, ofArgv (arguments.map fun argument => CString.ofText NUL argument.toList) =
    some pointers ∧ Holds pointers arguments ∧ Preserves pointers arguments
  task : ∃ pointers, ofTask arguments = some pointers ∧ Holds pointers arguments ∧
    Preserves pointers arguments

variable {arguments : List String}

/-- The first constructor copies at most 257 characters of an argument. -/
theorem ofArgv_eq (plain : ∀ argument ∈ arguments, NUL ∉ argument.toList) :
    ofArgv (arguments.map fun argument => CString.ofText NUL argument.toList) =
      some ((arguments.map fun argument =>
        argument.toList.takeD (min argument.length 256 + 1) NUL).map some ++ [none]) := by
  rw [ofArgv, List.mapM_map, @mapM_pure _ _ _ _ _ _ fun argument : String =>
    argument.toList.takeD (min argument.length 256 + 1) NUL]
  · rfl
  · intro argument member
    have plainArgument := plain argument member
    rw [Function.comp_apply, CString.strnlen_ofText plainArgument, String.length_toList]
    exact CString.strncpy_of_text? (CString.text?_ofText plainArgument) _

/-- The text that the copy of an argument holds. -/
def copiedText (argument : String) : Option String :=
  if argument.length ≤ 256 then some argument else none

theorem text?_copied {argument : String} (plain : NUL ∉ argument.toList) :
    CString.text? NUL (argument.toList.takeD (min argument.length 256 + 1) NUL) =
      (copiedText argument).map String.toList := by
  rw [copiedText]
  by_cases short : argument.length ≤ 256
  · rw [if_pos short, min_eq_left short, ← String.length_toList, CString.takeD_length_succ,
      CString.text?_ofText plain, Option.map_some]
  · have full : min argument.length 256 + 1 ≤ argument.toList.length := by
      rw [String.length_toList]
      omega
    rw [if_neg short, CString.text?_takeD_of_le plain full, Option.map_none]

/-- Together they are the arguments, if no argument is too long. -/
theorem mapM_copiedText_eq_some_iff {arguments words : List String} :
    arguments.mapM copiedText = some words ↔
      (∀ argument ∈ arguments, argument.length ≤ 256) ∧ words = arguments := by
  induction arguments generalizing words with
  | nil => simp [eq_comm]
  | cons argument rest inductionHypothesis =>
      simp only [List.mapM_cons, Option.bind_eq_bind, Option.bind_eq_some_iff, inductionHypothesis,
        copiedText, Option.ite_none_right_eq_some, Option.pure_def, Option.some.injEq,
        List.forall_mem_cons]
      constructor
      · rintro ⟨_, ⟨short, rfl⟩, _, ⟨others, rfl⟩, rfl⟩
        exact ⟨⟨short, others⟩, rfl⟩
      · rintro ⟨⟨short, others⟩, rfl⟩
        exact ⟨argument, ⟨short, rfl⟩, rest, ⟨others, rfl⟩, rfl⟩

theorem mapM_copiedText_eq_none_iff {arguments : List String} :
    arguments.mapM copiedText = none ↔ ∃ argument ∈ arguments, ¬argument.length ≤ 256 := by
  rw [Option.eq_none_iff_forall_ne_some]
  simp only [ne_eq, mapM_copiedText_eq_some_iff]
  constructor
  · intro never
    by_contra none
    simp only [not_exists, not_and, not_not] at none
    exact never arguments ⟨none, rfl⟩
  · rintro ⟨argument, member, long⟩ words ⟨short, -⟩
    exact long (short argument member)

theorem subscript_map_some {buffers : List Buffer} {index : Nat} (below : index < buffers.length) :
    PointerArray.subscript (buffers.map some ++ [none]) index = .ok (some buffers[index]) := by
  have counted : ¬PointerArray.count (buffers.map some ++ [none]) ≤ index := by
    simp [PointerArray.count, below]
  rw [PointerArray.subscript, if_neg counted, List.getElem?_append_left (by simpa using below),
    List.getElem?_map, List.getElem?_eq_getElem below]
  rfl

/-- The buffers hold the arguments one by one. -/
abbrev BuffersHold (buffers : List Buffer) (arguments : List String) : Prop :=
  List.Forall₂ (fun buffer argument => CString.text? NUL buffer = some argument.toList) buffers
    arguments

variable {buffers : List Buffer}

theorem holds_of_buffersHold (hold : BuffersHold buffers arguments) :
    Holds (buffers.map some ++ [none]) arguments where
  argc := by
    simp [getArgc, PointerArray.count, hold.length_eq]
  text := by
    intro index below
    have belowBuffers : index < buffers.length := by rwa [hold.length_eq]
    exact ⟨buffers[index], subscript_map_some belowBuffers, hold.get belowBuffers below⟩

theorem deepCopy_holds (plain : ∀ argument ∈ arguments, NUL ∉ argument.toList)
    (hold : BuffersHold buffers arguments) :
    ∃ copied, PointerArray.deepCopy (buffers.map some ++ [none]) = some copied ∧
      Holds copied arguments := by
  have texts : List.Forall₂ (fun buffer text => CString.text? NUL buffer = some text) buffers
      (arguments.map String.toList) := List.forall₂_map_right_iff.mpr hold
  refine ⟨_, PointerArray.deepCopy_eq texts, ?_⟩
  have copied := holds_of_buffersHold (PointerArray.forall₂_ofText plain)
  rwa [← Function.comp_def, ← List.map_map] at copied

theorem preserves_of_buffersHold (plain : ∀ argument ∈ arguments, NUL ∉ argument.toList)
    (hold : BuffersHold buffers arguments) :
    Preserves (buffers.map some ++ [none]) arguments := by
  rcases deepCopy_holds plain hold with ⟨copied, copies, holds⟩
  constructor
  · intro objects object other fresh live
    refine ⟨_, copied, ?_, Function.update_self object (some copied) objects, holds⟩
    simp [PointerArray.step, fresh, live, copies]
  · intro objects object other old target live
    by_cases same : object = other
    · subst same
      refine ⟨objects, _, ?_, live, holds_of_buffersHold hold⟩
      simp [PointerArray.step, live]
    · refine ⟨_, copied, ?_, Function.update_self object (some copied) objects, holds⟩
      simp [PointerArray.step, target, live, copies, same]
  · intro objects object other old target live
    refine ⟨PointerArray.exchange objects object other old (buffers.map some ++ [none]), _, ?_,
      PointerArray.exchange_apply target live, holds_of_buffersHold hold⟩
    simp [PointerArray.step, target, live]

/-- A longer argument is copied without its terminator. -/
theorem length_le_of_conforms (plain : ∀ argument ∈ arguments, NUL ∉ argument.toList)
    (conforms : Conforms arguments) : ∀ argument ∈ arguments, argument.length ≤ 256 := by
  rcases conforms.argv with ⟨pointers, built, holds, _⟩
  rw [ofArgv_eq plain] at built
  rcases Option.some.inj built with rfl
  intro argument member
  by_contra long
  rcases List.getElem_of_mem member with ⟨index, below, rfl⟩
  rcases holds.text index below with ⟨buffer, found, holdsText⟩
  rw [subscript_map_some (by simpa using below)] at found
  rcases Option.some.inj (Except.ok.inj found) with rfl
  rw [List.getElem_map, text?_copied (plain arguments[index] member), copiedText,
    if_neg long] at holdsText
  cases holdsText

theorem conforms_of_length_le (plain : ∀ argument ∈ arguments, NUL ∉ argument.toList)
    (short : ∀ argument ∈ arguments, argument.length ≤ 256) : Conforms arguments := by
  have hold := PointerArray.forall₂_ofText plain
  have whole : (arguments.map fun argument =>
      argument.toList.takeD (min argument.length 256 + 1) NUL) =
        arguments.map fun argument => CString.ofText NUL argument.toList := by
    apply List.map_congr_left
    intro argument member
    rw [min_eq_left (short argument member), ← String.length_toList, CString.takeD_length_succ]
  constructor
  · refine ⟨_, ofArgv_eq plain, ?_, ?_⟩
    · rw [whole]
      exact holds_of_buffersHold hold
    · rw [whole]
      exact preserves_of_buffersHold plain hold
  · exact ⟨_, PointerArray.ofStrings_eq plain, holds_of_buffersHold hold,
      preserves_of_buffersHold plain hold⟩

/-- The two constructors agree, and copies agree with them, exactly when no argument has
more than 256 characters. -/
theorem conforms_iff (arguments : List String)
    (plain : ∀ argument ∈ arguments, NUL ∉ argument.toList) :
    Conforms arguments ↔ ∀ argument ∈ arguments, argument.length ≤ 256 := by
  constructor
  · exact length_le_of_conforms plain
  · exact conforms_of_length_le plain

theorem conforms_iff_make :
    Conforms ["make", ""] ↔ ∀ argument ∈ ["make", ""], String.length argument ≤ 256 :=
  conforms_iff ["make", ""] (by decide)

theorem notMem_replicate (count : Nat) :
    NUL ∉ (String.ofList (List.replicate count 'a')).toList := by
  rw [String.toList_ofList, List.mem_replicate]
  exact fun both => absurd both.2 (by decide)

/-- One character too many. -/
theorem conforms_counterexample : ¬Conforms [String.ofList (List.replicate 257 'a')] := by
  intro conforms
  have plain : ∀ argument ∈ [String.ofList (List.replicate 257 'a')], NUL ∉ argument.toList :=
    List.forall_mem_singleton.mpr (notMem_replicate 257)
  have short := length_le_of_conforms plain conforms _ List.mem_cons_self
  rw [String.length_ofList, List.length_replicate] at short
  omega

end Argv

end ExecHelper.Config
