import Mathlib.Logic.Basic

/-!
# Programs over an interface

A program ends with a value, stops for a reason nobody can catch, or performs an
operation of its interface and continues with the answer.  What an operation
does is left to a handler, so a program can be written down, compared with
another one and analysed before it is known in which system it runs.

A contract says how a computation changes the state it runs in.  It holds of an
interpreted program as soon as it holds of every operation the handler answers.
-/

namespace ExecHelper.Library

/-- The operations a program may perform, with the type of each answer. -/
structure Interface where
  Op : Type
  Answer : Op → Type

/-- A computation over an interface that may also stop for a reason. -/
inductive Program (ε : Type) (interface : Interface) (α : Type) where
  | pure (value : α)
  | stop (reason : ε)
  | call (op : interface.Op) (next : interface.Answer op → Program ε interface α)

namespace Program

variable {ε : Type} {interface : Interface} {α β γ : Type}

/-- Run one program and continue with its value. -/
def bind : Program ε interface α → (α → Program ε interface β) →
    Program ε interface β
  | .pure value, continuation => continuation value
  | .stop reason, _ => .stop reason
  | .call op next, continuation =>
      .call op fun answer => (next answer).bind continuation

instance : Monad (Program ε interface) where
  pure := .pure
  bind := bind

/-- The program that performs one operation. -/
def perform (op : interface.Op) : Program ε interface (interface.Answer op) :=
  .call op .pure

private theorem bind_pure_value (program : Program ε interface α) :
    program.bind .pure = program := by
  induction program with
  | pure value => rfl
  | stop reason => rfl
  | call op next inductionHypothesis =>
      rw [bind]
      congr 1
      funext answer
      exact inductionHypothesis answer

private theorem bind_bind (program : Program ε interface α)
    (first : α → Program ε interface β) (second : β → Program ε interface γ) :
    (program.bind first).bind second =
      program.bind fun value => (first value).bind second := by
  induction program with
  | pure value => rfl
  | stop reason => rfl
  | call op next inductionHypothesis =>
      simp only [bind]
      congr 1
      funext answer
      exact inductionHypothesis answer

instance : LawfulMonad (Program ε interface) :=
  LawfulMonad.mk' _ bind_pure_value (fun _ _ => rfl) bind_bind

/-! ## Interpretation -/

section Interpret

variable {σ : Type}
variable (handler : (op : interface.Op) → EStateM ε σ (interface.Answer op))

/-- Run a program in a system that answers every operation. -/
def interpret : Program ε interface α → EStateM ε σ α
  | .pure value => Pure.pure value
  | .stop reason => throw reason
  | .call op next => handler op >>= fun answer => (next answer).interpret

end Interpret

/-! ## The reasons a program can stop for -/

/-- Every reason the program itself can stop for is allowed, whatever the
answers to its operations are. -/
def StopsOnlyFor (allowed : ε → Prop) : Program ε interface α → Prop
  | .pure _ => True
  | .stop reason => allowed reason
  | .call _ next => ∀ answer, (next answer).StopsOnlyFor allowed

variable {allowed : ε → Prop}

/-- Fewer reasons are still allowed reasons. -/
theorem StopsOnlyFor.imp {program : Program ε interface α} {wider : ε → Prop}
    (stops : program.StopsOnlyFor allowed)
    (implies : ∀ reason, allowed reason → wider reason) : program.StopsOnlyFor wider := by
  induction program with
  | pure value => trivial
  | stop reason => exact implies reason stops
  | call op next inductionHypothesis =>
      intro answer
      exact inductionHypothesis answer (stops answer)

/-- A sequence stops for a reason one of its parts stops for. -/
theorem StopsOnlyFor.bind {program : Program ε interface α} {rest : α → Program ε interface β}
    (first : program.StopsOnlyFor allowed) (second : ∀ value, (rest value).StopsOnlyFor allowed) :
    (program >>= rest).StopsOnlyFor allowed := by
  induction program with
  | pure value => exact second value
  | stop reason => exact first
  | call op next inductionHypothesis =>
      intro answer
      exact inductionHypothesis answer (first answer)

/-- A loop whose rounds return values or stop for the same reason stops if one does. -/
theorem mapM_eq_stop {body : α → Program ε interface β} {reason : ε} {inputs : List α}
    (rounds : ∀ input ∈ inputs, body input = stop reason ∨ ∃ value, body input = pure value)
    (stops : ∃ input ∈ inputs, body input = stop reason) :
    inputs.mapM body = stop reason := by
  induction inputs with
  | nil =>
      rcases stops with ⟨input, member, _⟩
      cases member
  | cons input rest inductionHypothesis =>
      rcases List.forall_mem_cons.mp rounds with ⟨first, later⟩
      rw [List.mapM_cons]
      rcases first with stopped | ⟨value, returned⟩
      · rw [stopped]
        rfl
      · have stopsLater : ∃ input ∈ rest, body input = stop reason := by
          rcases stops with ⟨stopping, member, stopped⟩
          rcases List.mem_cons.mp member with rfl | inside
          · rw [returned] at stopped
            cases stopped
          · exact ⟨stopping, inside, stopped⟩
        rw [returned]
        change (do let values ← rest.mapM body; _) = _
        rw [inductionHypothesis later stopsLater]
        rfl

/-! ## What is seen of a program -/

/-- The operations of a program, without the values it ends with. -/
inductive Trace (interface : Interface) where
  | ended
  | call (op : interface.Op) (next : interface.Answer op → Trace interface)

/-- The operations that are not hidden; a hidden one has an answer of its own. -/
def trace (hidden : (op : interface.Op) → Option (interface.Answer op)) :
    Program ε interface α → Trace interface
  | .pure _ => .ended
  | .stop _ => .ended
  | .call op next =>
      match hidden op with
      | some answer => (next answer).trace hidden
      | none => .call op fun answer => (next answer).trace hidden

/-- Some answers lead to the value. -/
def CanReturn (result : α) : Program ε interface α → Prop
  | .pure value => value = result
  | .stop _ => False
  | .call _ next => ∃ answer, (next answer).CanReturn result

/-- Some answers lead to the operation. -/
def Performs (op : interface.Op) : Program ε interface α → Prop
  | .pure _ => False
  | .stop _ => False
  | .call own next => own = op ∨ ∃ answer, (next answer).Performs op

/-- A sequence returns what its second part returns after the first one. -/
theorem canReturn_bind_iff {program : Program ε interface α}
    {continuation : α → Program ε interface β} {result : β} :
    (program >>= continuation).CanReturn result ↔
      ∃ value, program.CanReturn value ∧ (continuation value).CanReturn result := by
  induction program with
  | pure own =>
      constructor
      · intro second
        exact ⟨own, rfl, second⟩
      · rintro ⟨value, rfl, second⟩
        exact second
  | stop reason =>
      constructor
      · exact fun impossible => impossible.elim
      · rintro ⟨_, impossible, _⟩
        exact impossible
  | call op next inductionHypothesis =>
      constructor
      · rintro ⟨answer, later⟩
        rcases (inductionHypothesis answer).mp later with ⟨value, first, second⟩
        exact ⟨value, ⟨answer, first⟩, second⟩
      · rintro ⟨value, ⟨answer, first⟩, second⟩
        exact ⟨answer, (inductionHypothesis answer).mpr ⟨value, first, second⟩⟩

section Trace

variable {hidden : (op : interface.Op) → Option (interface.Answer op)}
variable {program : Program ε interface α} {left right : α → Program ε interface β}

/-- What is seen of a sequence depends on what is seen of its second part. -/
theorem trace_bind_congr
    (same : ∀ value, program.CanReturn value →
      (left value).trace hidden = (right value).trace hidden) :
    (program >>= left).trace hidden = (program >>= right).trace hidden := by
  induction program with
  | pure value => exact same value rfl
  | stop reason => rfl
  | call op next inductionHypothesis =>
      change (Program.call op fun answer => next answer >>= left).trace hidden =
        (Program.call op fun answer => next answer >>= right).trace hidden
      have later : ∀ answer, (next answer >>= left).trace hidden =
          (next answer >>= right).trace hidden := fun answer =>
        inductionHypothesis answer fun value returned => same value ⟨answer, returned⟩
      rw [trace, trace]
      cases hidden op with
      | some answer => exact later answer
      | none => exact congrArg (Trace.call op) (funext later)

/-- Where two sequences look the same, they do after every value of their common first
part, as far as no hidden operation has more than one answer. -/
theorem trace_bind_cancel
    (determined : ∀ op answer, hidden op = some answer → ∀ other, other = answer)
    (same : (program >>= left).trace hidden = (program >>= right).trace hidden) {value : α}
    (returned : program.CanReturn value) :
    (left value).trace hidden = (right value).trace hidden := by
  induction program with
  | pure own =>
      rcases returned with rfl
      exact same
  | stop reason => cases returned
  | call op next inductionHypothesis =>
      rcases returned with ⟨answer, later⟩
      change (Program.call op fun answer => next answer >>= left).trace hidden =
        (Program.call op fun answer => next answer >>= right).trace hidden at same
      rw [trace, trace] at same
      apply inductionHypothesis answer _ later
      cases hides : hidden op with
      | some known =>
          rw [hides] at same
          rw [determined op known hides answer]
          exact same
      | none =>
          rw [hides] at same
          exact congrFun (eq_of_heq (Trace.call.inj same).2) answer

end Trace

end Program

/-- What a sequence returned was returned by its second part. -/
theorem exists_of_bind_eq_ok {ε σ α β : Type} {first : EStateM ε σ α}
    {second : α → EStateM ε σ β} {start final : σ} {result : β}
    (run : (first >>= second) start = .ok result final) :
    ∃ value middle, first start = .ok value middle ∧
      second value middle = .ok result final := by
  change EStateM.bind first second start = .ok result final at run
  rw [EStateM.bind] at run
  cases firstRun : first start with
  | ok value middle =>
      rw [firstRun] at run
      exact ⟨value, middle, rfl, run⟩
  | error reason middle =>
      rw [firstRun] at run
      cases run

theorem bind_of_eq_ok {ε σ α β : Type} {first : EStateM ε σ α}
    {second : α → EStateM ε σ β} {start middle : σ} {value : α}
    (run : first start = .ok value middle) :
    (first >>= second) start = second value middle := by
  change EStateM.bind first second start = second value middle
  rw [EStateM.bind, run]

theorem bind_of_eq_error {ε σ α β : Type} {first : EStateM ε σ α}
    {second : α → EStateM ε σ β} {start middle : σ} {reason : ε}
    (run : first start = .error reason middle) :
    (first >>= second) start = .error reason middle := by
  change EStateM.bind first second start = .error reason middle
  rw [EStateM.bind, run]

/-- A loop whose rounds only return values returns all of them. -/
theorem mapM_pure {m : Type → Type} [Monad m] [LawfulMonad m] {α β : Type} {make : α → m β}
    {value : α → β} {inputs : List α}
    (pures : ∀ input ∈ inputs, make input = pure (value input)) :
    inputs.mapM make = pure (inputs.map value) := by
  induction inputs with
  | nil => rfl
  | cons input rest inductionHypothesis =>
      rcases List.forall_mem_cons.mp pures with ⟨first, later⟩
      rw [List.mapM_cons, first, inductionHypothesis later, pure_bind, pure_bind, List.map_cons]

/-! ## Hoare triples -/

/-- Whenever the computation returns from a state with the precondition, its value
and the state it leaves satisfy the postcondition. -/
def Returns {ε σ α : Type} (before : σ → Prop) (computation : EStateM ε σ α)
    (after : α → σ → Prop) : Prop :=
  ∀ ⦃start value final⦄, before start → computation start = .ok value final →
    after value final

namespace Returns

variable {ε σ α β : Type} {before : σ → Prop} {after : α → σ → Prop}
variable {computation : EStateM ε σ α}

theorem pure {value : α} (holds : ∀ start, before start → after value start) :
    Returns before (Pure.pure value : EStateM ε σ α) after := by
  intro start result final satisfied run
  rcases EStateM.Result.ok.inj run with ⟨rfl, rfl⟩
  exact holds _ satisfied

theorem throw (reason : ε) : Returns before (throw reason : EStateM ε σ α) after :=
  fun _ _ _ _ run => nomatch run

theorem bind {continuation : α → EStateM ε σ β} {last : β → σ → Prop}
    (first : Returns before computation after)
    (second : ∀ value, Returns (after value) (continuation value) last) :
    Returns before (computation >>= continuation) last := by
  intro start result final satisfied run
  rcases exists_of_bind_eq_ok run with ⟨value, middle, firstRun, secondRun⟩
  exact second value (first satisfied firstRun) secondRun

end Returns

/-! ## Computations with one result -/

/-- The computation returns the value, from every state. -/
def Yields {ε σ α : Type} (computation : EStateM ε σ α) (value : α) : Prop :=
  ∀ start, ∃ final, computation start = .ok value final

namespace Yields

variable {ε σ α β : Type} {computation : EStateM ε σ α}

theorem pure (value : α) : Yields (Pure.pure value : EStateM ε σ α) value :=
  fun start => ⟨start, rfl⟩

theorem bind {continuation : α → EStateM ε σ β} {value : α} {result : β}
    (first : Yields computation value) (second : Yields (continuation value) result) :
    Yields (computation >>= continuation) result := by
  intro start
  rcases first start with ⟨middle, firstRun⟩
  rcases second middle with ⟨final, secondRun⟩
  exact ⟨final, (bind_of_eq_ok firstRun).trans secondRun⟩

/-- Only the elements of the loop matter. -/
theorem foldlM_of_mem {step : β → α → EStateM ε σ β} {next : β → α → β} {elements : List α}
    (each : ∀ element ∈ elements, ∀ result, Yields (step result element) (next result element))
    (result : β) : Yields (elements.foldlM step result) (elements.foldl next result) := by
  induction elements generalizing result with
  | nil => exact Yields.pure result
  | cons element rest inductionHypothesis =>
      obtain ⟨first, later⟩ := List.forall_mem_cons.mp each
      rw [List.foldlM_cons, List.foldl_cons]
      exact (first result).bind (inductionHypothesis later (next result element))

theorem foldlM {step : β → α → EStateM ε σ β} {next : β → α → β}
    (each : ∀ result element, Yields (step result element) (next result element))
    (elements : List α) (result : β) :
    Yields (elements.foldlM step result) (elements.foldl next result) :=
  foldlM_of_mem (fun element _ result => each result element) result

/-- A loop that appends what there is to append for every element. -/
theorem foldlM_append {γ : Type} {step : List γ → α → EStateM ε σ (List γ)}
    {found : α → Option γ}
    (each : ∀ result element, Yields (step result element) (result ++ (found element).toList))
    (elements : List α) (result : List γ) :
    Yields (elements.foldlM step result) (result ++ elements.filterMap found) := by
  have appended : ∀ result, elements.foldl (fun result element => result ++
      (found element).toList) result = result ++ elements.filterMap found := by
    induction elements with
    | nil => simp
    | cons element rest inductionHypothesis =>
        intro result
        rw [List.foldl_cons, inductionHypothesis]
        cases carried : found element <;> simp [carried]
  rw [← appended]
  exact Yields.foldlM each elements result

end Yields

/-! ## Protocols -/

/-- Rules for programs. In every phase some operations are permitted, of which each
leads to a phase that depends on the answer; a program stops only for allowed
reasons. -/
structure Protocol (ε : Type) (interface : Interface) where
  Phase : Type
  allowed : ε → Prop
  permitted : Phase → interface.Op → Prop
  advance : Phase → (op : interface.Op) → interface.Answer op → Phase

namespace Protocol

variable {ε σ : Type} {interface : Interface} {α β : Type}
variable {protocol : Protocol ε interface}

/-- From this phase on, the program keeps the rules, and where it ends, its value and
the phase satisfy the postcondition. -/
def Conforms (protocol : Protocol ε interface) (ends : α → protocol.Phase → Prop) :
    Program ε interface α → protocol.Phase → Prop
  | .pure value, phase => ends value phase
  | .stop reason, _ => protocol.allowed reason
  | .call op next, phase => protocol.permitted phase op ∧
      ∀ answer, protocol.Conforms ends (next answer) (protocol.advance phase op answer)

/-- What a conforming program performs is permitted in some phase. -/
theorem Conforms.exists_permitted {ends : α → protocol.Phase → Prop}
    {program : Program ε interface α} {phase : protocol.Phase}
    (conforms : protocol.Conforms ends program phase) {op : interface.Op}
    (performs : program.Performs op) : ∃ phase, protocol.permitted phase op := by
  induction program generalizing phase with
  | pure value => cases performs
  | stop reason => cases performs
  | call own next inductionHypothesis =>
      rcases performs with rfl | ⟨answer, later⟩
      · exact ⟨phase, conforms.1⟩
      · exact inductionHypothesis answer (conforms.2 answer) later

theorem Conforms.imp {ends weaker : α → protocol.Phase → Prop}
    {program : Program ε interface α} {phase : protocol.Phase}
    (conforms : protocol.Conforms ends program phase)
    (implies : ∀ value last, ends value last → weaker value last) :
    protocol.Conforms weaker program phase := by
  induction program generalizing phase with
  | pure value => exact implies value phase conforms
  | stop reason => exact conforms
  | call op next inductionHypothesis =>
      exact ⟨conforms.1, fun answer => inductionHypothesis answer (conforms.2 answer)⟩

/-- A sequence keeps the rules exactly when its first part does and the second part does
from wherever the first one ends. -/
theorem conforms_bind_iff {ends : β → protocol.Phase → Prop} {program : Program ε interface α}
    {continuation : α → Program ε interface β} {phase : protocol.Phase} :
    protocol.Conforms ends (program >>= continuation) phase ↔
      protocol.Conforms (fun value last => protocol.Conforms ends (continuation value) last)
        program phase := by
  induction program generalizing phase with
  | pure value => exact Iff.rfl
  | stop reason => exact Iff.rfl
  | call op next inductionHypothesis =>
      exact and_congr_right' (forall_congr' fun answer => inductionHypothesis answer)

theorem Conforms.bind {between : α → protocol.Phase → Prop} {ends : β → protocol.Phase → Prop}
    {program : Program ε interface α} {continuation : α → Program ε interface β}
    {phase : protocol.Phase} (first : protocol.Conforms between program phase)
    (second : ∀ value phase, between value phase →
      protocol.Conforms ends (continuation value) phase) :
    protocol.Conforms ends (program >>= continuation) phase :=
  conforms_bind_iff.mpr (first.imp second)

theorem Conforms.stopsOnlyFor {ends : α → protocol.Phase → Prop}
    {program : Program ε interface α} {phase : protocol.Phase}
    (conforms : protocol.Conforms ends program phase) :
    program.StopsOnlyFor protocol.allowed := by
  induction program generalizing phase with
  | pure value => trivial
  | stop reason => exact conforms
  | call op next inductionHypothesis =>
      intro answer
      exact inductionHypothesis answer (conforms.2 answer)

/-- Where a program with a result ends: in this phase after success, in another one
after a failure. -/
def EndsIn (protocol : Protocol ε interface) (success : protocol.Phase)
    (failure : protocol.Phase → Prop) : Bool → protocol.Phase → Prop
  | true, last => last = success
  | false, last => failure last

/-- Programs that end in the phase they started in can be performed for a whole list. -/
theorem Conforms.mapM {returns : β → Prop} {body : α → Program ε interface β}
    {phase : protocol.Phase} (inputs : List α)
    (bodies : ∀ input, protocol.Conforms (fun value last => returns value ∧ last = phase)
      (body input) phase) :
    protocol.Conforms (fun values last => (∀ value ∈ values, returns value) ∧ last = phase)
      (inputs.mapM body) phase := by
  induction inputs with
  | nil => exact ⟨List.forall_mem_nil _, rfl⟩
  | cons input rest inductionHypothesis =>
      rw [List.mapM_cons]
      apply (bodies input).bind
      rintro value _ ⟨returned, rfl⟩
      apply inductionHypothesis.bind
      rintro values _ ⟨allReturned, rfl⟩
      exact ⟨List.forall_mem_cons.mpr ⟨returned, allReturned⟩, rfl⟩

/-- Where the handler keeps an invariant in every phase, so does every program that
conforms to the protocol. -/
theorem Conforms.interpret {ends : α → protocol.Phase → Prop}
    {invariant : protocol.Phase → σ → Prop}
    {handler : (op : interface.Op) → EStateM ε σ (interface.Answer op)}
    (keeps : ∀ phase op, protocol.permitted phase op →
      Returns (invariant phase) (handler op) fun answer =>
        invariant (protocol.advance phase op answer))
    {program : Program ε interface α} {phase : protocol.Phase}
    (conforms : protocol.Conforms ends program phase) :
    Returns (invariant phase) (program.interpret handler) fun value final =>
      ∃ last, ends value last ∧ invariant last final := by
  induction program generalizing phase with
  | pure value => exact Returns.pure fun _ satisfied => ⟨phase, conforms, satisfied⟩
  | stop reason => exact Returns.throw reason
  | call op next inductionHypothesis =>
      exact Returns.bind (keeps phase op conforms.1) fun answer =>
        inductionHypothesis answer (conforms.2 answer)

end Protocol

/-! ## Simulations -/

/-- A relation between the computations of two systems that programs cannot
leave: it relates equal values and is kept by sequencing. -/
structure Simulation (ε σ τ : Type) where
  Related : {α : Type} → EStateM ε σ α → EStateM ε τ α → Prop
  pure : ∀ {α : Type} (value : α), Related (pure value) (pure value)
  bind : ∀ {α β : Type} {left : EStateM ε σ α} {right : EStateM ε τ α}
    {leftNext : α → EStateM ε σ β} {rightNext : α → EStateM ε τ β},
    Related left right → (∀ value, Related (leftNext value) (rightNext value)) →
      Related (left >>= leftNext) (right >>= rightNext)

namespace Simulation

variable {ε σ τ α : Type} (simulation : Simulation ε σ τ)

/-- Stopping for a reason is related to stopping for it. -/
def RelatesStop (reason : ε) : Prop :=
  ∀ {α : Type}, simulation.Related (throw reason : EStateM ε σ α) (throw reason)

/-- Two handlers with related answers give a program related meanings. -/
theorem interpret {interface : Interface}
    {left : (op : interface.Op) → EStateM ε σ (interface.Answer op)}
    {right : (op : interface.Op) → EStateM ε τ (interface.Answer op)}
    (answers : ∀ op, simulation.Related (left op) (right op))
    {program : Program ε interface α}
    (stops : program.StopsOnlyFor fun reason => simulation.RelatesStop reason) :
    simulation.Related (program.interpret left) (program.interpret right) := by
  induction program with
  | pure value => exact simulation.pure value
  | stop reason => exact stops
  | call op next inductionHypothesis =>
      apply simulation.bind (answers op)
      intro answer
      exact inductionHypothesis answer (stops answer)

/-- It is enough that the answers to those operations are related that the program performs. -/
theorem interpret_of_performs {interface : Interface}
    {left : (op : interface.Op) → EStateM ε σ (interface.Answer op)}
    {right : (op : interface.Op) → EStateM ε τ (interface.Answer op)}
    {program : Program ε interface α}
    (answers : ∀ op, program.Performs op → simulation.Related (left op) (right op))
    (stops : program.StopsOnlyFor fun reason => simulation.RelatesStop reason) :
    simulation.Related (program.interpret left) (program.interpret right) := by
  induction program with
  | pure value => exact simulation.pure value
  | stop reason => exact stops
  | call op next inductionHypothesis =>
      apply simulation.bind (answers op (.inl rfl))
      intro answer
      apply inductionHypothesis answer _ (stops answer)
      exact fun later performed => answers later (.inr ⟨answer, performed⟩)

end Simulation

/-- How a computation may change the state: `returns` relates the states around
a run that returns, `stops` the state a run starts in with the reason it stops
for and the state it leaves.  The laws let runs be composed. -/
structure Contract (ε σ : Type) where
  returns : σ → σ → Prop
  stops : σ → ε → σ → Prop
  refl : ∀ start, returns start start
  trans : ∀ {start middle final}, returns start middle → returns middle final →
    returns start final
  after : ∀ {start middle reason final}, returns start middle →
    stops middle reason final → stops start reason final

namespace Contract

variable {ε σ α β : Type} {interface : Interface} (contract : Contract ε σ)

/-- Every run of the computation respects the contract. -/
def Holds (computation : EStateM ε σ α) : Prop :=
  ∀ start, match computation start with
    | .ok _ final => contract.returns start final
    | .error reason final => contract.stops start reason final

theorem Holds.returns {contract : Contract ε σ} {computation : EStateM ε σ α}
    (holds : contract.Holds computation) {start final : σ} {value : α}
    (run : computation start = .ok value final) : contract.returns start final := by
  have respected := holds start
  rw [run] at respected
  exact respected

theorem Holds.stops {contract : Contract ε σ} {computation : EStateM ε σ α}
    (holds : contract.Holds computation) {start final : σ} {reason : ε}
    (run : computation start = .error reason final) :
    contract.stops start reason final := by
  have respected := holds start
  rw [run] at respected
  exact respected

theorem holds_bind {computation : EStateM ε σ α} {continuation : α → EStateM ε σ β}
    (first : contract.Holds computation)
    (second : ∀ value, contract.Holds (continuation value)) :
    contract.Holds (computation >>= continuation) := by
  intro start
  have firstRun := first start
  rw [show (computation >>= continuation) start =
    (match computation start with
      | .ok value middle => continuation value middle
      | .error reason final => .error reason final) from rfl]
  cases run : computation start with
  | error reason final =>
      rw [run] at firstRun
      exact firstRun
  | ok value middle =>
      rw [run] at firstRun
      have secondRun := second value middle
      cases rest : continuation value middle with
      | ok result final =>
          simp only [rest] at secondRun ⊢
          exact contract.trans firstRun secondRun
      | error reason final =>
          simp only [rest] at secondRun ⊢
          exact contract.after firstRun secondRun

theorem holds_pure (value : α) : contract.Holds (pure value) := fun start => contract.refl start

theorem holds_foldlM {step : β → α → EStateM ε σ β}
    (each : ∀ result element, contract.Holds (step result element)) (elements : List α)
    (result : β) : contract.Holds (elements.foldlM step result) := by
  induction elements generalizing result with
  | nil => exact contract.holds_pure result
  | cons element rest inductionHypothesis =>
      rw [List.foldlM_cons]
      exact contract.holds_bind (each result element) inductionHypothesis

/-- A program that keeps the rules of a protocol respects a contract that all operations
respect which these rules permit. -/
theorem holds_interpret {protocol : Protocol ε interface}
    {handler : (op : interface.Op) → EStateM ε σ (interface.Answer op)}
    (operations : ∀ phase op, protocol.permitted phase op → contract.Holds (handler op))
    (stops : ∀ reason, protocol.allowed reason → ∀ start, contract.stops start reason start)
    {ends : α → protocol.Phase → Prop} {program : Program ε interface α} {phase : protocol.Phase}
    (conforms : protocol.Conforms ends program phase) :
    contract.Holds (program.interpret handler) := by
  induction program generalizing phase with
  | pure value => exact contract.holds_pure value
  | stop reason => exact stops reason conforms
  | call op next inductionHypothesis =>
      apply contract.holds_bind (operations phase op conforms.1)
      intro answer
      exact inductionHypothesis answer (conforms.2 answer)

/-- Computations are related if they are the same one and it respects the contract. -/
def agreement : Simulation ε σ σ where
  Related left right := left = right ∧ contract.Holds left
  pure value := ⟨rfl, contract.holds_pure value⟩
  bind first second :=
    ⟨by rw [first.1, funext fun value => (second value).1],
      contract.holds_bind first.2 fun value => (second value).2⟩

/-- What respects a contract cannot be left by programs either. -/
def simulation : Simulation ε σ σ where
  Related computation _ := contract.Holds computation
  pure _ := fun start => contract.refl start
  bind first second := contract.holds_bind first second

end Contract

end ExecHelper.Library
