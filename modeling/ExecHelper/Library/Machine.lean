/-!
# Machines

A machine steps from one state to the next by an operation, or refuses it.  A
statement about every state of a run follows from one about every step: an
invariant holds all the way exactly when every executed step meets the condition
under which that step keeps it.  Where a refused step is a failure of its own, a run
has to come to its end as well.
-/

namespace ExecHelper.Library.Machine

variable {σ ω : Type}

/-- The invariant holds in every state of the run, the first one included. -/
def Always (step : σ → ω → Option σ) (invariant : σ → Prop) : σ → List ω → Prop
  | state, [] => invariant state
  | state, operation :: rest =>
      invariant state ∧ ∀ next, step state operation = some next → Always step invariant next rest

/-- Every step of the run that is not refused meets the condition. -/
def EachStep (step : σ → ω → Option σ) (condition : σ → ω → Prop) : σ → List ω → Prop
  | _, [] => True
  | state, operation :: rest =>
      ∀ next, step state operation = some next →
        condition state operation ∧ EachStep step condition next rest

/-- No step of the run is refused, and the invariant holds in every state. -/
def Throughout (step : σ → ω → Option σ) (invariant : σ → Prop) : σ → List ω → Prop
  | state, [] => invariant state
  | state, operation :: rest =>
      invariant state ∧ ∃ next, step state operation = some next ∧
        Throughout step invariant next rest

/-- Every step of the run meets the condition, also the one that is refused. -/
def EveryStep (step : σ → ω → Option σ) (condition : σ → ω → Prop) : σ → List ω → Prop
  | _, [] => True
  | state, operation :: rest =>
      condition state operation ∧
        ∀ next, step state operation = some next → EveryStep step condition next rest

variable {step : σ → ω → Option σ} {invariant : σ → Prop} {condition : σ → ω → Prop}
variable {start : σ} {operations : List ω}

theorem Always.head (always : Always step invariant start operations) : invariant start := by
  cases operations with
  | nil => exact always
  | cons operation rest => exact always.1

/-- From a step that keeps the invariant exactly under a condition to whole runs. -/
theorem always_iff_eachStep
    (keeps : ∀ state operation next, step state operation = some next → invariant state →
      (invariant next ↔ condition state operation))
    (initial : invariant start) :
    Always step invariant start operations ↔ EachStep step condition start operations := by
  induction operations generalizing start with
  | nil => exact ⟨fun _ => trivial, fun _ => initial⟩
  | cons operation rest inductionHypothesis =>
      constructor
      · rintro ⟨_, always⟩ next stepped
        have kept := (always next stepped).head
        constructor
        · exact (keeps start operation next stepped initial).mp kept
        · exact (inductionHypothesis kept).mp (always next stepped)
      · intro each
        constructor
        · exact initial
        · intro next stepped
          rcases each next stepped with ⟨met, rest⟩
          have kept := (keeps start operation next stepped initial).mpr met
          exact (inductionHypothesis kept).mpr rest

theorem Throughout.head (throughout : Throughout step invariant start operations) :
    invariant start := by
  cases operations with
  | nil => exact throughout
  | cons operation rest => exact throughout.1

/-- From a step that is taken and keeps the invariant exactly under a condition to whole
runs. -/
theorem throughout_iff_everyStep
    (keeps : ∀ state operation, invariant state →
      ((∃ next, step state operation = some next ∧ invariant next) ↔ condition state operation))
    (initial : invariant start) :
    Throughout step invariant start operations ↔ EveryStep step condition start operations := by
  induction operations generalizing start with
  | nil => exact ⟨fun _ => trivial, fun _ => initial⟩
  | cons operation rest inductionHypothesis =>
      constructor
      · rintro ⟨_, next, stepped, throughout⟩
        constructor
        · exact (keeps start operation initial).mp ⟨next, stepped, throughout.head⟩
        · intro other again
          obtain rfl := Option.some.inj (stepped.symm.trans again)
          exact (inductionHypothesis throughout.head).mp throughout
      · rintro ⟨met, each⟩
        obtain ⟨next, stepped, kept⟩ := (keeps start operation initial).mpr met
        exact ⟨initial, next, stepped, (inductionHypothesis kept).mpr (each next stepped)⟩

end ExecHelper.Library.Machine
