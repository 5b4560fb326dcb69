import Mathlib.Data.Set.Card
import Mathlib.Data.Set.Finite.List
import Mathlib.Logic.Relation

/-!
# Relations without reachable cycles

A relation whose sources form a finite collection can be followed for ever from an
element only along a cycle.  So an element that reaches no cycle is accessible,
and recursion along the relation from there ends.
-/

namespace ExecHelper.Library

open Relation

variable {α : Type}

/-- No cycle of the relation can be reached from the element. -/
def Acyclic (step : α → α → Prop) (start : α) : Prop :=
  ∀ reached, ReflTransGen step start reached → ¬TransGen step reached reached

namespace Acyclic

variable {step : α → α → Prop} {start next : α}

/-- From an element that reaches a cycle, one can step to another one. -/
theorem exists_step_of_not (cyclic : ¬Acyclic step start) :
    ∃ next, step start next ∧ ¬Acyclic step next := by
  simp only [Acyclic, not_forall, not_not] at cyclic
  rcases cyclic with ⟨reached, path, cycle⟩
  rcases ReflTransGen.cases_head path with rfl | ⟨next, taken, onward⟩
  · rcases TransGen.head'_iff.mp cycle with ⟨next, taken, back⟩
    exact ⟨next, taken, fun acyclic => acyclic start back cycle⟩
  · exact ⟨next, taken, fun acyclic => acyclic reached onward cycle⟩

/-- An element that reaches no cycle is accessible when the relation leaves only
elements of a finite collection. -/
theorem acc (acyclic : Acyclic step start) (sources : List α)
    (inside : ∀ current next, step current next → current ∈ sources) :
    Acc (fun next current => step current next) start := by
  let Reached := { current // current ∈ sources ∧ ReflTransGen step start current }
  let later : Reached → Reached → Prop := fun next current =>
    TransGen step current.1 next.1
  have finite : Finite Reached :=
    (sources.finite_toSet.subset fun _ reached => reached.1).to_subtype
  have transitive : IsTrans Reached later :=
    ⟨fun _ _ _ first second => TransGen.trans second first⟩
  have irreflexive : Std.Irrefl later :=
    ⟨fun reached cycle => acyclic reached.1 reached.2.2 cycle⟩
  have founded : WellFounded later := Finite.wellFounded_of_trans_of_irrefl later
  have reachedAcc : ∀ reached : Reached,
      Acc (fun next current => step current next) reached.1 := by
    intro reached
    induction reached using founded.induction with
    | h reached inductionHypothesis =>
        constructor
        intro next taken
        by_cases source : next ∈ sources
        · exact inductionHypothesis ⟨next, source, reached.2.2.tail taken⟩ (.single taken)
        · constructor
          intro further leaves
          exact absurd (inside next further leaves) source
  by_cases source : start ∈ sources
  · exact reachedAcc ⟨start, source, .refl⟩
  · constructor
    intro next leaves
    exact absurd (inside start next leaves) source

/-- A relation that lowers a number has no cycle. -/
theorem of_decreasing {size : α → Nat}
    (decreases : ∀ current next, step current next → size next < size current) (start : α) :
    Acyclic step start := by
  have smaller : ∀ {current next}, TransGen step current next → size next < size current := by
    intro current next path
    induction path with
    | single taken => exact decreases _ _ taken
    | tail _ taken inductionHypothesis => exact (decreases _ _ taken).trans inductionHypothesis
  exact fun reached _ cycle => Nat.lt_irrefl _ (smaller cycle)

/-- What can be reached from the next element could be reached before. -/
theorem of_step (acyclic : Acyclic step start) (taken : step start next) : Acyclic step next :=
  fun reached path => acyclic reached (.head taken path)

end Acyclic

/-! ## Ranks -/

/-- How many of the sources can be reached from the element. -/
noncomputable def rank (step : α → α → Prop) (sources : List α) (element : α) : Nat :=
  {source | source ∈ sources ∧ ReflTransGen step element source}.ncard

section Rank

variable {step : α → α → Prop} {sources : List α} {start next : α}

theorem rank_le (step : α → α → Prop) (sources : List α) (element : α) :
    rank step sources element ≤ sources.length := by
  classical
  have reached : {source | source ∈ sources ∧ ReflTransGen step element source} ⊆
      (sources.toFinset : Set α) := by
    intro source member
    exact List.mem_toFinset.mpr member.1
  calc rank step sources element
      ≤ (sources.toFinset : Set α).ncard := Set.ncard_le_ncard reached (Finset.finite_toSet _)
    _ = sources.toFinset.card := Set.ncard_coe_finset _
    _ ≤ sources.length := List.toFinset_card_le sources

/-- Where the relation leaves only sources, a step from an element that reaches no cycle
lowers the rank: the element itself cannot be reached any more. -/
theorem Acyclic.rank_lt (acyclic : Acyclic step start) (inside : start ∈ sources)
    (taken : step start next) : rank step sources next < rank step sources start := by
  apply Set.ncard_lt_ncard
  · constructor
    · rintro source ⟨member, path⟩
      exact ⟨member, .head taken path⟩
    · intro subset
      have back := (subset ⟨inside, .refl⟩).2
      exact acyclic start .refl (.head' taken back)
  · exact sources.finite_toSet.subset fun _ reached => reached.1

end Rank

end ExecHelper.Library
