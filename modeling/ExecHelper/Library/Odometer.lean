import Mathlib.Algebra.Group.Nat.Defs
import Mathlib.Data.List.Forall2

/-!
# Odometers

Columns of values, each under a key, and a position in every column.  Advancing
moves the last column and carries into the one before it whenever a column is
exhausted.  An odometer that starts at the first positions reads the
combinations of the product of its columns one by one, the last column varying
fastest, and carries out of the first column after the last combination.

The proof follows `remaining`, the combinations that are still to be read: one
step of the odometer removes exactly its first element.

Every combination stands at one list of indexes, and the combinations are in the
lexicographic order of these lists.
-/

namespace ExecHelper.Library.Odometer

variable {κ α : Type}

/-- The columns of an odometer, the slowest one first. -/
abbrev Columns (κ α : Type) := List (κ × List α)

/-- Every combination of one value from each column, in lexicographic order of
the positions: the last column varies fastest. -/
def product : Columns κ α → List (List (κ × α))
  | [] => [[]]
  | (key, values) :: rest =>
      values.flatMap fun value =>
        (product rest).map fun combination => (key, value) :: combination

/-- The combination at the given positions, if every position is a value. -/
def reading : Columns κ α → (κ → Nat) → Option (List (κ × α))
  | [], _ => some []
  | (key, values) :: rest, positions => do
      let value ← values[positions key]?
      let combination ← reading rest positions
      return (key, value) :: combination

/-- Every position is that of a value of its column. -/
def Within (columns : Columns κ α) (positions : κ → Nat) : Prop :=
  ∀ column ∈ columns, positions column.1 < column.2.length

/-- The combinations from the one at the given positions to the last one. -/
def remaining : Columns κ α → (κ → Nat) → List (List (κ × α))
  | [], _ => [[]]
  | (key, values) :: rest, positions =>
      (values[positions key]?.toList.flatMap fun value =>
        (remaining rest positions).map fun combination => (key, value) :: combination) ++
      (values.drop (positions key + 1)).flatMap fun value =>
        (product rest).map fun combination => (key, value) :: combination

/-- The lists of one index into each column, in the order of `product`. -/
def indexLists : Columns κ α → List (List Nat)
  | [] => [[]]
  | (_, values) :: rest =>
      (List.range values.length).flatMap fun index =>
        (indexLists rest).map fun indexes => index :: indexes

/-- The entry of a column at an index, if there is a value. -/
def entryAt (column : κ × List α) (index : Nat) : Option (κ × α) :=
  column.2[index]?.map fun value => (column.1, value)

theorem product_of_mem_empty {columns : Columns κ α} {column : κ × List α}
    (member : column ∈ columns) (empty : column.2 = []) : product columns = [] := by
  induction columns with
  | nil => cases member
  | cons head rest inductionHypothesis =>
      rcases List.mem_cons.mp member with same | later
      · subst same
        simp [product, empty]
      · simp [product, inductionHypothesis later]

/-- Short columns have few combinations. -/
theorem length_product_le {columns : Columns κ α} {most : Nat}
    (each : ∀ column ∈ columns, column.2.length ≤ most) :
    (product columns).length ≤ most ^ columns.length := by
  induction columns with
  | nil => exact Nat.le_refl 1
  | cons column rest inductionHypothesis =>
      obtain ⟨first, later⟩ := List.forall_mem_cons.mp each
      have combinations : (product (column :: rest)).length =
          column.2.length * (product rest).length := by
        simp only [product, List.length_flatMap, List.length_map, List.map_const',
          List.sum_replicate_nat]
      rw [combinations, List.length_cons, Nat.pow_succ']
      exact Nat.mul_le_mul first (inductionHypothesis later)

/-- A combination has the keys of the columns. -/
theorem keys_of_mem_product {columns : Columns κ α} {combination : List (κ × α)}
    (member : combination ∈ product columns) :
    combination.map Prod.fst = columns.map Prod.fst := by
  induction columns generalizing combination with
  | nil =>
      rw [product, List.mem_singleton] at member
      rw [member]
      rfl
  | cons column rest inductionHypothesis =>
      rcases column with ⟨key, values⟩
      rw [product, List.mem_flatMap] at member
      rcases member with ⟨value, _, inside⟩
      rcases List.mem_map.mp inside with ⟨others, otherMember, rfl⟩
      rw [List.map_cons, List.map_cons, inductionHypothesis otherMember]

/-- The entries of a combination are values of the columns. -/
theorem mem_column_of_mem_product {columns : Columns κ α} {combination : List (κ × α)}
    (member : combination ∈ product columns) {entry : κ × α} (inside : entry ∈ combination) :
    ∃ column ∈ columns, entry.1 = column.1 ∧ entry.2 ∈ column.2 := by
  induction columns generalizing combination with
  | nil =>
      rw [product, List.mem_singleton] at member
      rw [member] at inside
      cases inside
  | cons column rest inductionHypothesis =>
      rw [product, List.mem_flatMap] at member
      obtain ⟨value, listed, below⟩ := member
      obtain ⟨others, otherMember, rfl⟩ := List.mem_map.mp below
      rcases List.mem_cons.mp inside with rfl | later
      · exact ⟨column, List.mem_cons_self, rfl, listed⟩
      · obtain ⟨own, among, entries⟩ := inductionHypothesis otherMember later
        exact ⟨own, List.mem_cons_of_mem _ among, entries⟩

theorem within_cons {key : κ} {values : List α} {rest : Columns κ α}
    {positions : κ → Nat} :
    Within ((key, values) :: rest) positions ↔
      positions key < values.length ∧ Within rest positions := by
  simp [Within]

/-! ## Combinations and their indexes -/

section IndexLists

variable {columns : Columns κ α}

/-- The index lists are those of one index below the size of every column. -/
theorem mem_indexLists {indexes : List Nat} :
    indexes ∈ indexLists columns ↔
      List.Forall₂ (fun column index => index < column.2.length) columns indexes := by
  induction columns generalizing indexes with
  | nil => simp [indexLists]
  | cons column rest inductionHypothesis =>
      rcases column with ⟨key, values⟩
      cases indexes with
      | nil => simp [indexLists]
      | cons index indexes => simp [indexLists, inductionHypothesis]

/-- One of increasing numbers in front of one of increasing lists makes increasing lists. -/
theorem flatMap_cons_sorted {heads : List Nat} {tails : List (List Nat)}
    (headsSorted : heads.Pairwise (· < ·)) (tailsSorted : tails.Pairwise (· < ·)) :
    (heads.flatMap fun head => tails.map fun tail => head :: tail).Pairwise (· < ·) := by
  rw [List.pairwise_flatMap]
  constructor
  · intro head _
    rw [List.pairwise_map]
    exact tailsSorted.imp fun earlier => List.cons_lt_cons_iff.mpr (.inr ⟨rfl, earlier⟩)
  · apply headsSorted.imp
    intro head later before left leftMember right rightMember
    rcases List.mem_map.mp leftMember with ⟨leftTail, _, rfl⟩
    rcases List.mem_map.mp rightMember with ⟨rightTail, _, rfl⟩
    exact List.cons_lt_cons_iff.mpr (.inl before)

/-- The index lists are in lexicographic order, which leaves no list twice. -/
theorem indexLists_sorted (columns : Columns κ α) :
    (indexLists columns).Pairwise (· < ·) := by
  induction columns with
  | nil => simp [indexLists]
  | cons column rest inductionHypothesis =>
      rcases column with ⟨key, values⟩
      exact flatMap_cons_sorted List.pairwise_lt_range inductionHypothesis

/-- Going over the values is going over their indexes. -/
private theorem flatMap_eq_flatMap_range {γ : Type} (values : List α) (own : α → List γ)
    (read : Option α → List γ) (reads : ∀ value, read (some value) = own value) :
    values.flatMap own = (List.range values.length).flatMap fun index => read values[index]? := by
  induction values with
  | nil => rfl
  | cons value rest inductionHypothesis =>
      rw [List.flatMap_cons, List.length_cons, List.range_succ_eq_map, List.flatMap_cons,
        List.flatMap_map, List.getElem?_cons_zero, reads, inductionHypothesis]
      rfl

/-- The combinations are the entries at the index lists. -/
theorem product_entries (columns : Columns κ α) :
    (product columns).map (fun combination => combination.map some) =
      (indexLists columns).map fun indexes => columns.zipWith entryAt indexes := by
  induction columns with
  | nil => rfl
  | cons column rest inductionHypothesis =>
      rcases column with ⟨key, values⟩
      have tails (entry : Option (κ × α)) :
          ((product rest).map fun combination => entry :: combination.map some) =
            (indexLists rest).map fun indexes => entry :: rest.zipWith entryAt indexes := by
        have prefixed := congrArg (List.map (List.cons entry)) inductionHypothesis
        rwa [List.map_map, List.map_map] at prefixed
      rw [product, indexLists, List.map_flatMap, List.map_flatMap,
        flatMap_eq_flatMap_range values _ fun value =>
          (indexLists rest).map fun indexes =>
            value.map (fun value => (key, value)) :: rest.zipWith entryAt indexes]
      · congr 1
        funext index
        rw [List.map_map]
        rfl
      · intro value
        rw [List.map_map, Option.map_some, ← tails]
        rfl

end IndexLists

/-! ## Running -/

/-- At the first positions every combination is still to be read. -/
theorem remaining_start {columns : Columns κ α} {positions : κ → Nat}
    (within : Within columns positions)
    (start : ∀ column ∈ columns, positions column.1 = 0) :
    remaining columns positions = product columns := by
  induction columns with
  | nil => rfl
  | cons column rest inductionHypothesis =>
      rcases column with ⟨key, values⟩
      rcases within_cons.mp within with ⟨inside, restWithin⟩
      have first : positions key = 0 := start (key, values) (List.mem_cons_self ..)
      have restRemaining : remaining rest positions = product rest := by
        apply inductionHypothesis restWithin
        intro column member
        exact start column (List.mem_cons_of_mem _ member)
      cases values with
      | nil => simp at inside
      | cons value others => simp [remaining, product, first, restRemaining]

section Advance

variable [DecidableEq κ]

/-- Move to the next positions from the last column on; the result tells whether
the first column was carried out of. -/
def advance : Columns κ α → (κ → Nat) → Bool × (κ → Nat)
  | [], positions => (true, positions)
  | (key, values) :: rest, positions =>
      let (carry, moved) := advance rest positions
      if !carry then (false, moved)
      else if moved key + 1 = values.length then (true, Function.update moved key 0)
      else (false, Function.update moved key (moved key + 1))

/-- Only the positions of the given columns move. -/
theorem advance_of_notMem {columns : Columns κ α} {key : κ}
    (outside : key ∉ columns.map Prod.fst) (positions : κ → Nat) :
    (advance columns positions).2 key = positions key := by
  induction columns with
  | nil => rfl
  | cons column rest inductionHypothesis =>
      rcases column with ⟨own, values⟩
      simp only [List.map_cons, List.mem_cons, not_or] at outside
      have unmoved := inductionHypothesis outside.2
      simp only [advance]
      split
      · exact unmoved
      · split <;> simpa [Function.update_of_ne outside.1] using unmoved

section Columns

variable {key : κ} {values : List α} {rest : Columns κ α} {positions : κ → Nat}

/-- Without a carry, the first column stays where it is. -/
theorem advance_cons_of_stays (carry : (advance rest positions).1 = false) :
    advance ((key, values) :: rest) positions = (false, (advance rest positions).2) := by
  simp [advance, carry]

/-- A carry takes an exhausted column back to its first position and goes on. -/
theorem advance_cons_of_exhausted (outside : key ∉ rest.map Prod.fst)
    (carry : (advance rest positions).1 = true)
    (exhausted : positions key + 1 = values.length) :
    advance ((key, values) :: rest) positions =
      (true, Function.update (advance rest positions).2 key 0) := by
  simp [advance, carry, advance_of_notMem outside, exhausted]

/-- A carry moves any other column. -/
theorem advance_cons_of_moves (outside : key ∉ rest.map Prod.fst)
    (carry : (advance rest positions).1 = true)
    (inside : positions key + 1 ≠ values.length) :
    advance ((key, values) :: rest) positions =
      (false, Function.update (advance rest positions).2 key (positions key + 1)) := by
  simp [advance, carry, advance_of_notMem outside, inside]

/-- Moving a column leaves the positions of the other columns alone. -/
private theorem update_of_mem (outside : key ∉ rest.map Prod.fst) (position : Nat)
    {column : κ × List α} (member : column ∈ rest) :
    Function.update positions key position column.1 = positions column.1 := by
  apply Function.update_of_ne
  intro same
  exact outside (List.mem_map.mpr ⟨column, member, same⟩)

private theorem within_update (outside : key ∉ rest.map Prod.fst) {position : Nat}
    (inside : position < values.length) (within : Within rest positions) :
    Within ((key, values) :: rest) (Function.update positions key position) := by
  apply within_cons.mpr
  constructor
  · rw [Function.update_self]
    exact inside
  · intro column member
    rw [update_of_mem outside position member]
    exact within column member

end Columns

/-- One step of the odometer: it stays within the columns, the reading is the
first of the remaining combinations, and the others remain unless the odometer
was carried out of, which takes it back to the first positions. -/
structure Steps (columns : Columns κ α) (positions : κ → Nat) (carried : Bool)
    (moved : κ → Nat) : Prop where
  within : Within columns moved
  start : carried = true → ∀ column ∈ columns, moved column.1 = 0
  reads : ∃ combination, reading columns positions = some combination ∧
    remaining columns positions =
      combination :: if carried then [] else remaining columns moved

section Steps

variable {key : κ} {values : List α} {rest : Columns κ α} {positions moved : κ → Nat}

omit [DecidableEq κ] in
private theorem reading_cons (inside : positions key < values.length)
    {combination : List (κ × α)} (restReading : reading rest positions = some combination) :
    reading ((key, values) :: rest) positions =
      some ((key, values[positions key]) :: combination) := by
  simp [reading, List.getElem?_eq_getElem inside, restReading]

omit [DecidableEq κ] in
private theorem Steps.stays (inside : positions key < values.length)
    (steps : Steps rest positions false moved) (unmoved : moved key = positions key) :
    Steps ((key, values) :: rest) positions false moved where
  within := by
    apply within_cons.mpr
    constructor
    · rw [unmoved]
      exact inside
    · exact steps.within
  start carried := by cases carried
  reads := by
    rcases steps.reads with ⟨combination, restReading, restRemaining⟩
    refine ⟨_, reading_cons inside restReading, ?_⟩
    simp [remaining, unmoved, List.getElem?_eq_getElem inside, restRemaining]

private theorem Steps.exhausted (outside : key ∉ rest.map Prod.fst)
    (inside : positions key < values.length) (steps : Steps rest positions true moved)
    (exhausted : positions key + 1 = values.length) :
    Steps ((key, values) :: rest) positions true (Function.update moved key 0) where
  within := within_update outside (Nat.zero_lt_of_lt inside) steps.within
  start _ column member := by
    rcases List.mem_cons.mp member with same | later
    · rw [same, Function.update_self]
    · rw [update_of_mem outside 0 later]
      exact steps.start rfl column later
  reads := by
    rcases steps.reads with ⟨combination, restReading, restRemaining⟩
    refine ⟨_, reading_cons inside restReading, ?_⟩
    simp [remaining, List.getElem?_eq_getElem inside, restRemaining, exhausted]

private theorem Steps.moves (outside : key ∉ rest.map Prod.fst)
    (inside : positions key < values.length) (steps : Steps rest positions true moved)
    (next : positions key + 1 < values.length) :
    Steps ((key, values) :: rest) positions false
      (Function.update moved key (positions key + 1)) where
  within := within_update outside next steps.within
  start carried := by cases carried
  reads := by
    rcases steps.reads with ⟨combination, restReading, restRemaining⟩
    refine ⟨_, reading_cons inside restReading, ?_⟩
    -- The other columns start again, so that all their combinations remain.
    have restAgain : remaining rest (Function.update moved key (positions key + 1)) =
        product rest := by
      apply remaining_start (within_cons.mp (within_update outside next steps.within)).2
      intro column member
      rw [update_of_mem outside _ member]
      exact steps.start rfl column member
    rw [if_pos rfl] at restRemaining
    rw [if_neg Bool.false_ne_true, remaining, remaining, Function.update_self, restAgain,
      restRemaining, List.getElem?_eq_getElem inside, List.getElem?_eq_getElem next,
      List.drop_eq_getElem_cons next, List.flatMap_cons]
    simp

end Steps

/-- Advancing from positions within the columns is a step of the odometer. -/
theorem advance_spec {columns : Columns κ α} {positions : κ → Nat}
    (distinct : (columns.map Prod.fst).Nodup) (within : Within columns positions) :
    Steps columns positions (advance columns positions).1 (advance columns positions).2 := by
  induction columns with
  | nil => exact ⟨within, fun _ _ member => absurd member List.not_mem_nil, [], rfl, rfl⟩
  | cons column rest inductionHypothesis =>
      rcases column with ⟨key, values⟩
      rcases within_cons.mp within with ⟨inside, restWithin⟩
      rcases List.nodup_cons.mp distinct with ⟨outside, restDistinct⟩
      have steps := inductionHypothesis restDistinct restWithin
      cases carry : (advance rest positions).1 with
      | false =>
          rw [carry] at steps
          rw [advance_cons_of_stays carry]
          exact steps.stays inside (advance_of_notMem outside positions)
      | true =>
          rw [carry] at steps
          by_cases exhausted : positions key + 1 = values.length
          · rw [advance_cons_of_exhausted outside carry exhausted]
            exact steps.exhausted outside inside exhausted
          · rw [advance_cons_of_moves outside carry exhausted]
            exact steps.moves outside inside (by omega)

end Advance

end ExecHelper.Library.Odometer
