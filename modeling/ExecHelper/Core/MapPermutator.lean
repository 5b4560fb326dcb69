import ExecHelper.Core.Stop
import ExecHelper.Library.Odometer
import ExecHelper.Library.OrderedMap
import ExecHelper.Library.Program
import Mathlib.Algebra.Group.Nat.Defs

/-!
# Map permutator

The iterator over all permutations of the values of a map.  It keeps one 32-bit
index for every key, and its end is recognised by a flag or by equal indexes.

The iterator is an odometer whose columns are the entries of the map in key
order, as long as every value list is shorter than `2 ^ 32`.  A longer list
cannot be indexed: the end of a list of exactly that length is its beginning.
Whatever the sizes are, an iteration only yields values of the map, each under its
own key.
-/

namespace ExecHelper.Core

open Std
open ExecHelper.Library

/-- The iterator object of `MapPermutator<κ, α>`. `indexes` has the keys of
`map`. -/
structure MapPermutator (κ α : Type) [Ord κ] where
  map : ExtTreeMap κ (List α)
  indexes : ExtTreeMap κ UInt32
  atEnd : Bool

namespace MapPermutator

variable {κ α : Type} [Ord κ] [TransOrd κ]

/-- Give one element of the map its index. An empty value list makes the iterator
an end iterator, from that key on also for its indexes. -/
def emplaceIndex (iterator : MapPermutator κ α) (mapElement : κ × List α) :
    MapPermutator κ α :=
  let atEnd := iterator.atEnd || mapElement.2.isEmpty
  let index := if atEnd then UInt32.ofNat mapElement.2.length else 0
  { iterator with atEnd, indexes := iterator.indexes.insertIfNew mapElement.1 index }

/-- Construct an iterator over the map. -/
def ofMap (map : ExtTreeMap κ (List α)) (atEnd : Bool) : MapPermutator κ α :=
  map.toList.foldl emplaceIndex ⟨map, ∅, atEnd⟩

/-- The iterator to the beginning. -/
def first (map : ExtTreeMap κ (List α)) : MapPermutator κ α := ofMap map false

/-- The iterator to the end. -/
def last (map : ExtTreeMap κ (List α)) : MapPermutator κ α := ofMap map true

/-- Increment the index of the first given key that is not at its last value;
the keys before it start again. The result tells whether every key did. -/
def incrementIndexes (map : ExtTreeMap κ (List α)) :
    List κ → ExtTreeMap κ UInt32 → Bool × ExtTreeMap κ UInt32
  | [], indexes => (true, indexes)
  | key :: rest, indexes =>
      let index := indexes.getD key 0 + 1
      if index.toNat = (map.getD key []).length then
        incrementIndexes map rest (indexes.insert key 0)
      else (false, indexes.insert key index)

/-- The next iterator element (`operator++`). -/
def next (iterator : MapPermutator κ α) : MapPermutator κ α :=
  if iterator.atEnd then iterator
  else
    let (wrapped, indexes) :=
      incrementIndexes iterator.map iterator.indexes.keys.reverse iterator.indexes
    { iterator with indexes, atEnd := wrapped }

/-- Equality of two iterators (`operator==`). -/
def equals [DecidableEq κ] [DecidableEq α] (iterator other : MapPermutator κ α) : Bool :=
  if iterator.map.toList ≠ other.map.toList then false
  else if iterator.atEnd && other.atEnd then true
  else
    iterator.indexes.toList.all fun element =>
      element.2 = other.indexes.getD element.1 0

/-- The dereferenced object (`operator*`), unless an index is beyond its value
list. -/
def deref (iterator : MapPermutator κ α) : Option (ExtTreeMap κ α) :=
  iterator.indexes.toList.foldlM
    (fun result index => do
      let value ← (iterator.map.getD index.1 [])[index.2.toNat]?
      return result.insertIfNew index.1 value)
    ∅

/-- The range-based loop over the permutations of a map whose body can leave the
loop with `false`. -/
def loop [DecidableEq κ] [DecidableEq α] {interface : Interface}
    (body : ExtTreeMap κ α → Program Stop interface Bool)
    (end_ : MapPermutator κ α) :
    Nat → MapPermutator κ α → Program Stop interface Bool
  | 0, _ => .stop .outOfFuel
  | fuel + 1, iterator =>
      if iterator.equals end_ then pure true
      else
        match iterator.deref with
        | none => .stop .outOfBounds
        | some combination => do
            match ← body combination with
            | true => loop body end_ fuel iterator.next
            | false => pure false

/-- What dereferencing gives in the first steps from an iterator on, as long as the
end is not reached. -/
def yielded [DecidableEq κ] [DecidableEq α] (end_ : MapPermutator κ α) :
    Nat → MapPermutator κ α → List (Option (ExtTreeMap κ α))
  | 0, _ => []
  | steps + 1, iterator =>
      if iterator.equals end_ then [] else iterator.deref :: yielded end_ steps iterator.next

/-- Whether the end is reached within so many steps. -/
def reaches [DecidableEq κ] [DecidableEq α] (end_ : MapPermutator κ α) :
    Nat → MapPermutator κ α → Bool
  | 0, _ => false
  | steps + 1, iterator => iterator.equals end_ || reaches end_ steps iterator.next

/-! ## The iterator is an odometer -/

/-- The columns of the odometer: the entries of the map in key order. -/
abbrev columns (map : ExtTreeMap κ (List α)) : Odometer.Columns κ α := map.toList

/-- Every index of the map fits in 32 bits. -/
def Indexable (map : ExtTreeMap κ (List α)) : Prop :=
  ∀ column ∈ columns map, column.2.length < 2 ^ 32

/-- The indexes are the given positions in the value lists of the map. -/
def Tracks (map : ExtTreeMap κ (List α)) (indexes : ExtTreeMap κ UInt32)
    (positions : κ → Nat) : Prop :=
  indexes = map.map fun key _ => UInt32.ofNat (positions key)

section Columns

variable {map : ExtTreeMap κ (List α)} {indexes : ExtTreeMap κ UInt32}
variable {positions : κ → Nat}

theorem columns_distinct (map : ExtTreeMap κ (List α)) :
    ((columns map).map Prod.fst).Nodup := by
  rw [ExtTreeMap.map_fst_toList_eq_keys]
  exact ExtTreeMap.nodup_keys

theorem Tracks.toList (tracks : Tracks map indexes positions) :
    indexes.toList =
      (columns map).map fun column => (column.1, UInt32.ofNat (positions column.1)) := by
  rw [tracks, ExtTreeMap.toList_map]

theorem Tracks.keys (tracks : Tracks map indexes positions) :
    indexes.keys = (columns map).map Prod.fst := by
  rw [tracks, ExtTreeMap.keys_map, ExtTreeMap.map_fst_toList_eq_keys]

variable [LawfulEqOrd κ]

theorem getElem?_of_mem_columns {key : κ} {values : List α}
    (member : (key, values) ∈ columns map) : map[key]? = some values :=
  ExtTreeMap.mem_toList_iff_getElem?_eq_some.mp member

theorem getD_of_mem_columns {key : κ} {values : List α}
    (member : (key, values) ∈ columns map) : map.getD key [] = values := by
  rw [ExtTreeMap.getD_eq_getD_getElem?, getElem?_of_mem_columns member]
  rfl

theorem Tracks.getElem? (tracks : Tracks map indexes positions) (key : κ) :
    indexes[key]? = map[key]?.map fun _ => UInt32.ofNat (positions key) := by
  rw [tracks, ExtTreeMap.getElem?_map]

/-- Setting one index moves one position. -/
theorem Tracks.insert [DecidableEq κ] (tracks : Tracks map indexes positions)
    {key : κ} (present : key ∈ map) (position : Nat) :
    Tracks map (indexes.insert key (UInt32.ofNat position))
      (Function.update positions key position) := by
  apply ExtTreeMap.ext_getElem?
  intro other
  rw [ExtTreeMap.getElem?_insert, tracks.getElem?, ExtTreeMap.getElem?_map]
  by_cases same : key = other
  · subst same
    obtain ⟨values, found⟩ :=
      Option.isSome_iff_exists.mp (ExtTreeMap.mem_iff_isSome_getElem?.mp present)
    rw [if_pos compare_self, found, Option.map_some, Function.update_self]
  · have different : compare key other ≠ .eq := fun equal =>
      same (LawfulEqOrd.eq_of_compare equal)
    rw [if_neg different, Function.update_of_ne (Ne.symm same)]

end Columns

/-! ### Incrementing -/

private theorem toNat_ofNat {number : Nat} (fits : number < 2 ^ 32) :
    (UInt32.ofNat number).toNat = number :=
  UInt32.toNat_ofNat_of_lt' fits

section Increment

variable {map : ExtTreeMap κ (List α)} {positions : κ → Nat}

theorem incrementIndexes_append (map : ExtTreeMap κ (List α)) (front back : List κ)
    (indexes : ExtTreeMap κ UInt32) :
    incrementIndexes map (front ++ back) indexes =
      if (incrementIndexes map front indexes).1 then
        incrementIndexes map back (incrementIndexes map front indexes).2
      else incrementIndexes map front indexes := by
  induction front generalizing indexes with
  | nil => rfl
  | cons key rest inductionHypothesis =>
      rw [List.cons_append, incrementIndexes, incrementIndexes]
      by_cases exhausted :
          (indexes.getD key 0 + 1).toNat = (map.getD key []).length
      · rw [if_pos exhausted, if_pos exhausted]
        exact inductionHypothesis _
      · rw [if_neg exhausted, if_neg exhausted]
        rfl

private theorem toNat_ofNat_add_one {position size : Nat} (inside : position < size)
    (indexable : size < 2 ^ 32) : (UInt32.ofNat position + 1).toNat = position + 1 := by
  rw [UInt32.toNat_add, toNat_ofNat (by omega), UInt32.toNat_one]
  omega

/-- Going over the keys from the last one moves the indexes as the odometer moves
its positions. -/
theorem incrementIndexes_eq [LawfulEqOrd κ] [DecidableEq κ] (indexable : Indexable map)
    {indexes : ExtTreeMap κ UInt32} (tracks : Tracks map indexes positions)
    {part : Odometer.Columns κ α} (inside : ∀ column ∈ part, column ∈ columns map)
    (distinct : (part.map Prod.fst).Nodup) (within : Odometer.Within part positions) :
    (incrementIndexes map (part.map Prod.fst).reverse indexes).1 =
        (Odometer.advance part positions).1 ∧
      Tracks map (incrementIndexes map (part.map Prod.fst).reverse indexes).2
        (Odometer.advance part positions).2 := by
  induction part with
  | nil => exact ⟨rfl, tracks⟩
  | cons column rest inductionHypothesis =>
      rcases column with ⟨key, values⟩
      rcases List.nodup_cons.mp distinct with ⟨outside, restDistinct⟩
      rcases Odometer.within_cons.mp within with ⟨ownWithin, restWithin⟩
      obtain ⟨carried, moved⟩ := inductionHypothesis
        (fun column member => inside column (List.mem_cons_of_mem _ member))
        restDistinct restWithin
      have member := inside (key, values) (List.mem_cons_self ..)
      have size := indexable (key, values) member
      rw [List.map_cons, List.reverse_cons, incrementIndexes_append, carried]
      cases carry : (Odometer.advance rest positions).1 with
      | false =>
          rw [Odometer.advance_cons_of_stays carry, if_neg Bool.false_ne_true]
          exact ⟨carried.trans carry, moved⟩
      | true =>
          have present : key ∈ map := by
            rw [ExtTreeMap.mem_iff_isSome_getElem?, getElem?_of_mem_columns member]
            rfl
          have index : (incrementIndexes map (rest.map Prod.fst).reverse indexes).2.getD
              key 0 = UInt32.ofNat (positions key) := by
            rw [ExtTreeMap.getD_eq_getD_getElem?, moved.getElem?,
              getElem?_of_mem_columns member, Option.map_some, Option.getD_some,
              Odometer.advance_of_notMem outside]
          rw [if_pos rfl, incrementIndexes]
          dsimp only
          rw [index, toNat_ofNat_add_one ownWithin size, getD_of_mem_columns member]
          by_cases exhausted : positions key + 1 = values.length
          · rw [if_pos exhausted,
              Odometer.advance_cons_of_exhausted outside carry exhausted]
            exact ⟨rfl, moved.insert present 0⟩
          · have next : UInt32.ofNat (positions key) + 1 =
                UInt32.ofNat (positions key + 1) := by
              rw [UInt32.ofNat_add]
              rfl
            rw [if_neg exhausted, next,
              Odometer.advance_cons_of_moves outside carry exhausted]
            exact ⟨rfl, moved.insert present (positions key + 1)⟩

end Increment

/-! ### Dereferencing -/

section Deref

variable {map : ExtTreeMap κ (List α)} {positions : κ → Nat} [LawfulEqOrd κ]

private theorem foldlM_reading {part : Odometer.Columns κ α}
    (inside : ∀ column ∈ part, column ∈ columns map) (indexable : Indexable map)
    (within : Odometer.Within part positions) (result : ExtTreeMap κ α) :
    (part.map fun column => (column.1, UInt32.ofNat (positions column.1))).foldlM
        (fun result index => do
          let value ← (map.getD index.1 [])[index.2.toNat]?
          return result.insertIfNew index.1 value)
        result =
      (Odometer.reading part positions).map fun entries =>
        OrderedMap.emplaceAll entries result := by
  induction part generalizing result with
  | nil => rfl
  | cons column rest inductionHypothesis =>
      rcases column with ⟨key, values⟩
      rcases Odometer.within_cons.mp within with ⟨ownWithin, restWithin⟩
      have member := inside (key, values) (List.mem_cons_self ..)
      have size := indexable (key, values) member
      have index : (UInt32.ofNat (positions key)).toNat = positions key :=
        toNat_ofNat (Nat.lt_trans ownWithin size)
      have rests := fun result => inductionHypothesis
        (fun column member => inside column (List.mem_cons_of_mem _ member))
        restWithin result
      rw [List.map_cons, List.foldlM_cons, getD_of_mem_columns member, index,
        List.getElem?_eq_getElem ownWithin]
      have step := rests (result.insertIfNew key values[positions key])
      rw [Odometer.reading, List.getElem?_eq_getElem ownWithin]
      refine step.trans ?_
      cases Odometer.reading rest positions <;> rfl

/-- Dereferencing reads the odometer. -/
theorem deref_eq (indexable : Indexable map) {indexes : ExtTreeMap κ UInt32}
    (tracks : Tracks map indexes positions)
    (within : Odometer.Within (columns map) positions) (atEnd : Bool) :
    (⟨map, indexes, atEnd⟩ : MapPermutator κ α).deref =
      (Odometer.reading (columns map) positions).map fun entries =>
        OrderedMap.emplaceAll entries ∅ := by
  rw [deref, tracks.toList]
  exact foldlM_reading (fun _ member => member) indexable within ∅

end Deref

/-! ### Beginning and end -/

section Bounds

variable {map : ExtTreeMap κ (List α)}

/-- As long as every entry gets its index in the same way, the indexes are those
of all entries. -/
private theorem foldl_emplaceIndex (index : List α → UInt32)
    (part : Odometer.Columns κ α) (iterator : MapPermutator κ α)
    (uniform : ∀ column ∈ part,
      (if iterator.atEnd || column.2.isEmpty then UInt32.ofNat column.2.length else 0) =
          index column.2 ∧
        (iterator.atEnd || column.2.isEmpty) = iterator.atEnd) :
    part.foldl emplaceIndex iterator =
      { iterator with
        indexes := OrderedMap.emplaceAll
          (part.map fun column => (column.1, index column.2)) iterator.indexes } := by
  induction part generalizing iterator with
  | nil => rfl
  | cons column rest inductionHypothesis =>
      rcases uniform column (List.mem_cons_self ..) with ⟨indexed, flag⟩
      have emplaced : iterator.emplaceIndex column =
          { iterator with
            indexes := iterator.indexes.insertIfNew column.1 (index column.2) } := by
        rw [emplaceIndex, indexed, flag]
      rw [List.foldl_cons, emplaced, inductionHypothesis]
      · rfl
      · intro column member
        exact uniform column (List.mem_cons_of_mem _ member)

private theorem foldl_emplaceIndex_atEnd (part : Odometer.Columns κ α)
    (iterator : MapPermutator κ α) :
    (part.foldl emplaceIndex iterator).map = iterator.map ∧
      (part.foldl emplaceIndex iterator).atEnd =
        (iterator.atEnd || part.any fun column => column.2.isEmpty) := by
  induction part generalizing iterator with
  | nil => simp
  | cons column rest inductionHypothesis =>
      rw [List.foldl_cons]
      rcases inductionHypothesis (iterator.emplaceIndex column) with ⟨sameMap, flag⟩
      refine ⟨sameMap, flag.trans ?_⟩
      rw [List.any_cons, emplaceIndex, Bool.or_assoc]

theorem first_map (map : ExtTreeMap κ (List α)) : (first map).map = map :=
  (foldl_emplaceIndex_atEnd (columns map) ⟨map, ∅, false⟩).1

/-- An empty value list makes the iterator to the beginning an end iterator. -/
theorem first_atEnd {column : κ × List α} (member : column ∈ columns map)
    (empty : column.2 = []) : (first map).map = map ∧ (first map).atEnd = true := by
  obtain ⟨sameMap, flag⟩ :=
    foldl_emplaceIndex_atEnd (columns map) (⟨map, ∅, false⟩ : MapPermutator κ α)
  refine ⟨sameMap, flag.trans ?_⟩
  simp only [Bool.false_or, List.any_eq_true, List.isEmpty_iff]
  exact ⟨column, member, empty⟩

variable [LawfulEqOrd κ] [DecidableEq κ]

private theorem emplaceAll_map (index : List α → UInt32) :
    OrderedMap.emplaceAll ((columns map).map fun column => (column.1, index column.2)) ∅ =
      map.map fun _ values => index values := by
  rw [← OrderedMap.emplaceAll_toList (map.map fun _ values => index values),
    ExtTreeMap.toList_map]

/-- The end iterator has the size of every value list as its index. -/
theorem last_eq (map : ExtTreeMap κ (List α)) :
    last map =
      ⟨map, map.map fun _ (values : List α) => UInt32.ofNat values.length, true⟩ := by
  have indexed := foldl_emplaceIndex (fun values : List α => UInt32.ofNat values.length)
    (columns map) (⟨map, ∅, true⟩ : MapPermutator κ α) (by simp)
  rw [emplaceAll_map fun values : List α => UInt32.ofNat values.length] at indexed
  exact indexed

/-- Without an empty value list, the iterator to the beginning has every index at
zero. -/
theorem first_eq (nonempty : ∀ column ∈ columns map, column.2 ≠ []) :
    first map = ⟨map, map.map fun _ _ => 0, false⟩ := by
  have indexed := foldl_emplaceIndex (fun _ => 0) (columns map)
    (⟨map, ∅, false⟩ : MapPermutator κ α) (by
      intro column member
      simp [nonempty column member])
  rw [emplaceAll_map fun _ => 0] at indexed
  exact indexed

omit [LawfulEqOrd κ] [DecidableEq κ] in
private theorem foldlM_start {part : Odometer.Columns κ α}
    (inside : ∀ column ∈ part, ∃ value, (map.getD column.1 [])[0]? = some value)
    (result : ExtTreeMap κ α) :
    ∃ combination, (part.map fun column => (column.1, (0 : UInt32))).foldlM
      (fun result index => do
        let value ← (map.getD index.1 [])[index.2.toNat]?
        return result.insertIfNew index.1 value)
      result = some combination := by
  induction part generalizing result with
  | nil => exact ⟨result, rfl⟩
  | cons column rest inductionHypothesis =>
      rcases inside column List.mem_cons_self with ⟨value, read⟩
      rw [List.map_cons, List.foldlM_cons]
      change ∃ combination, (((map.getD column.1 [])[0]? >>= fun value =>
        pure (result.insertIfNew column.1 value)) >>= _) = some combination
      rw [read]
      exact inductionHypothesis
        (fun later member => inside later (List.mem_cons_of_mem _ member)) _

variable [DecidableEq α]

theorem equals_last_of_atEnd {iterator : MapPermutator κ α} (sameMap : iterator.map = map)
    (atEnd : iterator.atEnd = true) : iterator.equals (last map) = true := by
  rw [equals, last_eq, sameMap, atEnd]
  simp

/-- An iterator to the beginning that is not at the end can be dereferenced. -/
theorem deref_first (begins : (first map).equals (last map) = false) :
    ∃ combination, (first map).deref = some combination := by
  have nonempty : ∀ column ∈ columns map, column.2 ≠ [] := by
    intro column member noValues
    rcases first_atEnd member noValues with ⟨sameMap, atEnd⟩
    rw [equals_last_of_atEnd sameMap atEnd] at begins
    cases begins
  rw [first_eq nonempty, deref]
  dsimp only
  rw [ExtTreeMap.toList_map]
  apply foldlM_start
  intro column member
  rw [getD_of_mem_columns member]
  exact ⟨_, List.getElem?_eq_getElem (List.length_pos_iff.mpr (nonempty column member))⟩

/-- Before the end, an iterator differs from the end iterator, since no position
is the size of its value list. -/
theorem equals_last_of_within {positions : κ → Nat} {indexes : ExtTreeMap κ UInt32}
    (indexable : Indexable map) (keyed : columns map ≠ [])
    (tracks : Tracks map indexes positions)
    (within : Odometer.Within (columns map) positions) :
    (⟨map, indexes, false⟩ : MapPermutator κ α).equals (last map) = false := by
  rw [equals, last_eq]
  simp only [ne_eq, not_true_eq_false, if_false, Bool.false_and, Bool.false_eq_true,
    List.all_eq_false, decide_eq_true_eq]
  rcases List.exists_mem_of_ne_nil _ keyed with ⟨⟨key, values⟩, member⟩
  refine ⟨(key, UInt32.ofNat (positions key)), ?_, ?_⟩
  · rw [tracks.toList]
    exact List.mem_map.mpr ⟨(key, values), member, rfl⟩
  · rw [ExtTreeMap.getD_eq_getD_getElem?, ExtTreeMap.getElem?_map,
      getElem?_of_mem_columns member, Option.map_some, Option.getD_some]
    have size := indexable (key, values) member
    have inside := within (key, values) member
    dsimp only at size inside ⊢
    intro equal
    have same := congrArg UInt32.toNat equal
    rw [toNat_ofNat size, toNat_ofNat (Nat.lt_trans inside size)] at same
    omega

/-- When every size is a multiple of `2 ^ 32`, the end cannot be told from the
beginning. -/
theorem equals_last_of_wrapping
    (wrapping : ∀ column ∈ columns map,
      column.2 ≠ [] ∧ UInt32.ofNat column.2.length = 0) :
    (first map).equals (last map) = true := by
  rw [first_eq fun column member => (wrapping column member).1, equals, last_eq]
  simp only [ne_eq, not_true_eq_false, if_false, Bool.false_and, Bool.false_eq_true,
    List.all_eq_true, decide_eq_true_eq, ExtTreeMap.toList_map, List.mem_map]
  rintro element ⟨⟨key, values⟩, member, rfl⟩
  rw [ExtTreeMap.getD_eq_getD_getElem?, ExtTreeMap.getElem?_map,
    getElem?_of_mem_columns member]
  exact (wrapping (key, values) member).2.symm

end Bounds

/-! ### The loop -/

section Yielded

variable [DecidableEq κ] [DecidableEq α]

/-- The loop runs its body on what is yielded, in that order. -/
theorem loop_eq_yielded {interface : Interface}
    (body : ExtTreeMap κ α → Program Stop interface Bool) (end_ : MapPermutator κ α)
    (fuel : Nat) (iterator : MapPermutator κ α) :
    loop body end_ fuel iterator = (do
      match ← (yielded end_ fuel iterator).allM (fun combination =>
          match combination with
          | some combination => body combination
          | none => .stop .outOfBounds) with
      | true => if reaches end_ fuel iterator then pure true else .stop .outOfFuel
      | false => pure false) := by
  induction fuel generalizing iterator with
  | zero => rfl
  | succ fuel inductionHypothesis =>
      rw [loop, yielded, reaches]
      cases iterator.equals end_ with
      | true => rfl
      | false =>
          cases iterator.deref with
          | none => rfl
          | some combination =>
              simp only [Bool.false_eq_true, if_false, List.allM_cons, bind_assoc,
                inductionHypothesis, Bool.false_or]
              congr 1
              funext proceed
              cases proceed <;> rfl

variable [LawfulEqOrd κ]

end Yielded

section Loop

variable [LawfulEqOrd κ] [DecidableEq κ] [DecidableEq α]
variable {interface : Interface} {map : ExtTreeMap κ (List α)}
variable {body : ExtTreeMap κ α → Program Stop interface Bool}

/-- The combinations of the values of a map, as the loop hands them to its body. -/
def combinations (map : ExtTreeMap κ (List α)) : List (ExtTreeMap κ α) :=
  (Odometer.product (columns map)).map fun entries => OrderedMap.emplaceAll entries ∅

omit [LawfulEqOrd κ] in
/-- At the end nothing is yielded any more. -/
private theorem yielded_of_equals {end_ iterator : MapPermutator κ α}
    (ended : iterator.equals end_ = true) (steps : Nat) :
    yielded end_ steps iterator = [] ∧ (0 < steps → reaches end_ steps iterator = true) := by
  cases steps with
  | zero => exact ⟨rfl, fun none => absurd none (Nat.lt_irrefl 0)⟩
  | succ steps => simp [yielded, reaches, ended]

/-- From any position on, exactly the combinations are yielded that the odometer still
has to read. -/
private theorem yielded_remaining (indexable : Indexable map) (keyed : columns map ≠ [])
    (steps : Nat) {indexes : ExtTreeMap κ UInt32} {positions : κ → Nat}
    (tracks : Tracks map indexes positions)
    (within : Odometer.Within (columns map) positions) :
    yielded (last map) steps ⟨map, indexes, false⟩ =
        (((Odometer.remaining (columns map) positions).map fun entries =>
          OrderedMap.emplaceAll entries ∅).take steps).map some ∧
      ((Odometer.remaining (columns map) positions).length < steps →
        reaches (last map) steps ⟨map, indexes, false⟩ = true) := by
  induction steps generalizing indexes positions with
  | zero => simp [yielded]
  | succ steps inductionHypothesis =>
      have advanced := Odometer.advance_spec (columns_distinct map) within
      rcases advanced.reads with ⟨combination, reads, splits⟩
      obtain ⟨wrapped, nextTracks⟩ := incrementIndexes_eq indexable tracks
        (fun _ member => member) (columns_distinct map) within
      rw [yielded, reaches, equals_last_of_within indexable keyed tracks within,
        deref_eq indexable tracks within, reads, splits]
      simp only [Bool.false_eq_true, if_false, Option.map_some, List.map_cons,
        List.take_succ_cons, List.length_cons, Nat.add_lt_add_iff_right, Bool.false_or]
      simp only [next, Bool.false_eq_true, if_false, tracks.keys]
      cases carry : (Odometer.advance (columns map) positions).1 with
      | true =>
          rw [carry] at wrapped
          have ended : (⟨map, (incrementIndexes map ((columns map).map Prod.fst).reverse
              indexes).2, true⟩ : MapPermutator κ α).equals (last map) = true :=
            equals_last_of_atEnd rfl rfl
          rcases yielded_of_equals ended steps with ⟨nothing, ends⟩
          rw [wrapped, nothing]
          constructor
          · simp
          · exact ends
      | false =>
          rw [carry] at wrapped
          rw [wrapped]
          rcases inductionHypothesis nextTracks advanced.within with ⟨rest, ends⟩
          constructor
          · rw [rest]
            rfl
          · exact ends

/-- The combinations are yielded in their order, and then the end is reached. -/
theorem yielded_eq (keyed : columns map ≠ [])
    (indexable : Indexable map ∨ ∃ column ∈ columns map, column.2 = []) (steps : Nat) :
    yielded (last map) steps (first map) = ((combinations map).take steps).map some ∧
      ((combinations map).length < steps → reaches (last map) steps (first map) = true) := by
  by_cases empty : ∃ column ∈ columns map, column.2 = []
  · rcases empty with ⟨column, member, noValues⟩
    rcases first_atEnd member noValues with ⟨sameMap, atEnd⟩
    rcases yielded_of_equals (equals_last_of_atEnd sameMap atEnd) steps with ⟨nothing, ends⟩
    rw [combinations, Odometer.product_of_mem_empty member noValues, nothing]
    constructor
    · simp
    · exact ends
  · have fits : Indexable map := indexable.resolve_right empty
    have nonempty : ∀ column ∈ columns map, column.2 ≠ [] := by
      intro column member noValues
      exact empty ⟨column, member, noValues⟩
    have within : Odometer.Within (columns map) fun _ => 0 := by
      intro column member
      exact List.length_pos_iff.mpr (nonempty column member)
    rw [combinations, List.length_map, first_eq nonempty,
      ← Odometer.remaining_start within fun _ _ => rfl]
    exact yielded_remaining fits keyed steps rfl within

/-- The loop runs over the product of the value lists: the last key varies
fastest, and an empty value list leaves no combination. -/
theorem loop_eq (keyed : columns map ≠ [])
    (indexable : Indexable map ∨ ∃ column ∈ columns map, column.2 = []) {fuel : Nat}
    (enough : (combinations map).length < fuel) :
    loop body (last map) fuel (first map) = (combinations map).allM body := by
  rcases yielded_eq keyed indexable fuel with ⟨all, ends⟩
  rw [loop_eq_yielded, all, ends enough, List.take_of_length_le (Nat.le_of_lt enough)]
  generalize combinations map = rest
  induction rest with
  | nil => rfl
  | cons combination rest inductionHypothesis =>
      simp only [List.map_cons, List.allM_cons, bind_assoc] at inductionHypothesis ⊢
      congr 1
      funext proceed
      cases proceed with
      | true => exact inductionHypothesis
      | false => rfl

end Loop

end MapPermutator

end ExecHelper.Core
