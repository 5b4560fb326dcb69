import ExecHelper.Core.MapPermutator
import Mathlib.Logic.Function.Iterate

/-!
# Equality of map permutator iterators

An iterator that is incremented past the last combination has its flag set, and its
indexes are at zero again.  The comparison only looks at the flags when both are set, so
that such an iterator equals the one to the beginning.

The indexes of an iterator are compared with those of the iterator to the end as well,
which has the size of every value list as its index.  No position of a shorter value list
is its size, but the sizes are taken modulo `2 ^ 32`.
-/

namespace ExecHelper.Core.MapPermutator

open Std
open ExecHelper.Library

/-- The iterators of a map permutator: the one to the beginning after so many increments,
and the one to the end. -/
inductive Reached where
  | first (increments : Nat)
  | last

variable {κ α : Type} [Ord κ] [TransOrd κ]

def Reached.iterator (map : ExtTreeMap κ (List α)) : Reached → MapPermutator κ α
  | .first increments => next^[increments] (MapPermutator.first map)
  | .last => MapPermutator.last map

/-- The comparison is symmetric, and finds two iterators equal when both are at the end or
both are at the same position before the end. -/
def Lawful [DecidableEq κ] [DecidableEq α] (left right : MapPermutator κ α) : Prop :=
  left.equals right = right.equals left ∧
    (left.equals right = true ↔
      (left.atEnd = true ∧ right.atEnd = true) ∨
        (left.atEnd = false ∧ right.atEnd = false ∧ left.indexes = right.indexes))

/-- The first iterator is before the end and the second one is at the end, with the same
indexes: it has run through all combinations, or the sizes of the value lists wrap to the
position of the first iterator. -/
def Confused (map : ExtTreeMap κ (List α)) : Reached → Reached → Prop
  | .first steps, .first others =>
      (∀ column ∈ columns map, column.2 ≠ []) ∧ Indexable map ∧
        steps = 0 ∧ (Odometer.product (columns map)).length ≤ others
  | .first steps, .last =>
      (∀ column ∈ columns map, column.2 ≠ []) ∧
        ((columns map = [] ∧ steps = 0) ∨
          ∃ front key values, columns map = front ++ [(key, values)] ∧
            (∀ column ∈ front, column.2.length % 2 ^ 32 = 0) ∧
            2 ^ 32 ≤ values.length ∧ steps % 2 ^ 32 = values.length % 2 ^ 32)
  | .last, _ => False

section Steps

variable {map : ExtTreeMap κ (List α)} {indexes : ExtTreeMap κ UInt32}

/-! ## The keys of the indexes -/

theorem next_of_atEnd {iterator : MapPermutator κ α} (atEnd : iterator.atEnd = true) :
    iterator.next = iterator := by
  rw [next, if_pos atEnd]

theorem iterate_next_of_atEnd {iterator : MapPermutator κ α} (atEnd : iterator.atEnd = true)
    (steps : Nat) : next^[steps] iterator = iterator :=
  Function.iterate_fixed (next_of_atEnd atEnd) steps

theorem next_map (iterator : MapPermutator κ α) : iterator.next.map = iterator.map := by
  rw [next]
  split <;> rfl

theorem iterate_next_map (iterator : MapPermutator κ α) (steps : Nat) :
    (next^[steps] iterator).map = iterator.map := by
  induction steps with
  | zero => rfl
  | succ steps inductionHypothesis =>
      rw [Function.iterate_succ_apply', next_map, inductionHypothesis]

/-- Only the given keys move. -/
theorem incrementIndexes_of_notMem [LawfulEqOrd κ] {keys : List κ} {key : κ}
    (outside : key ∉ keys) :
    (incrementIndexes map keys indexes).2[key]? = indexes[key]? := by
  induction keys generalizing indexes with
  | nil => rfl
  | cons own rest inductionHypothesis =>
      rw [List.mem_cons, not_or] at outside
      have different : compare own key ≠ .eq := fun equal =>
        outside.1 (LawfulEqOrd.eq_of_compare equal).symm
      rw [incrementIndexes]
      split
      · rw [inductionHypothesis outside.2, ExtTreeMap.getElem?_insert, if_neg different]
      · rw [ExtTreeMap.getElem?_insert, if_neg different]

variable [LawfulEqOrd κ] [DecidableEq κ]

/-- Incrementing goes from positions to positions. -/
theorem incrementIndexes_tracks {keys : List κ} (present : ∀ key ∈ keys, key ∈ map)
    (tracked : ∃ positions, Tracks map indexes positions) :
    ∃ positions, Tracks map (incrementIndexes map keys indexes).2 positions := by
  induction keys generalizing indexes with
  | nil => exact tracked
  | cons key rest inductionHypothesis =>
      obtain ⟨positions, tracks⟩ := tracked
      have own := present key List.mem_cons_self
      rw [incrementIndexes]
      split
      · apply inductionHypothesis
        · exact fun key member => present key (List.mem_cons_of_mem _ member)
        · exact ⟨_, tracks.insert own 0⟩
      · have moved := tracks.insert own (indexes.getD key 0 + 1).toNat
        rw [UInt32.ofNat_toNat] at moved
        exact ⟨_, moved⟩

omit [DecidableEq κ] in
theorem Tracks.mem_of_mem_keys {positions : κ → Nat} (tracks : Tracks map indexes positions)
    {key : κ} (member : key ∈ indexes.keys.reverse) : key ∈ map := by
  rw [List.mem_reverse, tracks.keys, ExtTreeMap.map_fst_toList_eq_keys] at member
  exact ExtTreeMap.mem_keys.mp member

theorem next_tracks {iterator : MapPermutator κ α} (sameMap : iterator.map = map)
    (tracked : ∃ positions, Tracks map iterator.indexes positions) :
    ∃ positions, Tracks map iterator.next.indexes positions := by
  rw [next]
  split
  · exact tracked
  · rw [sameMap]
    apply incrementIndexes_tracks _ tracked
    obtain ⟨positions, tracks⟩ := tracked
    exact fun key member => tracks.mem_of_mem_keys member

theorem last_tracks (map : ExtTreeMap κ (List α)) :
    Tracks map (last map).indexes fun key => (map.getD key []).length := by
  rw [last_eq, Tracks]
  apply ExtTreeMap.ext_getElem?
  intro key
  rw [ExtTreeMap.getElem?_map, ExtTreeMap.getElem?_map, ExtTreeMap.getD_eq_getD_getElem?]
  cases map[key]? <;> rfl

/-- Without an empty value list, every iterator has an index for every key. -/
theorem Reached.tracks (nonempty : ∀ column ∈ columns map, column.2 ≠ [])
    (reached : Reached) :
    (reached.iterator map).map = map ∧
      ∃ positions, Tracks map (reached.iterator map).indexes positions := by
  cases reached with
  | last =>
      constructor
      · rw [Reached.iterator, last_eq]
      · exact ⟨fun key => (map.getD key []).length, last_tracks map⟩
  | first increments =>
      rw [Reached.iterator]
      constructor
      · rw [iterate_next_map, first_map]
      · induction increments with
        | zero =>
            rw [Function.iterate_zero_apply, first_eq nonempty]
            exact ⟨fun _ => 0, rfl⟩
        | succ increments inductionHypothesis =>
            rw [Function.iterate_succ_apply']
            apply next_tracks _ inductionHypothesis
            rw [iterate_next_map, first_map]

end Steps

/-! ## Counting the increments -/

section Counts

variable {map : ExtTreeMap κ (List α)} {indexes : ExtTreeMap κ UInt32}
variable {positions : κ → Nat}

/-- A value list of at least `2 ^ 32` values is never carried out of. -/
theorem incrementIndexes_of_endless {keys : List κ} {key : κ} (member : key ∈ keys)
    (endless : 2 ^ 32 ≤ (map.getD key []).length) :
    (incrementIndexes map keys indexes).1 = false := by
  induction keys generalizing indexes with
  | nil => cases member
  | cons own rest inductionHypothesis =>
      rw [incrementIndexes]
      split
      next exhausted =>
        cases member with
        | head =>
            have size := (indexes.getD key 0 + 1).toNat_lt
            rw [exhausted] at size
            exact absurd endless (Nat.not_le.mpr size)
        | tail _ later => exact inductionHypothesis later
      next => rfl

variable [LawfulEqOrd κ] [DecidableEq κ]

theorem iterate_next_endless (nonempty : ∀ column ∈ columns map, column.2 ≠ [])
    {column : κ × List α} (member : column ∈ columns map)
    (endless : 2 ^ 32 ≤ column.2.length) (steps : Nat) :
    (next^[steps] (first map)).atEnd = false := by
  induction steps with
  | zero => rw [Function.iterate_zero_apply, first_eq nonempty]
  | succ steps inductionHypothesis =>
      obtain ⟨sameMap, _, tracks⟩ := Reached.tracks nonempty (.first steps)
      rw [Reached.iterator] at sameMap tracks
      have keyed : column.1 ∈ (next^[steps] (first map)).indexes.keys.reverse := by
        rw [List.mem_reverse, tracks.keys]
        exact List.mem_map_of_mem member
      have size : 2 ^ 32 ≤ (map.getD column.1 []).length := by
        rw [getD_of_mem_columns member]
        exact endless
      rw [Function.iterate_succ_apply', next, inductionHypothesis, sameMap]
      exact incrementIndexes_of_endless keyed size

omit [DecidableEq κ] in
/-- The index of a key is its position. -/
theorem Tracks.getElem?_of_mem (tracks : Tracks map indexes positions) {key : κ}
    {values : List α} (member : (key, values) ∈ columns map) :
    indexes[key]? = some (UInt32.ofNat (positions key)) := by
  rw [tracks.getElem?, getElem?_of_mem_columns member]
  rfl

omit [DecidableEq κ] in
/-- The indexes are the positions modulo `2 ^ 32`. -/
theorem Tracks.indexes_eq_iff {otherIndexes : ExtTreeMap κ UInt32} {others : κ → Nat}
    (tracks : Tracks map indexes positions) (otherTracks : Tracks map otherIndexes others) :
    indexes = otherIndexes ↔
      ∀ column ∈ columns map, positions column.1 % 2 ^ 32 = others column.1 % 2 ^ 32 := by
  have index_eq_iff (left right : Nat) :
      UInt32.ofNat left = UInt32.ofNat right ↔ left % 2 ^ 32 = right % 2 ^ 32 := by
    rw [← UInt32.toNat_inj, UInt32.toNat_ofNat', UInt32.toNat_ofNat']
  constructor
  · intro same column member
    have index := tracks.getElem?_of_mem member
    rw [same, otherTracks.getElem?_of_mem member, Option.some.injEq, eq_comm,
      index_eq_iff] at index
    exact index
  · intro same
    apply ExtTreeMap.ext_getElem?
    intro key
    rw [tracks.getElem?, otherTracks.getElem?]
    cases found : map[key]? with
    | none => rfl
    | some values =>
        have agree := same (key, values)
          (ExtTreeMap.mem_toList_iff_getElem?_eq_some.mpr found)
        rw [Option.map_some, Option.map_some, Option.some.injEq, index_eq_iff]
        exact agree

/-- After so many increments, as many combinations fewer remain, and after the last one
the iterator is at the end with all indexes at zero. -/
theorem iterate_next_counts (nonempty : ∀ column ∈ columns map, column.2 ≠ [])
    (indexable : Indexable map) (steps : Nat) :
    (∃ indexes positions, next^[steps] (first map) = ⟨map, indexes, false⟩ ∧
        Tracks map indexes positions ∧ Odometer.Within (columns map) positions ∧
        (Odometer.remaining (columns map) positions).length + steps =
          (Odometer.product (columns map)).length) ∨
      ((Odometer.product (columns map)).length ≤ steps ∧
        next^[steps] (first map) = ⟨map, map.map fun _ _ => 0, true⟩) := by
  induction steps with
  | zero =>
      have within : Odometer.Within (columns map) fun _ => 0 := by
        intro column member
        exact List.length_pos_iff.mpr (nonempty column member)
      left
      refine ⟨_, fun _ => 0, first_eq nonempty, rfl, within, ?_⟩
      rw [Odometer.remaining_start within fun _ _ => rfl]
      rfl
  | succ steps inductionHypothesis =>
      rw [Function.iterate_succ_apply']
      cases inductionHypothesis with
      | inr ended =>
          right
          rw [ended.2, next_of_atEnd rfl]
          exact ⟨Nat.le_succ_of_le ended.1, rfl⟩
      | inl running =>
          obtain ⟨indexes, positions, iterator, tracks, within, count⟩ := running
          have advanced := Odometer.advance_spec (columns_distinct map) within
          obtain ⟨combination, _, splits⟩ := advanced.reads
          obtain ⟨wrapped, moved⟩ := incrementIndexes_eq indexable tracks
            (fun _ member => member) (columns_distinct map) within
          rw [iterator, next, if_neg Bool.false_ne_true]
          simp only [tracks.keys]
          rw [wrapped]
          rw [splits] at count
          cases carry : (Odometer.advance (columns map) positions).1 with
          | true =>
              have zero : Tracks map (map.map fun _ _ => (0 : UInt32)) fun _ => 0 := rfl
              rw [carry] at count
              right
              constructor
              · exact Nat.le_of_eq (by rw [← count, Nat.add_comm]; rfl)
              · congr
                apply (moved.indexes_eq_iff zero).mpr
                intro column member
                rw [advanced.start carry column member]
          | false =>
              rw [carry] at count
              left
              refine ⟨_, _, rfl, moved, advanced.within, ?_⟩
              rw [← count, List.length_cons, if_neg Bool.false_ne_true]
              omega

omit [LawfulEqOrd κ] in
/-- Within the columns, there is a combination to be read. -/
theorem remaining_length_pos (within : Odometer.Within (columns map) positions) :
    0 < (Odometer.remaining (columns map) positions).length := by
  obtain ⟨combination, _, splits⟩ :=
    (Odometer.advance_spec (columns_distinct map) within).reads
  rw [splits]
  exact Nat.succ_pos _

/-- An iterator that has run through all combinations has the indexes of an iterator before
the end only if that one is at the beginning. -/
theorem confused_first_first_iff (nonempty : ∀ column ∈ columns map, column.2 ≠ [])
    (steps others : Nat) :
    Confused map (.first steps) (.first others) ↔
      (next^[steps] (first map)).atEnd = false ∧ (next^[others] (first map)).atEnd = true ∧
        (next^[steps] (first map)).indexes = (next^[others] (first map)).indexes := by
  by_cases indexable : Indexable map
  · constructor
    · intro confused
      obtain ⟨_, _, rfl, enough⟩ := confused
      cases iterate_next_counts nonempty indexable others with
      | inl running =>
          obtain ⟨_, _, _, _, within, count⟩ := running
          have remains := remaining_length_pos within
          omega
      | inr ended =>
          rw [ended.2, Function.iterate_zero_apply, first_eq nonempty]
          exact ⟨rfl, rfl, rfl⟩
    · intro same
      obtain ⟨before, ended, indexes⟩ := same
      cases iterate_next_counts nonempty indexable others with
      | inl running =>
          obtain ⟨_, _, iterator, _⟩ := running
          rw [iterator] at ended
          cases ended
      | inr passed =>
          refine ⟨nonempty, indexable, ?_, passed.1⟩
          cases iterate_next_counts nonempty indexable steps with
          | inr ended =>
              rw [ended.2] at before
              cases before
          | inl running =>
              obtain ⟨_, positions, iterator, tracks, within, count⟩ := running
              rw [iterator, passed.2] at indexes
              have zero : Tracks map (map.map fun _ _ => (0 : UInt32)) fun _ => 0 := rfl
              have start : ∀ column ∈ columns map, positions column.1 = 0 := by
                intro column member
                have small := Nat.lt_trans (within column member) (indexable column member)
                have position := (tracks.indexes_eq_iff zero).mp indexes column member
                rw [Nat.mod_eq_of_lt small] at position
                exact position
              rw [Odometer.remaining_start within start] at count
              omega
  · constructor
    · exact fun confused => absurd confused.2.1 indexable
    · intro same
      obtain ⟨column, member, endless⟩ :
          ∃ column ∈ columns map, 2 ^ 32 ≤ column.2.length := by
        by_contra indexed
        exact indexable fun column member =>
          Nat.lt_of_not_le fun endless => indexed ⟨column, member, endless⟩
      have runs := iterate_next_endless nonempty member endless others
      rw [runs] at same
      cases same.2.1

end Counts

/-! ## The last key -/

section LastKey

variable {map : ExtTreeMap κ (List α)} {indexes : ExtTreeMap κ UInt32}
variable {positions : κ → Nat} {front : Odometer.Columns κ α} {key : κ} {values : List α}

theorem notMem_front (split : columns map = front ++ [(key, values)]) :
    key ∉ (front.map Prod.fst).reverse := by
  have distinct := columns_distinct map
  rw [split, List.map_append, List.nodup_append] at distinct
  intro member
  exact distinct.2.2 key (List.mem_reverse.mp member) key List.mem_cons_self rfl

/-- Incrementing begins with the last key. -/
theorem keys_reverse (split : columns map = front ++ [(key, values)])
    (tracks : Tracks map indexes positions) :
    indexes.keys.reverse = key :: (front.map Prod.fst).reverse := by
  rw [tracks.keys, split, List.map_append, List.reverse_append]
  rfl

theorem mem_columns_of_split (split : columns map = front ++ [(key, values)]) :
    (key, values) ∈ columns map := by
  rw [split]
  exact List.mem_append_right _ List.mem_cons_self

variable [LawfulEqOrd κ] [DecidableEq κ]

/-- The index of the last key never gets to the size of its value list, if that has fewer
than `2 ^ 32` values. -/
theorem iterate_next_below (nonempty : ∀ column ∈ columns map, column.2 ≠ [])
    (split : columns map = front ++ [(key, values)]) (small : values.length < 2 ^ 32)
    (steps : Nat) :
    ∃ index, (next^[steps] (first map)).indexes[key]? = some index ∧
      index.toNat < values.length := by
  have member := mem_columns_of_split split
  have positive : 0 < values.length := List.length_pos_iff.mpr (nonempty _ member)
  induction steps with
  | zero =>
      rw [Function.iterate_zero_apply, first_eq nonempty]
      have zero : Tracks map (map.map fun _ _ => (0 : UInt32)) fun _ => 0 := rfl
      exact ⟨_, zero.getElem?_of_mem member, positive⟩
  | succ steps inductionHypothesis =>
      obtain ⟨sameMap, _, tracks⟩ := Reached.tracks nonempty (.first steps)
      rw [Reached.iterator] at sameMap tracks
      obtain ⟨index, found, inside⟩ := inductionHypothesis
      rw [Function.iterate_succ_apply', next]
      split
      next => exact ⟨index, found, inside⟩
      next =>
        have current : (next^[steps] (first map)).indexes.getD key 0 = index := by
          rw [ExtTreeMap.getD_eq_getD_getElem?, found]
          rfl
        have advance : (index + 1).toNat = index.toNat + 1 := by
          have limit : 2 ^ 32 = 4294967296 := by decide
          rw [UInt32.toNat_add, UInt32.toNat_one]
          rw [limit] at small ⊢
          omega
        rw [sameMap, keys_reverse split tracks, incrementIndexes, current, advance,
          getD_of_mem_columns member]
        dsimp only
        by_cases exhausted : index.toNat + 1 = values.length
        · rw [if_pos exhausted, incrementIndexes_of_notMem (notMem_front split),
            ExtTreeMap.getElem?_insert_self]
          exact ⟨0, rfl, positive⟩
        · rw [if_neg exhausted, ExtTreeMap.getElem?_insert_self]
          exact ⟨index + 1, rfl, by omega⟩

/-- If it has at least `2 ^ 32` values, only its index moves. -/
theorem iterate_next_tracks (nonempty : ∀ column ∈ columns map, column.2 ≠ [])
    (split : columns map = front ++ [(key, values)]) (endless : 2 ^ 32 ≤ values.length)
    (steps : Nat) :
    ∃ indexes, next^[steps] (first map) = ⟨map, indexes, false⟩ ∧
      Tracks map indexes (Function.update (fun _ => 0) key steps) := by
  have member := mem_columns_of_split split
  induction steps with
  | zero =>
      rw [Function.iterate_zero_apply, first_eq nonempty, Function.update_eq_self]
      exact ⟨_, rfl, rfl⟩
  | succ steps inductionHypothesis =>
      obtain ⟨indexes, iterator, tracks⟩ := inductionHypothesis
      have present : key ∈ map := by
        rw [ExtTreeMap.mem_iff_isSome_getElem?, getElem?_of_mem_columns member]
        rfl
      have index : indexes.getD key 0 + 1 = UInt32.ofNat (steps + 1) := by
        rw [ExtTreeMap.getD_eq_getD_getElem?, tracks.getElem?_of_mem member,
          Function.update_self, UInt32.ofNat_add]
        rfl
      have inside : (UInt32.ofNat (steps + 1)).toNat ≠ values.length :=
        Nat.ne_of_lt (Nat.lt_of_lt_of_le (UInt32.toNat_lt _) endless)
      have moved := tracks.insert present (steps + 1)
      rw [Function.update_idem] at moved
      rw [Function.iterate_succ_apply', iterator, next, if_neg Bool.false_ne_true]
      dsimp only
      rw [keys_reverse split tracks, incrementIndexes, index, getD_of_mem_columns member,
        if_neg inside]
      exact ⟨_, rfl, moved⟩

theorem last_atEnd (map : ExtTreeMap κ (List α)) : (last map).atEnd = true := by
  rw [last_eq]

/-- Over a map without keys, the iterator to the beginning has the indexes of the one to
the end. -/
theorem confused_first_last_of_nil (keyless : columns map = []) (steps : Nat) :
    Confused map (.first steps) .last ↔
      (next^[steps] (first map)).atEnd = false ∧ (last map).atEnd = true ∧
        (next^[steps] (first map)).indexes = (last map).indexes := by
  have noColumn {column : κ × List α} (member : column ∈ columns map) : False := by
    rw [keyless] at member
    cases member
  have nonempty : ∀ column ∈ columns map, column.2 ≠ [] := fun _ member =>
    (noColumn member).elim
  have indexable : Indexable map := fun _ member => (noColumn member).elim
  have alike : (next^[steps] (first map)).indexes = (last map).indexes := by
    obtain ⟨_, _, tracks⟩ := Reached.tracks nonempty (.first steps)
    exact (tracks.indexes_eq_iff (last_tracks map)).mpr fun _ member =>
      (noColumn member).elim
  constructor
  · intro confused
    obtain ⟨_, rfl⟩ | ⟨front, key, values, split, _⟩ := confused.2
    · rw [Function.iterate_zero_apply, first_eq nonempty] at alike ⊢
      exact ⟨rfl, last_atEnd map, alike⟩
    · exact (noColumn (mem_columns_of_split split)).elim
  · intro same
    cases iterate_next_counts nonempty indexable steps with
    | inr passed =>
        rw [passed.2] at same
        cases same.1
    | inl running =>
        obtain ⟨_, _, _, _, within, count⟩ := running
        have remains := remaining_length_pos within
        have single : (Odometer.product (columns map)).length = 1 := by
          rw [keyless]
          rfl
        exact ⟨nonempty, .inl ⟨keyless, by omega⟩⟩

/-- Otherwise its position is the size of the last value list modulo `2 ^ 32`, and the other
sizes are multiples of `2 ^ 32`. -/
theorem confused_first_last_of_split (nonempty : ∀ column ∈ columns map, column.2 ≠ [])
    (split : columns map = front ++ [(key, values)]) (steps : Nat) :
    Confused map (.first steps) .last ↔
      (next^[steps] (first map)).atEnd = false ∧ (last map).atEnd = true ∧
        (next^[steps] (first map)).indexes = (last map).indexes := by
  have member := mem_columns_of_split split
  have size := (last_tracks map).getElem?_of_mem member
  rw [getD_of_mem_columns member] at size
  have confused_iff : Confused map (.first steps) .last ↔
      (∀ column ∈ front, column.2.length % 2 ^ 32 = 0) ∧
        2 ^ 32 ≤ values.length ∧ steps % 2 ^ 32 = values.length % 2 ^ 32 := by
    constructor
    · intro confused
      obtain ⟨keyless, _⟩ | ⟨others, own, list, same, wraps⟩ := confused.2
      · rw [keyless] at member
        cases member
      · rw [split] at same
        obtain ⟨rfl, last⟩ := List.append_inj' same rfl
        cases last
        exact wraps
    · exact fun wraps => ⟨nonempty, .inr ⟨front, key, values, split, wraps⟩⟩
  rw [confused_iff]
  by_cases endless : 2 ^ 32 ≤ values.length
  · obtain ⟨indexes, iterator, tracks⟩ := iterate_next_tracks nonempty split endless steps
    have same_iff : indexes = (last map).indexes ↔
        (∀ column ∈ front, column.2.length % 2 ^ 32 = 0) ∧
          steps % 2 ^ 32 = values.length % 2 ^ 32 := by
      rw [tracks.indexes_eq_iff (last_tracks map), split]
      have others {column : κ × List α} (inFront : column ∈ front) :
          Function.update (fun _ => 0) key steps column.1 = 0 ∧
            map.getD column.1 [] = column.2 := by
        constructor
        · apply Function.update_of_ne
          intro same
          apply notMem_front split
          rw [List.mem_reverse, ← same]
          exact List.mem_map_of_mem inFront
        · apply getD_of_mem_columns
          rw [split]
          exact List.mem_append_left _ inFront
      rw [List.forall_mem_append, List.forall_mem_singleton, Function.update_self,
        getD_of_mem_columns member]
      apply and_congr_left'
      apply forall₂_congr
      intro column inFront
      rw [(others inFront).1, (others inFront).2, eq_comm]
      rfl
    rw [iterator, same_iff]
    constructor
    · exact fun wraps => ⟨rfl, last_atEnd map, wraps.1, wraps.2.2⟩
    · exact fun same => ⟨same.2.2.1, endless, same.2.2.2⟩
  · obtain ⟨index, found, inside⟩ :=
      iterate_next_below nonempty split (Nat.lt_of_not_le endless) steps
    constructor
    · exact fun wraps => absurd wraps.2.1 endless
    · intro same
      rw [same.2.2, size, Option.some.injEq] at found
      rw [← found, UInt32.toNat_ofNat_of_lt' (Nat.lt_of_not_le endless)] at inside
      exact absurd inside (Nat.lt_irrefl _)

end LastKey

/-! ## The comparison -/

section Comparison

variable {map : ExtTreeMap κ (List α)} [LawfulEqOrd κ] [DecidableEq κ]

/-- An iterator that is before the end and one that is at the end have the same indexes
only in the cases of `Confused`. -/
theorem confused_iff (nonempty : ∀ column ∈ columns map, column.2 ≠ [])
    (left right : Reached) :
    Confused map left right ↔
      (left.iterator map).atEnd = false ∧ (right.iterator map).atEnd = true ∧
        (left.iterator map).indexes = (right.iterator map).indexes := by
  cases left with
  | last =>
      constructor
      · exact False.elim
      · intro same
        have ended := last_atEnd map
        rw [Reached.iterator] at same
        rw [same.1] at ended
        cases ended
  | first steps =>
      cases right with
      | first others => exact confused_first_first_iff nonempty steps others
      | last =>
          cases (columns map).eq_nil_or_concat with
          | inl keyless => exact confused_first_last_of_nil keyless steps
          | inr split =>
              obtain ⟨front, ⟨key, values⟩, split⟩ := split
              rw [List.concat_eq_append] at split
              exact confused_first_last_of_split nonempty split steps

/-- With an empty value list, every iterator is at the end. -/
theorem Reached.atEnd_of_empty {column : κ × List α} (member : column ∈ columns map)
    (empty : column.2 = []) (reached : Reached) :
    (reached.iterator map).map = map ∧ (reached.iterator map).atEnd = true := by
  cases reached with
  | last => rw [Reached.iterator, last_eq]; exact ⟨rfl, rfl⟩
  | first steps =>
      have ended := first_atEnd member empty
      rw [Reached.iterator, iterate_next_of_atEnd ended.2]
      exact ended

variable [DecidableEq α] {left right : MapPermutator κ α}

omit [LawfulEqOrd κ] in
theorem equals_of_atEnd (leftMap : left.map = map) (rightMap : right.map = map)
    (leftEnd : left.atEnd = true) (rightEnd : right.atEnd = true) :
    left.equals right = true := by
  rw [equals, leftMap, rightMap, leftEnd, rightEnd]
  simp

/-- Unless both are at the end, the indexes are compared. -/
theorem equals_iff_indexes (leftMap : left.map = map) (rightMap : right.map = map)
    (leftTracks : ∃ positions, Tracks map left.indexes positions)
    (rightTracks : ∃ positions, Tracks map right.indexes positions)
    (before : ¬(left.atEnd = true ∧ right.atEnd = true)) :
    left.equals right = true ↔ left.indexes = right.indexes := by
  obtain ⟨positions, tracks⟩ := leftTracks
  obtain ⟨others, otherTracks⟩ := rightTracks
  have flags : (left.atEnd && right.atEnd) = false := by
    rw [← Bool.not_eq_true, Bool.and_eq_true]
    exact before
  rw [equals, leftMap, rightMap, if_neg (not_not_intro rfl), flags,
    if_neg Bool.false_ne_true, tracks.toList, List.all_map, List.all_eq_true,
    tracks.indexes_eq_iff otherTracks]
  apply forall₂_congr
  intro column member
  have index := otherTracks.getElem?_of_mem member
  rw [Function.comp_apply, decide_eq_true_eq, ExtTreeMap.getD_eq_getD_getElem?, index,
    Option.getD_some, ← UInt32.toNat_inj, UInt32.toNat_ofNat', UInt32.toNat_ofNat']

/-- The comparison is lawful unless an iterator before the end and one at the end have the
same indexes. -/
theorem lawful_iff_of_tracks (leftMap : left.map = map) (rightMap : right.map = map)
    (leftTracks : ∃ positions, Tracks map left.indexes positions)
    (rightTracks : ∃ positions, Tracks map right.indexes positions) :
    Lawful left right ↔
      ¬((left.atEnd = false ∧ right.atEnd = true ∧ left.indexes = right.indexes) ∨
        (right.atEnd = false ∧ left.atEnd = true ∧ right.indexes = left.indexes)) := by
  by_cases ended : left.atEnd = true ∧ right.atEnd = true
  · have forward := equals_of_atEnd leftMap rightMap ended.1 ended.2
    have backward := equals_of_atEnd rightMap leftMap ended.2 ended.1
    rw [Lawful, forward, backward, ended.1, ended.2]
    simp
  · have forward := equals_iff_indexes leftMap rightMap leftTracks rightTracks ended
    have backward := equals_iff_indexes rightMap leftMap rightTracks leftTracks
      fun both => ended both.symm
    have symmetric : left.equals right = right.equals left := by
      rw [Bool.eq_iff_iff, forward, backward, eq_comm]
    rw [Lawful, forward, @eq_comm _ right.indexes]
    cases leftEnd : left.atEnd with
    | false => cases right.atEnd <;> simp [symmetric]
    | true =>
        cases rightEnd : right.atEnd with
        | false => simp [symmetric]
        | true => exact absurd ⟨leftEnd, rightEnd⟩ ended

/-- The comparison of two iterators is lawful exactly when they are not confused. -/
theorem equals_lawful_iff (map : ExtTreeMap κ (List α)) (left right : Reached) :
    Lawful (left.iterator map) (right.iterator map) ↔
      ¬(Confused map left right ∨ Confused map right left) := by
  by_cases nonempty : ∀ column ∈ columns map, column.2 ≠ []
  · rw [confused_iff nonempty, confused_iff nonempty]
    obtain ⟨leftMap, leftTracks⟩ := left.tracks nonempty
    obtain ⟨rightMap, rightTracks⟩ := right.tracks nonempty
    exact lawful_iff_of_tracks leftMap rightMap leftTracks rightTracks
  · have unconfused (one other : Reached) : ¬Confused map one other := by
      cases one with
      | last => exact id
      | first _ => cases other <;> exact fun confused => nonempty confused.1
    obtain ⟨column, member, empty⟩ : ∃ column ∈ columns map, column.2 = [] := by
      by_contra filled
      exact nonempty fun column member empty => filled ⟨column, member, empty⟩
    obtain ⟨leftMap, leftEnd⟩ := left.atEnd_of_empty member empty
    obtain ⟨rightMap, rightEnd⟩ := right.atEnd_of_empty member empty
    have forward := equals_of_atEnd leftMap rightMap leftEnd rightEnd
    have backward := equals_of_atEnd rightMap leftMap rightEnd leftEnd
    rw [Lawful, forward, backward, leftEnd, rightEnd]
    simp [unconfused]

/-- The values of one key. -/
def oneKey (values : List String) : ExtTreeMap String (List String) :=
  (∅ : ExtTreeMap String (List String)).insert "a" values

/-- The second of two combinations is told from the end. -/
theorem equals_lawful_iff_second :
    Lawful ((Reached.first 1).iterator (oneKey ["x", "y"]))
      (Reached.last.iterator (oneKey ["x", "y"])) := by
  apply (equals_lawful_iff (oneKey ["x", "y"]) (.first 1) .last).mpr
  intro confused
  cases confused with
  | inr never => exact never
  | inl both =>
      have entries : columns (oneKey ["x", "y"]) = [] ++ [("a", ["x", "y"])] := by decide
      obtain ⟨keyless, _⟩ | ⟨_, _, _, split, _, endless, _⟩ := both.2
      · cases entries.symm.trans keyless
      · obtain ⟨_, last⟩ := List.append_inj' (entries.symm.trans split) rfl
        cases last
        exact absurd endless (by decide)

/-- An iterator that has run through the only combination equals the one to the
beginning. -/
theorem equals_lawful_counterexample :
    ¬∀ (map : ExtTreeMap String (List String)) (left right : Reached),
        Lawful (left.iterator map) (right.iterator map) := by
  intro claimed
  have lawful := (claimed (oneKey ["x"]) (.first 0) (.first 1)).2
  have same : ((Reached.first 0).iterator (oneKey ["x"])).equals
      ((Reached.first 1).iterator (oneKey ["x"])) = true := by decide
  cases lawful.mp same with
  | inl ended => exact absurd ended.1 (by decide)
  | inr before => exact absurd before.2.1 (by decide)

end Comparison

end ExecHelper.Core.MapPermutator
