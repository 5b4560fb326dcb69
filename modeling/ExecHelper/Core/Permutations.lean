import ExecHelper.Core.MapPermutator

/-!
# The permutations of a map

A loop over a map permutator from its beginning to its end runs its body for
every choice of one index into each value list, once and in lexicographic order
of the indexes, for which it needs no more steps than there are choices.
-/

namespace ExecHelper.Core.MapPermutator

open Std
open ExecHelper.Library

section Combinations

variable {κ α : Type} [Ord κ] [TransOrd κ] [LawfulEqOrd κ] [DecidableEq κ]

variable (map : ExtTreeMap κ (List α))

/-- A combination holds the entries that the odometer reads. -/
theorem toList_of_mem_product {entries : List (κ × α)}
    (member : entries ∈ Odometer.product (columns map)) :
    (OrderedMap.emplaceAll entries ∅).toList = entries := by
  apply OrderedMap.toList_emplaceAll_of_ordered
  rw [Odometer.keys_of_mem_product member]
  exact OrderedMap.toList_ordered map

/-- Every combination has exactly the keys of the map. -/
theorem keys_of_mem_combinations :
    ∀ combination ∈ combinations map, combination.keys = map.keys := by
  intro combination member
  rcases List.mem_map.mp member with ⟨entries, inside, rfl⟩
  have listed := congrArg (List.map Prod.fst) (toList_of_mem_product map inside)
  rwa [ExtTreeMap.map_fst_toList_eq_keys, Odometer.keys_of_mem_product inside,
    ExtTreeMap.map_fst_toList_eq_keys] at listed

/-- The combinations are the entries of the map at the index lists. -/
theorem combinations_entries :
    (combinations map).map (fun combination => combination.toList.map some) =
      (Odometer.indexLists (columns map)).map fun indexes =>
        (columns map).zipWith Odometer.entryAt indexes := by
  rw [← Odometer.product_entries, combinations, List.map_map]
  apply List.map_congr_left
  intro entries member
  rw [Function.comp_apply, toList_of_mem_product map member]

end Combinations

section Iteration

variable {κ α : Type} [Ord κ] [TransOrd κ] [LawfulEqOrd κ] [DecidableEq κ] [DecidableEq α]

/-- Iterating over a map with at least one key yields the cartesian product of
its value lists: `positions` holds every choice of one index into each list, in
lexicographic order and so none of them twice, and the combination that is
yielded for each choice holds exactly the entries at it.  Whatever the body of the
loop does, the loop is running it on these combinations one by one, which neither
leaves a value list nor needs more steps than there are combinations. -/
theorem loop_product (map : ExtTreeMap κ (List α)) (keyed : columns map ≠ [])
    (indexable : Indexable map) :
    ∃ (positions : List (List Nat)) (yielded : List (ExtTreeMap κ α)),
      (∀ indexes, indexes ∈ positions ↔
        List.Forall₂ (fun column index => index < column.2.length) (columns map) indexes) ∧
      positions.Pairwise (· < ·) ∧
      yielded.map (fun combination => combination.toList.map some) =
        positions.map (fun indexes => (columns map).zipWith Odometer.entryAt indexes) ∧
      (∀ combination ∈ yielded, combination.keys = map.keys) ∧
      ((∃ column ∈ columns map, column.2 = []) → yielded = []) ∧
      ∀ (interface : Interface) (body : ExtTreeMap κ α → Program Stop interface Bool)
        (fuel : Nat), yielded.length < fuel →
        loop body (last map) fuel (first map) = yielded.allM body := by
  refine ⟨Odometer.indexLists (columns map), combinations map, ?members, ?sorted,
    ?entries, ?keys, ?empty, ?runs⟩
  case members =>
    intro indexes
    exact Odometer.mem_indexLists
  case sorted => exact Odometer.indexLists_sorted (columns map)
  case entries => exact combinations_entries map
  case keys => exact keys_of_mem_combinations map
  case empty =>
    rintro ⟨column, member, noValues⟩
    rw [combinations, Odometer.product_of_mem_empty member noValues]
    rfl
  case runs =>
    intro interface body fuel enough
    exact loop_eq keyed (.inl indexable) enough

/-- Two modes for each of three targets. -/
private def targets : ExtTreeMap String (List String) :=
  OrderedMap.emplaceAll
    [("MODE", ["debug", "release"]), ("TARGET", ["all", "clean", "install"])] ∅

private theorem columns_targets :
    columns targets =
      [("MODE", ["debug", "release"]), ("TARGET", ["all", "clean", "install"])] := by
  apply OrderedMap.toList_emplaceAll_of_ordered
  rw [List.map_cons, List.map_cons, List.map_nil, List.pairwise_pair]
  decide

theorem loop_product_targets :
    ∃ (positions : List (List Nat)) (yielded : List (ExtTreeMap String String)),
      (∀ indexes, indexes ∈ positions ↔
        List.Forall₂ (fun column index => index < column.2.length) (columns targets)
          indexes) ∧
      positions.Pairwise (· < ·) ∧
      yielded.map (fun combination => combination.toList.map some) =
        positions.map
          (fun indexes => (columns targets).zipWith Odometer.entryAt indexes) ∧
      (∀ combination ∈ yielded, combination.keys = targets.keys) ∧
      ((∃ column ∈ columns targets, column.2 = []) → yielded = []) ∧
      ∀ (interface : Interface)
        (body : ExtTreeMap String String → Program Stop interface Bool) (fuel : Nat),
        yielded.length < fuel →
        loop body (last targets) fuel (first targets) = yielded.allM body :=
  loop_product targets (by simp [columns_targets]) (by simp [Indexable, columns_targets])

end Iteration

end ExecHelper.Core.MapPermutator
