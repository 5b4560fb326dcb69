import ExecHelper.Library.FirstMatch
import Mathlib.Data.List.Nodup

/-!
# Ordered maps filled entry by entry

Emplacing an entry into an ordered map does nothing when the key is present, so
a map filled from a sequence holds for every key the first entry with that key,
and its entries come out in key order whatever the order of the sequence was.
Inserting an entry replaces the one with its key and no other.
-/

namespace ExecHelper.Library.OrderedMap

open Std

variable {κ υ : Type} [Ord κ] [TransOrd κ]

/-- Emplace the entries in order. -/
def emplaceAll (entries : List (κ × υ)) (map : ExtTreeMap κ υ) : ExtTreeMap κ υ :=
  entries.foldl (fun map entry => map.insertIfNew entry.1 entry.2) map

@[simp] theorem emplaceAll_nil (map : ExtTreeMap κ υ) : emplaceAll [] map = map := rfl

@[simp] theorem emplaceAll_cons (entry : κ × υ) (rest : List (κ × υ))
    (map : ExtTreeMap κ υ) :
    emplaceAll (entry :: rest) map =
      emplaceAll rest (map.insertIfNew entry.1 entry.2) := rfl

/-- The entries of a map are in the order of their keys. -/
theorem toList_ordered (map : ExtTreeMap κ υ) :
    (map.toList.map Prod.fst).Pairwise fun left right => compare left right = .lt := by
  rw [ExtTreeMap.map_fst_toList_eq_keys]
  exact ExtTreeMap.ordered_keys

variable [LawfulEqOrd κ] [DecidableEq κ]

/-- The first entry with a key decides, unless the key was there before. -/
theorem getElem?_emplaceAll (entries : List (κ × υ)) (map : ExtTreeMap κ υ) (key : κ) :
    (emplaceAll entries map)[key]? =
      map[key]?.or ((FirstMatch.lookup Prod.fst key entries).map Prod.snd) := by
  induction entries generalizing map with
  | nil => simp
  | cons entry rest inductionHypothesis =>
      rw [emplaceAll_cons, inductionHypothesis, FirstMatch.lookup_cons,
        ExtTreeMap.getElem?_insertIfNew]
      by_cases same : entry.1 = key
      · subst same
        by_cases present : entry.1 ∈ map <;> simp [present]
      · have different : compare entry.1 key ≠ .eq := fun equal =>
          same (LawfulEqOrd.eq_of_compare equal)
        simp [same, different]

/-- Emplacing the entries of a map into an empty one copies it. -/
theorem emplaceAll_toList (map : ExtTreeMap κ υ) : emplaceAll map.toList ∅ = map := by
  apply ExtTreeMap.ext_getElem?
  intro key
  rw [getElem?_emplaceAll, ExtTreeMap.getElem?_empty, Option.none_or]
  cases found : map[key]? with
  | some value =>
      have member := ExtTreeMap.mem_toList_iff_getElem?_eq_some.mpr found
      have listed : (FirstMatch.lookup Prod.fst key map.toList).isSome :=
        FirstMatch.lookup_isSome_iff.mpr (List.mem_map_of_mem member)
      rcases Option.isSome_iff_exists.mp listed with ⟨entry, first⟩
      have named := FirstMatch.label_of_lookup first
      have inside : (entry.1, entry.2) ∈ map.toList := List.mem_of_find?_eq_some first
      rw [ExtTreeMap.mem_toList_iff_getElem?_eq_some, named, found] at inside
      rw [first, Option.map_some, Option.some.inj inside]
  | none =>
      have missing : FirstMatch.lookup Prod.fst key map.toList = none := by
        apply FirstMatch.lookup_eq_none_iff.mpr
        rw [ExtTreeMap.map_fst_toList_eq_keys, ExtTreeMap.mem_keys,
          ExtTreeMap.mem_iff_isSome_getElem?, found]
        simp
      rw [missing]
      rfl

/-- Entries with distinct keys are all emplaced. -/
theorem mem_toList_emplaceAll_iff {entries : List (κ × υ)}
    (distinct : (entries.map Prod.fst).Nodup) (entry : κ × υ) :
    entry ∈ (emplaceAll entries ∅).toList ↔ entry ∈ entries := by
  rcases entry with ⟨key, value⟩
  rw [ExtTreeMap.mem_toList_iff_getElem?_eq_some, getElem?_emplaceAll,
    ExtTreeMap.getElem?_empty, Option.none_or]
  constructor
  · intro found
    rcases Option.map_eq_some_iff.mp found with ⟨entry, first, rfl⟩
    rw [← FirstMatch.label_of_lookup first]
    exact List.mem_of_find?_eq_some first
  · intro member
    have first := FirstMatch.lookup_of_mem distinct member
    rw [show key = Prod.fst (key, value) from rfl, first, Option.map_some]

/-- Entries with distinct keys come out as they were put in, up to their order. -/
theorem toList_emplaceAll_perm {entries : List (κ × υ)}
    (distinct : (entries.map Prod.fst).Nodup) :
    (emplaceAll entries ∅).toList.Perm entries := by
  have ordered : (emplaceAll entries ∅).toList.Nodup := by
    apply ExtTreeMap.distinct_keys_toList.imp
    rintro entry _ different rfl
    exact different ReflCmp.compare_self
  rw [List.perm_ext_iff_of_nodup ordered (List.Nodup.of_map Prod.fst distinct)]
  exact mem_toList_emplaceAll_iff distinct

/-- Entries in the order of their keys come out as they were put in. -/
theorem toList_emplaceAll_of_ordered {entries : List (κ × υ)}
    (ordered : (entries.map Prod.fst).Pairwise fun left right => compare left right = .lt) :
    (emplaceAll entries ∅).toList = entries := by
  have irreflexive (key : κ) : compare key key ≠ .lt := by
    rw [compare_self]
    exact nofun
  have distinct : (entries.map Prod.fst).Nodup := by
    apply ordered.imp
    rintro left _ before rfl
    exact irreflexive left before
  have filled := toList_ordered (emplaceAll entries ∅)
  rw [List.pairwise_map] at ordered filled
  apply List.Perm.eq_of_pairwise _ filled ordered (toList_emplaceAll_perm distinct)
  intro left right _ _ before after
  exact absurd (TransCmp.lt_trans before after) (irreflexive left.1)

/-! ## Inserting -/

/-- Insert the entries in order. -/
def insertAll (entries : List (κ × υ)) (map : ExtTreeMap κ υ) : ExtTreeMap κ υ :=
  entries.foldl (fun map entry => map.insert entry.1 entry.2) map

/-- The last entry with a key decides. -/
theorem getElem?_insertAll (entries : List (κ × υ)) (map : ExtTreeMap κ υ) (key : κ) :
    (insertAll entries map)[key]? =
      ((FirstMatch.lookup Prod.fst key entries.reverse).map Prod.snd).or map[key]? := by
  induction entries generalizing map with
  | nil => rfl
  | cons entry rest inductionHypothesis =>
      have inserted := inductionHypothesis (map.insert entry.1 entry.2)
      rw [insertAll, List.foldl_cons, ← insertAll, inserted, List.reverse_cons,
        FirstMatch.lookup_append, ExtTreeMap.getElem?_insert]
      cases FirstMatch.lookup Prod.fst key rest.reverse with
      | some later => rfl
      | none =>
          rw [Option.map_none, Option.none_or, Option.none_or, FirstMatch.lookup_cons]
          by_cases same : entry.1 = key
          · subst same
            simp
          · have different : compare entry.1 key ≠ .eq := fun equal =>
              same (LawfulEqOrd.eq_of_compare equal)
            simp [same, different]

/-- Where equal keys come with equal values, all the entries are found. -/
theorem getElem?_insertAll_iff {entries : List (κ × υ)} {key : κ} {value : υ}
    (functional : ∀ left ∈ entries, ∀ right ∈ entries, left.1 = right.1 → left.2 = right.2) :
    (insertAll entries ∅)[key]? = some value ↔ (key, value) ∈ entries := by
  rw [getElem?_insertAll, ExtTreeMap.getElem?_empty, Option.or_none, Option.map_eq_some_iff]
  constructor
  · rintro ⟨entry, last, rfl⟩
    rw [← FirstMatch.label_of_lookup last]
    exact List.mem_reverse.mp (List.mem_of_find?_eq_some last)
  · intro member
    have listed : (FirstMatch.lookup Prod.fst key entries.reverse).isSome := by
      rw [FirstMatch.lookup_isSome_iff]
      exact List.mem_map.mpr ⟨(key, value), List.mem_reverse.mpr member, rfl⟩
    rcases Option.isSome_iff_exists.mp listed with ⟨entry, last⟩
    have inside : entry ∈ entries := List.mem_reverse.mp (List.mem_of_find?_eq_some last)
    exact ⟨entry, last, functional entry inside _ member (FirstMatch.label_of_lookup last)⟩

/-- With distinct keys it makes no difference which entry decides. -/
theorem insertAll_eq_emplaceAll {entries : List (κ × υ)}
    (distinct : (entries.map Prod.fst).Nodup) : insertAll entries ∅ = emplaceAll entries ∅ := by
  apply ExtTreeMap.ext_getElem?
  intro key
  apply Option.ext
  intro value
  rw [getElem?_insertAll_iff, ← mem_toList_emplaceAll_iff distinct,
    ExtTreeMap.mem_toList_iff_getElem?_eq_some]
  intro left leftMember right rightMember same
  rw [List.inj_on_of_nodup_map distinct leftMember rightMember same]

/-- Looking through the entries of a map from the end finds what the map holds. -/
theorem lookup_reverse_toList (map : ExtTreeMap κ υ) (key : κ) :
    (FirstMatch.lookup Prod.fst key map.toList.reverse).map Prod.snd = map[key]? := by
  have distinct : (map.toList.map Prod.fst).Nodup := by
    rw [ExtTreeMap.map_fst_toList_eq_keys]
    exact ExtTreeMap.nodup_keys
  have inserted := getElem?_insertAll map.toList ∅ key
  rw [insertAll_eq_emplaceAll distinct, emplaceAll_toList] at inserted
  simpa using inserted.symm

theorem size_insertAll {entries : List (κ × υ)} (distinct : (entries.map Prod.fst).Nodup) :
    (insertAll entries ∅).size = entries.length := by
  rw [insertAll_eq_emplaceAll distinct, ← ExtTreeMap.length_toList]
  exact (toList_emplaceAll_perm distinct).length_eq

/-- Inserting a value changes no entry with another key. -/
theorem filter_toList_insert (map : ExtTreeMap κ υ) (key : κ) (value : υ) :
    (map.insert key value).toList.filter (fun entry => entry.1 ≠ key) =
      map.toList.filter fun entry => entry.1 ≠ key := by
  have maps : (map.insert key value).filter (fun other _ => other ≠ key) =
      map.filter fun other _ => other ≠ key := by
    apply ExtTreeMap.ext_getElem?
    intro other
    rw [ExtTreeMap.getElem?_filter', ExtTreeMap.getElem?_filter',
      ExtTreeMap.getElem?_insert]
    by_cases own : compare key other = .eq
    · have equal : key = other := LawfulEqOrd.eq_of_compare own
      subst equal
      rw [if_pos own]
      cases map[key]? <;> simp
    · rw [if_neg own]
  have lists := congrArg ExtTreeMap.toList maps
  rwa [ExtTreeMap.toList_filter, ExtTreeMap.toList_filter] at lists

end ExecHelper.Library.OrderedMap
