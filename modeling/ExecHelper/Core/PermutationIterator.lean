import ExecHelper.Core.Stop
import ExecHelper.Library.Odometer
import Mathlib.Logic.Function.Iterate

/-!
# Permutation iterator

The iterator over all permutations of any number of collections, each of its own type.  An
iterator over the first collection stands outside an iterator over the other ones.  When the
inner one comes to its end it is restarted, and the outer one moves on.

An empty collection anywhere leaves no permutation.  The constructor then puts the outer
iterator at its end, while restarting an iterator puts every level at its beginning.
-/

namespace ExecHelper.Core

open ExecHelper.Library

/-- A sub-range of a collection, between two iterators into it. -/
structure SubRange (α : Type) where
  collection : List α
  beginIterator : Nat
  endIterator : Nat
  ordered : beginIterator ≤ endIterator
  inside : endIterator ≤ collection.length

/-- An iterator into a sub-range. -/
structure Position (α : Type) where
  range : SubRange α
  iterator : Nat
  begun : range.beginIterator ≤ iterator
  bounded : iterator ≤ range.endIterator

namespace SubRange

variable {α : Type}

def first (range : SubRange α) : Position α where
  range := range
  iterator := range.beginIterator
  begun := Nat.le_refl _
  bounded := range.ordered

def last (range : SubRange α) : Position α where
  range := range
  iterator := range.endIterator
  begun := range.ordered
  bounded := Nat.le_refl _

/-- The sub-range from the end to the end. -/
def ends (range : SubRange α) : SubRange α where
  collection := range.collection
  beginIterator := range.endIterator
  endIterator := range.endIterator
  ordered := Nat.le_refl _
  inside := range.inside

/-- The values from an iterator on. -/
def valuesFrom (range : SubRange α) (iterator : Nat) : List α :=
  (range.collection.drop iterator).take (range.endIterator - iterator)

/-- A whole collection. -/
def whole (collection : List α) : SubRange α where
  collection := collection
  beginIterator := 0
  endIterator := collection.length
  ordered := Nat.zero_le _
  inside := Nat.le_refl _

def values (range : SubRange α) : List α :=
  range.valuesFrom range.beginIterator

/-- The iterators at which there is a value. -/
def iterators (range : SubRange α) : List Nat :=
  List.range' range.beginIterator (range.endIterator - range.beginIterator)

theorem valuesFrom_end (range : SubRange α) {iterator : Nat}
    (atEnd : range.endIterator ≤ iterator) : range.valuesFrom iterator = [] := by
  rw [valuesFrom, Nat.sub_eq_zero_of_le atEnd, List.take_zero]

/-- The values stand at the iterators. -/
theorem values_eq_iterators (range : SubRange α) :
    range.values.map some = range.iterators.map fun iterator => range.collection[iterator]? := by
  have inside := range.inside
  apply List.ext_getElem
  · simp [values, valuesFrom, iterators]
    omega
  · intro index _ bound
    rw [List.length_map, iterators, List.length_range'] at bound
    have small : range.beginIterator + index < range.collection.length := by omega
    simp [values, valuesFrom, iterators, List.getElem?_eq_getElem small]

theorem iterators_sorted (range : SubRange α) : range.iterators.Pairwise (· < ·) :=
  List.pairwise_lt_range' ..

theorem mem_iterators_iff {range : SubRange α} {iterator : Nat} :
    iterator ∈ range.iterators ↔
      range.beginIterator ≤ iterator ∧ iterator < range.endIterator := by
  have ordered := range.ordered
  rw [iterators, List.mem_range'_1]
  omega

end SubRange

namespace Position

variable {α : Type}

def atEnd (position : Position α) : Bool :=
  position.iterator == position.range.endIterator

theorem lt_of_running {position : Position α} (running : position.atEnd = false) :
    position.iterator < position.range.endIterator :=
  Nat.lt_of_le_of_ne position.bounded (beq_eq_false_iff_ne.mp running)

/-- The next position, if there is one. -/
def advance (position : Position α) (running : position.atEnd = false) : Position α where
  range := position.range
  iterator := position.iterator + 1
  begun := Nat.le_succ_of_le position.begun
  bounded := lt_of_running running

def restart (position : Position α) : Position α := position.range.first

/-- The dereferenced value. The end is not dereferenced. -/
def value (position : Position α) : Except Stop α :=
  if running : position.atEnd = false then
    .ok (position.range.collection.get ⟨position.iterator,
      Nat.lt_of_lt_of_le (lt_of_running running) position.range.inside⟩)
  else .error .outOfBounds

/-- A position that is not at the end has a value, which comes before the other ones. -/
theorem value_spec {position : Position α} (running : position.atEnd = false) :
    ∃ value, position.value = .ok value ∧
      position.range.valuesFrom position.iterator =
        value :: position.range.valuesFrom (position.iterator + 1) := by
  have inside := lt_of_running running
  have bound := Nat.lt_of_lt_of_le inside position.range.inside
  have size : position.range.endIterator - position.iterator =
      position.range.endIterator - (position.iterator + 1) + 1 := by omega
  refine ⟨_, dif_pos running, ?_⟩
  rw [SubRange.valuesFrom, List.drop_eq_getElem_cons bound, size, List.take_succ_cons]
  rfl

theorem value_atEnd {position : Position α} (ended : position.atEnd = true) :
    position.value = .error .outOfBounds := by
  rw [value, dif_neg]
  rw [ended]
  exact Bool.noConfusion

end Position

/-- The values of a permutation, one of each type. -/
def Tuple : List Type → Type
  | [] => Unit
  | value :: values => value × Tuple values

/-- A single value (`std::make_tuple`). -/
def Tuple.make {α : Type} (value : α) : Tuple [α] := (value, ())

/-- One more value in front (`std::tuple_cat`). -/
def Tuple.cons {α : Type} {others : List Type} (value : α) (values : Tuple others) :
    Tuple (α :: others) :=
  (value, values)

/-- The sub-ranges that are given to a constructor. -/
inductive SubRanges : Type → List Type → Type 1
  | single {α : Type} (range : SubRange α) : SubRanges α []
  | nested {α β : Type} {others : List Type} (outer : SubRange α)
      (inner : SubRanges β others) : SubRanges α (β :: others)

/-- The permutation iterator over collections of these types. -/
inductive PermutationIterator : Type → List Type → Type 1
  | single {α : Type} (collection : Position α) : PermutationIterator α []
  | nested {α β : Type} {others : List Type} (outer : Position α)
      (inner : PermutationIterator β others) : PermutationIterator α (β :: others)

/-! ## The permutations -/

namespace SubRanges

/-- One of the sub-ranges is empty. -/
def SomeEmpty : {α : Type} → {others : List Type} → SubRanges α others → Prop
  | _, _, .single range => range.beginIterator = range.endIterator
  | _, _, .nested outer inner => outer.beginIterator = outer.endIterator ∨ inner.SomeEmpty

/-- The sub-range of the first collection is empty. -/
def FirstEmpty : {α : Type} → {others : List Type} → SubRanges α others → Prop
  | _, _, .single range => range.beginIterator = range.endIterator
  | _, _, .nested outer _ => outer.beginIterator = outer.endIterator

/-- The end positions of the collections, as begin and as end iterators. -/
def ends : {α : Type} → {others : List Type} → SubRanges α others → SubRanges α others
  | _, _, .single range => .single range.ends
  | _, _, .nested outer inner => .nested outer.ends inner.ends

/-- The cartesian product of the sub-ranges, the last one varying fastest. -/
def product : {α : Type} → {others : List Type} →
    SubRanges α others → List (Tuple (α :: others))
  | _, _, .single range => range.values.map Tuple.make
  | _, _, .nested outer inner =>
      outer.values.flatMap fun value => inner.product.map (Tuple.cons value)

theorem product_of_someEmpty {α : Type} {others : List Type} {ranges : SubRanges α others}
    (empty : ranges.SomeEmpty) : ranges.product = [] := by
  induction ranges with
  | single range =>
      rw [product, SubRange.values, range.valuesFrom_end (Nat.le_of_eq empty.symm)]
      rfl
  | nested outer inner inductionHypothesis =>
      cases empty with
      | inl outerEmpty =>
          rw [product, SubRange.values, outer.valuesFrom_end (Nat.le_of_eq outerEmpty.symm)]
          rfl
      | inr innerEmpty =>
          rw [product, inductionHypothesis innerEmpty]
          exact List.flatMap_eq_nil_iff.mpr fun _ _ => rfl

/-- The lists of one iterator into each sub-range, in the order of `product`. -/
def iterators : {α : Type} → {others : List Type} → SubRanges α others → List (List Nat)
  | _, _, .single range => range.iterators.map fun iterator => [iterator]
  | _, _, .nested outer inner =>
      outer.iterators.flatMap fun iterator =>
        inner.iterators.map fun iterators => iterator :: iterators

/-- The values at iterators into each collection, if there are values. -/
def valuesAt : {α : Type} → {others : List Type} →
    SubRanges α others → List Nat → Option (Tuple (α :: others))
  | _, _, .single range, [iterator] => range.collection[iterator]?.map Tuple.make
  | _, _, .nested outer inner, iterator :: iterators =>
      outer.collection[iterator]?.bind fun value =>
        (inner.valuesAt iterators).map (Tuple.cons value)
  | _, _, _, _ => none

/-- There is one iterator into each sub-range, before its end. -/
def Within : {α : Type} → {others : List Type} → SubRanges α others → List Nat → Prop
  | _, _, .single range, iterators =>
      ∃ iterator, iterators = [iterator] ∧ range.beginIterator ≤ iterator ∧
        iterator < range.endIterator
  | _, _, .nested outer inner, iterators =>
      ∃ iterator rest, iterators = iterator :: rest ∧ outer.beginIterator ≤ iterator ∧
        iterator < outer.endIterator ∧ inner.Within rest

private theorem cons_entries {α β : Type} {others : List Type} {inner : SubRanges β others}
    (entries : inner.product.map some = inner.iterators.map inner.valuesAt) (value : α) :
    (inner.product.map (Tuple.cons value)).map some =
      inner.iterators.map fun rest => (inner.valuesAt rest).map (Tuple.cons value) := by
  have inFront := congrArg (List.map (Option.map (Tuple.cons value))) entries
  rw [List.map_map, List.map_map] at inFront
  rw [List.map_map]
  exact inFront

/-- The permutations are the values at the lists of iterators. -/
theorem product_entries {α : Type} {others : List Type} (ranges : SubRanges α others) :
    ranges.product.map some = ranges.iterators.map ranges.valuesAt := by
  induction ranges with
  | single range =>
      have entries := congrArg (List.map (Option.map Tuple.make)) range.values_eq_iterators
      rw [List.map_map, List.map_map] at entries
      rw [product, iterators, List.map_map, List.map_map]
      exact entries
  | nested outer inner inductionHypothesis =>
      have read := congrArg (List.flatMap fun value => inner.iterators.map fun rest =>
        value.bind fun value => (inner.valuesAt rest).map (Tuple.cons value))
        outer.values_eq_iterators
      rw [List.flatMap_map, List.flatMap_map] at read
      rw [product, iterators, List.map_flatMap, List.map_flatMap]
      simp only [cons_entries inductionHypothesis, List.map_map]
      exact read

/-- They are in lexicographic order, which leaves no list twice. -/
theorem iterators_sorted {α : Type} {others : List Type} (ranges : SubRanges α others) :
    ranges.iterators.Pairwise (· < ·) := by
  induction ranges with
  | single range =>
      rw [iterators, List.pairwise_map]
      exact range.iterators_sorted.imp fun before => List.cons_lt_cons_iff.mpr (.inl before)
  | nested outer inner inductionHypothesis =>
      exact Odometer.flatMap_cons_sorted outer.iterators_sorted inductionHypothesis

/-- There is one iterator into each sub-range, before its end. -/
theorem mem_iterators_iff {α : Type} {others : List Type} {ranges : SubRanges α others}
    {iterators : List Nat} : iterators ∈ ranges.iterators ↔ ranges.Within iterators := by
  induction ranges generalizing iterators with
  | single range =>
      rw [SubRanges.iterators, List.mem_map, Within]
      constructor
      · intro single
        obtain ⟨iterator, member, rfl⟩ := single
        exact ⟨iterator, rfl, SubRange.mem_iterators_iff.mp member⟩
      · intro within
        obtain ⟨iterator, rfl, bounds⟩ := within
        exact ⟨iterator, SubRange.mem_iterators_iff.mpr bounds, rfl⟩
  | nested outer inner inductionHypothesis =>
      rw [SubRanges.iterators, List.mem_flatMap, Within]
      constructor
      · intro nested
        obtain ⟨iterator, member, inside⟩ := nested
        obtain ⟨rest, restMember, rfl⟩ := List.mem_map.mp inside
        have bounds := SubRange.mem_iterators_iff.mp member
        exact ⟨iterator, rest, rfl, bounds.1, bounds.2, inductionHypothesis.mp restMember⟩
      · intro within
        obtain ⟨iterator, rest, rfl, lower, upper, inner⟩ := within
        refine ⟨iterator, SubRange.mem_iterators_iff.mpr ⟨lower, upper⟩, ?_⟩
        exact List.mem_map_of_mem (inductionHypothesis.mpr inner)

end SubRanges

/-! ## The iterator -/

namespace PermutationIterator

def hasEmptyCollection : {α : Type} → {others : List Type} →
    PermutationIterator α others → Bool
  | _, _, .single collection =>
      collection.range.beginIterator == collection.range.endIterator
  | _, _, .nested outer inner =>
      outer.range.beginIterator == outer.range.endIterator || inner.hasEmptyCollection

/-- Construct an iterator from the begin and the end iterators of the collections. -/
def construct : {α : Type} → {others : List Type} →
    SubRanges α others → PermutationIterator α others
  | _, _, .single range => .single range.first
  | _, _, .nested outer inner =>
      if hasEmptyCollection (.nested outer.first (construct inner)) then
        .nested outer.last (construct inner)
      else .nested outer.first (construct inner)

def atEnd : {α : Type} → {others : List Type} → PermutationIterator α others → Bool
  | _, _, .single collection => collection.atEnd
  | _, _, .nested outer _ => outer.atEnd

def restart : {α : Type} → {others : List Type} →
    PermutationIterator α others → PermutationIterator α others
  | _, _, .single collection => .single collection.restart
  | _, _, .nested outer inner => .nested outer.restart inner.restart

/-- The next permutation (`operator++`). -/
def next : {α : Type} → {others : List Type} →
    PermutationIterator α others → PermutationIterator α others
  | _, _, .single collection =>
      if running : collection.atEnd = false then .single (collection.advance running)
      else .single collection
  | _, _, .nested outer inner =>
      if running : outer.atEnd = false then
        let moved := if inner.atEnd then inner else inner.next
        if moved.atEnd then .nested (outer.advance running) moved.restart
        else .nested outer moved
      else .nested outer inner

/-- Equality of two iterators into the same collections (`operator==`). -/
def equals : {α : Type} → {others : List Type} →
    PermutationIterator α others → PermutationIterator α others → Bool
  | _, _, .single collection, .single other => collection.iterator == other.iterator
  | _, _, .nested outer inner, .nested otherOuter otherInner =>
      if outer.atEnd then outer.iterator == otherOuter.iterator
      else inner.equals otherInner && outer.iterator == otherOuter.iterator

/-- The objects the iterator points to. -/
def getElementValue : {α : Type} → {others : List Type} →
    PermutationIterator α others → Except Stop (Tuple (α :: others))
  | _, _, .single collection => do
      let value ← collection.value
      return Tuple.make value
  | _, _, .nested outer inner => do
      let value ← outer.value
      let values ← inner.getElementValue
      return Tuple.cons value values

/-- The dereferenced object (`operator*`), which is created from the values. Over a single
collection there is only the first value to create it from. -/
def deref {object : Type} : {α : Type} → {others : List Type} →
    (Tuple (α :: others) → object) → PermutationIterator α others → Except Stop object
  | _, _, create, .single collection => create <$> (single collection).getElementValue
  | _, _, create, .nested outer inner =>
      if outer.atEnd then .error .outOfBounds
      else if inner.atEnd then .error .outOfBounds
      else create <$> (nested outer inner).getElementValue

/-- What the iterator yields until it equals the end. -/
def traverse {object α : Type} {others : List Type} (create : Tuple (α :: others) → object)
    (end_ : PermutationIterator α others) :
    Nat → PermutationIterator α others → Except Stop (List object)
  | 0, _ => .error .outOfFuel
  | fuel + 1, iterator =>
      if iterator.equals end_ then .ok []
      else do
        let value ← iterator.deref create
        let values ← traverse create end_ fuel iterator.next
        return value :: values

/-! ## Positions of an iterator -/

section Invariant

variable {α β : Type} {others : List Type}

/-- The sub-ranges of an iterator. -/
def ranges : {α : Type} → {others : List Type} →
    PermutationIterator α others → SubRanges α others
  | _, _, .single collection => .single collection.range
  | _, _, .nested outer inner => .nested outer.range inner.ranges

/-- No level that is not at its end has an inner iterator at its end. -/
def Sound : {α : Type} → {others : List Type} → PermutationIterator α others → Prop
  | _, _, .single _ => True
  | _, _, .nested outer inner => inner.Sound ∧ (outer.atEnd = false → inner.atEnd = false)

/-- The permutations from the current one on. -/
def remaining : {α : Type} → {others : List Type} →
    PermutationIterator α others → List (Tuple (α :: others))
  | _, _, .single collection =>
      (collection.range.valuesFrom collection.iterator).map Tuple.make
  | _, _, .nested outer inner =>
      (outer.value.toOption.toList.flatMap fun value => inner.remaining.map (Tuple.cons value)) ++
      (outer.range.valuesFrom (outer.iterator + 1)).flatMap fun value =>
        inner.ranges.product.map (Tuple.cons value)

theorem hasEmptyCollection_iff (iterator : PermutationIterator α others) :
    iterator.hasEmptyCollection = true ↔ iterator.ranges.SomeEmpty := by
  induction iterator with
  | single collection => exact beq_iff_eq
  | nested outer inner inductionHypothesis =>
      rw [hasEmptyCollection, Bool.or_eq_true, beq_iff_eq, inductionHypothesis]
      rfl

theorem ranges_construct (ranges : SubRanges α others) : (construct ranges).ranges = ranges := by
  induction ranges with
  | single range => rfl
  | nested outer inner inductionHypothesis =>
      rw [construct]
      split
      · rw [PermutationIterator.ranges, inductionHypothesis]
        rfl
      · rw [PermutationIterator.ranges, inductionHypothesis]
        rfl

theorem ranges_restart (iterator : PermutationIterator α others) :
    iterator.restart.ranges = iterator.ranges := by
  induction iterator with
  | single collection => rfl
  | nested outer inner inductionHypothesis =>
      rw [restart, ranges, inductionHypothesis]
      rfl

theorem construct_of_someEmpty {outer : SubRange α} {inner : SubRanges β others}
    (empty : (SubRanges.nested outer inner).SomeEmpty) :
    construct (.nested outer inner) = .nested outer.last (construct inner) := by
  rw [construct, if_pos]
  rw [hasEmptyCollection_iff, ranges, ranges_construct]
  exact empty

theorem construct_of_not_someEmpty {outer : SubRange α} {inner : SubRanges β others}
    (filled : ¬(SubRanges.nested outer inner).SomeEmpty) :
    construct (.nested outer inner) = .nested outer.first (construct inner) := by
  rw [construct, if_neg]
  rw [hasEmptyCollection_iff, ranges, ranges_construct]
  exact filled

/-- A fresh iterator is at its end if one of the sub-ranges is empty. -/
theorem atEnd_construct_iff (ranges : SubRanges α others) :
    (construct ranges).atEnd = true ↔ ranges.SomeEmpty := by
  cases ranges with
  | single range => exact beq_iff_eq
  | nested outer inner =>
      by_cases empty : (SubRanges.nested outer inner).SomeEmpty
      · rw [construct_of_someEmpty empty]
        exact iff_of_true (beq_iff_eq.mpr rfl) empty
      · rw [construct_of_not_someEmpty empty]
        apply iff_of_false _ empty
        intro ended
        exact empty (.inl (beq_iff_eq.mp ended))

theorem sound_construct (ranges : SubRanges α others) : (construct ranges).Sound := by
  induction ranges with
  | single range => trivial
  | nested outer inner inductionHypothesis =>
      by_cases empty : (SubRanges.nested outer inner).SomeEmpty
      · rw [construct_of_someEmpty empty]
        refine ⟨inductionHypothesis, fun running => ?_⟩
        rw [SubRange.last, Position.atEnd, beq_self_eq_true] at running
        cases running
      · rw [construct_of_not_someEmpty empty]
        refine ⟨inductionHypothesis, fun _ => ?_⟩
        rw [← Bool.not_eq_true, atEnd_construct_iff]
        exact fun nested => empty (.inr nested)

/-- Without an empty sub-range, restarting constructs the iterator again. -/
theorem restart_eq_construct (iterator : PermutationIterator α others)
    (filled : ¬iterator.ranges.SomeEmpty) : iterator.restart = construct iterator.ranges := by
  induction iterator with
  | single collection => rfl
  | nested outer inner inductionHypothesis =>
      have innerFilled := inductionHypothesis fun empty => filled (.inr empty)
      rw [ranges, construct_of_not_someEmpty filled, restart, innerFilled]
      rfl

/-- An iterator that is not at its end is not over an empty sub-range. -/
theorem Sound.filled {iterator : PermutationIterator α others} (sound : iterator.Sound)
    (running : iterator.atEnd = false) : ¬iterator.ranges.SomeEmpty := by
  induction iterator with
  | single collection =>
      have inside := Position.lt_of_running running
      have begun := collection.begun
      intro empty
      rw [ranges, SubRanges.SomeEmpty] at empty
      omega
  | nested outer inner inductionHypothesis =>
      have inside := Position.lt_of_running running
      have begun := outer.begun
      intro empty
      cases empty with
      | inl outerEmpty => omega
      | inr innerEmpty => exact inductionHypothesis sound.1 (sound.2 running) innerEmpty

/-! ## One step -/

theorem next_of_atEnd (iterator : PermutationIterator α others)
    (ended : iterator.atEnd = true) : iterator.next = iterator := by
  cases iterator with
  | single collection =>
      rw [next, dif_neg]
      rw [show collection.atEnd = true from ended]
      exact Bool.noConfusion
  | nested outer inner =>
      rw [next, dif_neg]
      rw [show outer.atEnd = true from ended]
      exact Bool.noConfusion

theorem remaining_of_atEnd (iterator : PermutationIterator α others)
    (ended : iterator.atEnd = true) : iterator.remaining = [] := by
  cases iterator with
  | single collection =>
      have position := beq_iff_eq.mp (show collection.atEnd = true from ended)
      rw [remaining, collection.range.valuesFrom_end (Nat.le_of_eq position.symm)]
      rfl
  | nested outer inner =>
      have position := beq_iff_eq.mp (show outer.atEnd = true from ended)
      rw [remaining, Position.value_atEnd ended,
        outer.range.valuesFrom_end (Nat.le_succ_of_le (Nat.le_of_eq position.symm))]
      rfl

section Nested

variable {outer : Position α} {inner : PermutationIterator β others}

/-- As long as the inner iterator has a next permutation, the outer one stays. -/
theorem next_of_stays (running : outer.atEnd = false) (innerRunning : inner.atEnd = false)
    (stays : inner.next.atEnd = false) :
    (nested outer inner).next = .nested outer inner.next := by
  rw [next, dif_pos running]
  simp [innerRunning, stays]

/-- At its end the inner iterator is restarted, and the outer one moves. -/
theorem next_of_carries (running : outer.atEnd = false) (innerRunning : inner.atEnd = false)
    (carries : inner.next.atEnd = true) :
    (nested outer inner).next = .nested (outer.advance running) inner.next.restart := by
  rw [next, dif_pos running]
  simp [innerRunning, carries]

/-- The permutations that are left of the current outer value, and those of the later
ones. -/
theorem remaining_of_value {value : α} (read : outer.value = .ok value) :
    (nested outer inner).remaining =
      inner.remaining.map (Tuple.cons value) ++
        (outer.range.valuesFrom (outer.iterator + 1)).flatMap fun value =>
          inner.ranges.product.map (Tuple.cons value) := by
  rw [remaining, read, Except.toOption, Option.toList_some, List.flatMap_singleton]

/-- An inner iterator with all its permutations before it leaves those of the current outer
value and of the later ones. -/
theorem remaining_of_fresh (fresh : inner.remaining = inner.ranges.product) :
    (nested outer inner).remaining =
      (outer.range.valuesFrom outer.iterator).flatMap fun value =>
        inner.ranges.product.map (Tuple.cons value) := by
  cases running : outer.atEnd with
  | false =>
      obtain ⟨value, read, values⟩ := Position.value_spec running
      rw [remaining_of_value read, fresh, values, List.flatMap_cons]
  | true =>
      have position := beq_iff_eq.mp running
      rw [remaining_of_atEnd (nested outer inner) running,
        outer.range.valuesFrom_end (Nat.le_of_eq position.symm)]
      rfl

end Nested

/-- A fresh iterator has the whole product before it. -/
theorem remaining_construct (ranges : SubRanges α others) :
    (construct ranges).remaining = ranges.product := by
  induction ranges with
  | single range => rfl
  | nested outer inner inductionHypothesis =>
      by_cases empty : (SubRanges.nested outer inner).SomeEmpty
      · rw [SubRanges.product_of_someEmpty empty]
        exact remaining_of_atEnd _ ((atEnd_construct_iff _).mpr empty)
      · rw [construct_of_not_someEmpty empty, remaining_of_fresh, ranges_construct]
        · rfl
        · rw [ranges_construct]
          exact inductionHypothesis

/-- One step leaves the values at the current position behind. It stays in the same
sub-ranges. -/
theorem Sound.next_spec {iterator : PermutationIterator α others} (sound : iterator.Sound)
    (running : iterator.atEnd = false) :
    iterator.next.Sound ∧ iterator.next.ranges = iterator.ranges ∧
      ∃ values, iterator.getElementValue = .ok values ∧
        iterator.remaining = values :: iterator.next.remaining := by
  induction iterator with
  | single collection =>
      obtain ⟨value, read, values⟩ := Position.value_spec running
      have step : (single collection).next = .single (collection.advance running) :=
        dif_pos running
      rw [step]
      refine ⟨trivial, rfl, Tuple.make value, ?_, ?_⟩
      · rw [getElementValue, read]
        rfl
      · rw [remaining, values]
        rfl
  | nested outer inner inductionHypothesis =>
      have outerRunning : outer.atEnd = false := running
      have innerRunning := sound.2 running
      obtain ⟨innerSound, innerRanges, values, innerRead, innerRemaining⟩ :=
        inductionHypothesis sound.1 innerRunning
      obtain ⟨value, read, _⟩ := Position.value_spec outerRunning
      have element : (nested outer inner).getElementValue = .ok (Tuple.cons value values) := by
        rw [getElementValue, read, innerRead]
        rfl
      cases carry : inner.next.atEnd with
      | false =>
          rw [next_of_stays outerRunning innerRunning carry, ranges, ranges, innerRanges]
          refine ⟨⟨innerSound, fun _ => carry⟩, rfl, _, element, ?_⟩
          rw [remaining_of_value read, remaining_of_value read, innerRanges, innerRemaining]
          rfl
      | true =>
          -- The inner iterator starts again, with all its permutations before it.
          have filled : ¬inner.next.ranges.SomeEmpty := by
            rw [innerRanges]
            exact sound.1.filled innerRunning
          have again := restart_eq_construct inner.next filled
          rw [innerRanges] at again filled
          have fresh : (construct inner.ranges).atEnd = false := by
            rw [← Bool.not_eq_true, atEnd_construct_iff]
            exact filled
          rw [next_of_carries outerRunning innerRunning carry, again, ranges, ranges,
            ranges_construct]
          refine ⟨⟨sound_construct _, fun _ => fresh⟩, rfl, _, element, ?_⟩
          rw [remaining_of_atEnd _ carry] at innerRemaining
          rw [remaining_of_value read, innerRemaining, remaining_of_fresh, ranges_construct]
          · rfl
          · rw [remaining_construct, ranges_construct]

/-! ## Traversing -/

/-- An iterator equals the one that is constructed from the end positions when it is at its
end. -/
theorem equals_ends (iterator : PermutationIterator α others) :
    iterator.equals (construct iterator.ranges.ends) = iterator.atEnd := by
  cases iterator with
  | single collection => rfl
  | nested outer inner =>
      have empty : (SubRanges.nested outer.range.ends inner.ranges.ends).SomeEmpty := .inl rfl
      have position : (outer.iterator == outer.range.ends.last.iterator) = outer.atEnd := rfl
      rw [ranges, SubRanges.ends, construct_of_someEmpty empty, equals, position, atEnd]
      cases outer.atEnd with
      | false => exact Bool.and_false _
      | true => rfl

variable {object : Type} {create : Tuple (α :: others) → object}

/-- An iterator that is not at its end is dereferenced. -/
theorem Sound.deref {iterator : PermutationIterator α others} (sound : iterator.Sound)
    (running : iterator.atEnd = false) {values : Tuple (α :: others)}
    (read : iterator.getElementValue = .ok values) :
    iterator.deref create = .ok (create values) := by
  cases iterator with
  | single collection =>
      rw [PermutationIterator.deref, read]
      rfl
  | nested outer inner =>
      have outerRunning : outer.atEnd = false := running
      rw [PermutationIterator.deref, read, outerRunning, sound.2 outerRunning]
      rfl

/-- From an iterator on, its remaining permutations are yielded. -/
theorem Sound.traverse {ranges : SubRanges α others} (fuel : Nat)
    {iterator : PermutationIterator α others} (sound : iterator.Sound)
    (same : iterator.ranges = ranges) :
    PermutationIterator.traverse create (construct ranges.ends) fuel iterator =
      if iterator.remaining.length < fuel then .ok (iterator.remaining.map create)
      else .error .outOfFuel := by
  induction fuel generalizing iterator with
  | zero => rfl
  | succ fuel inductionHypothesis =>
      have ends := equals_ends iterator
      rw [same] at ends
      rw [PermutationIterator.traverse, ends]
      cases running : iterator.atEnd with
      | true =>
          rw [remaining_of_atEnd iterator running]
          rfl
      | false =>
          obtain ⟨nextSound, nextRanges, values, read, remaining⟩ := sound.next_spec running
          rw [if_neg Bool.false_ne_true, sound.deref running read,
            inductionHypothesis nextSound (nextRanges.trans same), remaining,
            List.length_cons, List.map_cons]
          by_cases enough : iterator.next.remaining.length < fuel
          · rw [if_pos enough, if_pos (Nat.succ_lt_succ enough)]
            rfl
          · rw [if_neg enough, if_neg fun more => enough (Nat.lt_of_succ_lt_succ more)]
            rfl

/-- A fresh iterator yields the permutations, as soon as there are enough steps. -/
theorem traverse_construct (ranges : SubRanges α others) (fuel : Nat) :
    traverse create (construct ranges.ends) fuel (construct ranges) =
      if ranges.product.length < fuel then .ok (ranges.product.map create)
      else .error .outOfFuel := by
  rw [(sound_construct ranges).traverse fuel (ranges_construct ranges), remaining_construct]

/-- Incrementing a fresh iterator until it equals the end yields the cartesian product of the
sub-ranges in lexicographic order, each permutation once. -/
theorem traverse_product (create : Tuple (α :: others) → object) (ranges : SubRanges α others) :
    (∀ fuel, ranges.product.length < fuel →
        traverse create (construct ranges.ends) fuel (construct ranges) =
          .ok (ranges.product.map create)) ∧
      ranges.product.map some = ranges.iterators.map ranges.valuesAt ∧
      ranges.iterators.Pairwise (· < ·) ∧
      (∀ iterators, iterators ∈ ranges.iterators ↔ ranges.Within iterators) ∧
      (ranges.SomeEmpty → ranges.product = []) ∧
      ∀ iterator : PermutationIterator α others,
        iterator.atEnd = true → iterator.next = iterator := by
  refine ⟨fun fuel enough => ?_, ranges.product_entries, ranges.iterators_sorted,
    fun _ => SubRanges.mem_iterators_iff, SubRanges.product_of_someEmpty, next_of_atEnd⟩
  rw [traverse_construct, if_pos enough]

/-- One object and two numbers. -/
def objects : SubRanges String [Nat] :=
  .nested (.whole ["object1"]) (.single (.whole [1, 2]))

theorem traverse_product_objects :
    traverse id (construct objects.ends) 3 (construct objects) =
      .ok [Tuple.cons "object1" (Tuple.make 1), Tuple.cons "object1" (Tuple.make 2)] :=
  (traverse_product id objects).1 3 (by decide)

/-! ## Restarting -/

/-- After so many increments and a restart, the iterator is at its end if a fresh one is. It
yields what a fresh one yields, and the end of a collection is not dereferenced. -/
def Restarts (ranges : SubRanges α others) (increments : Nat) : Prop :=
  (next^[increments] (construct ranges)).restart.atEnd = (construct ranges).atEnd ∧
    ∀ (object : Type) (create : Tuple (α :: others) → object) (fuel : Nat),
      traverse create (construct ranges.ends) fuel
          (next^[increments] (construct ranges)).restart =
        traverse create (construct ranges.ends) fuel (construct ranges) ∧
      traverse create (construct ranges.ends) fuel
          (next^[increments] (construct ranges)).restart ≠ .error .outOfBounds

theorem iterate_next_ranges (ranges : SubRanges α others) (increments : Nat) :
    (next^[increments] (construct ranges)).Sound ∧
      (next^[increments] (construct ranges)).ranges = ranges := by
  induction increments with
  | zero => exact ⟨sound_construct ranges, ranges_construct ranges⟩
  | succ increments inductionHypothesis =>
      rw [Function.iterate_succ_apply']
      cases running : (next^[increments] (construct ranges)).atEnd with
      | true =>
          rw [next_of_atEnd _ running]
          exact inductionHypothesis
      | false =>
          obtain ⟨sound, same, _⟩ := inductionHypothesis.1.next_spec running
          exact ⟨sound, same.trans inductionHypothesis.2⟩

/-- A restarted iterator is at its end only if the first sub-range is empty. -/
theorem atEnd_restart_iff (iterator : PermutationIterator α others) :
    iterator.restart.atEnd = true ↔ iterator.ranges.FirstEmpty := by
  cases iterator with
  | single collection => exact beq_iff_eq
  | nested outer inner => exact beq_iff_eq

/-- At its end, an iterator yields nothing. -/
theorem traverse_of_atEnd {ranges : SubRanges α others} {iterator : PermutationIterator α others}
    (same : iterator.ranges = ranges) (ended : iterator.atEnd = true) (fuel : Nat) :
    traverse create (construct ranges.ends) fuel iterator =
      if 0 < fuel then .ok [] else .error .outOfFuel := by
  cases fuel with
  | zero => rfl
  | succ fuel =>
      rw [traverse, ← same, equals_ends, ended]
      rfl

/-- Restarting an iterator is constructing it again, unless another sub-range than the first
one is empty and the first one is not. -/
theorem restarts_iff (ranges : SubRanges α others) (increments : Nat) :
    Restarts ranges increments ↔ (ranges.SomeEmpty → ranges.FirstEmpty) := by
  have reached := (iterate_next_ranges ranges increments).2
  have restarted := atEnd_restart_iff (next^[increments] (construct ranges))
  rw [reached] at restarted
  constructor
  · intro restarts someEmpty
    rw [← restarted, restarts.1, atEnd_construct_iff]
    exact someEmpty
  · intro condition
    by_cases someEmpty : ranges.SomeEmpty
    · have fresh := (atEnd_construct_iff ranges).mpr someEmpty
      have ended := restarted.mpr (condition someEmpty)
      have same := (ranges_restart (next^[increments] (construct ranges))).trans reached
      refine ⟨ended.trans fresh.symm, fun object create fuel => ?_⟩
      rw [traverse_of_atEnd same ended, traverse_of_atEnd (ranges_construct ranges) fresh]
      refine ⟨rfl, ?_⟩
      split <;> exact nofun
    · have again := restart_eq_construct (next^[increments] (construct ranges))
      rw [reached] at again
      rw [Restarts, again someEmpty]
      refine ⟨rfl, fun object create fuel => ⟨rfl, ?_⟩⟩
      rw [traverse_construct]
      split <;> exact nofun

/-- An empty collection behind one that is not empty. -/
theorem restarts_counterexample :
    ¬∀ (ranges : SubRanges String [String]) (increments : Nat), Restarts ranges increments := by
  intro claimed
  have same := (claimed (.nested (.whole ["object1"]) (.single (.whole []))) 0).1
  exact absurd same (by decide)

end Invariant

end PermutationIterator

end ExecHelper.Core
