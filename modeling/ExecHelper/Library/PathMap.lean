import ExecHelper.Library.Machine
import Mathlib.Data.List.Nodup

/-!
# Maps from paths to labels

A hierarchy shows at every path the labels that lead one step further down.  Labels are
listed in an order and may be listed more than once, but only one of them can lead anywhere:
a map is as good as the hierarchy as long as no label is listed twice at the same path.

Labels are appended to a path together with what is missing on the way to it, a path is
removed with everything below it, and another map is laid over the first level.
-/

namespace ExecHelper.Library

/-- The labels that are listed at every path. -/
abbrev PathMap (κ : Type) := List κ → Option (List κ)

namespace PathMap

variable {κ : Type} [DecidableEq κ]

/-! ## Operations -/

section Operations

variable (map : PathMap κ)

/-- The labels at a path, none where there is no list. -/
def listed (path : List κ) : List κ := (map path).getD []

/-- The label with which a longer path goes on. -/
def nextLabel (path longer : List κ) : Option κ :=
  if path <+: longer then longer[path.length]? else none

/-- List labels at a path, and on the way to it what is missing. -/
def append (path labels : List κ) : PathMap κ := fun other =>
  if other = path then some (map.listed path ++ labels)
  else
    match nextLabel other path with
    | none => map other
    | some next =>
        if next ∈ map.listed other then map other else some (map.listed other ++ [next])

/-- Remove a path with everything below it. -/
def remove (path : List κ) : PathMap κ :=
  match path.getLast? with
  | none => map
  | some label => fun other =>
      if path <+: other then none
      else if other = path.dropLast then (map other).map fun labels => labels.erase label
      else map other

/-- List labels at a path instead of those that were there. -/
def replace (path labels : List κ) : PathMap κ := (map.remove path).append path labels

/-- List a label that is not there yet. -/
def listOnce (labels : Option (List κ)) (label : κ) : Option (List κ) :=
  if label ∈ labels.getD [] then labels else some (labels.getD [] ++ [label])

/-- Lay another map over this one, label by label of its first level. -/
def overlay (above : PathMap κ) : PathMap κ
  | [] => (above.listed []).foldl listOnce (map [])
  | label :: rest => if (above [label]).isSome then above (label :: rest) else map (label :: rest)

inductive Operation (κ : Type) where
  | append (path labels : List κ)
  | remove (path : List κ)
  | replace (path labels : List κ)
  | overlay (above : PathMap κ)

def perform : Operation κ → PathMap κ
  | .append path labels => map.append path labels
  | .remove path => map.remove path
  | .replace path labels => map.replace path labels
  | .overlay above => map.overlay above

/-- No label is listed twice at a path. -/
def Distinct : Prop := ∀ path, (map.listed path).Nodup

/-- The operation lists no label twice that was not. -/
def KeepsDistinct : Operation κ → Prop
  | .append path labels => labels.Nodup ∧ ∀ label ∈ labels, label ∉ map.listed path
  | .remove _ => True
  | .replace path labels =>
      labels.Nodup ∧ (path = [] → ∀ label ∈ labels, label ∉ map.listed [])
  | .overlay above =>
      ∀ label, (above [label]).isSome → ∀ rest, (above.listed (label :: rest)).Nodup

end Operations

/-! ## What is listed afterwards -/

variable {map : PathMap κ} {path other labels : List κ} {label : κ}

theorem nextLabel_eq_some_iff {longer : List κ} :
    nextLabel path longer = some label ↔ ∃ rest, longer = path ++ label :: rest := by
  rw [nextLabel]
  constructor
  · intro next
    split at next
    next inside =>
      obtain ⟨back, rfl⟩ := inside
      rw [List.getElem?_append_right (Nat.le_refl _), Nat.sub_self] at next
      cases back with
      | nil => cases next
      | cons head rest => exact ⟨rest, by rw [Option.some.inj next]⟩
    next => cases next
  · rintro ⟨rest, rfl⟩
    rw [if_pos (List.prefix_append path _), List.getElem?_append_right (Nat.le_refl _)]
    simp

theorem append_self : map.append path labels path = some (map.listed path ++ labels) := by
  rw [append, if_pos rfl]

theorem remove_nil : map.remove [] = map := rfl

theorem remove_concat (front : List κ) (label : κ) :
    map.remove (front ++ [label]) = fun other =>
      if front ++ [label] <+: other then none
      else if other = front then (map other).map fun labels => labels.erase label
      else map other := by
  rw [remove, List.getLast?_concat]
  simp only [List.dropLast_concat]

/-! ## Distinct labels -/

theorem nodup_listed_append (distinct : map.Distinct) (different : other ≠ path) :
    ((map.append path labels).listed other).Nodup := by
  rw [listed, append, if_neg different]
  cases nextLabel other path with
  | none => exact distinct other
  | some next =>
      by_cases member : next ∈ map.listed other
      · simp only [member, if_true]
        exact distinct other
      · simp only [member, if_false, Option.getD_some]
        simpa using (distinct other).concat member

theorem distinct_append_iff (distinct : map.Distinct) :
    (map.append path labels).Distinct ↔
      labels.Nodup ∧ ∀ label ∈ labels, label ∉ map.listed path := by
  have atPath : ((map.append path labels).listed path).Nodup ↔
      labels.Nodup ∧ ∀ label ∈ labels, label ∉ map.listed path := by
    rw [listed, append_self, Option.getD_some, List.nodup_append]
    constructor
    · rintro ⟨_, nodup, disjoint⟩
      exact ⟨nodup, fun label added old => disjoint label old label added rfl⟩
    · rintro ⟨nodup, fresh⟩
      refine ⟨distinct path, nodup, ?_⟩
      rintro label old _ added rfl
      exact fresh label added old
  rw [← atPath]
  constructor
  · exact fun all => all path
  · intro own other
    by_cases same : other = path
    · rw [same]
      exact own
    · exact nodup_listed_append distinct same

theorem Distinct.remove (distinct : map.Distinct) (path : List κ) : (map.remove path).Distinct := by
  intro other
  rcases List.eq_nil_or_concat path with rfl | ⟨front, label, rfl⟩
  · exact distinct other
  · rw [List.concat_eq_append, remove_concat, listed]
    split
    · exact List.nodup_nil
    · split
      · have listedOther := distinct other
        rw [listed] at listedOther
        cases carried : map other with
        | none => exact List.nodup_nil
        | some labels =>
            rw [carried] at listedOther
            exact listedOther.erase label
      · exact distinct other

theorem distinct_replace_iff (distinct : map.Distinct) :
    (map.replace path labels).Distinct ↔
      labels.Nodup ∧ (path = [] → ∀ label ∈ labels, label ∉ map.listed []) := by
  rw [replace, distinct_append_iff (distinct.remove path)]
  rcases List.eq_nil_or_concat path with rfl | ⟨front, label, rfl⟩
  · simp [remove_nil]
  · have removed : (map.remove (front ++ [label])).listed (front ++ [label]) = [] := by
      rw [remove_concat, listed, if_pos List.prefix_rfl]
      rfl
    simp [List.concat_eq_append, removed]

theorem nodup_foldl_listOnce (labels : List κ) {start : Option (List κ)}
    (nodup : (start.getD []).Nodup) : ((labels.foldl listOnce start).getD []).Nodup := by
  induction labels generalizing start with
  | nil => exact nodup
  | cons label rest inductionHypothesis =>
      apply inductionHypothesis
      rw [listOnce]
      split
      next => exact nodup
      next fresh => simpa using nodup.concat fresh

theorem distinct_overlay_iff (distinct : map.Distinct) {above : PathMap κ} :
    (map.overlay above).Distinct ↔
      ∀ label, (above [label]).isSome → ∀ rest, (above.listed (label :: rest)).Nodup := by
  constructor
  · intro all label covered rest
    have own := all (label :: rest)
    rwa [listed, overlay, if_pos covered] at own
  · intro covered path
    cases path with
    | nil => exact nodup_foldl_listOnce _ (distinct [])
    | cons label rest =>
        rw [listed, overlay]
        by_cases present : (above [label]).isSome
        · rw [if_pos present]
          exact covered label present rest
        · rw [if_neg present]
          exact distinct (label :: rest)

theorem distinct_perform_iff (distinct : map.Distinct) (operation : Operation κ) :
    (map.perform operation).Distinct ↔ map.KeepsDistinct operation := by
  cases operation with
  | append path labels => exact distinct_append_iff distinct
  | remove path => exact ⟨fun _ => trivial, fun _ => distinct.remove path⟩
  | replace path labels => exact distinct_replace_iff distinct
  | overlay above => exact distinct_overlay_iff distinct

/-! ## Runs -/

def step (map : PathMap κ) (operation : Operation κ) : Option (PathMap κ) :=
  some (map.perform operation)

theorem always_distinct_iff (map : PathMap κ) (operations : List (Operation κ)) :
    Machine.Always step Distinct map operations ↔
      map.Distinct ∧ Machine.EachStep step KeepsDistinct map operations := by
  have keeps : ∀ (map : PathMap κ) operation next, step map operation = some next → map.Distinct →
      (next.Distinct ↔ map.KeepsDistinct operation) := by
    rintro map operation _ ⟨⟩ distinct
    exact distinct_perform_iff distinct operation
  constructor
  · intro always
    exact ⟨always.head, (Machine.always_iff_eachStep keeps always.head).mp always⟩
  · rintro ⟨distinct, each⟩
    exact (Machine.always_iff_eachStep keeps distinct).mpr each

/-! ## Labels that are left alone -/

/-- The operation leaves alone what is listed at the path. -/
def Operation.Spares (path : List κ) : Operation κ → Prop
  | .append own _ => ¬path <+: own
  | .remove own => own = [] ∨ (¬own <+: path ∧ ¬path <+: own)
  | .replace own _ => ¬own <+: path ∧ ¬path <+: own
  | .overlay above => path ≠ [] ∧ above (path.take 1) = none

instance (path : List κ) : (operation : Operation κ) → Decidable (operation.Spares path)
  | .append own _ => inferInstanceAs (Decidable (¬path <+: own))
  | .remove own => inferInstanceAs (Decidable (own = [] ∨ (¬own <+: path ∧ ¬path <+: own)))
  | .replace own _ => inferInstanceAs (Decidable (¬own <+: path ∧ ¬path <+: own))
  | .overlay above => inferInstanceAs (Decidable (path ≠ [] ∧ above (path.take 1) = none))

theorem append_of_spares (spares : ¬other <+: path) : map.append path labels other = map other := by
  have different : other ≠ path := by
    rintro rfl
    exact spares List.prefix_rfl
  rw [append, if_neg different, nextLabel, if_neg spares]

theorem remove_of_spares (notBelow : ¬path <+: other) (notAbove : ¬other <+: path) :
    map.remove path other = map other := by
  rcases List.eq_nil_or_concat path with rfl | ⟨front, label, rfl⟩
  · exact absurd List.nil_prefix notBelow
  · rw [List.concat_eq_append] at notBelow notAbove ⊢
    have different : other ≠ front := by
      rintro rfl
      exact notAbove (List.prefix_append other [label])
    simp only [remove_concat, if_neg notBelow, if_neg different]

theorem perform_of_spares {operation : Operation κ} (spares : operation.Spares path) :
    map.perform operation path = map path := by
  cases operation with
  | append own labels => exact append_of_spares spares
  | remove own =>
      rcases spares with rfl | ⟨notBelow, notAbove⟩
      · rfl
      · exact remove_of_spares notBelow notAbove
  | replace own labels =>
      exact (append_of_spares spares.2).trans (remove_of_spares spares.1 spares.2)
  | overlay above =>
      obtain ⟨nonempty, missing⟩ := spares
      cases path with
      | nil => exact absurd rfl nonempty
      | cons label rest =>
          rw [List.take_succ_cons, List.take_zero] at missing
          simp [perform, overlay, missing]

theorem foldl_perform_of_spares {operations : List (Operation κ)}
    (spares : ∀ operation ∈ operations, operation.Spares path) :
    operations.foldl perform map path = map path := by
  induction operations generalizing map with
  | nil => rfl
  | cons operation rest inductionHypothesis =>
      obtain ⟨first, later⟩ := List.forall_mem_cons.mp spares
      rw [List.foldl_cons, inductionHypothesis later, perform_of_spares first]

end PathMap

end ExecHelper.Library
