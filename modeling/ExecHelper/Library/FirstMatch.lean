import Mathlib.Data.List.Basic

/-!
# First-match collections

A sequence whose entries carry labels, where several entries may carry the same
label and every access addresses the first entry that matches.  The three
operations are looking an entry up, changing it in place and removing it; the
lemmas say what each of them leaves alone.
-/

namespace ExecHelper.Library.FirstMatch

variable {κ α : Type} [DecidableEq κ] {label : α → κ}

/-- The first entry carrying the given label. -/
def lookup (label : α → κ) (key : κ) (entries : List α) : Option α :=
  entries.find? fun entry => label entry = key

/-- Change the first entry carrying the given label. -/
def modify (label : α → κ) (key : κ) (change : α → α) : List α → List α
  | [] => []
  | entry :: rest =>
      if label entry = key then change entry :: rest
      else entry :: modify label key change rest

/-- Remove the first entry carrying the given label. -/
def erase (label : α → κ) (key : κ) (entries : List α) : List α :=
  entries.eraseP fun entry => label entry = key

@[simp] theorem lookup_nil (key : κ) : lookup label key [] = none := rfl

theorem lookup_cons (key : κ) (entry : α) (rest : List α) :
    lookup label key (entry :: rest) =
      if label entry = key then some entry else lookup label key rest := by
  by_cases same : label entry = key <;> simp [lookup, same]

theorem lookup_cons_self (entry : α) (rest : List α) :
    lookup label (label entry) (entry :: rest) = some entry := by
  rw [lookup_cons, if_pos rfl]

theorem lookup_append (key : κ) (left right : List α) :
    lookup label key (left ++ right) =
      (lookup label key left).or (lookup label key right) := by
  simp [lookup]

/-- What is found carries the label that was looked for. -/
theorem label_of_lookup {key : κ} {entries : List α} {found : α}
    (present : lookup label key entries = some found) : label found = key := by
  simpa using List.find?_some present

theorem lookup_eq_none_iff {key : κ} {entries : List α} :
    lookup label key entries = none ↔ key ∉ entries.map label := by
  simp [lookup]

theorem lookup_isSome_iff {key : κ} {entries : List α} :
    (lookup label key entries).isSome ↔ key ∈ entries.map label := by
  rw [← not_iff_not, ← lookup_eq_none_iff]
  simp

/-- Entries built from their labels are found exactly at those labels. -/
theorem lookup_map (make : κ → α) (labelled : ∀ key, label (make key) = key)
    (key : κ) (keys : List κ) :
    lookup label key (keys.map make) = if key ∈ keys then some (make key) else none := by
  induction keys with
  | nil => simp
  | cons head rest inductionHypothesis =>
      rw [List.map_cons, lookup_cons, labelled, inductionHypothesis]
      by_cases same : head = key
      · simp [same]
      · simp [same, Ne.symm same]

/-- Among distinct labels every entry is the one that is found. -/
theorem lookup_of_mem {entries : List α} {entry : α}
    (distinct : (entries.map label).Nodup) (member : entry ∈ entries) :
    lookup label (label entry) entries = some entry := by
  induction entries with
  | nil => cases member
  | cons head rest inductionHypothesis =>
      rcases List.nodup_cons.mp distinct with ⟨outside, restDistinct⟩
      rw [lookup_cons]
      rcases List.mem_cons.mp member with same | later
      · rw [same, if_pos rfl]
      · have different : label head ≠ label entry := by
          intro same
          exact outside (same ▸ List.mem_map_of_mem later)
        rw [if_neg different]
        exact inductionHypothesis restDistinct later

/-- Where labels repeat, some entry is never the first with its label. -/
theorem exists_of_not_nodup {entries : List α} (repeated : ¬(entries.map label).Nodup) :
    ∃ before entry after, entries = before ++ entry :: after ∧
      label entry ∈ before.map label := by
  induction entries with
  | nil => exact absurd List.nodup_nil repeated
  | cons head rest inductionHypothesis =>
      by_cases again : label head ∈ rest.map label
      · rcases List.mem_map.mp again with ⟨entry, member, same⟩
        rcases List.append_of_mem member with ⟨before, after, rfl⟩
        exact ⟨head :: before, entry, after, rfl, by simp [same]⟩
      · rw [List.map_cons, List.nodup_cons] at repeated
        rcases inductionHypothesis fun distinct => repeated ⟨again, distinct⟩ with
          ⟨before, entry, after, rfl, earlier⟩
        exact ⟨head :: before, entry, after, rfl, List.mem_cons_of_mem _ earlier⟩

/-- Among distinct labels the order of the entries does not matter. -/
theorem lookup_perm {entries other : List α} (distinct : (entries.map label).Nodup)
    (same : other.Perm entries) (key : κ) :
    lookup label key other = lookup label key entries := by
  have otherDistinct : (other.map label).Nodup := (same.map label).nodup_iff.mpr distinct
  cases found : lookup label key entries with
  | some entry =>
      have member := same.mem_iff.mpr (List.mem_of_find?_eq_some found)
      rw [← label_of_lookup found]
      exact lookup_of_mem otherDistinct member
  | none =>
      rw [lookup_eq_none_iff] at found ⊢
      rwa [(same.map label).mem_iff]

/-! ## Changing in place -/

section Modify

variable {change : α → α}

/-- Changing an entry moves no label. -/
theorem map_label_modify {key : κ}
    (keeps : ∀ entry, label entry = key → label (change entry) = key)
    (entries : List α) :
    (modify label key change entries).map label = entries.map label := by
  induction entries with
  | nil => rfl
  | cons entry rest inductionHypothesis =>
      by_cases same : label entry = key
      · simp [modify, same, keeps entry same]
      · simp [modify, same, inductionHypothesis]

theorem lookup_modify_self {key : κ}
    (keeps : ∀ entry, label entry = key → label (change entry) = key)
    (entries : List α) :
    lookup label key (modify label key change entries) =
      (lookup label key entries).map change := by
  induction entries with
  | nil => rfl
  | cons entry rest inductionHypothesis =>
      by_cases same : label entry = key
      · simp [modify, lookup_cons, same, keeps entry same]
      · simp [modify, lookup_cons, same, inductionHypothesis]

theorem lookup_modify_of_ne {key other : κ}
    (keeps : ∀ entry, label entry = key → label (change entry) = key)
    (different : other ≠ key) (entries : List α) :
    lookup label other (modify label key change entries) =
      lookup label other entries := by
  induction entries with
  | nil => rfl
  | cons entry rest inductionHypothesis =>
      by_cases same : label entry = key
      · simp [modify, lookup_cons, same, keeps entry same, Ne.symm different]
      · simp [modify, lookup_cons, same, inductionHypothesis]

/-- Entries with other labels stay where they are. -/
theorem filter_modify {key : κ}
    (keeps : ∀ entry, label entry = key → label (change entry) = key) {accept : α → Bool}
    (refuses : ∀ entry, label entry = key → accept entry = false) (entries : List α) :
    (modify label key change entries).filter accept = entries.filter accept := by
  induction entries with
  | nil => rfl
  | cons entry rest inductionHypothesis =>
      by_cases same : label entry = key
      · simp [modify, same, refuses entry same, refuses _ (keeps entry same)]
      · simp [modify, same, List.filter_cons, inductionHypothesis]

end Modify

/-! ## Removing -/

@[simp] theorem erase_nil (key : κ) : erase label key [] = [] := rfl

theorem erase_cons (key : κ) (entry : α) (rest : List α) :
    erase label key (entry :: rest) =
      if label entry = key then rest else entry :: erase label key rest := by
  by_cases same : label entry = key <;> simp [erase, same]

theorem lookup_erase_of_ne {key other : κ} (different : other ≠ key)
    (entries : List α) :
    lookup label other (erase label key entries) = lookup label other entries := by
  induction entries with
  | nil => rfl
  | cons entry rest inductionHypothesis =>
      rw [erase_cons, lookup_cons]
      by_cases same : label entry = key
      · subst same
        simp [Ne.symm different]
      · simp [same, lookup_cons, inductionHypothesis]

/-- Only the first entry with the label is lost, and no other entry moves. -/
theorem map_label_erase (key : κ) (entries : List α) :
    (erase label key entries).map label = (entries.map label).erase key := by
  induction entries with
  | nil => rfl
  | cons entry rest inductionHypothesis =>
      rw [erase_cons, List.map_cons, List.erase_cons]
      by_cases same : label entry = key
      · simp [same]
      · simp [same, inductionHypothesis]

/-- A label that occurs at most once is gone. -/
theorem lookup_erase_self {key : κ} {entries : List α}
    (once : (entries.map label).count key ≤ 1) :
    lookup label key (erase label key entries) = none := by
  rw [lookup_eq_none_iff, map_label_erase, ← List.count_eq_zero, List.count_erase_self]
  omega

end ExecHelper.Library.FirstMatch
