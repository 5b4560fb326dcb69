import ExecHelper.Library.FirstMatch

/-!
# Settings nodes

The configuration hierarchy every other component reads: a node has a key and,
when it has values at all, an ordered collection of child nodes.  Sibling keys
may repeat, in which case every lookup addresses the first one.  A node without
a collection and a node with an empty one are different things, and the source
treats them differently.

The mutating members of the class walk from `this` to a child and change it
there; here they return the changed root.
-/

namespace ExecHelper.Config

open ExecHelper.Library

abbrev SettingsKey := String
abbrev SettingsKeys := List SettingsKey
abbrev SettingsValue := SettingsKey
abbrev SettingsValues := List SettingsValue

/-- A class containing a configuration hierarchy. `mValues` is `none` where the
source holds a null pointer. -/
structure SettingsNode where
  mKey : SettingsKey
  mValues : Option (List SettingsNode)

/-- The variables of a plugin are a settings node. -/
abbrev VariablesMap := SettingsNode

namespace SettingsNode

/-- A new node with the given key and no values. -/
def ofKey (key : SettingsKey) : SettingsNode := ⟨key, none⟩

@[simp] theorem mKey_ofKey (key : SettingsKey) : (ofKey key).mKey = key := rfl

@[simp] theorem mValues_ofKey (key : SettingsKey) : (ofKey key).mValues = none := rfl

/-! ## Reading -/

/-- Whether the key exists as a direct child (`contains(const SettingsKey&)`). -/
def containsKey (node : SettingsNode) (key : SettingsKey) : Bool :=
  match node.mValues with
  | none => false
  | some values => values.any fun value => value.mKey = key

/-- The first direct child with the key. The source's `at` and its constant
`operator[]` are undefined where this is `none`. -/
def at? (node : SettingsNode) (key : SettingsKey) : Option SettingsNode :=
  FirstMatch.lookup mKey key (node.mValues.getD [])

/-- Whether the hierarchy key path exists (`contains(const SettingsKeys&)`). -/
def contains : SettingsNode → SettingsKeys → Bool
  | _, [] => true
  | node, keyPart :: rest =>
      if node.containsKey keyPart then
        match node.at? keyPart with
        | some child => child.contains rest
        | none => false
      else false

/-- The node at the end of a hierarchy key path (`at(const SettingsKeys&)`). -/
def atPath? : SettingsNode → SettingsKeys → Option SettingsNode
  | node, [] => some node
  | node, keyPart :: rest =>
      match node.at? keyPart with
      | some child => child.atPath? rest
      | none => none

/-- The keys of the direct children, if there are values at all. -/
def values (node : SettingsNode) : Option SettingsValues :=
  node.mValues.map fun children => children.map mKey

/-- Get the direct values associated with the key path, converted by the given
cast (`get<T>`). -/
def get {τ : Type} (cast : SettingsValues → Option τ) (node : SettingsNode)
    (keys : SettingsKeys) : Option τ :=
  if node.contains keys then
    match node.atPath? keys with
    | some found =>
        match found.values with
        | some values => cast values
        | none => none
    | none => none
  else none

/-- The value list at a key path (`get<SettingsValues>`): casting a vector of
strings to itself copies it. -/
def getValues (node : SettingsNode) (keys : SettingsKeys) : Option SettingsValues :=
  node.get some keys

/-- Everything below a key path: its child nodes, if the path exists and
carries values. -/
def subtree (node : SettingsNode) (keys : SettingsKeys) : Option (List SettingsNode) :=
  (node.atPath? keys).bind mValues

/-! ## Changing

The Boolean that `add` and `replace` return in the source is `true` on every
path, so it is left out. -/

/-- Add one direct child (`add(const SettingsValue&)`). -/
def addValue (node : SettingsNode) (newValue : SettingsValue) : SettingsNode :=
  { node with mValues := some (node.mValues.getD [] ++ [ofKey newValue]) }

/-- Add direct children (`add(const SettingsValues&)`). -/
def addValues (node : SettingsNode) (newValue : SettingsValues) : SettingsNode :=
  { node with mValues := some (node.mValues.getD [] ++ newValue.map ofKey) }

/-- Change the node that the mutable `at` points to. -/
def modifyAt (node : SettingsNode) (key : SettingsKey)
    (change : SettingsNode → SettingsNode) : SettingsNode :=
  { node with mValues := node.mValues.map (FirstMatch.modify mKey key change) }

/-- Add the values at the end of a hierarchy key path, which is created as far
as it does not exist (`add(const SettingsKeys&, const SettingsValues&)`). -/
def add : SettingsNode → SettingsKeys → SettingsValues → SettingsNode
  | node, [], newValue => node.addValues newValue
  | node, parentKey :: rest, newValue =>
      let settings :=
        if node.containsKey parentKey then node else node.addValue parentKey
      settings.modifyAt parentKey fun child => child.add rest newValue

/-- Remove the first child with the last key from the node above it. -/
def eraseAt : SettingsNode → SettingsKeys → SettingsNode
  | node, [] => node
  | node, [key] =>
      { node with mValues := node.mValues.map (FirstMatch.erase mKey key) }
  | node, key :: next :: rest =>
      node.modifyAt key fun child => child.eraseAt (next :: rest)

/-- Remove the child at the end of the key path, with the result the source
reports (`clear(const SettingsKeys&)`). -/
def clear (node : SettingsNode) (keys : SettingsKeys) : Bool × SettingsNode :=
  if keys.isEmpty then (false, node)
  else if node.contains keys then (true, node.eraseAt keys)
  else (true, node)

/-- Replace the current values at the key path (`replace`). -/
def replace (node : SettingsNode) (keys : SettingsKeys) (values : SettingsValues) :
    SettingsNode :=
  let cleared := if node.contains keys then (node.clear keys).2 else node
  cleared.add keys values

/-- Make a deep copy of the content of `other` in this node. Nothing is copied
from a node without values. -/
def deepCopy (node other : SettingsNode) : SettingsNode :=
  match other.mValues with
  | none => node
  | some values => { node with mValues := some values }

/-- Overwrite the children of this node with the ones of the new settings; missing ones
are added (`overwrite`). -/
def overwrite (node newSettings : SettingsNode) : SettingsNode :=
  (newSettings.values.getD []).foldl
    (fun settings key =>
      match newSettings.at? key with
      | none => settings
      | some newValue =>
          let added := if settings.containsKey key then settings else settings.addValue key
          added.modifyAt key fun child => child.deepCopy newValue)
    node

/-- Copy assignment (`operator=(const SettingsNode&)`). -/
def assign (node other : SettingsNode) : SettingsNode :=
  { node with mKey := other.mKey }.deepCopy other

/-- Change the node that the mutable `operator[]` refers to; the node is
created if the key does not exist. -/
def subscript (node : SettingsNode) (key : SettingsKey)
    (change : SettingsNode → SettingsNode) : SettingsNode :=
  if node.containsKey key then node.modifyAt key change
  else { node with mValues := some (node.mValues.getD [] ++ [change (ofKey key)]) }

/-! ## Lookup laws -/

section Lookup

variable {node child : SettingsNode} {key other : SettingsKey}
variable {keys : SettingsKeys}

theorem mKey_of_at? (present : node.at? key = some child) : child.mKey = key :=
  FirstMatch.label_of_lookup present

theorem containsKey_eq (node : SettingsNode) (key : SettingsKey) :
    node.containsKey key = (node.at? key).isSome := by
  cases node with
  | mk mKey mValues =>
      cases mValues with
      | none => rfl
      | some values =>
          rw [Bool.eq_iff_iff]
          simp [containsKey, at?, FirstMatch.lookup]

@[simp] theorem contains_nil (node : SettingsNode) : node.contains [] = true := by
  rw [contains]

theorem contains_cons (node : SettingsNode) (key : SettingsKey) (rest : SettingsKeys) :
    node.contains (key :: rest) = (node.at? key).any fun child => child.contains rest := by
  rw [contains, containsKey_eq]
  cases node.at? key <;> simp

@[simp] theorem atPath?_nil (node : SettingsNode) : node.atPath? [] = some node := by
  rw [atPath?]

theorem atPath?_cons (node : SettingsNode) (key : SettingsKey) (rest : SettingsKeys) :
    node.atPath? (key :: rest) = (node.at? key).bind fun child => child.atPath? rest := by
  rw [atPath?]
  cases node.at? key <;> rfl

theorem atPath?_append (node : SettingsNode) (front back : SettingsKeys) :
    node.atPath? (front ++ back) =
      (node.atPath? front).bind fun found => found.atPath? back := by
  induction front generalizing node with
  | nil => simp
  | cons key rest inductionHypothesis =>
      rw [List.cons_append, atPath?_cons, atPath?_cons]
      cases node.at? key with
      | none => rfl
      | some child => exact inductionHypothesis child

/-- A path is contained exactly when it leads to a node. -/
theorem contains_eq (node : SettingsNode) (keys : SettingsKeys) :
    node.contains keys = (node.atPath? keys).isSome := by
  induction keys generalizing node with
  | nil => simp
  | cons key rest inductionHypothesis =>
      rw [contains_cons, atPath?_cons]
      cases node.at? key with
      | none => rfl
      | some child => exact inductionHypothesis child

theorem get_eq {τ : Type} (cast : SettingsValues → Option τ) (node : SettingsNode)
    (keys : SettingsKeys) :
    node.get cast keys =
      (node.atPath? keys).bind fun found => found.values.bind cast := by
  rw [get, contains_eq]
  cases node.atPath? keys with
  | none => rfl
  | some found => cases values : found.values <;> simp [values]

theorem getValues_eq (node : SettingsNode) (keys : SettingsKeys) :
    node.getValues keys = (node.atPath? keys).bind values := by
  rw [getValues, get_eq]
  cases node.atPath? keys <;> simp

/-- A contained path leads through contained prefixes. -/
theorem contains_front {front : SettingsKeys} (inside : front <+: keys)
    (present : node.contains keys) : node.contains front := by
  rcases inside with ⟨back, rfl⟩
  rw [contains_eq, atPath?_append] at present
  rw [contains_eq]
  cases reached : node.atPath? front with
  | none => simp [reached] at present
  | some parent => rfl

theorem getValues_of_not_contains (missing : ¬node.contains keys) :
    node.getValues keys = none := by
  rw [contains_eq] at missing
  rw [getValues_eq]
  cases reached : node.atPath? keys with
  | none => rfl
  | some found => simp [reached] at missing

/-- The value list consists of the keys of the subtree. -/
theorem getValues_eq_subtree (node : SettingsNode) (keys : SettingsKeys) :
    node.getValues keys = (node.subtree keys).map fun children => children.map mKey := by
  rw [getValues_eq, subtree]
  cases node.atPath? keys <;> rfl

@[simp] theorem subtree_nil (node : SettingsNode) : node.subtree [] = node.mValues := by
  simp [subtree]

theorem subtree_append (node : SettingsNode) (front back : SettingsKeys) :
    node.subtree (front ++ back) =
      (node.atPath? front).bind fun found => found.subtree back := by
  rw [subtree, atPath?_append, Option.bind_assoc]
  rfl

theorem subtree_singleton (node : SettingsNode) (key : SettingsKey) :
    node.subtree [key] = (node.at? key).bind mValues := by
  rw [subtree, atPath?_cons]
  cases node.at? key <;> simp

end Lookup

end SettingsNode

end ExecHelper.Config
