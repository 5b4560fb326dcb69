import ExecHelper.Config.SettingsAssign
import Mathlib.Data.Fintype.EquivFin
import Mathlib.Data.List.Perm.Subperm

/-!
# Equality of settings nodes

Two nodes are equal when they have the same key, equally many children, and every
child of the one equals the child the other one has under its key.  That child is
the first one with the key, so the comparison only looks at all children of both
sides where no key repeats.
-/

namespace ExecHelper.Config.SettingsNode

open ExecHelper.Library

/-! ## The operators -/

mutual

/-- Equality operator (`operator==`). -/
def equals : SettingsNode → SettingsNode → Bool
  | ⟨mKey, none⟩, other => mKey = other.mKey && other.mValues.isNone
  | ⟨mKey, some children⟩, other =>
      match other.mValues with
      | none => false
      | some otherChildren =>
          mKey = other.mKey && children.length = otherChildren.length &&
            equalsChildren children other

/-- Every child equals the one under its key. -/
def equalsChildren : List SettingsNode → SettingsNode → Bool
  | [], _ => true
  | child :: rest, other =>
      match other.at? child.mKey with
      | none => false
      | some found => child.equals found && equalsChildren rest other

end

/-- Copy constructor. -/
def copy (other : SettingsNode) : SettingsNode := (ofKey other.mKey).deepCopy other

variable {node other : SettingsNode} {children rest : List SettingsNode}

private theorem equalsChildren_iff :
    equalsChildren children other = true ↔
      ∀ child ∈ children, ∃ found, other.at? child.mKey = some found ∧
        child.equals found = true := by
  induction children with
  | nil => simp [equalsChildren]
  | cons child rest inductionHypothesis =>
      rw [equalsChildren, List.forall_mem_cons, ← inductionHypothesis]
      cases other.at? child.mKey <;> simp

/-- Nodes are compared by their keys and their children; having no values and having an
empty list of them is not the same. -/
theorem equals_iff :
    node.equals other = true ↔
      node.mKey = other.mKey ∧ node.mValues.isSome = other.mValues.isSome ∧
        (node.mValues.getD []).length = (other.mValues.getD []).length ∧
        ∀ child ∈ node.mValues.getD [], ∃ found, other.at? child.mKey = some found ∧
          child.equals found = true := by
  rw [← equalsChildren_iff]
  cases node with
  | mk mKey mValues =>
      cases mValues with
      | none => cases carried : other.mValues <;> simp [equals, equalsChildren, carried]
      | some children => cases carried : other.mValues <;> simp [equals, carried, and_assoc]

mutual

/-- What holds of a node when it holds of its children holds of every node. -/
theorem childInduction {holds : SettingsNode → Prop}
    (step : ∀ node, (∀ child ∈ node.mValues.getD [], holds child) → holds node) :
    ∀ node, holds node
  | ⟨_, none⟩ => step _ nofun
  | ⟨_, some children⟩ => step _ (forall_children step children)

private theorem forall_children {holds : SettingsNode → Prop}
    (step : ∀ node, (∀ child ∈ node.mValues.getD [], holds child) → holds node) :
    ∀ children : List SettingsNode, ∀ child ∈ children, holds child
  | [] => nofun
  | child :: rest =>
      List.forall_mem_cons.mpr ⟨childInduction step child, forall_children step rest⟩

end

/-! ## Nodes without repeated keys -/

/-- No node at any depth has two children with the same key. -/
inductive DistinctSiblings : SettingsNode → Prop where
  | intro {node : SettingsNode} (keys : ((node.mValues.getD []).map mKey).Nodup)
      (below : ∀ child ∈ node.mValues.getD [], DistinctSiblings child) : DistinctSiblings node

theorem at?_of_mem (keys : ((node.mValues.getD []).map mKey).Nodup) {child : SettingsNode}
    (member : child ∈ node.mValues.getD []) : node.at? child.mKey = some child :=
  FirstMatch.lookup_of_mem keys member

theorem equals_self (distinct : node.DistinctSiblings) : node.equals node = true := by
  induction distinct with
  | intro keys below inductionHypothesis =>
      rw [equals_iff]
      refine ⟨rfl, rfl, rfl, ?_⟩
      intro child member
      exact ⟨child, at?_of_mem keys member, inductionHypothesis child member⟩

/-- Equality is transitive, whatever keys repeat. -/
theorem equals_trans (node : SettingsNode) : ∀ {middle last : SettingsNode},
    node.equals middle = true → middle.equals last = true → node.equals last = true := by
  induction node using childInduction with
  | step node inductionHypothesis =>
      intro middle last first second
      rw [equals_iff] at first second ⊢
      rcases first with ⟨firstKey, firstCarries, firstSize, firstChildren⟩
      rcases second with ⟨secondKey, secondCarries, secondSize, secondChildren⟩
      refine ⟨firstKey.trans secondKey, firstCarries.trans secondCarries,
        firstSize.trans secondSize, ?_⟩
      intro child member
      rcases firstChildren child member with ⟨found, reached, equal⟩
      rcases secondChildren found (List.mem_of_find?_eq_some reached) with
        ⟨last, lastReached, lastEqual⟩
      rw [mKey_of_at? reached] at lastReached
      exact ⟨last, lastReached, inductionHypothesis child member equal lastEqual⟩

/-- What equals a node without repeated keys has none at its top either. -/
private theorem keys_perm_of_equals (keys : ((node.mValues.getD []).map mKey).Nodup)
    (equal : node.equals other = true) :
    ((node.mValues.getD []).map mKey).Perm ((other.mValues.getD []).map mKey) := by
  rcases equals_iff.mp equal with ⟨_, _, size, found⟩
  have inside : (node.mValues.getD []).map mKey ⊆ (other.mValues.getD []).map mKey := by
    intro key listed
    rcases List.mem_map.mp listed with ⟨child, member, rfl⟩
    rcases found child member with ⟨reached, present, _⟩
    exact FirstMatch.lookup_isSome_iff.mp (Option.isSome_of_eq_some present)
  apply (keys.subperm inside).perm_of_length_le
  rw [List.length_map, List.length_map]
  exact Nat.le_of_eq size.symm

theorem equals_symm (distinct : node.DistinctSiblings) (equal : node.equals other = true) :
    other.equals node = true := by
  induction distinct generalizing other with
  | @intro node keys below inductionHypothesis =>
      have permuted := keys_perm_of_equals keys equal
      have otherKeys := permuted.nodup_iff.mp keys
      rcases equals_iff.mp equal with ⟨sameKey, carries, size, found⟩
      rw [equals_iff]
      refine ⟨sameKey.symm, carries.symm, size.symm, ?_⟩
      intro otherChild otherMember
      have listed := permuted.mem_iff.mpr (List.mem_map_of_mem otherMember)
      rcases List.mem_map.mp listed with ⟨child, member, labelled⟩
      rcases found child member with ⟨reached, present, childEqual⟩
      rw [labelled, at?_of_mem otherKeys otherMember] at present
      rw [← Option.some.inj present] at childEqual
      refine ⟨child, ?_, inductionHypothesis child member childEqual⟩
      rw [← labelled]
      exact at?_of_mem keys member

/-! ## Nodes with repeated keys -/

/-- The node with other children. -/
private def withChildren (node : SettingsNode) (children : List SettingsNode) : SettingsNode :=
  ⟨node.mKey, some children⟩

/-- A node that equals itself equals the node with one child exchanged if the lookups of
its keys lead to equal children there. -/
private theorem equals_withChildren {before after : List SettingsNode}
    {child new : SettingsNode} (split : node.mValues.getD [] = before ++ child :: after)
    (found : ∀ own ∈ node.mValues.getD [],
      ∃ reached, FirstMatch.lookup mKey own.mKey (before ++ new :: after) = some reached ∧
        own.equals reached = true) :
    node.equals (withChildren node (before ++ new :: after)) = true := by
  have carries : node.mValues.isSome = true := by
    cases carried : node.mValues with
    | none => simp [carried] at split
    | some children => rfl
  rw [equals_iff]
  refine ⟨rfl, carries, ?_, found⟩
  rw [split, withChildren, Option.getD_some, List.length_append, List.length_append,
    List.length_cons, List.length_cons]

private theorem exists_fresh (children : List SettingsNode) :
    ∃ fresh : SettingsKey, fresh ∉ children.map mKey := by
  rcases Infinite.exists_notMem_finset (children.map mKey).toFinset with ⟨fresh, unused⟩
  rw [List.mem_toFinset] at unused
  exact ⟨fresh, unused⟩

/-- A child that is never found can be renamed without the node noticing, but not the
other way round. -/
private theorem keys_nodup_of_symm (self : node.equals node = true)
    (symm : ∀ other, node.equals other = true → other.equals node = true) :
    ((node.mValues.getD []).map mKey).Nodup := by
  by_contra repeated
  rcases FirstMatch.exists_of_not_nodup repeated with ⟨before, child, after, split, earlier⟩
  rcases exists_fresh (node.mValues.getD []) with ⟨fresh, unused⟩
  have found := (equals_iff.mp self).2.2.2
  have renamed : node.equals
      (withChildren node (before ++ ⟨fresh, child.mValues⟩ :: after)) = true := by
    apply equals_withChildren split
    intro own member
    rcases found own member with ⟨reached, present, equal⟩
    refine ⟨reached, ?_, equal⟩
    rw [← present, at?, split, FirstMatch.lookup_append, FirstMatch.lookup_append,
      FirstMatch.lookup_cons, FirstMatch.lookup_cons]
    have different : fresh ≠ own.mKey := by
      rintro rfl
      exact unused (List.mem_map_of_mem member)
    rw [if_neg different]
    by_cases same : child.mKey = own.mKey
    · rw [same] at earlier
      rcases Option.isSome_iff_exists.mp (FirstMatch.lookup_isSome_iff.mpr earlier) with
        ⟨first, first_eq⟩
      rw [first_eq, Option.some_or, Option.some_or]
    · rw [if_neg same]
  rcases (equals_iff.mp (symm _ renamed)).2.2.2 ⟨fresh, child.mValues⟩ (by simp [withChildren])
    with ⟨reached, present, _⟩
  exact unused (FirstMatch.lookup_isSome_iff.mp (Option.isSome_of_eq_some present))

/-- Among distinct keys, what equals a child can be exchanged for it. -/
private theorem child_symm (self : node.equals node = true)
    (symm : ∀ other, node.equals other = true → other.equals node = true)
    (keys : ((node.mValues.getD []).map mKey).Nodup) {child : SettingsNode}
    (member : child ∈ node.mValues.getD []) :
    child.equals child = true ∧
      ∀ other, child.equals other = true → other.equals child = true := by
  have own : ∀ child ∈ node.mValues.getD [], child.equals child = true := by
    intro child member
    rcases (equals_iff.mp self).2.2.2 child member with ⟨found, present, equal⟩
    rw [at?_of_mem keys member] at present
    rwa [← Option.some.inj present] at equal
  refine ⟨own child member, ?_⟩
  intro other equal
  have sameKey := (equals_iff.mp equal).1
  rcases List.append_of_mem member with ⟨before, after, split⟩
  have exchanged : node.equals (withChildren node (before ++ other :: after)) = true := by
    apply equals_withChildren split
    intro current currentMember
    have reached := at?_of_mem keys currentMember
    rw [at?, split, FirstMatch.lookup_append, FirstMatch.lookup_cons] at reached
    rw [FirstMatch.lookup_append, FirstMatch.lookup_cons, ← sameKey]
    by_cases same : child.mKey = current.mKey
    · rw [if_pos same] at reached ⊢
      cases first : FirstMatch.lookup mKey current.mKey before with
      | some earlier =>
          rw [first, Option.some_or] at reached
          exact ⟨current, reached, own current currentMember⟩
      | none =>
          rw [first, Option.none_or] at reached
          rw [← Option.some.inj reached]
          exact ⟨other, rfl, equal⟩
    · rw [if_neg same] at reached ⊢
      exact ⟨current, reached, own current currentMember⟩
  rcases (equals_iff.mp (symm _ exchanged)).2.2.2 other (by simp [withChildren]) with
    ⟨found, present, found_equal⟩
  rw [← sameKey, at?_of_mem keys member] at present
  rwa [← Option.some.inj present] at found_equal

/-- A node that is comparable both ways with everything it equals, itself included, has no
repeated keys. -/
private theorem distinctSiblings_of_symm (node : SettingsNode) :
    node.equals node = true →
      (∀ other, node.equals other = true → other.equals node = true) →
        node.DistinctSiblings := by
  induction node using childInduction with
  | step node inductionHypothesis =>
      intro self symm
      have keys := keys_nodup_of_symm self symm
      refine .intro keys ?_
      intro child member
      rcases child_symm self symm keys member with ⟨childSelf, childSymm⟩
      exact inductionHypothesis child member childSelf childSymm

/-! ## Nodes that can be built -/

/-- A node that the public operations build: from a key, by adding values and by assigning
a node to what the mutable `operator[]` refers to. -/
inductive Built : SettingsNode → Prop where
  | ofKey (key : SettingsKey) : Built (ofKey key)
  | addValues {node : SettingsNode} (newValue : SettingsValues) :
      Built node → Built (node.addValues newValue)
  | subscript {node other : SettingsNode} (key : SettingsKey) :
      Built node → Built other → Built (node.subscript key fun child => child.assign other)

theorem assign_ofKey (key : SettingsKey) (other : SettingsNode) :
    (ofKey key).assign other = other := by
  rw [assign, deepCopy_eq, mValues_ofKey, Option.or_none]
  cases other
  rfl

/-- Assigning to what a fresh key refers to appends the assigned node as it is. -/
private theorem built_append {mKey : SettingsKey} {done children : List SettingsNode}
    (start : Built ⟨mKey, some done⟩) (each : ∀ child ∈ children, Built child) :
    Built ⟨mKey, some (done ++ children)⟩ := by
  induction children generalizing done with
  | nil => rwa [List.append_nil]
  | cons child rest inductionHypothesis =>
      rcases exists_fresh done with ⟨fresh, unused⟩
      have missing : (⟨mKey, some done⟩ : SettingsNode).containsKey fresh = false := by
        rw [containsKey_eq, at?, Option.getD_some, FirstMatch.lookup_eq_none_iff.mpr unused]
        rfl
      have appended := Built.subscript fresh start (each child List.mem_cons_self)
      rw [subscript, missing, if_neg Bool.false_ne_true, assign_ofKey] at appended
      rw [List.append_cons]
      exact inductionHypothesis appended fun later member =>
        each later (List.mem_cons_of_mem _ member)

/-- Every node can be built: an assignment to a fresh child also gives it its key. -/
theorem built (node : SettingsNode) : node.Built := by
  induction node using childInduction with
  | step node inductionHypothesis =>
      rcases node with ⟨mKey, _ | children⟩
      · exact .ofKey mKey
      · exact built_append (.addValues [] (.ofKey mKey)) inductionHypothesis

/-! ## The laws -/

theorem copy_eq (node : SettingsNode) : node.copy = node := assign_ofKey node.mKey node

/-- What equality promises for a node: its copy equals it, and with it equality is
reflexive, symmetric and transitive on everything that can be built. -/
structure EqualityLaws (node : SettingsNode) : Prop where
  copies : node.copy.equals node = true
  reflexive : node.equals node = true
  symmetric : ∀ other, other.Built → node.equals other = true → other.equals node = true
  transitive : ∀ middle last, middle.Built → last.Built → node.equals middle = true →
    middle.equals last = true → node.equals last = true

/-- The laws hold for exactly the nodes that have no siblings with the same key at any
depth. -/
theorem equalityLaws_iff (node : SettingsNode) :
    node.EqualityLaws ↔ node.DistinctSiblings := by
  constructor
  · intro laws
    apply distinctSiblings_of_symm node laws.reflexive
    intro other
    exact laws.symmetric other other.built
  · intro distinct
    constructor
    case copies =>
      rw [copy_eq]
      exact equals_self distinct
    case reflexive => exact equals_self distinct
    case symmetric => exact fun other _ => equals_symm distinct
    case transitive => exact fun middle last _ _ => equals_trans node

/-- A key that a settings file gives twice with the same value, as the reader adds it: both
values go to the first child with the key. -/
private def givenTwice : SettingsNode :=
  ((((ofKey "defines").add [] ["DOCS"]).add ["DOCS"] ["OFF"]).add [] ["DOCS"]).add ["DOCS"]
    ["OFF"]

/-- Such a node differs from its copy. Where the siblings have no values, equality is not
symmetric. -/
theorem equalityLaws_counterexample :
    givenTwice.copy.equals givenTwice = false ∧
      ((ofKey "all").addValues ["a", "a"]).equals ((ofKey "all").addValues ["a", "b"]) = true ∧
      ((ofKey "all").addValues ["a", "b"]).equals ((ofKey "all").addValues ["a", "a"]) =
        false := by
  decide

end ExecHelper.Config.SettingsNode
