import ExecHelper.Config.SettingsReplace

/-!
# Reading a YAML document into a settings node

The wrapper walks a parsed document and adds everything it finds to one settings
node, each time from the root and along the keys it came by.  The second half of
the module compares the result with the document: the settings below a key path
are an image of the document node that was read there, and nothing outside that
path has changed.

Parsing itself belongs to the YAML library.  So does the conversion of a node to
a string, which the library offers for scalars and refuses for collections; what
it does with a null depends on its version, and it is a parameter here.
-/

namespace ExecHelper.Yaml

open ExecHelper.Config
open ExecHelper.Library

/-- A parsed document. Entries and elements are in document order. -/
inductive YamlNode where
  | null
  | scalar (text : String)
  | sequence (elements : List YamlNode)
  | map (entries : List (YamlNode × YamlNode))

namespace YamlNode

/-- The text of a scalar. -/
def scalar? : YamlNode → Option String
  | .scalar text => some text
  | _ => none

/-- The number of elements or entries of a collection; nothing else has any. -/
def size : YamlNode → Nat
  | .sequence elements => elements.length
  | .map entries => entries.length
  | _ => 0

def isNull : YamlNode → Bool
  | .null => true
  | _ => false

theorem isNull_of_size (node : YamlNode) (nonempty : node.size ≠ 0) : node.isNull = false := by
  cases node with
  | null => exact absurd rfl nonempty
  | scalar text => rfl
  | sequence elements => rfl
  | map entries => rfl

/-- The library's subscript operator with a string: the value of the first entry
whose key is that scalar. Where there is none, using the result throws. -/
def subscript? (node : YamlNode) (key : SettingsKey) : Option YamlNode :=
  match node with
  | .map entries =>
      (FirstMatch.lookup (fun entry => entry.1.scalar?) (some key) entries).map Prod.snd
  | _ => none

end YamlNode

/-- The node below the given key structure, or `none` where the library throws. -/
def getSubNode : YamlNode → SettingsKeys → Option YamlNode
  | node, [] => some node
  | node, key :: rest => (node.subscript? key).bind fun value => getSubNode value rest

section Reading

variable (asString : YamlNode → Option SettingsValue)

mutual

/-- Add the given node to the root settings under the given key structure. -/
def getSubTree : YamlNode → SettingsNode → SettingsKeys → Bool × SettingsNode
  | .null, yamlNode, _ => (true, yamlNode)
  | .scalar text, yamlNode, keys =>
      match asString (.scalar text) with
      | some value => (true, yamlNode.add keys [value])
      | none => (false, yamlNode)
  | .map entries, yamlNode, keys => getSubTreeOfEntries entries yamlNode keys
  | .sequence elements, yamlNode, keys => getSubTreeOfElements elements yamlNode keys

/-- The loop over the entries of a map. -/
def getSubTreeOfEntries :
    List (YamlNode × YamlNode) → SettingsNode → SettingsKeys → Bool × SettingsNode
  | [], yamlNode, _ => (true, yamlNode)
  | (first, second) :: rest, yamlNode, keys =>
      match asString first with
      | none => (false, yamlNode)
      | some key =>
          match getSubTree second (yamlNode.add keys [key]) (keys ++ [key]) with
          | (true, filled) => getSubTreeOfEntries rest filled keys
          | (false, filled) => (false, filled)

/-- The loop over the elements of a sequence. -/
def getSubTreeOfElements :
    List YamlNode → SettingsNode → SettingsKeys → Bool × SettingsNode
  | [], yamlNode, _ => (true, yamlNode)
  | element :: rest, yamlNode, keys =>
      match getSubTree element yamlNode keys with
      | (true, filled) => getSubTreeOfElements rest filled keys
      | (false, filled) => (false, filled)

end

/-- Parse the given node and write it to the settings (the static `getTree`). -/
def getNodeTree (rootNode : YamlNode) (settings : SettingsNode) : Bool × SettingsNode :=
  getSubTree asString rootNode settings []

/-- Parse the tree below the given keys and write it to the settings
(`getTree(keys, settings)`). The wrapped document is `root`. -/
def getTree (root : YamlNode) (keys : SettingsKeys) (settings : SettingsNode) :
    Bool × SettingsNode :=
  match getSubNode root keys with
  | none => (false, settings)
  | some node =>
      if node.size = 0 || node.isNull then (false, settings)
      else getNodeTree asString node settings

mutual

/-- Everything that is read as a string is one: the scalars and the keys of the maps. -/
def convertible : YamlNode → Bool
  | .null => true
  | .scalar text => (asString (.scalar text)).isSome
  | .map entries => convertibleEntries entries
  | .sequence elements => convertibleElements elements

def convertibleEntries : List (YamlNode × YamlNode) → Bool
  | [] => true
  | (first, second) :: rest =>
      (asString first).isSome && convertible second && convertibleEntries rest

def convertibleElements : List YamlNode → Bool
  | [] => true
  | element :: rest => convertible element && convertibleElements rest

end

mutual

/-- Reading succeeds exactly on what is convertible. -/
theorem getSubTree_fst : (node : YamlNode) → (settings : SettingsNode) → (keys : SettingsKeys) →
    (getSubTree asString node settings keys).1 = convertible asString node
  | .null, _, _ => by rw [getSubTree, convertible]
  | .scalar text, _, _ => by
      rw [getSubTree, convertible]
      cases asString (.scalar text) <;> rfl
  | .map entries, settings, keys => by
      rw [getSubTree, convertible]
      exact getSubTreeOfEntries_fst entries settings keys
  | .sequence elements, settings, keys => by
      rw [getSubTree, convertible]
      exact getSubTreeOfElements_fst elements settings keys

theorem getSubTreeOfEntries_fst : (entries : List (YamlNode × YamlNode)) →
    (settings : SettingsNode) → (keys : SettingsKeys) →
    (getSubTreeOfEntries asString entries settings keys).1 = convertibleEntries asString entries
  | [], _, _ => by rw [getSubTreeOfEntries, convertibleEntries]
  | (first, second) :: rest, settings, keys => by
      rw [getSubTreeOfEntries, convertibleEntries]
      cases asString first with
      | none => rfl
      | some key =>
          have below := getSubTree_fst second (settings.add keys [key]) (keys ++ [key])
          dsimp only
          cases read : getSubTree asString second (settings.add keys [key]) (keys ++ [key]) with
          | mk success filled =>
              rw [read] at below
              cases success with
              | false => simp [← below]
              | true => simpa [← below] using getSubTreeOfEntries_fst rest filled keys

theorem getSubTreeOfElements_fst : (elements : List YamlNode) →
    (settings : SettingsNode) → (keys : SettingsKeys) →
    (getSubTreeOfElements asString elements settings keys).1 =
      convertibleElements asString elements
  | [], _, _ => by rw [getSubTreeOfElements, convertibleElements]
  | element :: rest, settings, keys => by
      rw [getSubTreeOfElements, convertibleElements]
      have below := getSubTree_fst element settings keys
      cases read : getSubTree asString element settings keys with
      | mk success filled =>
          rw [read] at below
          cases success with
          | false => simp [← below]
          | true => simpa [← below] using getSubTreeOfElements_fst rest filled keys

end

/-- Which documents are read at all. -/
theorem getTree_fst (root : YamlNode) (settings : SettingsNode) :
    (getTree asString root [] settings).1 =
      (decide (root.size ≠ 0) && convertible asString root) := by
  rw [getTree, getSubNode]
  dsimp only
  by_cases empty : root.size = 0
  · simp [empty]
  · have notNull := root.isNull_of_size empty
    simp [empty, notNull, getNodeTree, getSubTree_fst]

end Reading

/-! ## What a document says -/

namespace YamlNode

/-- A sequence of scalars. -/
def sequenceOf (texts : List String) : YamlNode :=
  .sequence (texts.map .scalar)

/-- A map whose keys are scalars. -/
def mapOf (entries : List (String × YamlNode)) : YamlNode :=
  .map (entries.map fun entry => (.scalar entry.1, entry.2))

/-- A tree of maps with distinct scalar keys over scalars, nulls and sequences of
scalars. -/
inductive Regular : YamlNode → Prop where
  | null : Regular .null
  | scalar (text : String) : Regular (.scalar text)
  | sequence (texts : List String) : Regular (sequenceOf texts)
  | map (entries : List (String × YamlNode)) (distinct : (entries.map Prod.fst).Nodup)
      (below : ∀ entry ∈ entries, Regular entry.2) : Regular (mapOf entries)

/-- The scalars a node holds directly. -/
def scalars : YamlNode → List String
  | .scalar text => [text]
  | .sequence elements => elements.filterMap scalar?
  | _ => []

/-- The values a node gives to the key path it is found at: the keys of a map, a
scalar, or the elements of a sequence. -/
def valueList : YamlNode → Option SettingsValues
  | .null => none
  | .scalar text => some [text]
  | .sequence [] => none
  | .sequence elements => some (elements.filterMap scalar?)
  | .map [] => none
  | .map entries => some (entries.filterMap fun entry => entry.1.scalar?)

/-- The paths of a document: those that lead along map keys, and those extended by a
scalar that is found at their end. -/
def Covers (node : YamlNode) (path : SettingsKeys) : Prop :=
  (getSubNode node path).isSome ∨
    ∃ front value found, path = front ++ [value] ∧ getSubNode node front = some found ∧
      value ∈ found.scalars

end YamlNode

theorem getSubNode_cons (node : YamlNode) (key : SettingsKey) (rest : SettingsKeys) :
    getSubNode node (key :: rest) =
      (node.subscript? key).bind fun value => getSubNode value rest := by
  rw [getSubNode]

@[simp] theorem getSubNode_nil (node : YamlNode) : getSubNode node [] = some node := by
  rw [getSubNode]

namespace YamlNode

variable {node : YamlNode} {texts : List String} {entries : List (String × YamlNode)}
variable {key : SettingsKey} {rest : SettingsKeys}

@[simp] theorem covers_nil (node : YamlNode) : node.Covers [] := by
  simp [Covers]

/-- A longer path leads through the value of its first key, unless it ends in a
scalar right here. -/
theorem covers_cons (node : YamlNode) (key : SettingsKey) (rest : SettingsKeys) :
    node.Covers (key :: rest) ↔
      (∃ value, node.subscript? key = some value ∧ value.Covers rest) ∨
        (rest = [] ∧ key ∈ node.scalars) := by
  constructor
  · rintro (reached | ⟨front, value, found, split, reached, member⟩)
    · rw [getSubNode_cons] at reached
      cases entered : node.subscript? key with
      | none => simp [entered] at reached
      | some value =>
          rw [entered] at reached
          exact Or.inl ⟨value, rfl, Or.inl reached⟩
    · cases front with
      | nil =>
          rcases List.cons.inj split with ⟨rfl, rfl⟩
          rcases Option.some.inj reached with rfl
          exact Or.inr ⟨rfl, member⟩
      | cons head front =>
          rcases List.cons.inj split with ⟨rfl, rfl⟩
          rw [getSubNode_cons] at reached
          rcases Option.bind_eq_some_iff.mp reached with ⟨entered, lookedUp, reached⟩
          exact Or.inl ⟨entered, lookedUp, Or.inr ⟨front, value, found, rfl, reached, member⟩⟩
  · rintro (⟨value, entered, reached | ⟨front, last, found, rfl, reached, member⟩⟩ |
      ⟨rfl, member⟩)
    · left
      rwa [getSubNode_cons, entered]
    · right
      refine ⟨key :: front, last, found, rfl, ?_, member⟩
      rw [getSubNode_cons, entered]
      exact reached
    · exact Or.inr ⟨[], key, node, rfl, rfl, member⟩

theorem filterMap_scalar? (texts : List String) :
    (texts.map YamlNode.scalar).filterMap scalar? = texts := by
  rw [List.filterMap_map]
  exact List.filterMap_some

@[simp] theorem scalars_mapOf (entries : List (String × YamlNode)) :
    (mapOf entries).scalars = [] := rfl

theorem subscript?_mapOf (entries : List (String × YamlNode)) (key : SettingsKey) :
    (mapOf entries).subscript? key =
      (FirstMatch.lookup Prod.fst key entries).map Prod.snd := by
  rw [mapOf, subscript?]
  induction entries with
  | nil => rfl
  | cons entry rest inductionHypothesis =>
      rw [List.map_cons, FirstMatch.lookup_cons, FirstMatch.lookup_cons]
      by_cases same : entry.1 = key
      · simp [scalar?, same]
      · simpa [scalar?, same] using inductionHypothesis

theorem subscript?_mapOf_concat (done : List (String × YamlNode)) (value : YamlNode)
    (fresh : key ∉ done.map Prod.fst) (other : SettingsKey) :
    (mapOf (done ++ [(key, value)])).subscript? other =
      if other = key then some value else (mapOf done).subscript? other := by
  rw [subscript?_mapOf, subscript?_mapOf, FirstMatch.lookup_append]
  by_cases same : other = key
  · subst same
    rw [FirstMatch.lookup_eq_none_iff.mpr fresh, if_pos rfl]
    simp [FirstMatch.lookup_cons]
  · rw [if_neg same]
    simp [FirstMatch.lookup_cons, Ne.symm same]

theorem valueList_mapOf (entries : List (String × YamlNode)) :
    (mapOf entries).valueList =
      if entries = [] then none else some (entries.map Prod.fst) := by
  cases entries with
  | nil => rfl
  | cons entry rest => simp [mapOf, valueList, scalar?]

theorem valueList_sequenceOf (texts : List String) :
    (sequenceOf texts).valueList = if texts = [] then none else some texts := by
  cases texts with
  | nil => rfl
  | cons text rest => exact congrArg some (filterMap_scalar? (text :: rest))

end YamlNode

/-- Seen from the given keys on, the settings are the given node. -/
structure Image (settings : SettingsNode) (keys : SettingsKeys) (node : YamlNode) : Prop where
  contains : ∀ path, settings.contains (keys ++ path) ↔ node.Covers path
  values : ∀ path, settings.getValues (keys ++ path) =
    (getSubNode node path).bind YamlNode.valueList

/-- Nothing has changed but at or below the given keys. -/
structure Frame (settings filled : SettingsNode) (keys : SettingsKeys) : Prop where
  contains : ∀ path, ¬keys <+: path → (filled.contains path ↔ settings.contains path)
  values : ∀ path, ¬keys <+: path → filled.getValues path = settings.getValues path

/-! ## Adding keeps the image -/

section Steps

variable {settings filled : SettingsNode} {keys : SettingsKeys} {node : YamlNode}
variable {key : SettingsKey} {newValue : SettingsValues}

namespace Frame

theorem refl (settings : SettingsNode) (keys : SettingsKeys) : Frame settings settings keys where
  contains := fun _ _ => Iff.rfl
  values := fun _ _ => rfl

theorem trans {further : SettingsNode} (first : Frame settings filled keys)
    (second : Frame filled further keys) : Frame settings further keys where
  contains := fun path outside => (second.contains path outside).trans (first.contains path outside)
  values := fun path outside => (second.values path outside).trans (first.values path outside)

/-- What leaves everything outside a longer path alone does so outside a shorter one. -/
theorem shorten (frame : Frame settings filled (keys ++ [key])) :
    Frame settings filled keys where
  contains := fun path outside =>
    frame.contains path fun inside => outside ((List.prefix_append keys [key]).trans inside)
  values := fun path outside =>
    frame.values path fun inside => outside ((List.prefix_append keys [key]).trans inside)

theorem add (present : settings.contains keys) :
    Frame settings (settings.add keys newValue) keys where
  contains := by
    intro path outside
    rw [SettingsNode.contains_add_of_contains present]
    constructor
    · rintro (old | ⟨value, _, rfl⟩)
      · exact old
      · exact absurd (List.prefix_append keys [value]) outside
    · exact Or.inl
  values := by
    intro path outside
    apply SettingsNode.getValues_add_of_contains present
    rintro rfl
    exact outside (List.prefix_refl _)

end Frame

namespace Image

theorem present (image : Image settings keys node) : settings.contains keys := by
  have reached := (image.contains []).mpr (YamlNode.covers_nil node)
  rwa [List.append_nil] at reached

theorem values_self (image : Image settings keys node) :
    settings.getValues keys = node.valueList := by
  have listed := image.values []
  rwa [List.append_nil] at listed

/-- A node without map entries is only seen through its scalars and its values. -/
theorem of_leaf {other : YamlNode} (image : Image settings keys node)
    (leaf : ∀ key, node.subscript? key = none) (otherLeaf : ∀ key, other.subscript? key = none)
    (scalars : node.scalars = other.scalars) (valueList : node.valueList = other.valueList) :
    Image settings keys other where
  contains := by
    intro path
    rw [image.contains]
    cases path with
    | nil => simp
    | cons key rest => simp [YamlNode.covers_cons, leaf, otherLeaf, scalars]
  values := by
    intro path
    rw [image.values]
    cases path with
    | nil => exact valueList
    | cons key rest => simp [getSubNode_cons, leaf, otherLeaf]

/-- One more scalar of a sequence. -/
theorem add_element {texts : List String}
    (image : Image settings keys (YamlNode.sequenceOf texts)) (text : String) :
    Image (settings.add keys [text]) keys (YamlNode.sequenceOf (texts ++ [text])) where
  contains := by
    intro path
    rw [SettingsNode.contains_add_of_contains image.present, image.contains]
    cases path with
    | nil => simp
    | cons key rest =>
        simp [YamlNode.covers_cons, YamlNode.sequenceOf, YamlNode.subscript?,
          YamlNode.scalars, YamlNode.scalar?, and_or_left, and_comm]
  values := by
    intro path
    cases path with
    | nil =>
        rw [List.append_nil, SettingsNode.getValues_add_self, image.values_self, getSubNode_nil,
          Option.bind_some, YamlNode.valueList_sequenceOf, YamlNode.valueList_sequenceOf]
        by_cases empty : texts = [] <;> simp [empty]
    | cons key rest =>
        rw [SettingsNode.getValues_add_of_contains image.present (by simp), image.values]
        rfl

/-- A new key of a map starts out as a null. -/
theorem add_key {done : List (String × YamlNode)}
    (image : Image settings keys (YamlNode.mapOf done)) (fresh : key ∉ done.map Prod.fst) :
    Image (settings.add keys [key]) (keys ++ [key]) .null where
  contains := by
    intro path
    have absent : (YamlNode.mapOf done).subscript? key = none := by
      rw [YamlNode.subscript?_mapOf, FirstMatch.lookup_eq_none_iff.mpr fresh]
      rfl
    have missing : ¬settings.contains (keys ++ [key] ++ path) := by
      rw [List.append_assoc, image.contains, List.singleton_append, YamlNode.covers_cons]
      simp [absent]
    rw [SettingsNode.contains_add_of_contains image.present]
    cases path with
    | nil => simp
    | cons head rest =>
        rw [List.append_assoc, List.singleton_append] at missing ⊢
        simp [missing, YamlNode.covers_cons, YamlNode.subscript?, YamlNode.scalars]
  values := by
    intro path
    have absent : getSubNode (YamlNode.mapOf done) (key :: path) = none := by
      rw [getSubNode_cons, YamlNode.subscript?_mapOf, FirstMatch.lookup_eq_none_iff.mpr fresh]
      rfl
    rw [SettingsNode.getValues_add_of_contains image.present (by simp), List.append_assoc,
      image.values, List.singleton_append, absent]
    cases path <;> rfl

/-- One more entry of a map, whose value has been read below its key. -/
theorem add_entry {done : List (String × YamlNode)} {value : YamlNode}
    (image : Image settings keys (YamlNode.mapOf done)) (fresh : key ∉ done.map Prod.fst)
    (below : Image filled (keys ++ [key]) value)
    (frame : Frame (settings.add keys [key]) filled (keys ++ [key])) :
    Image filled keys (YamlNode.mapOf (done ++ [(key, value)])) where
  contains := by
    intro path
    cases path with
    | nil =>
        have reached := SettingsNode.contains_front (List.prefix_append keys [key]) below.present
        simpa using reached
    | cons head rest =>
        rw [YamlNode.covers_cons, YamlNode.subscript?_mapOf_concat done value fresh]
        by_cases same : head = key
        · subst same
          have entered := below.contains rest
          rw [List.append_assoc, List.singleton_append] at entered
          rw [entered]
          simp
        · rw [frame.contains, SettingsNode.contains_add_of_contains image.present, image.contains,
            YamlNode.covers_cons, if_neg same]
          · simp [same]
          · simp [List.prefix_append_right_inj, List.cons_prefix_cons, Ne.symm same]
  values := by
    intro path
    cases path with
    | nil =>
        have outside := SettingsNode.not_prefix_front keys key
        rw [List.append_nil, frame.values keys outside, SettingsNode.getValues_add_self,
          image.values_self, getSubNode_nil, Option.bind_some, YamlNode.valueList_mapOf,
          YamlNode.valueList_mapOf]
        by_cases empty : done = [] <;> simp [empty]
    | cons head rest =>
        rw [getSubNode_cons, YamlNode.subscript?_mapOf_concat done value fresh]
        by_cases same : head = key
        · subst same
          have entered := below.values rest
          rw [List.append_assoc, List.singleton_append] at entered
          rw [entered, if_pos rfl]
          rfl
        · have outside : ¬keys ++ [key] <+: keys ++ head :: rest := by
            simp [List.prefix_append_right_inj, List.cons_prefix_cons, Ne.symm same]
          rw [frame.values _ outside,
            SettingsNode.getValues_add_of_contains image.present (by simp), image.values,
            getSubNode_cons, if_neg same]

end Image

end Steps

/-! ## Reading a regular document -/

section Regular

variable {asString : YamlNode → Option SettingsValue}

/-- Where nothing was known, reading the node succeeds, leaves its image and touches
nothing else. -/
def Fills (asString : YamlNode → Option SettingsValue) (node : YamlNode) : Prop :=
  ∀ settings keys, Image settings keys .null →
    ∃ filled, getSubTree asString node settings keys = (true, filled) ∧
      Image filled keys node ∧ Frame settings filled keys

theorem getSubTreeOfElements_fills
    (scalarText : ∀ text, asString (.scalar text) = some text) (texts done : List String)
    (settings : SettingsNode) (keys : SettingsKeys)
    (image : Image settings keys (YamlNode.sequenceOf done)) :
    ∃ filled,
      getSubTreeOfElements asString (texts.map .scalar) settings keys = (true, filled) ∧
        Image filled keys (YamlNode.sequenceOf (done ++ texts)) ∧
        Frame settings filled keys := by
  induction texts generalizing done settings with
  | nil =>
      rw [List.append_nil]
      exact ⟨settings, by rw [List.map_nil, getSubTreeOfElements], image, Frame.refl settings keys⟩
  | cons text rest inductionHypothesis =>
      rcases inductionHypothesis (done ++ [text]) (settings.add keys [text])
        (image.add_element text) with ⟨filled, read, restImage, frame⟩
      refine ⟨filled, ?_, ?_, (Frame.add image.present).trans frame⟩
      · rw [List.map_cons, getSubTreeOfElements, getSubTree, scalarText]
        exact read
      · rwa [List.append_assoc, List.singleton_append] at restImage

theorem getSubTreeOfEntries_fills
    (scalarText : ∀ text, asString (.scalar text) = some text)
    (entries done : List (String × YamlNode)) (settings : SettingsNode) (keys : SettingsKeys)
    (fills : ∀ entry ∈ entries, Fills asString entry.2)
    (distinct : ((done ++ entries).map Prod.fst).Nodup)
    (image : Image settings keys (YamlNode.mapOf done)) :
    ∃ filled,
      getSubTreeOfEntries asString (entries.map fun entry => (.scalar entry.1, entry.2))
          settings keys = (true, filled) ∧
        Image filled keys (YamlNode.mapOf (done ++ entries)) ∧
        Frame settings filled keys := by
  induction entries generalizing done settings with
  | nil =>
      rw [List.append_nil]
      exact ⟨settings, by rw [List.map_nil, getSubTreeOfEntries], image, Frame.refl settings keys⟩
  | cons entry rest inductionHypothesis =>
      rcases entry with ⟨key, value⟩
      rw [← List.singleton_append, ← List.append_assoc] at distinct
      have fresh : key ∉ done.map Prod.fst := by
        intro member
        rw [List.map_append, List.map_append, List.append_assoc] at distinct
        exact (List.nodup_append.mp distinct).2.2 key member key (by simp) rfl
      rcases fills (key, value) List.mem_cons_self (settings.add keys [key]) (keys ++ [key])
        (image.add_key fresh) with ⟨entered, valueRead, below, valueFrame⟩
      rcases inductionHypothesis (done ++ [(key, value)]) entered
        (fun later member => fills later (List.mem_cons_of_mem _ member)) distinct
        (image.add_entry fresh below valueFrame) with ⟨filled, restRead, restImage, restFrame⟩
      refine ⟨filled, ?_, ?_, ?_⟩
      · rw [List.map_cons, getSubTreeOfEntries, scalarText]
        simp only [valueRead]
        exact restRead
      · rwa [List.append_assoc, List.singleton_append] at restImage
      · exact ((Frame.add image.present).trans valueFrame.shorten).trans restFrame

theorem getSubTree_fills (scalarText : ∀ text, asString (.scalar text) = some text)
    {node : YamlNode} (regular : node.Regular) : Fills asString node := by
  induction regular with
  | null =>
      intro settings keys image
      exact ⟨settings, by rw [getSubTree], image, Frame.refl settings keys⟩
  | scalar text =>
      intro settings keys image
      have started : Image settings keys (YamlNode.sequenceOf []) :=
        image.of_leaf (fun _ => rfl) (fun _ => rfl) rfl rfl
      refine ⟨settings.add keys [text], ?_, ?_, Frame.add image.present⟩
      · rw [getSubTree, scalarText]
      · exact (started.add_element text).of_leaf (fun _ => rfl) (fun _ => rfl) rfl rfl
  | sequence texts =>
      intro settings keys image
      have started : Image settings keys (YamlNode.sequenceOf []) :=
        image.of_leaf (fun _ => rfl) (fun _ => rfl) rfl rfl
      rw [YamlNode.sequenceOf, getSubTree]
      exact getSubTreeOfElements_fills scalarText texts [] settings keys started
  | map entries distinct below inductionHypothesis =>
      intro settings keys image
      have started : Image settings keys (YamlNode.mapOf []) :=
        image.of_leaf (fun _ => rfl) (fun _ => rfl) rfl rfl
      rw [YamlNode.mapOf, getSubTree]
      exact getSubTreeOfEntries_fills scalarText entries [] settings keys inductionHypothesis
        distinct started

theorem image_ofKey (key : SettingsKey) : Image (SettingsNode.ofKey key) [] .null where
  contains := by
    intro path
    rw [List.nil_append, SettingsNode.contains_ofKey]
    cases path with
    | nil => simp
    | cons head rest => simp [YamlNode.covers_cons, YamlNode.subscript?, YamlNode.scalars]
  values := by
    intro path
    rw [List.nil_append, SettingsNode.getValues_ofKey]
    cases path <;> rfl

/-- A regular document that is not empty is read into a fresh settings node as what
it says: at every path the values of the document, and no other path. -/
theorem getTree_regular (scalarText : ∀ text, asString (.scalar text) = some text)
    (root document : YamlNode) (keys : SettingsKeys) (key : SettingsKey)
    (found : getSubNode root keys = some document) (regular : document.Regular)
    (nonempty : document.size ≠ 0) :
    (getTree asString root keys (SettingsNode.ofKey key)).1 = true ∧
      (∀ path, (getTree asString root keys (SettingsNode.ofKey key)).2.getValues path =
        (getSubNode document path).bind YamlNode.valueList) ∧
      ∀ path, (getTree asString root keys (SettingsNode.ofKey key)).2.contains path ↔
        document.Covers path := by
  have notNull := document.isNull_of_size nonempty
  rcases getSubTree_fills scalarText regular (SettingsNode.ofKey key) [] (image_ofKey key) with
    ⟨filled, read, image, _⟩
  have read : getTree asString root keys (SettingsNode.ofKey key) = (true, filled) := by
    rw [getTree, found]
    simpa [nonempty, notNull, getNodeTree] using read
  rw [read]
  exact ⟨rfl, image.values, image.contains⟩

/-- A command list below a key, beside a null. -/
theorem getTree_regular_nested :
    (getTree YamlNode.scalar? (YamlNode.mapOf [("commands", .sequence [.scalar "build",
      .scalar "build"]), ("patterns", .null)]) [] (SettingsNode.ofKey "root")).2.getValues
        ["commands"] = some ["build", "build"] := by
  have regular : YamlNode.Regular (YamlNode.mapOf [("commands", .sequence [.scalar "build",
      .scalar "build"]), ("patterns", .null)]) := by
    apply YamlNode.Regular.map
    · decide
    · intro entry member
      rcases List.mem_pair.mp member with rfl | rfl
      · exact YamlNode.Regular.sequence ["build", "build"]
      · exact YamlNode.Regular.null
  exact (@getTree_regular YamlNode.scalar? (fun _ => rfl) _ _ [] "root" rfl regular
    (by decide)).2.1 ["commands"]

end Regular

end ExecHelper.Yaml
