import ExecHelper.Yaml.YamlWrapper

/-!
# What a failed reading leaves behind

A document is read from its beginning to the first key or scalar that is not a string.
Everything that was read before has been added to the settings by then, so a failed
reading leaves the settings alone only if its very first conversion failed.
-/

namespace ExecHelper.Yaml

open ExecHelper.Config
open ExecHelper.Library

/-! ## Settings that only grow -/

/-- The number of values at a key path. -/
def valueCount (settings : SettingsNode) (path : SettingsKeys) : Nat :=
  ((settings.getValues path).getD []).length

/-- No key path has fewer values than before. -/
def Grows (before after : SettingsNode) : Prop :=
  ∀ path, valueCount before path ≤ valueCount after path

/-- Some key path has more values than before, and no one has fewer. -/
def GrowsSomewhere (before after : SettingsNode) : Prop :=
  Grows before after ∧ ∃ path, valueCount before path < valueCount after path

section Growth

variable {first second third : SettingsNode}

theorem Grows.refl (settings : SettingsNode) : Grows settings settings := fun _ => Nat.le_refl _

theorem Grows.trans (left : Grows first second) (right : Grows second third) :
    Grows first third := fun path => Nat.le_trans (left path) (right path)

theorem GrowsSomewhere.then (left : GrowsSomewhere first second)
    (right : Grows second third) : GrowsSomewhere first third := by
  rcases left with ⟨grows, path, more⟩
  exact ⟨grows.trans right, path, Nat.lt_of_lt_of_le more (right path)⟩

theorem GrowsSomewhere.ne (grows : GrowsSomewhere first second) : second ≠ first := by
  rintro rfl
  rcases grows with ⟨_, path, more⟩
  exact Nat.lt_irrefl _ more

/-- Adding a value lets the settings grow at its path. -/
theorem growsSomewhere_add (settings : SettingsNode) (keys : SettingsKeys)
    (value : SettingsValue) : GrowsSomewhere settings (settings.add keys [value]) := by
  have here : valueCount settings keys < valueCount (settings.add keys [value]) keys := by
    rw [valueCount, valueCount, SettingsNode.getValues_add_self]
    simp
  refine ⟨?_, keys, here⟩
  intro path
  by_cases own : path = keys
  · rw [own]
    exact Nat.le_of_lt here
  · by_cases created : ∃ key rest, keys = path ++ key :: rest ∧ ¬settings.contains (path ++ [key])
    · rcases created with ⟨key, rest, rfl, missing⟩
      rw [valueCount, valueCount, SettingsNode.getValues_add_created _ _ _ _ _ missing]
      simp
    · have same := SettingsNode.getValues_add_of_ne settings keys path [value] own (by
        intro key rest split
        by_contra missing
        exact created ⟨key, rest, split, missing⟩)
      have counts : valueCount settings path = valueCount (settings.add keys [value]) path := by
        rw [valueCount, valueCount, same]
      exact Nat.le_of_eq counts

end Growth

/-! ## Reading in document order -/

section Readings

variable (asString : YamlNode → Option SettingsValue)

mutual

/-- What the keys and scalars of a node are converted to, in document order. -/
def readings : YamlNode → List (Option SettingsValue)
  | .null => []
  | .scalar text => [asString (.scalar text)]
  | .map entries => readingsOfEntries entries
  | .sequence elements => readingsOfElements elements

def readingsOfEntries : List (YamlNode × YamlNode) → List (Option SettingsValue)
  | [] => []
  | (first, second) :: rest => asString first :: (readings second ++ readingsOfEntries rest)

def readingsOfElements : List YamlNode → List (Option SettingsValue)
  | [] => []
  | element :: rest => readings element ++ readingsOfElements rest

end

/-- What reading does to the settings, from the first conversion on: without any it
changes nothing and succeeds, and if the first one fails it changes nothing and fails. -/
def ReadsAs (conversions : List (Option SettingsValue)) (settings : SettingsNode)
    (result : Bool × SettingsNode) : Prop :=
  match conversions with
  | [] => result = (true, settings)
  | none :: _ => result = (false, settings)
  | some _ :: _ => GrowsSomewhere settings result.2

variable {conversions later : List (Option SettingsValue)} {settings : SettingsNode}

theorem ReadsAs.grows {result : Bool × SettingsNode} (reads : ReadsAs conversions settings result) :
    Grows settings result.2 := by
  cases conversions with
  | nil =>
      rw [show result = (true, settings) from reads]
      exact .refl settings
  | cons first rest =>
      cases first with
      | none =>
          rw [show result = (false, settings) from reads]
          exact .refl settings
      | some value => exact (show GrowsSomewhere settings result.2 from reads).1

/-- Going on after a first part reads what the first part reads and then the rest. -/
theorem ReadsAs.then {first result : Bool × SettingsNode}
    (reads : ReadsAs conversions settings first)
    (failed : first.1 = false → result = first)
    (succeeded : first.1 = true → ReadsAs later first.2 result) :
    ReadsAs (conversions ++ later) settings result := by
  cases conversions with
  | nil =>
      rcases show first = (true, settings) from reads with rfl
      exact succeeded rfl
  | cons head tail =>
      cases head with
      | none =>
          rcases show first = (false, settings) from reads with rfl
          exact failed rfl
      | some value =>
          have grows : GrowsSomewhere settings first.2 := reads
          cases outcome : first.1 with
          | false =>
              rw [failed outcome]
              exact grows
          | true => exact grows.then (succeeded outcome).grows

mutual

/-- Every node is read in document order. -/
theorem getSubTree_readsAs : (node : YamlNode) → (settings : SettingsNode) →
    (keys : SettingsKeys) →
    ReadsAs (readings asString node) settings (getSubTree asString node settings keys)
  | .null, _, _ => by
      rw [getSubTree, readings]
      rfl
  | .scalar text, settings, keys => by
      rw [getSubTree, readings]
      cases asString (.scalar text) with
      | none => rfl
      | some value => exact growsSomewhere_add settings keys value
  | .map entries, settings, keys => by
      rw [getSubTree, readings]
      exact getSubTreeOfEntries_readsAs entries settings keys
  | .sequence elements, settings, keys => by
      rw [getSubTree, readings]
      exact getSubTreeOfElements_readsAs elements settings keys

theorem getSubTreeOfEntries_readsAs : (entries : List (YamlNode × YamlNode)) →
    (settings : SettingsNode) → (keys : SettingsKeys) →
    ReadsAs (readingsOfEntries asString entries) settings
      (getSubTreeOfEntries asString entries settings keys)
  | [], _, _ => by
      rw [getSubTreeOfEntries, readingsOfEntries]
      rfl
  | (first, second) :: rest, settings, keys => by
      rw [getSubTreeOfEntries, readingsOfEntries]
      cases asString first with
      | none => rfl
      | some key =>
          have below := getSubTree_readsAs second (settings.add keys [key]) (keys ++ [key])
          have entry : ReadsAs (readings asString second ++ readingsOfEntries asString rest)
              (settings.add keys [key]) (match getSubTree asString second
                  (settings.add keys [key]) (keys ++ [key]) with
                | (true, filled) => getSubTreeOfEntries asString rest filled keys
                | (false, filled) => (false, filled)) := by
            cases read : getSubTree asString second (settings.add keys [key])
                (keys ++ [key]) with
            | mk success filled =>
                rw [read] at below
                cases success with
                | false => exact below.then (fun _ => rfl) nofun
                | true =>
                    exact below.then nofun fun _ =>
                      getSubTreeOfEntries_readsAs rest filled keys
          exact (growsSomewhere_add settings keys key).then entry.grows

theorem getSubTreeOfElements_readsAs : (elements : List YamlNode) →
    (settings : SettingsNode) → (keys : SettingsKeys) →
    ReadsAs (readingsOfElements asString elements) settings
      (getSubTreeOfElements asString elements settings keys)
  | [], _, _ => by
      rw [getSubTreeOfElements, readingsOfElements]
      rfl
  | element :: rest, settings, keys => by
      rw [getSubTreeOfElements, readingsOfElements]
      have below := getSubTree_readsAs element settings keys
      cases read : getSubTree asString element settings keys with
      | mk success filled =>
          rw [read] at below
          cases success with
          | false => exact below.then (fun _ => rfl) nofun
          | true =>
              exact below.then nofun fun _ => getSubTreeOfElements_readsAs rest filled keys

end

mutual

/-- A node is convertible when all its conversions succeed. -/
theorem convertible_iff : (node : YamlNode) →
    (convertible asString node = true ↔ none ∉ readings asString node)
  | .null => by simp [convertible, readings]
  | .scalar text => by
      rw [convertible, readings]
      cases asString (.scalar text) <;> simp
  | .map entries => by
      rw [convertible, readings]
      exact convertibleEntries_iff entries
  | .sequence elements => by
      rw [convertible, readings]
      exact convertibleElements_iff elements

theorem convertibleEntries_iff : (entries : List (YamlNode × YamlNode)) →
    (convertibleEntries asString entries = true ↔ none ∉ readingsOfEntries asString entries)
  | [] => by simp [convertibleEntries, readingsOfEntries]
  | (first, second) :: rest => by
      rw [convertibleEntries, readingsOfEntries, Bool.and_eq_true, Bool.and_eq_true,
        convertible_iff second, convertibleEntries_iff rest]
      cases asString first <;> simp

theorem convertibleElements_iff : (elements : List YamlNode) →
    (convertibleElements asString elements = true ↔
      none ∉ readingsOfElements asString elements)
  | [] => by simp [convertibleElements, readingsOfElements]
  | element :: rest => by
      rw [convertibleElements, readingsOfElements, Bool.and_eq_true, convertible_iff element,
        convertibleElements_iff rest, List.mem_append, not_or]

end

/-- A failed reading leaves the settings as they were exactly when nothing was converted
before the first key or scalar that is not a string. -/
theorem getTree_unaltered_iff (root : YamlNode) (keys : SettingsKeys)
    (settings : SettingsNode) :
    ((getTree asString root keys settings).1 = false →
        (getTree asString root keys settings).2 = settings) ↔
      ∀ node, getSubNode root keys = some node → node.size ≠ 0 →
        none ∈ readings asString node → (readings asString node).head? = some none := by
  rw [getTree]
  cases getSubNode root keys with
  | none => simp
  | some node =>
      dsimp only
      by_cases empty : node.size = 0
      · simp [empty]
      · have reads := getSubTree_readsAs asString node settings []
        have fails : (getSubTree asString node settings []).1 = false ↔
            none ∈ readings asString node := by
          rw [getSubTree_fst, ← Bool.not_eq_true, convertible_iff, not_not]
        have stops : (decide (node.size = 0) || node.isNull) = false := by
          simp [empty, node.isNull_of_size empty]
        have first : (none ∈ readings asString node →
            (getSubTree asString node settings []).2 = settings) ↔
              (none ∈ readings asString node →
                (readings asString node).head? = some none) := by
          cases conversions : readings asString node with
          | nil => simp
          | cons head tail =>
              rw [conversions] at reads
              cases head with
              | none =>
                  rw [show getSubTree asString node settings [] = (false, settings) from reads]
                  simp
              | some value =>
                  have grows : GrowsSomewhere settings
                    (getSubTree asString node settings []).2 := reads
                  simp [grows.ne]
        rw [if_neg (by simp [stops]), getNodeTree, fails, first]
        constructor
        · rintro condition _ same _
          rcases Option.some.inj same with rfl
          exact condition
        · intro condition
          exact condition node rfl empty

/-- A map whose second key is a sequence. -/
private def sequenceAsKey : YamlNode :=
  .map [(.scalar "commands", .map [(.scalar "build", .scalar "make"),
    (.sequence [.scalar "all"], .scalar "make")])]

/-- What was read before a key that is not a string stays in the settings. -/
theorem getTree_unaltered_counterexample :
    (getTree YamlNode.scalar? sequenceAsKey ["commands"] (SettingsNode.ofKey "root")).1 =
        false ∧
      (getTree YamlNode.scalar? sequenceAsKey ["commands"]
        (SettingsNode.ofKey "root")).2.getValues ["build"] = some ["make"] ∧
      (SettingsNode.ofKey "root").getValues ["build"] = none := by
  decide

end Readings

end ExecHelper.Yaml
