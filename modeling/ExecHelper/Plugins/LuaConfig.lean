import ExecHelper.Plugins.LuaPlugin

/-!
# Tables of the configuration object

Whether the children of a key become a map or an indexed list is decided by the
first child and then applied to all of them.  In a section in which only some
children have values, the first one decides between a table without the values and
an empty optional that is dereferenced.

Where no child has values, the table is an indexed list, and a script gets the values
back in their order.
-/

namespace ExecHelper.Plugins.LuaConfig

open ExecHelper.Library
open ExecHelper.Config
open ExecHelper.Core

variable {config : VariablesMap} {key : SettingsKey} {children rest : List SettingsNode}
variable {first : SettingsNode}

/-- The value a child carries, the last one if there are several. -/
def carriedValue (child : SettingsNode) : Option String :=
  child.values.bind List.getLast?

/-- The table has the value of every child that carries one, and if none does, it is the
list of the children with their indices. -/
structure Complete (children : List SettingsNode) (table : Table) : Prop where
  named : ∀ child ∈ children, ∀ value, carriedValue child = some value →
    table[child.mKey]? = some value
  indexed : (∀ child ∈ children, carriedValue child = none) → ∀ name value,
    table[name]? = some value ↔
      ∃ index : Nat, name = toString index ∧ (children.map SettingsNode.mKey)[index]? = some value

/-- The table under the key is computed, and nothing of the children is lost in it. -/
structure LosesNothing (config : VariablesMap) (key : SettingsKey) : Prop where
  computes : ∃ table, get config key = .ok table
  complete : ∀ children, config.subtree [key] = some children →
    ∃ table, get config key = .ok (some table) ∧ Complete children table

/-- The first child decides well. With values of its own, all children carry a value, and
those with the same name carry the same one; without, no child carries a value but one that
is named like the index of a child with the name of the value. -/
def FirstDecides : List SettingsNode → Prop
  | [] => True
  | first :: rest =>
      if first.mValues.isSome then
        ∀ child ∈ first :: rest, ∃ value,
          (FirstMatch.lookup SettingsNode.mKey child.mKey (first :: rest)).bind carriedValue =
            some value ∧ (carriedValue child = none ∨ carriedValue child = some value)
      else
        ∀ child ∈ first :: rest, ∀ value, carriedValue child = some value →
          ∃ index : Nat, child.mKey = toString index ∧
            ((first :: rest).map SettingsNode.mKey)[index]? = some value

/-! ## Indexed lists -/

/-- The values with their indices as keys. -/
def indexTable (values : List String) : Table :=
  values.zipIdx.foldl (fun table value => table.insert (toString value.2) value.1) ∅

/-- Different indices are written differently. -/
theorem toString_injective {left right : Nat} (same : toString left = toString right) :
    left = right := by
  have digits : Nat.toDigits 10 left = Nat.toDigits 10 right := by
    have texts := congrArg String.toList same
    rwa [Nat.toString_eq_repr, Nat.toString_eq_repr, Nat.toList_repr, Nat.toList_repr] at texts
  have read := congrArg (fun digits => Nat.ofDigitChars 10 digits 0) digits
  simpa only [Nat.ofDigitChars_ten_toDigits] using read

theorem indexTable_eq (values : List String) :
    indexTable values =
      OrderedMap.insertAll (values.zipIdx.map fun value => (toString value.2, value.1)) ∅ := by
  rw [indexTable, OrderedMap.insertAll, List.foldl_map]

theorem getElem?_indexTable (values : List String) (name value : String) :
    (indexTable values)[name]? = some value ↔
      ∃ index : Nat, name = toString index ∧ values[index]? = some value := by
  rw [indexTable_eq, OrderedMap.getElem?_insertAll_iff]
  · constructor
    · intro member
      rcases List.mem_map.mp member with ⟨⟨found, index⟩, inside, same⟩
      rcases Prod.mk.inj same with ⟨rfl, rfl⟩
      exact ⟨index, rfl, List.mk_mem_zipIdx_iff_getElem?.mp inside⟩
    · rintro ⟨index, rfl, found⟩
      exact List.mem_map.mpr ⟨(value, index), List.mk_mem_zipIdx_iff_getElem?.mpr found, rfl⟩
  · intro left leftMember right rightMember same
    rcases List.mem_map.mp leftMember with ⟨⟨leftValue, leftIndex⟩, leftInside, rfl⟩
    rcases List.mem_map.mp rightMember with ⟨⟨rightValue, rightIndex⟩, rightInside, rfl⟩
    have indices : leftIndex = rightIndex := toString_injective same
    subst indices
    rw [List.mk_mem_zipIdx_iff_getElem?] at leftInside rightInside
    exact Option.some.inj (leftInside.symm.trans rightInside)

/-! ## What the table is -/

section Table

variable {subnode : SettingsNode} {keys : SettingsKeys} {text : SettingsKey → String}

/-- One round of the loop that constructs a map. -/
private def insertText (subnode : SettingsNode) (table : Table) (value : SettingsKey) :
    Except Stop Table :=
  match subnode.getString [value] with
  | some text => pure (table.insert value text)
  | none => throw (.emptyOptional .luaConfig)

private theorem foldlM_insertText (table : Table)
    (present : ∀ key ∈ keys, subnode.getString [key] = some (text key)) :
    keys.foldlM (insertText subnode) table =
      .ok (OrderedMap.insertAll (keys.map fun key => (key, text key)) table) := by
  induction keys generalizing table with
  | nil => rfl
  | cons key rest inductionHypothesis =>
      rcases List.forall_mem_cons.mp present with ⟨here, later⟩
      rw [List.foldlM_cons, insertText, here]
      exact inductionHypothesis (table.insert key (text key)) later

private theorem foldlM_insertText_of_missing (table : Table) {key : SettingsKey}
    (member : key ∈ keys) (missing : subnode.getString [key] = none) :
    keys.foldlM (insertText subnode) table = .error (.emptyOptional .luaConfig) := by
  induction keys generalizing table with
  | nil => cases member
  | cons head rest inductionHypothesis =>
      rw [List.foldlM_cons, insertText]
      cases carried : subnode.getString [head] with
      | none => rfl
      | some found =>
          rcases List.mem_cons.mp member with rfl | inside
          · rw [missing] at carried
            cases carried
          · exact inductionHypothesis (table.insert head found) inside

theorem getString_singleton (carries : subnode.mValues = some children) (name : SettingsKey) :
    subnode.getString [name] =
      (FirstMatch.lookup SettingsNode.mKey name children).bind carriedValue := by
  rw [SettingsNode.getString, SettingsNode.get_eq, SettingsNode.atPath?_cons, SettingsNode.at?,
    carries, Option.getD_some, Option.bind_assoc]
  rfl

theorem get_of_missing (missing : config.subtree [key] = none) :
    ∃ table, get config key = .ok table := by
  rw [SettingsNode.subtree_singleton] at missing
  rw [get]
  cases found : config.at? key with
  | none => exact ⟨none, rfl⟩
  | some subnode =>
      rw [found, Option.bind_some] at missing
      refine ⟨some ∅, ?_⟩
      dsimp only
      rw [SettingsNode.values, missing]
      rfl

theorem get_of_nil (configured : config.subtree [key] = some []) :
    get config key = .ok (some ∅) := by
  rw [SettingsNode.subtree_singleton] at configured
  rcases Option.bind_eq_some_iff.mp configured with ⟨subnode, found, carries⟩
  rw [get, found]
  dsimp only
  rw [SettingsNode.values, carries]
  rfl

/-- The two constructions. -/
private theorem get_of_cons (configured : config.subtree [key] = some (first :: rest)) :
    ∃ subnode : SettingsNode, subnode.mValues = some (first :: rest) ∧
      get config key =
        if first.mValues.isSome then
          some <$> ((first :: rest).map SettingsNode.mKey).foldlM (insertText subnode) ∅
        else pure (some (indexTable ((first :: rest).map SettingsNode.mKey))) := by
  rw [SettingsNode.subtree_singleton] at configured
  rcases Option.bind_eq_some_iff.mp configured with ⟨subnode, found, carries⟩
  refine ⟨subnode, carries, ?_⟩
  have firstFound : subnode.at? first.mKey = some first := by
    rw [SettingsNode.at?, carries]
    exact FirstMatch.lookup_cons_self first rest
  rw [get, found]
  dsimp only
  rw [SettingsNode.values, carries, Option.map_some, List.map_cons]
  dsimp only
  rw [firstFound, Option.bind_some, SettingsNode.values, Option.isSome_map]
  split
  · rw [map_eq_pure_bind]
    rfl
  · rfl

end Table

/-! ## When nothing is lost -/

/-- The value the map has for a name. -/
private def textOf (children : List SettingsNode) (name : SettingsKey) : String :=
  ((FirstMatch.lookup SettingsNode.mKey name children).bind carriedValue).getD ""

/-- With a value for every name, the map is constructed. -/
private theorem get_of_values (configured : config.subtree [key] = some (first :: rest))
    (carries : first.mValues.isSome)
    (present : ∀ child ∈ first :: rest,
      ((FirstMatch.lookup SettingsNode.mKey child.mKey (first :: rest)).bind
        carriedValue).isSome) :
    ∃ table, get config key = .ok (some table) ∧ ∀ child ∈ first :: rest,
      table[child.mKey]? =
        (FirstMatch.lookup SettingsNode.mKey child.mKey (first :: rest)).bind carriedValue := by
  rcases get_of_cons configured with ⟨subnode, subnodeCarries, same⟩
  have texts : ∀ name ∈ (first :: rest).map SettingsNode.mKey,
      subnode.getString [name] = some (textOf (first :: rest) name) := by
    intro name member
    rcases List.mem_map.mp member with ⟨child, inside, rfl⟩
    rcases Option.isSome_iff_exists.mp (present child inside) with ⟨value, carried⟩
    rw [getString_singleton subnodeCarries, textOf, carried, Option.getD_some]
  rw [if_pos carries, foldlM_insertText ∅ texts] at same
  refine ⟨_, same, ?_⟩
  intro child member
  rcases Option.isSome_iff_exists.mp (present child member) with ⟨value, carried⟩
  rw [carried, OrderedMap.getElem?_insertAll_iff]
  · apply List.mem_map.mpr
    refine ⟨child.mKey, List.mem_map_of_mem member, ?_⟩
    rw [textOf, carried, Option.getD_some]
  · intro left leftMember right rightMember equal
    rcases List.mem_map.mp leftMember with ⟨leftName, _, rfl⟩
    rcases List.mem_map.mp rightMember with ⟨rightName, _, rfl⟩
    exact congrArg (textOf (first :: rest)) equal

theorem losesNothing_of_firstDecides
    (configured : config.subtree [key] = some (first :: rest))
    (decides : FirstDecides (first :: rest)) : LosesNothing config key := by
  have tabled : ∃ table, get config key = .ok (some table) ∧
      Complete (first :: rest) table := by
    rw [FirstDecides] at decides
    split at decides
    next carries =>
      have present : ∀ child ∈ first :: rest,
          ((FirstMatch.lookup SettingsNode.mKey child.mKey (first :: rest)).bind
            carriedValue).isSome := by
        intro child member
        rcases decides child member with ⟨value, carried, _⟩
        rw [carried]
        rfl
      rcases get_of_values configured carries present with ⟨table, computed, found⟩
      refine ⟨table, computed, ?_⟩
      constructor
      case named =>
        intro child member value own
        rcases decides child member with ⟨shared, carried, none | same⟩
        · rw [own] at none
          cases none
        · rw [found child member, carried, ← same, own]
      case indexed =>
        intro empty
        have firstMember : first ∈ first :: rest := List.mem_cons_self
        have carried := present first firstMember
        rw [FirstMatch.lookup_cons_self, Option.bind_some, empty first firstMember] at carried
        cases carried
    next plain =>
      rcases get_of_cons configured with ⟨subnode, _, same⟩
      rw [if_neg plain] at same
      refine ⟨_, same, ?_⟩
      constructor
      case named =>
        intro child member value own
        rw [getElem?_indexTable]
        exact decides child member value own
      case indexed =>
        intro _ name value
        exact getElem?_indexTable _ name value
  rcases tabled with ⟨table, computed, complete⟩
  constructor
  case computes => exact ⟨some table, computed⟩
  case complete =>
    intro children listed
    rcases Option.some.inj (configured.symm.trans listed) with rfl
    exact ⟨table, computed, complete⟩

/-- A map is constructed only with a value for every name. -/
theorem isSome_of_computed (configured : config.subtree [key] = some (first :: rest))
    (carries : first.mValues.isSome) {table : Option Table}
    (computed : get config key = .ok table) : ∀ child ∈ first :: rest,
      ((FirstMatch.lookup SettingsNode.mKey child.mKey (first :: rest)).bind
        carriedValue).isSome := by
  rcases get_of_cons configured with ⟨subnode, subnodeCarries, same⟩
  intro child member
  by_contra missing
  have absent : subnode.getString [child.mKey] = none := by
    rw [getString_singleton subnodeCarries]
    simpa using missing
  rw [if_pos carries,
    foldlM_insertText_of_missing ∅ (List.mem_map_of_mem member) absent, computed] at same
  cases same

/-- A table is computed unless the first child has values and another name has none. -/
theorem exists_get_iff (config : VariablesMap) (key : SettingsKey) :
    (∃ table, get config key = .ok table) ↔
      ∀ first rest, config.subtree [key] = some (first :: rest) → first.mValues.isSome →
        ∀ child ∈ first :: rest,
          ((FirstMatch.lookup SettingsNode.mKey child.mKey (first :: rest)).bind
            carriedValue).isSome := by
  constructor
  · rintro ⟨table, computed⟩ first rest configured carries
    exact isSome_of_computed configured carries computed
  · intro present
    cases configured : config.subtree [key] with
    | none => exact get_of_missing configured
    | some children =>
        cases children with
        | nil => exact ⟨some ∅, get_of_nil configured⟩
        | cons first rest =>
            by_cases carries : first.mValues.isSome
            · obtain ⟨table, computed, -⟩ :=
                get_of_values configured carries (present first rest configured carries)
              exact ⟨some table, computed⟩
            · obtain ⟨_, _, same⟩ := get_of_cons configured
              rw [if_neg carries] at same
              exact ⟨_, same⟩

theorem firstDecides_of_losesNothing
    (configured : config.subtree [key] = some (first :: rest))
    (keeps : LosesNothing config key) : FirstDecides (first :: rest) := by
  rcases keeps.complete (first :: rest) configured with ⟨table, computed, complete⟩
  rw [FirstDecides]
  split
  next carries =>
    have present := isSome_of_computed configured carries computed
    rcases get_of_values configured carries present with ⟨constructed, same, found⟩
    rw [computed] at same
    rcases Except.ok.inj same with ⟨rfl⟩
    intro child member
    rcases Option.isSome_iff_exists.mp (present child member) with ⟨value, carried⟩
    refine ⟨value, carried, ?_⟩
    cases own : carriedValue child with
    | none => exact Or.inl rfl
    | some ownValue =>
        have kept := complete.named child member ownValue own
        rw [found child member, carried] at kept
        exact Or.inr kept.symm
  next plain =>
    rcases get_of_cons configured with ⟨subnode, _, same⟩
    rw [if_neg plain, computed] at same
    rcases Except.ok.inj same with ⟨rfl⟩
    intro child member value own
    rw [← getElem?_indexTable]
    exact complete.named child member value own

/-- The table under a key is computed and complete exactly when the first child decides
well. -/
theorem losesNothing_iff (config : VariablesMap) (key : SettingsKey) :
    LosesNothing config key ↔
      ∀ children, config.subtree [key] = some children → FirstDecides children := by
  constructor
  · intro keeps children configured
    cases children with
    | nil => trivial
    | cons first rest => exact firstDecides_of_losesNothing configured keeps
  · intro decides
    cases configured : config.subtree [key] with
    | none =>
        constructor
        case computes => exact get_of_missing configured
        case complete =>
          intro children listed
          rw [configured] at listed
          cases listed
    | some children =>
        cases children with
        | nil =>
            constructor
            case computes => exact ⟨some ∅, get_of_nil configured⟩
            case complete =>
              intro children listed
              rcases Option.some.inj (configured.symm.trans listed) with rfl
              refine ⟨∅, get_of_nil configured, ?_⟩
              constructor
              case named => exact fun _ member => nomatch member
              case indexed => simp
        | cons first rest => exact losesNothing_of_firstDecides configured (decides _ configured)

/-- An option without a value, behind and before one with a value. -/
theorem losesNothing_counterexample :
    ¬LosesNothing
        ⟨"make", some [⟨"defines", some [⟨"MODE", some [.ofKey "debug"]⟩, .ofKey "TEST"]⟩]⟩
        "defines" ∧
      ¬LosesNothing
        ⟨"make", some [⟨"defines", some [.ofKey "TEST", ⟨"MODE", some [.ofKey "debug"]⟩]⟩]⟩
        "defines" := by
  constructor
  · intro keeps
    rcases keeps.computes with ⟨table, computed⟩
    cases computed
  · intro keeps
    rcases keeps.complete _ rfl with ⟨table, computed, complete⟩
    have constructed : indexTable ["TEST", "MODE"] = table :=
      Option.some.inj (Except.ok.inj computed)
    have kept := complete.named ⟨"MODE", some [.ofKey "debug"]⟩
      (List.mem_pair.mpr (Or.inr rfl)) "debug" rfl
    rw [← constructed, getElem?_indexTable] at kept
    rcases kept with ⟨index, _, found⟩
    exact absurd (List.mem_of_getElem? found) (by decide)

/-! ## Lists of values -/

/-- What a script gets for `list(config[key])`. -/
def listOf (config : VariablesMap) (key : SettingsKey) :
    Except Stop (Except Unit (Option (List (Nat × String)))) :=
  list <$> get config key

/-- The values with the numbers from one on. -/
def numbered (values : List String) : List (Nat × String) :=
  (List.range' 1 values.length).zip values

section List

variable {table : Table}

/-- The loop gives the values numbers as long as no lookup fails. -/
theorem foldlM_appendNumbered {values : List String} {offset : Nat}
    (found : ∀ index : Nat, index < values.length →
      table[toString (offset + index)]? = values[index]?)
    (number : Nat) (before : List (Nat × String)) :
    (List.range' offset values.length).foldlM (appendNumbered table) (number, before) =
      pure (number + values.length,
        before ++ (List.range' number values.length).zip values) := by
  induction values generalizing offset number before with
  | nil => simp
  | cons value rest inductionHypothesis =>
      have here := found 0 (Nat.succ_pos _)
      rw [Nat.add_zero, List.getElem?_cons_zero] at here
      have later : ∀ index : Nat, index < rest.length →
          table[toString (offset + 1 + index)]? = rest[index]? := by
        intro index inside
        have next := found (index + 1) (Nat.succ_lt_succ inside)
        rw [List.getElem?_cons_succ, ← Nat.add_assoc, Nat.add_right_comm] at next
        exact next
      rw [List.length_cons, List.range'_succ, List.foldlM_cons, appendNumbered, here]
      refine (inductionHypothesis later (number + 1) _).trans ?_
      rw [List.range'_succ, List.zip_cons_cons, List.append_assoc, Nat.add_right_comm]
      rfl

theorem indexTable_keys_nodup (values : List String) :
    ((values.zipIdx.map fun value => (toString value.2, value.1)).map Prod.fst).Nodup := by
  rw [List.map_map]
  have keys : values.zipIdx.map (Prod.fst ∘ fun value => (toString value.2, value.1)) =
      (List.range' 0 values.length).map toString := by
    rw [← List.zipIdx_map_snd, List.map_map]
    rfl
  rw [keys]
  exact List.Nodup.map (fun _ _ => toString_injective) List.nodup_range'

/-- No index is lost, and none is there twice. -/
theorem size_indexTable (values : List String) : (indexTable values).size = values.length := by
  rw [indexTable_eq, OrderedMap.size_insertAll (indexTable_keys_nodup values), List.length_map,
    List.length_zipIdx]

theorem getElem?_indexTable_toString (values : List String) (index : Nat) :
    (indexTable values)[toString index]? = values[index]? := by
  apply Option.ext
  intro value
  rw [getElem?_indexTable]
  constructor
  · intro found
    obtain ⟨other, same, read⟩ := found
    rw [toString_injective same]
    exact read
  · exact fun read => ⟨index, rfl, read⟩

/-- The list of an indexed table has its values in their order. -/
theorem list_indexTable (values : List String) :
    list (some (indexTable values)) = .ok (some (numbered values)) := by
  have found : ∀ index : Nat, index < values.length →
      (indexTable values)[toString (0 + index)]? = values[index]? := by
    intro index _
    rw [Nat.zero_add, getElem?_indexTable_toString]
  rw [list, size_indexTable, List.range_eq_range', foldlM_appendNumbered found]
  rfl

end List

/-- Plain values come out as they were configured, numbered without gaps. No lookup fails. -/
theorem listOf_plain (config : VariablesMap) (key : SettingsKey) (subnode : SettingsNode)
    (found : config.at? key = some subnode)
    (plain : ∀ child ∈ subnode.mValues.getD [], child.mValues = none) :
    listOf config key =
      .ok (.ok (some (numbered ((subnode.mValues.getD []).map SettingsNode.mKey)))) := by
  have indexed : get config key =
      .ok (some (indexTable ((subnode.mValues.getD []).map SettingsNode.mKey))) := by
    have listed : config.subtree [key] = subnode.mValues := by
      rw [SettingsNode.subtree_singleton, found]
      rfl
    cases carries : subnode.mValues with
    | none =>
        rw [get, found]
        dsimp only
        rw [SettingsNode.values, carries]
        rfl
    | some children =>
        rw [carries] at listed plain
        cases children with
        | nil => exact get_of_nil listed
        | cons first rest =>
            obtain ⟨_, _, same⟩ := get_of_cons listed
            rw [same, if_neg]
            · rfl
            · rw [plain first List.mem_cons_self]
              exact Bool.false_ne_true
  rw [listOf, indexed]
  exact congrArg Except.ok (list_indexTable _)

/-- A value that is there twice is listed twice. -/
theorem listOf_plain_repeated :
    listOf ⟨"clang-tidy", some [⟨"checks", some [.ofKey "all", .ofKey "all"]⟩]⟩ "checks" =
      .ok (.ok (some [(1, "all"), (2, "all")])) := by
  apply listOf_plain _ _ ⟨"checks", some [.ofKey "all", .ofKey "all"]⟩ rfl
  intro child member
  obtain rfl | rfl := List.mem_pair.mp member <;> rfl

end ExecHelper.Plugins.LuaConfig
