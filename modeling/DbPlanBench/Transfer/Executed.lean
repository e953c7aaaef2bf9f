import DbPlanBench.Engine.Denotation
import DbPlanBench.Transfer.Identity
import DbPlanBench.Transfer.RefsOrder
import DbPlanBench.Transfer.Root

/-!
# A transferred plan is executed as the same operators

A transfer rewrites JSON; what counts is the plan that the engine makes of it. If the engine
executes the SF1 document, it executes the SF2 document too, as the same tree of operators
with every scan replaced by the scan that it is paired with (`transferPlan_executes`).

* `renameRefs_encodeNode` — a stored operator that is renamed is the same operator, stored with
  the renamed child ids.
* `definedAs_renamed` — every definition of the SF1 graph is carried over to the SF2 graph; the
  trees follow by `GraphTree.Denotes.carry`.
-/

namespace DbPlanBench.Transfer

open Engine GraphTree Paths

variable {Op : Type}

/-! ## A renamed operator -/

theorem get?_renameRefsFields (σ : Int → Option Int) (k : String) (kvs : List (String × Json)) :
    OrdDict.get? (renameRefsFields σ kvs) k = (OrdDict.get? kvs k).map (renamedField σ k) := by
  rw [renameRefsFields_eq_map]
  induction kvs with
  | nil => rfl
  | cons p kvs ih =>
    rw [List.map_cons, OrdDict.get?, OrdDict.get?, ih]
    by_cases hp : p.1 = k
    · rw [if_pos hp, if_pos hp, hp]
      rfl
    · rw [if_neg hp, if_neg hp]

section

variable {σ : Int → Option Int} {τ : Nat → Nat} {ids : List Nat}

/-- A list of renamed child ids. -/
theorem renamedField_inputs (hτ : ∀ c ∈ ids, renameRef σ (jsonId c) = jsonId (τ c)) :
    renamedField σ "inputs" (.arr (ids.map jsonId)) = .arr ((ids.map τ).map jsonId) := by
  have hints : refList? "inputs" (.arr (ids.map jsonId)) = some (ids.map jsonId) := by
    rw [refList?, if_pos (by decide), intishList?_eq_some]
    refine ⟨rfl, fun x hx => ?_⟩
    obtain ⟨c, _, rfl⟩ := List.mem_map.mp hx
    rfl
  rw [renamedField, if_neg (by decide), hints]
  show Json.arr ((ids.map jsonId).map (renameRef σ)) = _
  rw [List.map_map, List.map_map]
  exact congrArg Json.arr (List.map_congr_left hτ)

/-- **Renaming a configuration renames the child ids in it**, if nothing else in it is renamed. -/
theorem renameRefsFields_fill {s : ChildShape} {conf : List (String × Json)} (h : HasShape s conf)
    (ha : s.Arity ids.length) (hτ : ∀ c ∈ ids, renameRef σ (jsonId c) = jsonId (τ c))
    (hown : ∀ k v, k ∉ childFields → OrdDict.get? conf k = some v → renamedField σ k v = v) :
    renameRefsFields σ (s.fill (ids.map jsonId) conf) = s.fill ((ids.map τ).map jsonId) conf := by
  have hkeys := keys_fill h (ids.map jsonId)
  refine OrdDict.ext_get? ?_ ?_ fun k => ?_
  · rw [keys_renameRefsFields, hkeys]
    exact h.nodup
  · rw [keys_renameRefsFields, hkeys, keys_fill h]
  · rw [get?_renameRefsFields]
    -- a field that the shape does not fill has no child in it, or is not there
    have hkeep : k ∉ s.fields → (OrdDict.get? conf k).map (renamedField σ k) =
        OrdDict.get? conf k := by
      intro hk
      cases hv : OrdDict.get? conf k with
      | none => rfl
      | some v =>
        refine congrArg some (hown k v (fun hchild => hk ?_) hv)
        exact (h.fields k hchild).mp (OrdDict.get?_isSome.mp ⟨v, hv⟩)
    cases s with
    | input =>
      obtain ⟨a, rfl⟩ := List.length_eq_one_iff.mp ha
      show (OrdDict.get? (OrdDict.set conf "input" (jsonId a)) k).map _ =
        OrdDict.get? (OrdDict.set conf "input" (jsonId (τ a))) k
      rw [OrdDict.get?_set, OrdDict.get?_set]
      by_cases hk : "input" = k
      · subst hk
        rw [if_pos rfl, if_pos rfl, Option.map_some, renamedField, if_pos (by decide),
          hτ a (List.mem_singleton.mpr rfl)]
      · rw [if_neg hk, if_neg hk]
        exact hkeep fun hmem => hk (List.mem_singleton.mp hmem).symm
    | binary =>
      obtain ⟨a, b, rfl⟩ := List.length_eq_two.mp ha
      show (OrdDict.get? (OrdDict.set (OrdDict.set conf "left" (jsonId a)) "right" (jsonId b)) k).map
        _ = OrdDict.get? (OrdDict.set (OrdDict.set conf "left" (jsonId (τ a))) "right"
          (jsonId (τ b))) k
      rw [OrdDict.get?_set, OrdDict.get?_set, OrdDict.get?_set, OrdDict.get?_set]
      by_cases hr : "right" = k
      · subst hr
        rw [if_pos rfl, if_pos rfl, Option.map_some, renamedField, if_pos (by decide),
          hτ b (List.mem_cons_of_mem _ (List.mem_singleton.mpr rfl))]
      · rw [if_neg hr, if_neg hr]
        by_cases hl : "left" = k
        · subst hl
          rw [if_pos rfl, if_pos rfl, Option.map_some, renamedField, if_pos (by decide),
            hτ a (List.mem_cons_self ..)]
        · rw [if_neg hl, if_neg hl]
          refine hkeep fun hmem => ?_
          rcases List.mem_cons.mp hmem with he | hmem
          · exact hl he.symm
          · exact hr (List.mem_singleton.mp hmem).symm
    | inputs =>
      show (OrdDict.get? (OrdDict.set conf "inputs" (.arr (ids.map jsonId))) k).map _ =
        OrdDict.get? (OrdDict.set conf "inputs" (.arr ((ids.map τ).map jsonId))) k
      rw [OrdDict.get?_set, OrdDict.get?_set]
      by_cases hk : "inputs" = k
      · subst hk
        rw [if_pos rfl, if_pos rfl, Option.map_some, renamedField_inputs hτ]
      · rw [if_neg hk, if_neg hk]
        exact hkeep fun hmem => hk (List.mem_singleton.mp hmem).symm

end

/-! ## A node of the structure that stores an operator -/

theorem checkedOnlyField_canonical {k : String} {v : Json} (h : checkedOnlyField k v = []) :
    checkedOnlyField k (canonical v) = [] := by
  rw [checkedOnlyField] at h ⊢
  rw [isIntish_canonical, refList?_canonical]
  by_cases hs : k ∈ refKeysScalar ∧ isIntish v = true
  · rw [if_pos hs] at h ⊢
    rwa [canonical_of_isIntish hs.2]
  · rw [if_neg hs] at h ⊢
    cases hl : refList? k v with
    | some xs =>
      rw [hl] at h
      exact h
    | none =>
      rw [hl] at h
      have hnone := List.map_eq_nil_iff.mp h
      refine List.map_eq_nil_iff.mpr (List.eq_nil_iff_forall_not_mem.mpr fun p hp => ?_)
      rw [mem_walkRefs_canonical, hnone] at hp
      exact List.not_mem_nil hp

/-- A field that holds no reference is not renamed. -/
theorem renamedField_eq_self {σ : Int → Option Int} {k : String} {v : Json}
    (hk : k ∉ childFields) (h : checkedOnlyField k v = []) : renamedField σ k v = v := by
  have hscalar : k ∉ refKeysScalar := by
    intro hmem
    refine hk ?_
    simp only [refKeysScalar, List.mem_cons, List.not_mem_nil, or_false] at hmem
    rcases hmem with rfl | rfl | rfl <;> decide
  have hinputs : k ≠ "inputs" := by
    intro he
    exact hk (he ▸ by decide)
  rw [checkedOnlyField, if_neg fun hs => hscalar hs.1] at h
  rw [renamedField, if_neg hscalar]
  cases hl : refList? k v with
  | some xs =>
    rw [hl] at h
    have hnil : (if k = "inputs" then xs.filter fun x => (asU64 x).isNone else xs) = [] := h
    rw [if_neg hinputs] at hnil
    rw [(refList?_eq_some hl).1, hnil]
    rfl
  | none =>
    rw [hl] at h
    refine renameRefs_eq_self v fun p hp => ?_
    have hw := (mem_walkRefs p v).mpr (Or.inl hp)
    rw [List.map_eq_nil_iff.mp h] at hw
    exact absurd hw List.not_mem_nil

/-! ## The nodes of a document -/

/-- What the engine reads of an entry of `structure`. -/
def structureNode (id : Nat) (v : Json) : ParsedNode :=
  { id, nodeData := canonical v, childIds := extractChildIds (canonical v), isParquetScan := false }

/-- What the engine reads of an entry of `full_table_info`. -/
def tableNode (id : Nat) (t : Json) : ParsedNode :=
  { id, nodeData := index (canonical t) "node", childIds := [], isParquetScan := true }

section

variable {plan : List (String × Json)} {tables : List Json} {nodes : List ParsedNode}

theorem mem_parsedNodes (hp : EnginePlan plan) (hf : (Json.arr tables).NodupKeys)
    (h : parseNodes (planDocument plan (.arr tables)) = .ok nodes) {n : ParsedNode} :
    n ∈ nodes ↔ (∃ v, (toString n.id, v) ∈ plan ∧ n = structureNode n.id v) ∨
      ∃ t ∈ tables, asU64 (index t "id") = some n.id ∧ n = tableNode n.id t := by
  rw [parseNodes_planDocument] at h
  obtain ⟨regular, hregular, h⟩ := Except.bind_eq_ok.mp h
  obtain ⟨parquet, hparquet, h⟩ := Except.bind_eq_ok.mp h
  injection (show (Except.ok (regular ++ parquet) : Except String _) = .ok nodes from h) with h
  have hperm := sortFields_canonicalFields_perm plan
  have hentry : ∀ p ∈ plan, ∀ n, parseStructureNode (p.1, canonical p.2) = .ok n ↔
      p.1 = toString n.id ∧ n = structureNode n.id p.2 := by
    intro p hp' n
    obtain ⟨i, hi, hk⟩ := hp.key p hp'
    rw [parseStructureNode, hk, parseUsize_toString hi]
    show (Except.ok (structureNode i p.2) : Except String ParsedNode) = .ok n ↔ _
    rw [Except.ok.injEq]
    constructor
    · rintro rfl
      exact ⟨rfl, rfl⟩
    · intro h
      rw [Py.toString_injective h.1]
      exact h.2.symm
  rw [← h, List.mem_append]
  refine or_congr ⟨fun hn => ?_, fun hn => ?_⟩ ⟨fun hn => ?_, fun hn => ?_⟩
  · obtain ⟨e, he, hen⟩ := Except.mem_of_mapM hregular hn
    obtain ⟨p, hp', rfl⟩ := List.mem_map.mp (hperm.mem_iff.mp he)
    obtain ⟨hk, hn⟩ := (hentry p hp' n).mp hen
    exact ⟨p.2, hk ▸ hp', hn⟩
  · obtain ⟨v, hv, he⟩ := hn
    obtain ⟨n', hn', hparse⟩ := Except.ok_of_mapM hregular (toString n.id, canonical v)
      (hperm.mem_iff.mpr (List.mem_map_of_mem hv))
    rw [(hentry _ hv n).mpr ⟨rfl, he⟩] at hparse
    injection hparse with hparse
    exact hparse ▸ hn'
  · obtain ⟨e, he, hen⟩ := Except.mem_of_mapM hparquet hn
    rw [canonicalList_eq_map] at he
    obtain ⟨t, ht, rfl⟩ := List.mem_map.mp he
    obtain ⟨id, hid, rfl⟩ := (parseParquetNode_canonical (Json.nodupKeys_arr.mp hf t ht)).mp hen
    exact ⟨t, ht, hid, rfl⟩
  · obtain ⟨t, ht, hid, he⟩ := hn
    obtain ⟨n', hn', hparse⟩ := Except.ok_of_mapM hparquet (canonical t)
      (by rw [canonicalList_eq_map]; exact List.mem_map_of_mem ht)
    rw [(parseParquetNode_canonical (Json.nodupKeys_arr.mp hf t ht)).mpr ⟨n.id, hid, he⟩] at hparse
    injection hparse with hparse
    exact hparse ▸ hn'

theorem mem_tableIds {id : Nat} :
    id ∈ tableIds tables ↔ ∃ t ∈ tables, asU64 (index t "id") = some id := List.mem_filterMap

/-- A node of the structure is found under its id, unless it is that of a scan. -/
theorem get?_nodeMap_structure (hp : EnginePlan plan) (hf : (Json.arr tables).NodupKeys)
    (h : parseNodes (planDocument plan (.arr tables)) = .ok nodes) {id : Nat} {v : Json}
    (hv : (toString id, v) ∈ plan) (hid : id ∉ tableIds tables) :
    OrdDict.get? (nodeMap nodes) id = some (structureNode id v) := by
  have hmem := (mem_parsedNodes hp hf h (n := structureNode id v)).mpr (Or.inl ⟨v, hv, rfl⟩)
  obtain ⟨n, hn⟩ := get?_nodeMap_isSome.mpr ⟨_, hmem, rfl⟩
  obtain ⟨hnodes, hnid⟩ := mem_of_get?_nodeMap hn
  have hnid : n.id = id := hnid
  rw [show (structureNode id v).id = id from rfl] at hn
  rcases (mem_parsedNodes hp hf h).mp hnodes with ⟨w, hw, he⟩ | ⟨t, ht, htid, _⟩
  · rw [hnid] at hw he
    have hnd := (Json.nodupKeys_obj.mp hp.nodup).1
    have hwv : some w = some v := by
      rw [← OrdDict.get?_of_mem hnd hw, OrdDict.get?_of_mem hnd hv]
    injection hwv with hwv
    rw [hn, he, hwv]
  · exact absurd (mem_tableIds.mpr ⟨t, ht, hnid ▸ htid⟩) hid

/-- A scan is found under its id, unless it is that of a node. -/
theorem get?_nodeMap_table (hp : EnginePlan plan) (hf : (Json.arr tables).NodupKeys)
    (h : parseNodes (planDocument plan (.arr tables)) = .ok nodes) {id : Nat}
    (hid : id ∈ tableIds tables) (hkey : toString id ∉ OrdDict.keys plan) :
    ∃ t ∈ tables, asU64 (index t "id") = some id ∧
      OrdDict.get? (nodeMap nodes) id = some (tableNode id t) := by
  obtain ⟨t, ht, htid⟩ := mem_tableIds.mp hid
  have hmem := (mem_parsedNodes hp hf h (n := tableNode id t)).mpr (Or.inr ⟨t, ht, htid, rfl⟩)
  obtain ⟨n, hn⟩ := get?_nodeMap_isSome.mpr ⟨_, hmem, rfl⟩
  obtain ⟨hnodes, hnid⟩ := mem_of_get?_nodeMap hn
  have hnid : n.id = id := hnid
  rcases (mem_parsedNodes hp hf h).mp hnodes with ⟨w, hw, _⟩ | ⟨t', ht', htid', he⟩
  · exact absurd (OrdDict.mem_keys_of_mem (hnid ▸ hw)) hkey
  · rw [hnid] at htid' he
    exact ⟨t', ht', htid', by rw [← he]; exact hn⟩

end

/-! ## Stored operators -/

section

variable {frame : Op → Json} {op : Op} {id : Nat} {v : Json}

/-- The fields of a node that stores an operator are those of the operator, with the child ids. -/
theorem storedNode_fields (hs : StoredNode frame (structureNode id v) op)
    (hsingle : ∃ q, v = .obj [q]) : ∃ o kvs conf, v = .obj [(o, .obj kvs)] ∧
      frame op = .obj [(o, .obj conf)] ∧
      ((extractChildIds (canonical v) = [] ∧ sortFields (canonicalFields kvs) = conf ∧
          ∀ k ∈ childFields, k ∉ OrdDict.keys conf) ∨
        (extractChildIds (canonical v) ≠ [] ∧
          HasShape (shapeFor (extractChildIds (canonical v)).length) conf ∧
          sortFields (canonicalFields kvs) = (shapeFor (extractChildIds (canonical v)).length).fill
            ((extractChildIds (canonical v)).map jsonId) conf)) := by
  obtain ⟨⟨o, c⟩, rfl⟩ := hsingle
  have hdata : Json.obj [(o, canonical c)] =
      encodeNode (frame op) (extractChildIds (canonical (.obj [(o, c)]))) := hs.data
  have hshape := hs.shape
  have hids : (structureNode id (.obj [(o, c)])).childIds =
      extractChildIds (canonical (.obj [(o, c)])) := rfl
  rw [hids] at hshape
  generalize extractChildIds (canonical (.obj [(o, c)])) = ids at hdata hshape ⊢
  -- what is stored is an object under the operator's name
  have hobj : ∀ {o' : String} {fields : List (String × Json)},
      Json.obj [(o, canonical c)] = .obj [(o', .obj fields)] →
        o' = o ∧ ∃ kvs, c = .obj kvs ∧ sortFields (canonicalFields kvs) = fields := by
    intro o' fields he
    injection he with he
    injection he with he _
    injection he with ho hc
    cases c with
    | obj kvs =>
      injection hc with hc
      exact ⟨ho.symm, kvs, rfl, hc⟩
    | _ => exact absurd hc (by simp [canonical])
  rcases hshape with ⟨hnil, hleaf⟩ | ⟨hne, hop⟩
  · rw [hnil, encodeNode_leaf hleaf] at hdata
    obtain ⟨o', conf, hframe, hnone⟩ := hleaf
    obtain ⟨rfl, kvs, rfl, hfields⟩ := hobj (hdata.trans hframe)
    exact ⟨o', kvs, conf, rfl, hframe, Or.inl ⟨hnil, hfields, hnone⟩⟩
  · obtain ⟨o', conf, hframe, hshape⟩ := hop
    have hpos : ids.length ≠ 0 := fun h => hne (List.length_eq_zero_iff.mp h)
    have henc : encodeNode (frame op) ids =
        .obj [(o', .obj ((shapeFor ids.length).fill (ids.map jsonId) conf))] := by
      rw [hframe, ← writeChildIds_eq hshape (agrees_shapeFor hpos)]
      rfl
    obtain ⟨rfl, kvs, rfl, hfields⟩ := hobj (hdata.trans henc)
    exact ⟨o', kvs, conf, rfl, hframe, Or.inr ⟨hne, hshape, hfields⟩⟩

/-- The engine follows no integer of a stored operator that Python does not check. -/
theorem engineOnly_of_storedNode (hs : StoredNode frame (structureNode id v) op)
    (hsingle : ∃ q, v = .obj [q]) (hnd : v.NodupKeys) : engineOnly v = [] := by
  obtain ⟨o, kvs, conf, rfl, _, hfields⟩ := storedNode_fields hs hsingle
  have hconf : (Json.obj kvs).NodupKeys :=
    (Json.nodupKeys_obj.mp hnd).2 (o, .obj kvs) (List.mem_singleton.mpr rfl)
  have hkeys := (Json.nodupKeys_obj.mp hconf).1
  refine List.flatMap_eq_nil_iff.mpr fun q hq => ?_
  rw [engineOnlyField]
  by_cases hk : q.1 = "inputs"
  · have hget : OrdDict.get? (sortFields (canonicalFields kvs)) "inputs" = some (canonical q.2) := by
      rw [get?_sortFields hkeys, OrdDict.get?_of_mem hkeys (show ("inputs", q.2) ∈ kvs from hk ▸ hq)]
      rfl
    -- the list of a stored operator holds its child ids
    have hlist : ∃ ids : List Nat, canonical q.2 = .arr (ids.map jsonId) := by
      generalize extractChildIds (canonical (.obj [(o, .obj kvs)])) = ids at hfields
      rcases hfields with ⟨_, hfields, hnone⟩ | ⟨_, hshape, hfields⟩
      · rw [hfields, OrdDict.get?_eq_none.mpr (hnone "inputs" (by decide))] at hget
        exact absurd hget (by simp)
      · have hmem := (hshape.fields "inputs" (by decide)).mp (by
          rw [← keys_fill hshape (ids.map jsonId), ← hfields]
          exact OrdDict.get?_isSome.mp ⟨_, hget⟩)
        cases hshapeFor : shapeFor ids.length with
        | inputs =>
          rw [hfields, hshapeFor] at hget
          have hset : OrdDict.get? (OrdDict.set conf "inputs" (.arr (ids.map jsonId))) "inputs" =
            some (canonical q.2) := hget
          rw [OrdDict.get?_set_self] at hset
          injection hset with hset
          exact ⟨ids, hset.symm⟩
        | _ =>
          rw [hshapeFor] at hmem
          exact absurd hmem (by decide)
    obtain ⟨ids, hlist⟩ := hlist
    have hints : intishList? q.2 = some (ids.map jsonId) := by
      rw [← intishList?_canonical, hlist, intishList?_eq_some]
      refine ⟨rfl, fun x hx => ?_⟩
      obtain ⟨c, _, rfl⟩ := List.mem_map.mp hx
      rfl
    rw [if_neg]
    rw [hints]
    exact fun h => Bool.false_ne_true h.2
  · rw [if_neg fun h => hk h.1]

/-- A node whose operator has the name of a field for children has none, without nested
references. -/
theorem extractChildIds_of_scalar {o : String} {kvs : List (String × Json)}
    (ho : o ∈ refKeysScalar) (hnd : (Json.obj kvs).NodupKeys)
    (hnested : nestedRefs (.obj [(o, .obj kvs)]) = [])
    (hmixed : engineOnly (.obj [(o, .obj kvs)]) = []) :
    extractChildIds (.obj [(o, .obj kvs)]) = [] := by
  have hwalk : walkRefs (.obj [(o, .obj kvs)]) = [] := by
    rw [walkRefs_operator]
    show walkRefs (.obj kvs) = []
    simpa [nestedRefs, nestedRefsFields, ho, isIntish, Json.asInt] using hnested
  have hperm := nodeChildren_perm o hnd
  rw [checkedIds, hwalk, hmixed] at hperm
  exact List.map_eq_nil_iff.mp (List.append_eq_nil_iff.mp (List.nil_perm.mp hperm)).1

theorem get?_fill_of_not_mem (s : ChildShape) (cs : List Json) (conf : List (String × Json))
    {k : String} (hk : k ∉ childFields) : OrdDict.get? (s.fill cs conf) k = OrdDict.get? conf k := by
  have hne : ∀ j ∈ childFields, ¬ j = k := by
    intro j hj he
    exact hk (he ▸ hj)
  unfold ChildShape.fill
  split
  next => rw [OrdDict.get?_set, if_neg (hne "input" (by decide))]
  next =>
    rw [OrdDict.get?_set, if_neg (hne "right" (by decide)), OrdDict.get?_set,
      if_neg (hne "left" (by decide))]
  next => rw [OrdDict.get?_set, if_neg (hne "inputs" (by decide))]
  next => rfl

/-- The fields of a stored operator, renamed. -/
theorem renameRefsFields_stored {σ : Int → Option Int} {τ : Nat → Nat} {ids : List Nat} {o : String}
    {conf fields : List (String × Json)} (hframe : frame op = .obj [(o, .obj conf)])
    (hfields : (ids = [] ∧ fields = conf ∧ ∀ k ∈ childFields, k ∉ OrdDict.keys conf) ∨
      (ids ≠ [] ∧ HasShape (shapeFor ids.length) conf ∧
        fields = (shapeFor ids.length).fill (ids.map jsonId) conf))
    (hnd : (OrdDict.keys fields).Nodup)
    (hself : ∀ k w, k ∉ childFields → OrdDict.get? fields k = some w → renamedField σ k w = w)
    (hτ : ∀ c ∈ ids, renameRef σ (jsonId c) = jsonId (τ c)) :
    Json.obj [(o, .obj (renameRefsFields σ fields))] = encodeNode (frame op) (ids.map τ) := by
  rcases hfields with ⟨rfl, rfl, hnone⟩ | ⟨hne, hshape, rfl⟩
  · -- a leaf has no field to rename
    rw [List.map_nil, encodeNode_leaf ⟨o, fields, hframe, hnone⟩, hframe]
    refine congrArg (fun c => Json.obj [(o, Json.obj c)]) ?_
    refine OrdDict.ext_get? ?_ (keys_renameRefsFields σ fields) fun k => ?_
    · rw [keys_renameRefsFields]
      exact hnd
    · rw [get?_renameRefsFields]
      cases hw : OrdDict.get? fields k with
      | none => rfl
      | some w =>
        have hk : k ∉ childFields := fun hk => hnone k hk (OrdDict.get?_isSome.mp ⟨w, hw⟩)
        exact congrArg some (hself k w hk hw)
  · have ha := agrees_shapeFor fun h => hne (List.length_eq_zero_iff.mp h)
    have hconf : ∀ k w, k ∉ childFields → OrdDict.get? conf k = some w → renamedField σ k w = w := by
      intro k w hk hw
      refine hself k w hk ?_
      rw [get?_fill_of_not_mem _ _ _ hk, hw]
    rw [renameRefsFields_fill hshape ha.1 hτ hconf, hframe]
    show _ = Json.obj [(o, .obj (writeChildIds (ids.map τ) (blankChildren conf)))]
    rw [writeChildIds_eq hshape (by rw [List.length_map]; exact ha)]

/-- The ids that the engine reads from a stored operator. -/
theorem extractChildIds_stored {ids : List Nat}
    (hshape : (ids = [] ∧ IsLeaf (frame op)) ∨
      (ids ≠ [] ∧ IsOperator (shapeFor ids.length) (frame op)))
    (hfits : ∀ c ∈ ids, c < u64Size) : extractChildIds (encodeNode (frame op) ids) = ids := by
  rcases hshape with ⟨rfl, hleaf⟩ | ⟨hne, hop⟩
  · rw [encodeNode_leaf hleaf, extractChildIds_leaf hleaf]
  · have ha := agrees_shapeFor fun h => hne (List.length_eq_zero_iff.mp h)
    exact (roundTrips_of_agrees hop hfits ha).ids

/-- **A stored operator that is renamed is the same operator, stored with the renamed children.** -/
theorem storedNode_renamed {σ : Int → Option Int} {τ : Nat → Nat} {id' : Nat}
    (hs : StoredNode frame (structureNode id v) op) (hsingle : ∃ q, v = .obj [q])
    (hnd : v.NodupKeys) (hnested : nestedRefs v = []) (hown : checkedOnly v = [])
    (hτ : ∀ c ∈ extractChildIds (canonical v), renameRef σ (jsonId c) = jsonId (τ c))
    (hfits : ∀ c ∈ extractChildIds (canonical v), τ c < u64Size) :
    StoredNode frame (structureNode id' (renameRefs σ v)) op ∧
      extractChildIds (canonical (renameRefs σ v)) = (extractChildIds (canonical v)).map τ := by
  have hmixed := engineOnly_of_storedNode hs hsingle hnd
  obtain ⟨o, kvs, conf, rfl, hframe, hfields⟩ := storedNode_fields hs hsingle
  have hconf : (Json.obj kvs).NodupKeys :=
    (Json.nodupKeys_obj.mp hnd).2 (o, .obj kvs) (List.mem_singleton.mpr rfl)
  have hkeys := (Json.nodupKeys_obj.mp hconf).1
  have hcanonical : canonical (.obj [(o, .obj kvs)]) =
      .obj [(o, .obj (sortFields (canonicalFields kvs)))] := rfl
  -- the node as the engine reads it, renamed
  have hrenamed : canonical (renameRefs σ (.obj [(o, .obj kvs)])) =
      encodeNode (frame op) ((extractChildIds (canonical (.obj [(o, .obj kvs)]))).map τ) := by
    rw [← renameRefs_canonical]
    by_cases ho : o ∈ refKeysScalar
    · -- such a value is copied as it is, and it has no children
      have hnil : extractChildIds (canonical (.obj [(o, .obj kvs)])) = [] :=
        List.perm_nil.mp (extractChildIds_of_scalar ho hconf hnested hmixed ▸
          extractChildIds_canonical hconf)
      have hdata : canonical (.obj [(o, .obj kvs)]) =
          encodeNode (frame op) (extractChildIds (canonical (.obj [(o, .obj kvs)]))) := hs.data
      rw [hnil] at hdata ⊢
      rw [List.map_nil, ← hdata, hcanonical]
      simp [renameRefs, renameRefsFields, ho, renameRef, toInt, Json.asInt]
    · have hlist : refList? o (.obj (sortFields (canonicalFields kvs))) = none := by
        rw [refList?]
        split <;> rfl
      have hcopy : renameRefs σ (canonical (.obj [(o, .obj kvs)])) =
          .obj [(o, .obj (renameRefsFields σ (sortFields (canonicalFields kvs))))] := by
        rw [hcanonical, renameRefs_operator, renamedField, if_neg ho, hlist]
        rfl
      rw [hcopy]
      refine renameRefsFields_stored hframe hfields ?_ (fun k w hk hw => ?_) hτ
      · rw [OrdDict.keys, ((sortFields_canonicalFields_perm kvs).map Prod.fst).nodup_iff,
          List.map_map]
        exact hkeys
      · -- what is no child field holds no reference
        rw [get?_sortFields hkeys] at hw
        obtain ⟨w', hw', rfl⟩ := Option.map_eq_some_iff.mp hw
        refine renamedField_eq_self hk (checkedOnlyField_canonical ?_)
        exact List.flatMap_eq_nil_iff.mp hown (k, w') (OrdDict.mem_of_get? hw')
  have hshape : ((extractChildIds (canonical (.obj [(o, .obj kvs)]))).map τ = [] ∧
      IsLeaf (frame op)) ∨ ((extractChildIds (canonical (.obj [(o, .obj kvs)]))).map τ ≠ [] ∧
        IsOperator (shapeFor ((extractChildIds (canonical (.obj [(o, .obj kvs)]))).map τ).length)
          (frame op)) := by
    rw [List.length_map]
    rcases hs.shape with ⟨hnil, hleaf⟩ | ⟨hne, hop⟩
    · exact Or.inl ⟨List.map_eq_nil_iff.mpr hnil, hleaf⟩
    · exact Or.inr ⟨fun h => hne (List.map_eq_nil_iff.mp h), hop⟩
  have hids : extractChildIds (canonical (renameRefs σ (.obj [(o, .obj kvs)]))) =
      (extractChildIds (canonical (.obj [(o, .obj kvs)]))).map τ := by
    rw [hrenamed]
    refine extractChildIds_stored hshape fun n hn => ?_
    obtain ⟨c, hc, rfl⟩ := List.mem_map.mp hn
    exact hfits c hc
  refine ⟨⟨?_, ?_⟩, hids⟩
  · show canonical _ = encodeNode (frame op) (extractChildIds (canonical _))
    rw [hids, hrenamed]
  · show (extractChildIds (canonical _) = [] ∧ _) ∨ (extractChildIds (canonical _) ≠ [] ∧
      IsOperator (shapeFor (extractChildIds (canonical _)).length) _)
    rw [hids]
    exact hshape

end

/-! ## The two graphs -/

/-- The node of the structure stores the operator the way the encoder does. -/
def StoresNode (frame : Op → Json) (v : Json) (op : Op) : Prop :=
  ∀ id, StoredNode frame (structureNode id v) op

/-- The full table info stores the operator of a scan. -/
def StoresScan (frame : Op → Json) (t : Json) (op : Op) : Prop :=
  index (canonical t) "node" = frame op ∧ IsLeaf (frame op)

/-- The full table info stores the operator for the scan with the id. -/
def ListsScan (frame : Op → Json) (tables : List Json) (s : Int) (op : Op) : Prop :=
  ∃ t ∈ tables, (∃ n, asU64 (index t "id") = some n ∧ s = (n : Int)) ∧ StoresScan frame t op

/-- An operator that is no scan stays; a scan is replaced by the one that it is paired with. -/
def ReplacedBy (frame : Op → Json) (sm : List (Int × Int)) (tables1 tables2 : List Json) (n : Nat)
    (op op' : Op) : Prop :=
  (isParquetScan (frame op) = false ∧ op' = op) ∨
    (n = 0 ∧ ∃ s1 s2, OrdDict.get? sm s1 = some s2 ∧ ListsScan frame tables1 s1 op ∧
      ListsScan frame tables2 s2 op')

theorem StoresScan.storedNode {frame : Op → Json} {t : Json} {op : Op}
    (h : StoresScan frame t op) (id : Nat) : StoredNode frame (tableNode id t) op where
  data := by
    show index (canonical t) "node" = encodeNode (frame op) []
    rw [encodeNode_leaf h.2, h.1]
  shape := Or.inl ⟨rfl, h.2⟩

theorem storesScan_of_storedNode {frame : Op → Json} {t : Json} {op : Op} {id : Nat}
    (h : StoredNode frame (tableNode id t) op) : StoresScan frame t op := by
  rcases h.shape with ⟨_, hleaf⟩ | ⟨hne, _⟩
  · have hdata : index (canonical t) "node" = encodeNode (frame op) [] := h.data
    rw [encodeNode_leaf hleaf] at hdata
    exact ⟨hdata, hleaf⟩
  · exact absurd rfl hne

/-- A stored operator is a scan only if its node is. -/
theorem isParquetScan_of_storedNode {frame : Op → Json} {op : Op} {id : Nat} {v : Json}
    (hs : StoredNode frame (structureNode id v) op) (hsingle : ∃ q, v = .obj [q])
    (hno : ¬ IsParquetScan v) : isParquetScan (frame op) = false := by
  obtain ⟨o, kvs, conf, rfl, hframe, _⟩ := storedNode_fields hs hsingle
  rw [hframe, isParquetScan, decide_eq_false_iff_not]
  intro hmem
  refine hno ?_
  show (OrdDict.get? [(o, Json.obj kvs)] "parquetScan").isSome
  have ho : "parquetScan" = o := List.mem_singleton.mp hmem
  rw [← ho, OrdDict.get?, if_pos rfl]
  rfl

section

variable {sf1Base sf1Info sf2Base sf2Info : Json} {P : List (String × Json)}
  {sm m : List (Int × Int)} {tables1 tables2 : List Json} {frame : Op → Json}
  {nodes1 nodes2 : List ParsedNode}

theorem eq_jsonId_of_asU64 {v : Json} {n : Nat} (h : asU64 v = some n) : v = jsonId n := by
  cases v with
  | int z =>
    rw [asU64] at h
    split at h
    next hz =>
      injection h with h
      rw [jsonId, ← h, Int.toNat_of_nonneg hz.1]
    next => exact absurd h (by simp)
  | _ => exact absurd h (by simp [asU64])

namespace ReadableTransfer

variable (h : ReadableTransfer sf1Base sf1Info sf2Base sf2Info P P sm m tables1 tables2)
include h

/-- The engine follows only references to nodes and to SF1 scans. -/
theorem child_known {p : String × Json} (hp : p ∈ P) {c : Nat}
    (hc : c ∈ extractChildIds (canonical p.2)) : c ∈ natIds P ∨ c ∈ tableIds tables1 := by
  obtain ⟨⟨o, conf⟩, ho⟩ := h.accepted.single p hp
  have hnd := (Json.nodupKeys_obj.mp h.nodup).2 p hp
  have hrefs := h.direct.refs p hp
  have hmixed := h.direct.noMixed p hp
  rw [ho] at hnd hc hrefs hmixed
  have hconf : conf.NodupKeys := (Json.nodupKeys_obj.mp hnd).2 _ (List.mem_singleton.mpr rfl)
  rw [(extractChildIds_canonical hconf).mem_iff] at hc
  have hperm := nodeChildren_perm o hconf
  rw [hmixed, List.map_nil, List.append_nil] at hperm
  have hin := hperm.mem_iff.mpr (List.mem_append_left _ (List.mem_map_of_mem hc))
  obtain ⟨q, hq, hqc⟩ := List.mem_map.mp hin
  obtain ⟨r, hr, hknown⟩ := hrefs q hq
  have hrc : r = (c : Int) := by
    rw [hr] at hqc
    exact hqc
  rcases hknown with hknown | hknown
  · exact Or.inl (h.mem_natIds.mpr (hrc ▸ hknown))
  · obtain ⟨n, hn, he⟩ := (h.sf1Scans.scans r).mp hknown
    rw [hrc] at he
    exact Or.inr (Int.ofNat_inj.mp he ▸ hn)

/-- A child id is renamed to one that the engine can read. -/
theorem renameRef_child {c : Nat} (hc : c ∈ natIds P ∨ c ∈ tableIds tables1) :
    renameRef (idRenaming m sm) (jsonId c) = jsonId (natRenaming m sm c) ∧
      natRenaming m sm c < u64Size := by
  have hknown : (c : Int) ∈ planIds P ∨ (c : Int) ∈ scanIds sf1Info :=
    hc.imp h.mem_natIds.mp fun hc => (h.sf1Scans.scans _).mpr ⟨c, hc, rfl⟩
  obtain ⟨n, hn, _, hrenamed, _⟩ := h.readsAs hknown
  have hn : n = c := (Int.ofNat_inj.mp hn).symm
  subst hn
  exact ⟨eq_jsonId_of_asU64 hrenamed, lt_of_asU64 hrenamed⟩

theorem natRenaming_node {c : Nat} (hc : c ∈ natIds P) : natRenaming m sm c = newNat m c := by
  obtain ⟨reserved, _, hidmap, _⟩ := h.numbering.idMap
  rw [natRenaming, idRenaming, get?_eq_newId hidmap (h.mem_natIds.mp hc)]
  rfl

/-- No node has the id of an SF1 scan. -/
theorem not_mem_tableIds (hw : WellFormedPlan sf1Info P) {c : Nat} (hc : c ∈ natIds P) :
    c ∉ tableIds tables1 := by
  intro hscan
  exact hw.noScanKey c (h.mem_natIds.mp hc) ((h.sf1Scans.scans _).mpr ⟨c, hscan, rfl⟩)

/-- The scan that a scan is paired with. -/
theorem natRenaming_scan {c : Nat} (hc : c ∈ tableIds tables1) (hno : c ∉ natIds P) :
    OrdDict.get? sm c = some (natRenaming m sm c : Int) ∧
      natRenaming m sm c ∈ tableIds tables2 := by
  obtain ⟨reserved, _, hidmap, _⟩ := h.numbering.idMap
  have hscan : (c : Int) ∈ scanIds sf1Info := (h.sf1Scans.scans _).mpr ⟨c, hc, rfl⟩
  obtain ⟨hkeys, hpair⟩ := buildScanIdMapping_spec h.accepted.mapped
  obtain ⟨s, hs⟩ := OrdDict.get?_isSome.mpr ((hkeys c).mpr hscan)
  obtain ⟨k, hk, rfl⟩ := (h.sf2Scans.scans s).mp (hpair c s hs).1
  have hrename : natRenaming m sm c = k := by
    rw [natRenaming, idRenaming, OrdDict.get?_eq_none.mpr fun hin =>
      hno (h.mem_natIds.mpr ((hidmap.mem_keys _).mp hin)), Option.none_or, hs]
    rfl
  rw [hrename]
  exact ⟨hs, hk⟩

/-- **Every definition of the SF1 graph is carried over to the SF2 graph.** -/
theorem definedAs_renamed (hw : WellFormedPlan sf1Info P)
    (hown : ∀ p ∈ P, checkedOnly p.2 = []) (hscans2 : ∀ t ∈ tables2, ∃ op, StoresScan frame t op)
    (hnodes1 : parseNodes (planDocument P (.arr tables1)) = .ok nodes1)
    (hnodes2 : parseNodes (planDocument (renamedPlan m sm P) (.arr tables2)) = .ok nodes2)
    {id : Nat} (hid : id ∈ natIds P ∨ id ∈ tableIds tables1) {op : Op} {ids : List Nat}
    (hdef : DefinedAs frame nodes1 id op ids) :
    (∀ c ∈ ids, c ∈ natIds P ∨ c ∈ tableIds tables1) ∧
      ∃ op', DefinedAs frame nodes2 (natRenaming m sm id) op' (ids.map (natRenaming m sm)) ∧
        ReplacedBy frame sm tables1 tables2 ids.length op op' := by
  obtain ⟨hP, _, hout⟩ := h.enginePlans
  obtain ⟨n, hn, hids, hs⟩ := hdef
  by_cases hnode : id ∈ natIds P
  · -- a node of the plan
    obtain ⟨v, hv, hv'⟩ := h.exists_node hnode
    have hsingle := h.accepted.single _ hv
    have hfound := get?_nodeMap_structure hP h.sf1Scans.nodup hnodes1 hv
      (h.not_mem_tableIds hw hnode)
    rw [hn] at hfound
    injection hfound with hfound
    rw [hfound] at hs hids
    have hids : extractChildIds (canonical v) = ids := hids
    have hknown : ∀ c ∈ ids, c ∈ natIds P ∨ c ∈ tableIds tables1 := by
      intro c hc
      exact h.child_known hv (hids ▸ hc)
    have hnd := (Json.nodupKeys_obj.mp h.nodup).2 _ hv
    obtain ⟨hrenamed, hchildren⟩ : StoredNode frame (structureNode (newNat m id)
        (renameRefs (idRenaming m sm) v)) op ∧ _ := storedNode_renamed hs hsingle hnd
      (hw.noNested _ hv) (hown _ hv) (fun c hc => (h.renameRef_child (hknown c (hids ▸ hc))).1)
      fun c hc => (h.renameRef_child (hknown c (hids ▸ hc))).2
    have hτ := h.natRenaming_node hnode
    have hfound2 := get?_nodeMap_structure hout h.sf2Scans.nodup hnodes2 hv'
      (h.newNat_spec hnode).2.2
    refine ⟨hknown, op, ⟨_, hτ ▸ hfound2, ?_, hrenamed⟩, Or.inl ⟨?_, rfl⟩⟩
    · exact hchildren.trans (by rw [hids])
    · exact isParquetScan_of_storedNode hs hsingle (hw.noScanNode _ hv)
  · -- a scan, which is replaced
    have hscan := hid.resolve_left hnode
    have hkey : toString id ∉ OrdDict.keys P := fun hk => hnode (h.toString_mem_keys.mp hk)
    obtain ⟨t, ht, htid, hfound⟩ := get?_nodeMap_table hP h.sf1Scans.nodup hnodes1 hscan hkey
    rw [hn] at hfound
    injection hfound with hfound
    rw [hfound] at hs hids
    have hids : ([] : List Nat) = ids := hids
    subst hids
    obtain ⟨hpaired, hlisted⟩ := h.natRenaming_scan hscan hnode
    have hkey2 : toString (natRenaming m sm id) ∉ OrdDict.keys (renamedPlan m sm P) := by
      intro hk
      obtain ⟨k, hk, he⟩ := h.toString_mem_keys_renamedPlan.mp hk
      exact (h.newNat_spec hk).2.2 (he ▸ hlisted)
    obtain ⟨t', ht', htid', hfound2⟩ :=
      get?_nodeMap_table hout h.sf2Scans.nodup hnodes2 hlisted hkey2
    obtain ⟨op', hop'⟩ := hscans2 t' ht'
    refine ⟨fun c hc => absurd hc List.not_mem_nil, op', ⟨_, hfound2, rfl, hop'.storedNode _⟩,
      Or.inr ⟨rfl, id, _, hpaired, ?_, ?_⟩⟩
    · exact ⟨t, ht, ⟨id, htid, rfl⟩, storesScan_of_storedNode hs⟩
    · exact ⟨t', ht', ⟨_, htid', rfl⟩, hop'⟩

/-- Every node of the SF2 document stores an operator. -/
theorem stored_renamed (hw : WellFormedPlan sf1Info P)
    (hstored : ∀ p ∈ P, ∃ op, StoresNode frame p.2 op) (hown : ∀ p ∈ P, checkedOnly p.2 = [])
    (hscans2 : ∀ t ∈ tables2, ∃ op, StoresScan frame t op)
    (hnodes2 : parseNodes (planDocument (renamedPlan m sm P) (.arr tables2)) = .ok nodes2)
    {n : ParsedNode} (hn : n ∈ nodes2) : ∃ op, StoredNode frame n op := by
  obtain ⟨_, _, hout⟩ := h.enginePlans
  rcases (mem_parsedNodes hout h.sf2Scans.nodup hnodes2).mp hn with ⟨w, hw', he⟩ | ⟨t, ht, _, he⟩
  · obtain ⟨q, hq, hqw⟩ := List.mem_map.mp hw'
    injection hqw with _ hqw
    obtain ⟨op, hop⟩ := hstored q hq
    have hnd := (Json.nodupKeys_obj.mp h.nodup).2 q hq
    have hrename : ∀ c ∈ extractChildIds (canonical q.2),
        renameRef (idRenaming m sm) (jsonId c) = jsonId (natRenaming m sm c) ∧
          natRenaming m sm c < u64Size :=
      fun c hc => h.renameRef_child (h.child_known hq hc)
    rw [he, ← hqw]
    exact ⟨op, (storedNode_renamed (hop 0) (h.accepted.single q hq) hnd (hw.noNested q hq) (hown q hq)
      (fun c hc => (hrename c hc).1) fun c hc => (hrename c hc).2).1⟩
  · obtain ⟨op, hop⟩ := hscans2 t ht
    exact ⟨op, he ▸ hop.storedNode _⟩

end ReadableTransfer

end

/-! ## Execution -/

/-- **A transferred plan is executed as the same operators.** If the engine executes the patched
SF1 plan, with one node that nothing refers to, then it executes the transferred plan: it decodes it
to the same tree of operators, with every scan replaced by the scan that it is paired with. -/
theorem transferPlan_executes (codec : Codec Op) (frame : Op → Json) (hc : codec.Lawful frame)
    (keyOrder : List Nat → List Nat) (hkeys : ∀ ks, (keyOrder ks).Perm ks)
    (sf1Base sf1Info sf2Base sf2Info patch : JsonValue) {P out : List (String × Json)}
    (hpatch : applyJsonPatch sf1Base patch = .ok (.obj P)) (hw : WellFormedPlan sf1Info P)
    (hne : P ≠ []) (hleaves : ScanLeaves sf2Info) {tables1 tables2 : List Json}
    (h1 : ListsScans sf1Info tables1) (h2 : ListsScans sf2Info tables2)
    (hstored : ∀ p ∈ P, ∃ op, StoresNode frame p.2 op) (hown : ∀ p ∈ P, checkedOnly p.2 = [])
    (hscans1 : ∀ t ∈ tables1, ∃ op, StoresScan frame t op)
    (hscans2 : ∀ t ∈ tables2, ∃ op, StoresScan frame t op)
    (htransfer : transferPlan sf1Base sf1Info sf2Base sf2Info patch = .ok out)
    (hfits : ∀ n ∈ planIds out, n < u64Size)
    (hroot : ∀ a ∈ natIds P, ∀ b ∈ natIds P, Unreferenced P a → Unreferenced P b → a = b)
    {t : RoseTree Op}
    (hdecode : executionPlanFromSuccinctJson codec keyOrder (planDocument P (.arr tables1)) = .ok t) :
    ∃ sm t', buildScanIdMapping sf1Info sf2Info = .ok sm ∧
      executionPlanFromSuccinctJson codec keyOrder (planDocument out (.arr tables2)) = .ok t' ∧
      Related (ReplacedBy frame sm tables1 tables2) t t' := by
  obtain ⟨Q, sm, m, hacc, hnum, rfl⟩ :=
    (transferPlan_eq_ok_iff sf1Base sf1Info sf2Base sf2Info patch hpatch out).mp htransfer
  -- without embedded scans nothing is rebound
  have hQ : Q = P := (rebind_spec hacc.rebound).2.2 hw.noScanNode
  subst hQ
  have hnodup := applyJsonPatch_nodupKeys sf1Base.2 patch.2 hpatch
  obtain ⟨r1, nodes1, hr1, hnodes1⟩ : ∃ r1 nodes1,
      selectRoot keyOrder (planDocument Q (.arr tables1)) = .ok r1 ∧
        parseNodes (planDocument Q (.arr tables1)) = .ok nodes1 := by
    have hsplit := hdecode
    rw [executionPlanFromSuccinctJson_eq_selectRoot, Except.bind_eq_ok] at hsplit
    obtain ⟨r1, hr1, hsplit⟩ := hsplit
    obtain ⟨nodes1, hnodes1, _⟩ := Except.bind_eq_ok.mp hsplit
    exact ⟨r1, nodes1, hr1, hnodes1⟩
  have h : ReadableTransfer sf1Base sf1Info sf2Base sf2Info Q Q sm m tables1 tables2 := by
    obtain ⟨reserved, _, hidmap, _⟩ := hnum.idMap
    refine ⟨hacc, hnum, hnodup, sf2Info.2, ⟨hw.refs, hw.noNested, fun p hp => ?_⟩, hleaves, h1, h2,
      fun n hn => ?_, fun n hn => hfits _ ?_⟩
    · obtain ⟨op, hop⟩ := hstored p hp
      exact engineOnly_of_storedNode (hop 0) (hw.single p hp)
        ((Json.nodupKeys_obj.mp hnodup).2 p hp)
    · -- the ids of a document that has been decoded fit
      obtain ⟨p, hp, rfl⟩ := List.mem_map.mp hn
      obtain ⟨k, hk⟩ := hw.canonical p hp
      rw [hk, keyId_of_int (Py.int_toString k)]
      exact_mod_cast lt_of_parseNodes hnodes1 hp hk
    · rw [planIds_renamedPlan hidmap]
      exact List.mem_map_of_mem hn
  obtain ⟨hP, _, hout⟩ := h.enginePlans
  -- the SF1 document: its root denotes the tree
  have hstored1 : ∀ n ∈ nodes1, ∃ op, StoredNode frame n op := by
    intro n hn
    rcases (mem_parsedNodes hP h1.nodup hnodes1).mp hn with ⟨v, hv, he⟩ | ⟨t, ht, _, he⟩
    · obtain ⟨op, hop⟩ := hstored _ hv
      exact ⟨op, he ▸ hop _⟩
    · obtain ⟨op, hop⟩ := hscans1 t ht
      exact ⟨op, he ▸ hop.storedNode _⟩
  obtain ⟨hacyclic, root, hfind, hdenotes⟩ :=
    (executionPlanFromSuccinctJson_eq_ok_iff hc hkeys hnodes1 hstored1).mp hdecode
  have hroot1 : root = r1 := by
    obtain ⟨nodes, _, hnodes, _, hfind'⟩ := selectRoot_eq_ok.mp hr1
    rw [hnodes1] at hnodes
    injection hnodes with hnodes
    rw [← hnodes, hfind] at hfind'
    injection hfind'
  subst hroot1
  obtain ⟨hmem, hrest⟩ := selectRoot_spec hkeys hP hne h1.nodup hr1
  have hrootId := h.toString_mem_keys.mp hmem
  have hshadow : ∀ p ∈ Q, ∀ id ∈ tableIds tables1, p.1 ≠ toString id := by
    intro p hp id hid hk
    exact h.not_mem_tableIds hw (h.toString_mem_keys.mp (hk ▸ List.mem_map_of_mem hp)) hid
  obtain ⟨hun, _⟩ := hrest hshadow
  -- the SF2 document has no cycle either, and its root is the image of the SF1 root
  have hacyclicP : ∀ id, ¬ OnCycle (structureChildren Q) id := by
    intro id hcycle
    obtain ⟨regular, parquet, rfl, hparsed⟩ := parsed_of_parseNodes hP h1.nodup hnodes1
    refine hacyclic id (hcycle.mono_edge fun a b hb => ?_)
    refine (hparsed.mem_childrenOf (Json.nodupKeys_obj.mp hP.nodup).1).mpr ⟨fun ha => ?_, hb⟩
    obtain ⟨p, hp, hk, _⟩ := mem_structureChildren hb
    exact hshadow p hp a ha hk
  obtain ⟨r2, hr2⟩ := h.exists_root hkeys hne hacyclicP
  have he : r2 = newNat m root := by
    refine (h.root_iff hkeys hrootId hr2).mpr ⟨hun, fun k hk hunk => ?_⟩
    rw [hroot k hk root hrootId hunk hun]
  obtain ⟨nodes2, s, hnodes2, hcheck, hfind2⟩ := selectRoot_eq_ok.mp hr2
  have hstored2 : ∀ n ∈ nodes2, ∃ op, StoredNode frame n op :=
    fun n hn => h.stored_renamed hw hstored hown hscans2 hnodes2 hn
  obtain ⟨t', hdenotes2, hrelated⟩ := Denotes.carry (S := fun id => id ∈ natIds Q ∨
      id ∈ tableIds tables1) (fun id hid op ids hdef =>
    h.definedAs_renamed hw hown hscans2 hnodes1 hnodes2 hid hdef) t root (Or.inl hrootId) hdenotes
  refine ⟨sm, t', hacc.mapped, ?_, hrelated⟩
  refine (executionPlanFromSuccinctJson_eq_ok_iff hc hkeys hnodes2 hstored2).mpr
    ⟨(graphCheck_acyclic_iff hkeys).mp ⟨s, hcheck⟩, r2, hfind2, ?_⟩
  rw [he, ← h.natRenaming_node hrootId]
  exact hdenotes2

/-! ## A join of two scans -/

/-- Two scans, as the full table info and the succinct one list them. -/
def bareScans (a b : Nat) : List Json :=
  [Engine.tableEntry a (bareFrame ("parquetScan", none)),
    Engine.tableEntry b (bareFrame ("parquetScan", none))]

theorem storesScan_bareScans {a b : Nat} (hnodup : (Json.arr (bareScans a b)).NodupKeys) :
    ∀ t ∈ bareScans a b, ∃ op, StoresScan bareFrame t op := by
  intro t ht
  refine ⟨("parquetScan", none), ?_, bareFrame_isLeaf.mpr rfl⟩
  rw [index_canonical (Json.nodupKeys_arr.mp hnodup t ht)]
  rcases List.mem_cons.mp ht with rfl | ht
  · rfl
  · rw [List.mem_singleton.mp ht]
    rfl

theorem listsScans_bareScans {a b : Nat} (ha : a < u64Size) (hb : b < u64Size)
    (hscans : scanIds (.arr (bareScans a b)) = [(a : Int), (b : Int)])
    (hnodup : (Json.arr (bareScans a b)).NodupKeys) :
    ListsScans (.arr (bareScans a b)) (bareScans a b) := by
  have hid : ∀ {n : Nat}, n < u64Size →
      asU64 (index (Engine.tableEntry n (bareFrame ("parquetScan", none))) "id") = some n :=
    fun hn => asU64_jsonId hn
  have hids : tableIds (bareScans a b) = [a, b] := by
    simp [tableIds, bareScans, hid ha, hid hb]
  refine ⟨hnodup, List.forall_mem_cons.mpr ⟨⟨a, hid ha⟩,
    List.forall_mem_singleton.mpr ⟨b, hid hb⟩⟩, fun r => ?_⟩
  rw [hscans, hids]
  simp

theorem joinPlan_stored : ∀ p ∈ joinPlan, ∃ op, StoresNode bareFrame p.2 op := by
  refine List.forall_mem_cons.mpr ⟨⟨("projection", some .input), fun _ => ⟨rfl, Or.inr ⟨?_, ?_⟩⟩⟩,
    List.forall_mem_singleton.mpr ⟨("hashJoinExec", some .binary),
      fun _ => ⟨rfl, Or.inr ⟨?_, ?_⟩⟩⟩⟩
  · exact List.cons_ne_nil _ _
  · exact bareFrame_isOperator.mpr rfl
  · exact List.cons_ne_nil _ _
  · exact bareFrame_isOperator.mpr rfl

/-- The join is executed over the SF2 scans 5 and 6, though 5 was the id of its node. -/
theorem transferPlan_executes_join : ∃ sm t',
    buildScanIdMapping (.arr (bareScans 100 101)) (.arr (bareScans 5 6)) = .ok sm ∧
      executionPlanFromSuccinctJson bareCodec id (planDocument joinOut (.arr (bareScans 5 6))) =
        .ok t' ∧
      Related (ReplacedBy bareFrame sm (bareScans 100 101) (bareScans 5 6))
        (.node ("projection", some .input) [.node ("hashJoinExec", some .binary)
          [.node ("parquetScan", none) [], .node ("parquetScan", none) []]]) t' := by
  have hscans : scanIds (.arr (bareScans 100 101)) = scanIds joinSf1Info := by decide +kernel
  have hw : WellFormedPlan (.arr (bareScans 100 101)) joinPlan :=
    { joinPlan_wellFormed with
      noScanKey := hscans ▸ joinPlan_wellFormed.noScanKey
      refs := hscans ▸ joinPlan_wellFormed.refs }
  have hleaves : ScanLeaves (.arr (bareScans 5 6)) := by
    intro entries he
    injection he with he
    subst he
    have hleaf : LeafNode (bareFrame ("parquetScan", none)) := by
      intro op kvs hop
      injection hop with hop
      injection hop with hop _
      injection hop with _ hop
      injection hop with hop
      rw [← hop]
      decide
    exact List.forall_mem_cons.mpr ⟨hleaf, List.forall_mem_singleton.mpr hleaf⟩
  refine transferPlan_executes bareCodec bareFrame bareCodec_lawful id (fun _ => List.Perm.refl _)
    ⟨.obj joinPlan, by decide⟩ ⟨.arr (bareScans 100 101), by decide⟩ ⟨.obj [], by decide⟩
    ⟨.arr (bareScans 5 6), by decide⟩ ⟨.arr [], by decide⟩ rfl hw (by decide) hleaves
    (listsScans_bareScans (by decide) (by decide) (by decide +kernel) (by decide))
    (listsScans_bareScans (by decide) (by decide) (by decide +kernel) (by decide))
    joinPlan_stored (by decide) (storesScan_bareScans (by decide)) (storesScan_bareScans (by decide))
    (by decide +kernel) (by decide +kernel) (fun a ha b hb hua hub => ?_) (by rfl)
  have hone : ∀ c ∈ natIds joinPlan, Unreferenced joinPlan c → c = 10 := by
    intro c hc hun
    have hc : c ∈ [10, 5] := hc
    rcases List.mem_cons.mp hc with he | hc
    · exact he
    · rw [List.mem_singleton.mp hc] at hun
      exact absurd (hun _ (List.mem_cons_self ..)) (by decide +kernel)
  rw [hone a ha hua, hone b hb hub]

end DbPlanBench.Transfer
