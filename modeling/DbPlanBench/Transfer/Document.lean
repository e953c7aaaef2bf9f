import DbPlanBench.Engine.Decode
import DbPlanBench.Transfer.Children

/-!
# A plan as the engine reads it

The engine gets a plan as JSON text: the `structure` that Python holds, and the
scans under `full_table_info`. `serde_json` keeps its maps sorted by key, so the
nodes of a structure are collected in the order of their ids as strings, `"10"`
before `"9"`, and the first one that nothing points to is the root.

`selectRoot_spec` says which node that is for any structure the engine can read,
`selectRoot_exists` that there is one if the structure is acyclic.
-/

namespace DbPlanBench.Transfer

open Engine Paths

/-- The document of a plan, as `serde_json` reads it: all its maps are sorted by key. -/
def planDocument (structureDict : List (String × Json)) (fullTableInfo : Json) : Json :=
  canonical (.obj [("full_table_info", fullTableInfo), ("structure", .obj structureDict)])

/-- `execution_plan_from_succinct_json`, up to the root. -/
def selectRoot (keyOrder : List Nat → List Nat) (summary : Json) : Except String Nat := do
  let nodes ← parseNodes summary
  match validateExecutionPlanGraph keyOrder (childrenMap nodes) with
  | .error fault => .error (graphError fault)
  | .ok _ => findRoot nodes

/-- Decoding goes on from the root that was selected. -/
theorem executionPlanFromSuccinctJson_eq_selectRoot {Op : Type} (codec : Codec Op)
    (keyOrder : List Nat → List Nat) (summary : Json) :
    executionPlanFromSuccinctJson codec keyOrder summary = (do
      let root ← selectRoot keyOrder summary
      let nodes ← parseNodes summary
      buildExecutionPlanTree codec (nodeMap nodes) (nodes.length + 1) root) := by
  rw [executionPlanFromSuccinctJson, selectRoot]
  cases hnodes : parseNodes summary with
  | error e => rfl
  | ok nodes =>
    simp only [Except.ok_bind]
    cases validateExecutionPlanGraph keyOrder (childrenMap nodes) with
    | error fault => rfl
    | ok s => rfl

theorem selectRoot_eq_ok {keyOrder : List Nat → List Nat} {summary : Json} {root : Nat} :
    selectRoot keyOrder summary = .ok root ↔ ∃ nodes s, parseNodes summary = .ok nodes ∧
      validateExecutionPlanGraph keyOrder (childrenMap nodes) = .ok s ∧
      findRoot nodes = .ok root := by
  rw [selectRoot, Except.bind_eq_ok]
  constructor
  · intro h
    obtain ⟨nodes, hnodes, h⟩ := h
    cases hs : validateExecutionPlanGraph keyOrder (childrenMap nodes) with
    | error fault =>
      rw [hs] at h
      exact absurd h (by simp)
    | ok s =>
      rw [hs] at h
      exact ⟨nodes, s, hnodes, hs, h⟩
  · intro h
    obtain ⟨nodes, s, hnodes, hs, h⟩ := h
    exact ⟨nodes, hnodes, by rw [hs]; exact h⟩

/-! ## Sorted maps -/

theorem canonicalFields_eq_map (kvs : List (String × Json)) :
    canonicalFields kvs = kvs.map fun p => (p.1, canonical p.2) := by
  induction kvs with
  | nil => rfl
  | cons p kvs ih => rw [canonicalFields, ih, List.map_cons]

theorem canonicalList_eq_map (xs : List Json) : canonicalList xs = xs.map canonical := by
  induction xs with
  | nil => rfl
  | cons x xs ih => rw [canonicalList, ih, List.map_cons]

theorem sortFields_canonicalFields_perm (kvs : List (String × Json)) :
    (sortFields (canonicalFields kvs)).Perm (kvs.map fun p => (p.1, canonical p.2)) := by
  rw [← canonicalFields_eq_map]
  exact List.perm_insertionSort _ _

theorem sortFields_sorted (kvs : List (String × Json)) :
    (sortFields kvs).Pairwise fun p q => p.1 ≤ q.1 :=
  List.pairwise_insertionSort _ _

theorem get?_sortFields {kvs : List (String × Json)} (hnd : (OrdDict.keys kvs).Nodup) (k : String) :
    OrdDict.get? (sortFields (canonicalFields kvs)) k = (OrdDict.get? kvs k).map canonical := by
  have hkeys : (OrdDict.keys (kvs.map fun p => (p.1, canonical p.2))).Nodup := by
    rw [OrdDict.keys, List.map_map]
    exact hnd
  rw [← OrdDict.get?_perm hkeys (sortFields_canonicalFields_perm kvs).symm, OrdDict.get?_map_snd]

theorem index_canonical {v : Json} (hnd : v.NodupKeys) (k : String) :
    index (canonical v) k = canonical (index v k) := by
  cases v with
  | obj kvs =>
    rw [canonical, index, index, get?_sortFields (Json.nodupKeys_obj.mp hnd).1]
    cases OrdDict.get? kvs k with
    | none => rfl
    | some v => rfl
  | _ => rfl

@[simp] theorem asU64_canonical (v : Json) : asU64 (canonical v) = asU64 v := by
  cases v <;> rfl

theorem fieldChildIds_canonical (k : String) (v : Json) :
    fieldChildIds k (canonical v) = fieldChildIds k v := by
  have harray : (asArray (canonical v)).filterMap asU64 = (asArray v).filterMap asU64 := by
    cases v with
    | arr xs =>
      show (canonicalList xs).filterMap asU64 = xs.filterMap asU64
      rw [canonicalList_eq_map, List.filterMap_map]
      exact List.filterMap_congr fun x _ => asU64_canonical x
    | _ => rfl
  rw [fieldChildIds, fieldChildIds, asU64_canonical, harray]

/-- Sorting does not change the ids that a node refers to. -/
theorem extractChildIds_canonical {op : String} {conf : Json} (hnd : conf.NodupKeys) :
    (extractChildIds (canonical (.obj [(op, conf)]))).Perm (extractChildIds (.obj [(op, conf)])) := by
  have hsingle : canonical (.obj [(op, conf)]) = .obj [(op, canonical conf)] := rfl
  rw [hsingle]
  cases conf with
  | obj kvs =>
    have hkeys := (Json.nodupKeys_obj.mp hnd).1
    have hperm := sortFields_canonicalFields_perm kvs
    have hkeys' : (OrdDict.keys (sortFields (canonicalFields kvs))).Nodup := by
      rw [OrdDict.keys, (hperm.map Prod.fst).nodup_iff, List.map_map]
      exact hkeys
    show (readChildIds (sortFields (canonicalFields kvs))).Perm (readChildIds kvs)
    refine (readChildIds_perm hkeys').trans ((hperm.flatMap_right _).trans ?_)
    rw [List.flatMap_map]
    simp only [fieldChildIds_canonical]
    exact (readChildIds_perm hkeys).symm
  | _ => exact List.Perm.refl _

/-! ## The nodes of a document -/

/-- A structure that the engine can read: the keys are the numerals of 64-bit ids, and every node
has a single operator. -/
structure EnginePlan (plan : List (String × Json)) : Prop where
  key : ∀ p ∈ plan, ∃ n : Nat, n < u64Size ∧ p.1 = toString n
  single : ∀ p ∈ plan, ∃ op, p.2 = .obj [op]
  nodup : (Json.obj plan).NodupKeys

/-- The ids of the scans under `full_table_info`. -/
def tableIds (tables : List Json) : List Nat := tables.filterMap fun t => asU64 (index t "id")

/-- The ids that the engine follows from a node of a structure. -/
def structureChildren (plan : List (String × Json)) (id : Nat) : List Nat :=
  match OrdDict.get? plan (toString id) with
  | some node => extractChildIds node
  | none => []

/-- No node of the structure refers to the id. -/
def Unreferenced (plan : List (String × Json)) (id : Nat) : Prop :=
  ∀ p ∈ plan, id ∉ extractChildIds p.2

/-- What the engine collects from a structure and a table info. -/
structure Parsed (plan : List (String × Json)) (tables : List Json)
    (regular parquet : List ParsedNode) : Prop where
  sorted : regular.Pairwise fun a b => toString a.id ≤ toString b.id
  node : ∀ n ∈ regular, ∃ v, (toString n.id, v) ∈ plan ∧ n.childIds.Perm (extractChildIds v)
  covers : ∀ p ∈ plan, ∃ n ∈ regular, p.1 = toString n.id
  leaf : ∀ n ∈ parquet, n.childIds = []
  scan : ∀ id, (∃ n ∈ parquet, n.id = id) ↔ id ∈ tableIds tables

theorem planDocument_eq (plan : List (String × Json)) (full : Json) : planDocument plan full =
    .obj [("full_table_info", canonical full), ("structure", canonical (.obj plan))] := by
  simp [planDocument, canonical, canonicalFields, sortFields]

theorem parseNodes_planDocument (plan : List (String × Json)) (tables : List Json) :
    parseNodes (planDocument plan (.arr tables)) = (do
      let nodes ← (sortFields (canonicalFields plan)).mapM parseStructureNode
      let parquet ← (canonicalList tables).mapM parseParquetNode
      return nodes ++ parquet) := by
  rw [planDocument_eq]
  rfl

theorem parseParquetNode_canonical {t : Json} (ht : t.NodupKeys) {n : ParsedNode} :
    parseParquetNode (canonical t) = .ok n ↔ ∃ id, asU64 (index t "id") = some id ∧
      n = { id, nodeData := index (canonical t) "node", childIds := [], isParquetScan := true } := by
  rw [parseParquetNode, index_canonical ht "id", asU64_canonical]
  cases asU64 (index t "id") with
  | none => simp
  | some id => simp [eq_comm]

/-- The engine can parse the keys and the ids. -/
theorem exists_parseNodes {plan : List (String × Json)} (hp : EnginePlan plan) {tables : List Json}
    (hf : (Json.arr tables).NodupKeys)
    (hids : ∀ t ∈ tables, ∃ n, asU64 (index t "id") = some n) :
    ∃ nodes, parseNodes (planDocument plan (.arr tables)) = .ok nodes := by
  have hregular : ∃ regular, (sortFields (canonicalFields plan)).mapM parseStructureNode =
      .ok regular := by
    refine Except.exists_mapM_ok fun e he => ?_
    obtain ⟨p, hp', rfl⟩ := List.mem_map.mp ((sortFields_canonicalFields_perm plan).mem_iff.mp he)
    obtain ⟨n, hn, hk⟩ := hp.key p hp'
    exact ⟨_, by rw [parseStructureNode, hk, parseUsize_toString hn]; rfl⟩
  have hparquet : ∃ parquet, (canonicalList tables).mapM parseParquetNode = .ok parquet := by
    rw [canonicalList_eq_map]
    refine Except.exists_mapM_ok fun e he => ?_
    obtain ⟨t, ht, rfl⟩ := List.mem_map.mp he
    obtain ⟨n, hn⟩ := hids t ht
    exact ⟨_, (parseParquetNode_canonical (Json.nodupKeys_arr.mp hf t ht)).mpr ⟨n, hn, rfl⟩⟩
  obtain ⟨regular, hregular⟩ := hregular
  obtain ⟨parquet, hparquet⟩ := hparquet
  exact ⟨regular ++ parquet, by rw [parseNodes_planDocument, hregular, Except.ok_bind, hparquet]; rfl⟩

theorem lt_of_parseUsize {n i : Nat} (h : parseUsize (toString n) = .ok i) : n < u64Size := by
  simp only [parseUsize, unsignedDigits_toString, Py.ofDigitChars_toString] at h
  split at h
  next hn => exact hn.2.2
  next => exact absurd h (by simp)

/-- The ids of a document that was parsed fit in 64 bits. -/
theorem lt_of_parseNodes {plan : List (String × Json)} {tables : List Json}
    {nodes : List ParsedNode} (h : parseNodes (planDocument plan (.arr tables)) = .ok nodes)
    {p : String × Json} (hp : p ∈ plan) {n : Nat} (hk : p.1 = toString n) : n < u64Size := by
  rw [parseNodes_planDocument] at h
  obtain ⟨regular, hregular, _⟩ := Except.bind_eq_ok.mp h
  obtain ⟨m, _, hm⟩ := Except.ok_of_mapM hregular (p.1, canonical p.2)
    ((sortFields_canonicalFields_perm plan).mem_iff.mpr (List.mem_map_of_mem hp))
  obtain ⟨i, hi, _⟩ := Except.bind_eq_ok.mp hm
  exact lt_of_parseUsize (hk ▸ hi)

/-- The parsed nodes of a document. -/
theorem parsed_of_parseNodes {plan : List (String × Json)} (hp : EnginePlan plan)
    {tables : List Json} (hf : (Json.arr tables).NodupKeys) {nodes : List ParsedNode}
    (h : parseNodes (planDocument plan (.arr tables)) = .ok nodes) :
    ∃ regular parquet, nodes = regular ++ parquet ∧ Parsed plan tables regular parquet := by
  rw [parseNodes_planDocument] at h
  obtain ⟨regular, hregular, h⟩ := Except.bind_eq_ok.mp h
  obtain ⟨parquet, hparquet, h⟩ := Except.bind_eq_ok.mp h
  injection (show (Except.ok (regular ++ parquet) : Except String _) = .ok nodes from h) with h
  have hperm := sortFields_canonicalFields_perm plan
  -- one parsed node for every entry, in the order of the entries
  have hnode : ∀ e ∈ sortFields (canonicalFields plan), ∀ n, parseStructureNode e = .ok n →
      e.1 = toString n.id ∧ ∃ v, (e.1, v) ∈ plan ∧ n.childIds.Perm (extractChildIds v) := by
    intro e he n hn
    obtain ⟨p, hp', rfl⟩ := List.mem_map.mp (hperm.mem_iff.mp he)
    obtain ⟨i, hi, hk⟩ := hp.key p hp'
    obtain ⟨op, hop⟩ := hp.single p hp'
    rw [parseStructureNode, hk, parseUsize_toString hi] at hn
    injection (show (Except.ok _ : Except String ParsedNode) = .ok n from hn) with hn
    subst hn
    refine ⟨hk, p.2, hp', ?_⟩
    have hnd := (Json.nodupKeys_obj.mp hp.nodup).2 p hp'
    show (extractChildIds (canonical p.2)).Perm _
    rw [hop] at hnd ⊢
    exact extractChildIds_canonical ((Json.nodupKeys_obj.mp hnd).2 op (List.mem_singleton.mpr rfl))
  have hkeys : (sortFields (canonicalFields plan)).map Prod.fst =
      regular.map fun n => toString n.id := by
    rw [← List.forall₂_eq_eq_eq, List.forall₂_map_left_iff, List.forall₂_map_right_iff]
    refine List.Forall₂.imp ?_ ((List.forall₂_and_left _ _).mpr
      ⟨fun e he => he, Except.mapM_eq_ok.mp hregular⟩)
    exact fun e n h => (hnode e h.1 n h.2).1
  have htable : ∀ n ∈ parquet, ∃ t ∈ tables, ∃ id, asU64 (index t "id") = some id ∧
      n = { id, nodeData := index (canonical t) "node", childIds := [], isParquetScan := true } := by
    intro n hn
    obtain ⟨e, he, hen⟩ := Except.mem_of_mapM hparquet hn
    rw [canonicalList_eq_map] at he
    obtain ⟨t, ht, rfl⟩ := List.mem_map.mp he
    exact ⟨t, ht, (parseParquetNode_canonical (Json.nodupKeys_arr.mp hf t ht)).mp hen⟩
  refine ⟨regular, parquet, h.symm, ?_, ?_, ?_, ?_, ?_⟩
  · have hsorted := sortFields_sorted (canonicalFields plan)
    rw [← List.pairwise_map (f := Prod.fst) (R := (· ≤ ·)), hkeys, List.pairwise_map] at hsorted
    exact hsorted
  · intro n hn
    obtain ⟨e, he, hen⟩ := Except.mem_of_mapM hregular hn
    obtain ⟨hk, v, hv, hperm⟩ := hnode e he n hen
    exact ⟨v, hk ▸ hv, hperm⟩
  · intro p hp'
    have hmem : p.1 ∈ (sortFields (canonicalFields plan)).map Prod.fst :=
      List.mem_map.mpr ⟨_, hperm.mem_iff.mpr (List.mem_map_of_mem hp'), rfl⟩
    rw [hkeys] at hmem
    obtain ⟨n, hn, he⟩ := List.mem_map.mp hmem
    exact ⟨n, hn, he.symm⟩
  · intro n hn
    obtain ⟨t, ht, _, _, rfl⟩ := htable n hn
    rfl
  · intro id
    rw [tableIds, List.mem_filterMap]
    constructor
    · intro h
      obtain ⟨n, hn, rfl⟩ := h
      obtain ⟨t, ht, id, hid, rfl⟩ := htable n hn
      exact ⟨t, ht, hid⟩
    · intro h
      obtain ⟨t, ht, hid⟩ := h
      obtain ⟨n, hn, hp⟩ := Except.ok_of_mapM hparquet (canonical t)
        (by rw [canonicalList_eq_map]; exact List.mem_map_of_mem ht)
      obtain ⟨id', hid', rfl⟩ := (parseParquetNode_canonical (Json.nodupKeys_arr.mp hf t ht)).mp hp
      rw [hid] at hid'
      injection hid' with hid'
      exact ⟨_, hn, hid'.symm⟩

/-! ## The graph of a document -/

section

variable {plan : List (String × Json)} {tables : List Json} {regular parquet : List ParsedNode}

/-- A node has the children that its structure gives it, unless its id is that of a scan. -/
theorem Parsed.mem_childrenOf (h : Parsed plan tables regular parquet)
    (hnd : (OrdDict.keys plan).Nodup) {id c : Nat} :
    c ∈ Engine.childrenOf (childrenMap (regular ++ parquet)) id ↔
      id ∉ tableIds tables ∧ c ∈ structureChildren plan id := by
  rw [Engine.childrenOf, get?_childrenMap, get?_nodeMap_append, ← h.scan id, ← get?_nodeMap_isSome]
  -- scans come later in the list and overwrite a node of the same id
  cases hscan : OrdDict.get? (nodeMap parquet) id with
  | some n =>
    have hleaf := h.leaf n (mem_of_get?_nodeMap hscan).1
    simp [hleaf]
  | none =>
    rw [Option.none_or, structureChildren]
    -- numerals are injective, so the key of the id finds the node with the id
    cases hnode : OrdDict.get? (nodeMap regular) id with
    | some n =>
      obtain ⟨hn, rfl⟩ := mem_of_get?_nodeMap hnode
      obtain ⟨v, hv, hperm⟩ := h.node n hn
      rw [OrdDict.get?_of_mem hnd hv]
      simpa using hperm.mem_iff
    | none =>
      have hnone : OrdDict.get? plan (toString id) = none := by
        rw [OrdDict.get?_eq_none]
        intro hk
        obtain ⟨p, hp, hpk⟩ := List.mem_map.mp hk
        obtain ⟨n, hn, hnk⟩ := h.covers p hp
        have hid : n.id = id := Py.toString_injective (hnk.symm.trans hpk)
        obtain ⟨m, hm⟩ := get?_nodeMap_isSome.mpr ⟨n, hn, hid⟩
        rw [hnode] at hm
        exact absurd hm (by simp)
      rw [hnone]
      simp

theorem mem_structureChildren {id c : Nat} (h : c ∈ structureChildren plan id) :
    ∃ p ∈ plan, p.1 = toString id ∧ c ∈ extractChildIds p.2 := by
  rw [structureChildren] at h
  split at h
  next v hv => exact ⟨_, OrdDict.mem_of_get? hv, rfl, h⟩
  next => exact absurd h List.not_mem_nil

theorem unreferenced_iff (hp : EnginePlan plan) {c : Nat} :
    Unreferenced plan c ↔ ∀ id, c ∉ structureChildren plan id := by
  constructor
  · intro hun id hc
    obtain ⟨p, hpmem, _, hc⟩ := mem_structureChildren hc
    exact hun p hpmem hc
  · intro h p hpmem hc
    obtain ⟨id, _, hk⟩ := hp.key p hpmem
    apply h id
    rw [structureChildren, ← hk, OrdDict.get?_of_mem (Json.nodupKeys_obj.mp hp.nodup).1 hpmem]
    exact hc

/-- In a structure that shadows no scan, the free ids are the unreferenced ones. -/
theorem Parsed.free_iff (h : Parsed plan tables regular parquet) (hp : EnginePlan plan)
    (hshadow : ∀ p ∈ plan, ∀ id ∈ tableIds tables, p.1 ≠ toString id) {c : Nat} :
    c ∉ ((childrenMap (regular ++ parquet)).map Prod.snd).flatten ↔ Unreferenced plan c := by
  have hnd := (Json.nodupKeys_obj.mp hp.nodup).1
  rw [mem_allChildren, not_exists, unreferenced_iff hp]
  refine forall_congr' fun id => not_congr ?_
  rw [h.mem_childrenOf hnd]
  refine ⟨fun hc => hc.2, fun hc => ⟨fun hid => ?_, hc⟩⟩
  obtain ⟨p, hpmem, hk, _⟩ := mem_structureChildren hc
  exact hshadow p hpmem id hid hk

/-- The selected root of a structure with a free node is its least free node, by their strings. -/
theorem Parsed.findRoot_least (h : Parsed plan tables regular parquet) {top : ParsedNode}
    (htop : top ∈ regular)
    (hfree : top.id ∉ ((childrenMap (regular ++ parquet)).map Prod.snd).flatten) {r : Nat}
    (hr : findRoot (regular ++ parquet) = .ok r) :
    (∃ n ∈ regular, n.id = r) ∧ r ∉ ((childrenMap (regular ++ parquet)).map Prod.snd).flatten ∧
      ∀ n ∈ regular, n.id ∉ ((childrenMap (regular ++ parquet)).map Prod.snd).flatten →
        toString r ≤ toString n.id := by
  have hsome : (regular.find? fun n => decide
      (n.id ∉ ((childrenMap (regular ++ parquet)).map Prod.snd).flatten)).isSome :=
    List.find?_isSome.mpr ⟨top, htop, decide_eq_true hfree⟩
  -- the first free node; the nodes are sorted by their keys, so it is the least
  obtain ⟨n, hn⟩ := Option.isSome_iff_exists.mp hsome
  simp only [findRoot, List.find?_append, hn, Option.some_or] at hr
  injection hr with hr
  subst hr
  obtain ⟨hnfree, before, after, hsplit, hbefore⟩ := List.find?_eq_some_iff_append.mp hn
  refine ⟨⟨n, List.mem_of_find?_eq_some hn, rfl⟩, of_decide_eq_true hnfree, fun m hm hmfree => ?_⟩
  have hsorted := h.sorted
  rw [hsplit] at hm hsorted
  rcases List.mem_append.mp hm with hm | hm
  · have hno := hbefore m hm
    rw [decide_eq_true hmfree] at hno
    exact absurd hno Bool.false_ne_true
  · rcases List.mem_cons.mp hm with rfl | hm
    · exact le_refl _
    · exact (List.pairwise_cons.mp (List.pairwise_append.mp hsorted).2.1).1 m hm

end

/-! ## The root -/

variable {keyOrder : List Nat → List Nat} {plan : List (String × Json)} {tables : List Json}

/-- **The root of a document that decodes so far** is a node of its structure, if there is any; if
no node shadows a scan it is the least node, as a string, that no other node refers to. -/
theorem selectRoot_spec (hkeys : ∀ ks, (keyOrder ks).Perm ks) (hp : EnginePlan plan)
    (hne : plan ≠ []) (hf : (Json.arr tables).NodupKeys) {r : Nat}
    (h : selectRoot keyOrder (planDocument plan (.arr tables)) = .ok r) :
    toString r ∈ OrdDict.keys plan ∧
      ((∀ p ∈ plan, ∀ id ∈ tableIds tables, p.1 ≠ toString id) →
        Unreferenced plan r ∧
          ∀ id : Nat, toString id ∈ OrdDict.keys plan → Unreferenced plan id →
            toString r ≤ toString id) := by
  obtain ⟨nodes, s, hnodes, hcheck, hroot⟩ := selectRoot_eq_ok.mp h
  obtain ⟨regular, parquet, rfl, hparsed⟩ := parsed_of_parseNodes hp hf hnodes
  have hacyclic := (graphCheck_ok_iff hkeys).mp ⟨s, hcheck⟩
  -- the nodes of the structure alone have a free one, since scans have no children
  have hregular : regular.map (·.id) ≠ [] := by
    obtain ⟨p, hpmem⟩ := List.exists_mem_of_ne_nil plan hne
    obtain ⟨n, hn, _⟩ := hparsed.covers p hpmem
    exact List.ne_nil_of_mem (List.mem_map_of_mem hn)
  obtain ⟨top, htop, hfree⟩ := exists_unreferenced hregular fun id hid => by
    obtain ⟨n, hn, rfl⟩ := List.mem_map.mp hid
    exact hacyclic n.id (mem_keys_childrenMap.mpr ⟨n, List.mem_append_left _ hn, rfl⟩) n.id
      Relation.ReflTransGen.refl
  obtain ⟨n, hn, rfl⟩ := List.mem_map.mp htop
  have hnd := (Json.nodupKeys_obj.mp hp.nodup).1
  have hnfree : n.id ∉ ((childrenMap (regular ++ parquet)).map Prod.snd).flatten := by
    rw [mem_allChildren, not_exists]
    intro id hc
    obtain ⟨p, hpmem, hk, _⟩ := mem_structureChildren ((hparsed.mem_childrenOf hnd).mp hc).2
    obtain ⟨m, hm, hmk⟩ := hparsed.covers p hpmem
    have hid : m.id = id := Py.toString_injective (hmk.symm.trans hk)
    exact hfree id (List.mem_map.mpr ⟨m, hm, hid⟩) hc
  obtain ⟨⟨m, hm, rfl⟩, hmfree, hleast⟩ := hparsed.findRoot_least hn hnfree hroot
  obtain ⟨v, hv, _⟩ := hparsed.node m hm
  refine ⟨OrdDict.mem_keys_of_mem hv, fun hshadow => ⟨?_, fun id hid hun => ?_⟩⟩
  · exact (hparsed.free_iff hp hshadow).mp hmfree
  · obtain ⟨p, hpmem, hpk⟩ := List.mem_map.mp hid
    obtain ⟨m', hm', hmk⟩ := hparsed.covers p hpmem
    have hid' : m'.id = id := Py.toString_injective (hmk.symm.trans hpk)
    rw [← hid']
    exact hleast m' hm' ((hparsed.free_iff hp hshadow).mpr (hid' ▸ hun))

/-- **An acyclic structure that can be parsed has a root.** -/
theorem selectRoot_exists (hkeys : ∀ ks, (keyOrder ks).Perm ks) (hp : EnginePlan plan)
    (hne : plan ≠ []) (hf : (Json.arr tables).NodupKeys)
    (hids : ∀ t ∈ tables, ∃ n, asU64 (index t "id") = some n)
    (hacyclic : ∀ id, ¬ OnCycle (structureChildren plan) id) :
    ∃ r, selectRoot keyOrder (planDocument plan (.arr tables)) = .ok r := by
  obtain ⟨nodes, hnodes⟩ := exists_parseNodes hp hf hids
  obtain ⟨regular, parquet, rfl, hparsed⟩ := parsed_of_parseNodes hp hf hnodes
  have hnd := (Json.nodupKeys_obj.mp hp.nodup).1
  have hcycle : ∀ id, ¬ OnCycle (Engine.childrenOf (childrenMap (regular ++ parquet))) id := by
    intro id h
    exact hacyclic id (h.mono_edge fun a b hab => ((hparsed.mem_childrenOf hnd).mp hab).2)
  obtain ⟨s, hs⟩ := (graphCheck_ok_iff hkeys).mpr fun k _ id _ => hcycle id
  obtain ⟨p, hpmem⟩ := List.exists_mem_of_ne_nil plan hne
  obtain ⟨n, hn, _⟩ := hparsed.covers p hpmem
  obtain ⟨r, hr, _⟩ := findRoot_ok (List.ne_nil_of_mem (List.mem_append_left parquet hn))
    fun n _ => hcycle n.id
  exact ⟨r, selectRoot_eq_ok.mpr ⟨_, s, hnodes, hs, hr⟩⟩

end DbPlanBench.Transfer
