import DbPlanBench.Engine.RoundTrip

/-!
# Decoding any document

`execution_plan_from_succinct_json` on documents of every kind: ids defined
several times, children that are defined nowhere, nodes that nothing points to.

`validate_execution_plan_graph` searches `children_map`, while
`build_execution_plan_tree` descends through `node_map`. The two are collected from
the same list of nodes and the last definition of an id wins in both, so the
recursion follows exactly the edges that were searched (`calledIds_eq`).

* `validateExecutionPlanGraph_ok_iff` — the graph check is exact.
* `executionPlanFromSuccinctJson_returns` — decoding a document that passes it ends.
-/

namespace DbPlanBench.Engine

open Paths

variable {Op : Type}

theorem graphCheck_ok_iff {keyOrder : List Nat → List Nat} (hkeys : ∀ ks, (keyOrder ks).Perm ks)
    {children : List (Nat × List Nat)} :
    (∃ s, validateExecutionPlanGraph keyOrder children = .ok s) ↔
      ∀ k ∈ OrdDict.keys children, ∀ id, Reaches (childrenOf children) k id →
        ¬ OnCycle (childrenOf children) id := by
  refine (CycleCheck.check_ok_iff (validateExecutionPlanGraph_fuel keyOrder hkeys children)).trans ?_
  constructor
  · intro h k hk
    exact h k ((hkeys _).mem_iff.mpr hk)
  · intro h k hk
    exact h k ((hkeys _).mem_iff.mp hk)

/-- **The graph check returns, and accepts exactly the maps whose keys reach no cycle.** -/
theorem validateExecutionPlanGraph_ok_iff (keyOrder : List Nat → List Nat)
    (hkeys : ∀ ks, (keyOrder ks).Perm ks) (children : List (Nat × List Nat)) :
    validateExecutionPlanGraph keyOrder children ≠ .error .outOfFuel ∧
      ((∃ s, validateExecutionPlanGraph keyOrder children = .ok s) ↔
        ∀ k ∈ OrdDict.keys children, ∀ id, Reaches (childrenOf children) k id →
          ¬ OnCycle (childrenOf children) id) :=
  ⟨validateExecutionPlanGraph_fuel keyOrder hkeys children, graphCheck_ok_iff hkeys⟩

/-- Two parents of one shared child, with a repeated child and one that is no key. -/
def sharedChildren : List (Nat × List Nat) := [(0, [1, 2]), (1, [3, 3]), (2, [3]), (3, [7])]

/-- The shared child is searched once and taken for no cycle. -/
theorem validateExecutionPlanGraph_sharedChildren :
    (∃ s, validateExecutionPlanGraph List.reverse sharedChildren = .ok s) ∧
      ∀ k ∈ OrdDict.keys sharedChildren, ∀ id, Reaches (childrenOf sharedChildren) k id →
        ¬ OnCycle (childrenOf sharedChildren) id := by
  have hcheck : ∃ s, validateExecutionPlanGraph List.reverse sharedChildren = .ok s := ⟨_, rfl⟩
  exact ⟨hcheck, (validateExecutionPlanGraph_ok_iff List.reverse List.reverse_perm
    sharedChildren).2.mp hcheck⟩

/-! ## One resolution of ids -/

/-- The ids that `build_execution_plan_tree` calls itself with. -/
def calledIds (nodes : List (Nat × ParsedNode)) (id : Nat) : List Nat :=
  match OrdDict.get? nodes id with
  | some node => if node.isParquetScan then [] else node.childIds
  | none => []

/-- Scans have no children. -/
def ScansAreLeaves (nodes : List ParsedNode) : Prop :=
  ∀ n ∈ nodes, n.isParquetScan → n.childIds = []

/-- Both maps resolve an id to its last definition. -/
theorem get?_childrenMap (nodes : List ParsedNode) (id : Nat) :
    OrdDict.get? (childrenMap nodes) id =
      (OrdDict.get? (nodeMap nodes) id).map ParsedNode.childIds := by
  have hfold : ∀ (ns : List ParsedNode) (c : List (Nat × List Nat)) (m : List (Nat × ParsedNode)),
      (∀ id, OrdDict.get? c id = (OrdDict.get? m id).map ParsedNode.childIds) →
        OrdDict.get? (ns.foldl (fun c n => OrdDict.set c n.id n.childIds) c) id =
          (OrdDict.get? (ns.foldl (fun m n => OrdDict.set m n.id n) m) id).map
            ParsedNode.childIds := by
    intro ns
    induction ns with
    | nil => exact fun c m h => h id
    | cons n ns ih =>
      intro c m h
      refine ih _ _ fun j => ?_
      rw [OrdDict.get?_set, OrdDict.get?_set, h j]
      by_cases hj : n.id = j
      · rw [if_pos hj, if_pos hj, Option.map_some]
      · rw [if_neg hj, if_neg hj]
  exact hfold nodes [] [] fun _ => rfl

theorem mem_of_get?_nodeMap {nodes : List ParsedNode} {id : Nat} {node : ParsedNode}
    (h : OrdDict.get? (nodeMap nodes) id = some node) : node ∈ nodes ∧ node.id = id := by
  -- what the loop finds under an id is a node of the list or was in the map before
  have hfold : ∀ (ns : List ParsedNode) (m : List (Nat × ParsedNode)),
      OrdDict.get? (ns.foldl (fun m n => OrdDict.set m n.id n) m) id = some node →
        (node ∈ ns ∧ node.id = id) ∨ OrdDict.get? m id = some node := by
    intro ns
    induction ns with
    | nil => exact fun m h => Or.inr h
    | cons n ns ih =>
      intro m h
      rcases ih _ h with ⟨hmem, hid⟩ | h
      · exact Or.inl ⟨List.mem_cons_of_mem _ hmem, hid⟩
      · rw [OrdDict.get?_set] at h
        by_cases hid : n.id = id
        · rw [if_pos hid] at h
          injection h with h
          exact Or.inl ⟨h ▸ List.mem_cons_self .., h ▸ hid⟩
        · rw [if_neg hid] at h
          exact Or.inr h
  rcases hfold nodes [] h with h | h
  · exact h
  · exact absurd h (by simp)

/-- The keys of the map are the ids of the nodes. -/
theorem mem_keys_childrenMap {nodes : List ParsedNode} {id : Nat} :
    id ∈ OrdDict.keys (childrenMap nodes) ↔ ∃ n ∈ nodes, n.id = id := by
  have hfold : ∀ (ns : List ParsedNode) (c : List (Nat × List Nat)),
      id ∈ OrdDict.keys (ns.foldl (fun c n => OrdDict.set c n.id n.childIds) c) ↔
        (∃ n ∈ ns, n.id = id) ∨ id ∈ OrdDict.keys c := by
    intro ns
    induction ns with
    | nil => simp
    | cons n ns ih =>
      intro c
      rw [List.foldl_cons, ih, OrdDict.mem_keys_set, @eq_comm _ id n.id]
      simp only [List.mem_cons, exists_eq_or_imp]
      exact or_left_comm.trans or_assoc.symm
  rw [childrenMap, hfold]
  simp

theorem get?_nodeMap_isSome {nodes : List ParsedNode} {id : Nat} :
    (∃ n, OrdDict.get? (nodeMap nodes) id = some n) ↔ ∃ n ∈ nodes, n.id = id := by
  rw [← mem_keys_childrenMap, ← OrdDict.get?_isSome, get?_childrenMap]
  constructor
  · intro h
    obtain ⟨n, hn⟩ := h
    exact ⟨n.childIds, by rw [hn]; rfl⟩
  · intro h
    obtain ⟨ids, hids⟩ := h
    obtain ⟨n, hn, _⟩ := Option.map_eq_some_iff.mp hids
    exact ⟨n, hn⟩

theorem nodup_keys_childrenMap (nodes : List ParsedNode) :
    (OrdDict.keys (childrenMap nodes)).Nodup :=
  OrdDict.nodup_keys_foldl_set _ _ nodes [] List.nodup_nil

/-- The recursion descends along the edges that were searched. -/
theorem calledIds_eq {nodes : List ParsedNode} (h : ScansAreLeaves nodes) (id : Nat) :
    calledIds (nodeMap nodes) id = childrenOf (childrenMap nodes) id := by
  rw [calledIds, childrenOf, get?_childrenMap]
  cases hn : OrdDict.get? (nodeMap nodes) id with
  | none => rfl
  | some node =>
    show (if node.isParquetScan then [] else node.childIds) = node.childIds
    split
    next hp => exact (h node (mem_of_get?_nodeMap hn).1 hp).symm
    next => rfl

/-- The nodes of `structure` come first, those of `full_table_info` are scans without children. -/
theorem parseNodes_eq_ok {summary : Json} {nodes : List ParsedNode}
    (h : parseNodes summary = .ok nodes) : ∃ regular parquet, nodes = regular ++ parquet ∧
      (∀ n ∈ regular, n.isParquetScan = false) ∧
      ∀ n ∈ parquet, n.isParquetScan = true ∧ n.childIds = [] := by
  rw [parseNodes] at h
  split at h
  next entries tables _ _ =>
    obtain ⟨regular, hregular, h⟩ := Except.bind_eq_ok.mp h
    obtain ⟨parquet, hparquet, h⟩ := Except.bind_eq_ok.mp h
    injection (show (Except.ok (regular ++ parquet) : Except String _) = .ok nodes from h) with h
    refine ⟨regular, parquet, h.symm, fun n hn => ?_, fun n hn => ?_⟩
    · obtain ⟨entry, _, he⟩ := Except.mem_of_mapM hregular hn
      obtain ⟨id, _, he⟩ := Except.bind_eq_ok.mp he
      injection (show (Except.ok _ : Except String ParsedNode) = .ok n from he) with he
      rw [← he]
    · obtain ⟨table, _, ht⟩ := Except.mem_of_mapM hparquet hn
      rw [parseParquetNode] at ht
      split at ht
      next =>
        injection ht with ht
        rw [← ht]
        exact ⟨rfl, rfl⟩
      next => exact absurd ht (by simp)
  next => exact absurd h (by simp)
  next => exact absurd h (by simp)

/-- Only the nodes of `structure` have children. -/
theorem parseNodes_scansAreLeaves {summary : Json} {nodes : List ParsedNode}
    (h : parseNodes summary = .ok nodes) : ScansAreLeaves nodes := by
  obtain ⟨regular, parquet, rfl, hregular, hparquet⟩ := parseNodes_eq_ok h
  intro n hn hp
  rcases List.mem_append.mp hn with hn | hn
  · rw [hregular n hn] at hp
    exact absurd hp Bool.false_ne_true
  · exact (hparquet n hn).2

/-- What was collected later hides what was collected before. -/
theorem get?_nodeMap_append (ns ms : List ParsedNode) (id : Nat) :
    OrdDict.get? (nodeMap (ns ++ ms)) id =
      (OrdDict.get? (nodeMap ms) id).or (OrdDict.get? (nodeMap ns) id) := by
  have hfold : ∀ (ms : List ParsedNode) (m : List (Nat × ParsedNode)),
      OrdDict.get? (ms.foldl (fun m n => OrdDict.set m n.id n) m) id =
        (OrdDict.get? (nodeMap ms) id).or (OrdDict.get? m id) := by
    intro ms
    induction ms with
    | nil => exact fun m => rfl
    | cons n ms ih =>
      intro m
      rw [nodeMap, List.foldl_cons, List.foldl_cons, ih, ih, OrdDict.get?_set, OrdDict.get?_set]
      by_cases hn : n.id = id
      · rw [if_pos hn, if_pos hn]
        cases OrdDict.get? (nodeMap ms) id <;> rfl
      · rw [if_neg hn, if_neg hn]
        cases OrdDict.get? (nodeMap ms) id <;> rfl
  rw [nodeMap, List.foldl_append]
  exact hfold ms (nodeMap ns)

/-! ## The recursion -/

variable (codec : Codec Op)

/-- The rank of an id: how many defined ids it can reach. -/
noncomputable def depth (nodes : List ParsedNode) (id : Nat) : Nat :=
  (reachable (childrenOf (childrenMap nodes)) (OrdDict.keys (childrenMap nodes)).toFinset id).card

theorem depth_le (nodes : List ParsedNode) (id : Nat) : depth nodes id ≤ nodes.length := by
  have hlen : (OrdDict.keys (childrenMap nodes)).length ≤ nodes.length := by
    have hsub : OrdDict.keys (childrenMap nodes) ⊆ nodes.map ParsedNode.id := by
      intro id hid
      obtain ⟨n, hn, rfl⟩ := mem_keys_childrenMap.mp hid
      exact List.mem_map_of_mem hn
    have hlen := (List.subperm_of_subset (nodup_keys_childrenMap nodes) hsub).length_le
    rwa [List.length_map] at hlen
  exact ((reachable_card_le _ id).trans (List.toFinset_card_le _)).trans hlen

/-- Every child is an id that the map resolves to less. -/
theorem depth_lt {nodes : List ParsedNode} {id c : Nat}
    (h : Ends (childrenOf (childrenMap nodes)) id) (hc : c ∈ childrenOf (childrenMap nodes) id) :
    depth nodes c < depth nodes id := by
  refine reachable_lt ?_ h.not_onCycle hc
  rw [List.mem_toFinset, ← OrdDict.get?_isSome]
  cases hn : OrdDict.get? (childrenMap nodes) id with
  | some cs => exact ⟨cs, rfl⟩
  | none =>
    rw [childrenOf, hn] at hc
    exact absurd hc List.not_mem_nil

/-- **Any fuel above the depth of an id builds the same plan.** -/
theorem buildExecutionPlanTree_fuel {nodes : List ParsedNode} (fuel : Nat) :
    ∀ (fuel' id : Nat), Ends (childrenOf (childrenMap nodes)) id →
      depth nodes id < fuel → depth nodes id < fuel' →
        buildExecutionPlanTree codec (nodeMap nodes) fuel id =
          buildExecutionPlanTree codec (nodeMap nodes) fuel' id := by
  induction fuel with
  | zero => exact fun _ _ _ h => absurd h (Nat.not_lt_zero _)
  | succ fuel ih =>
    intro fuel' id hends hf hf'
    obtain ⟨fuel', rfl⟩ : ∃ n, fuel' = n + 1 := ⟨fuel' - 1, by omega⟩
    rw [buildExecutionPlanTree, buildExecutionPlanTree]
    cases hn : OrdDict.get? (nodeMap nodes) id with
    | none => rfl
    | some node =>
      -- the recursion goes to the child ids of the node that the id was last defined as
      have hcalled : node.childIds = childrenOf (childrenMap nodes) id := by
        rw [childrenOf, get?_childrenMap, hn]
        rfl
      have hchildren : node.childIds.mapM (buildExecutionPlanTree codec (nodeMap nodes) fuel) =
          node.childIds.mapM (buildExecutionPlanTree codec (nodeMap nodes) fuel') := by
        refine Except.mapM_congr fun c hc => ?_
        have hc : c ∈ childrenOf (childrenMap nodes) id := hcalled ▸ hc
        have hlt := depth_lt hends hc
        exact ih fuel' c (hends.inv hc) (by omega) (by omega)
      simp only [hchildren]

/-- A plan that was built has a definition for every id below its root. -/
theorem defined_of_build {nodes : List ParsedNode} (hscans : ScansAreLeaves nodes) (fuel : Nat) :
    ∀ (root id : Nat) (plan : RoseTree Op),
      buildExecutionPlanTree codec (nodeMap nodes) fuel root = .ok plan →
        Reaches (childrenOf (childrenMap nodes)) root id →
          OrdDict.get? (nodeMap nodes) id ≠ none := by
  induction fuel with
  | zero => exact fun _ _ _ h => absurd h (by simp [buildExecutionPlanTree])
  | succ fuel ih =>
    intro root id plan h hreach
    rw [buildExecutionPlanTree] at h
    cases hn : OrdDict.get? (nodeMap nodes) root with
    | none =>
      rw [hn] at h
      exact absurd h (by simp)
    | some node =>
      rw [hn] at h
      rcases Relation.ReflTransGen.cases_head hreach with rfl | ⟨c, hc, hreach⟩
      · rw [hn]
        exact Option.some_ne_none node
      · have hc : c ∈ node.childIds := by
          have hc : c ∈ childrenOf (childrenMap nodes) root := hc
          rw [childrenOf, get?_childrenMap, hn] at hc
          exact hc
        -- a node with children is no scan, so its children were built
        have hleaf : ¬ (node.isParquetScan || node.childIds.isEmpty) = true := by
          intro hl
          rcases Bool.or_eq_true_iff.mp hl with hp | he
          · rw [hscans node (mem_of_get?_nodeMap hn).1 hp] at hc
            exact absurd hc List.not_mem_nil
          · rw [List.isEmpty_iff.mp he] at hc
            exact absurd hc List.not_mem_nil
        simp only [hleaf] at h
        obtain ⟨built, hbuilt, _⟩ := Except.bind_eq_ok.mp h
        obtain ⟨sub, _, hsub⟩ := Except.ok_of_mapM hbuilt c hc
        exact ih c id sub hsub hreach

/-! ## The root -/

theorem mem_keys_of_childrenOf {nodes : List ParsedNode} {id c : Nat}
    (h : c ∈ childrenOf (childrenMap nodes) id) : id ∈ OrdDict.keys (childrenMap nodes) := by
  rw [childrenOf] at h
  cases hn : OrdDict.get? (childrenMap nodes) id with
  | none =>
    rw [hn] at h
    exact absurd h List.not_mem_nil
  | some cs => exact OrdDict.get?_isSome.mp ⟨cs, hn⟩

/-- `all_children` holds the children of every id. -/
theorem mem_allChildren {nodes : List ParsedNode} {c : Nat} :
    c ∈ ((childrenMap nodes).map Prod.snd).flatten ↔
      ∃ id, c ∈ childrenOf (childrenMap nodes) id := by
  rw [List.mem_flatten]
  constructor
  · intro h
    obtain ⟨cs, hcs, hc⟩ := h
    obtain ⟨p, hp, rfl⟩ := List.mem_map.mp hcs
    refine ⟨p.1, ?_⟩
    rw [childrenOf, OrdDict.get?_of_mem (nodup_keys_childrenMap nodes) hp]
    exact hc
  · intro h
    obtain ⟨id, hc⟩ := h
    obtain ⟨cs, hcs⟩ := OrdDict.get?_isSome.mpr (mem_keys_of_childrenOf hc)
    rw [childrenOf, hcs] at hc
    exact ⟨cs, List.mem_map_of_mem (f := Prod.snd) (OrdDict.mem_of_get? hcs), hc⟩

/-- **In an acyclic document with a node some node is unreferenced**, and the first one in the
order of the document is the root. -/
theorem findRoot_ok {nodes : List ParsedNode} (hne : nodes ≠ [])
    (h : ∀ n ∈ nodes, ¬ OnCycle (childrenOf (childrenMap nodes)) n.id) :
    ∃ root, findRoot nodes = .ok root ∧ (∃ n ∈ nodes, n.id = root) ∧
      ∀ id, root ∉ childrenOf (childrenMap nodes) id := by
  have hkeys : OrdDict.keys (childrenMap nodes) ≠ [] := by
    obtain ⟨n, hn⟩ := List.exists_mem_of_ne_nil nodes hne
    exact List.ne_nil_of_mem (mem_keys_childrenMap.mpr ⟨n, hn, rfl⟩)
  obtain ⟨top, htop, hfree⟩ := exists_unreferenced hkeys fun id hid => by
    obtain ⟨n, hn, rfl⟩ := mem_keys_childrenMap.mp hid
    exact h n hn
  -- the search finds some node, since it would accept `top`
  obtain ⟨n, hn, rfl⟩ := mem_keys_childrenMap.mp htop
  have hsome : (nodes.find? fun n => decide
      (n.id ∉ ((childrenMap nodes).map Prod.snd).flatten)).isSome := by
    rw [List.find?_isSome]
    refine ⟨n, hn, decide_eq_true fun hc => ?_⟩
    obtain ⟨id, hc⟩ := mem_allChildren.mp hc
    exact hfree id (mem_keys_of_childrenOf hc) hc
  obtain ⟨root, hroot⟩ := Option.isSome_iff_exists.mp hsome
  refine ⟨root.id, ?_, ⟨root, List.mem_of_find?_eq_some hroot, rfl⟩, fun id hc => ?_⟩
  · simp only [findRoot, hroot]
  · have hfree := List.find?_some hroot
    exact of_decide_eq_true hfree (mem_allChildren.mpr ⟨id, hc⟩)

/-! ## Decoding -/

/-- What decoding does with the nodes of a document once the graph check passed. -/
theorem executionPlanFromSuccinctJson_eq {keyOrder : List Nat → List Nat} {summary : Json}
    {nodes : List ParsedNode} {s : CycleCheck.State Nat} {root : Nat}
    (hnodes : parseNodes summary = .ok nodes)
    (hcheck : validateExecutionPlanGraph keyOrder (childrenMap nodes) = .ok s)
    (hroot : findRoot nodes = .ok root) :
    executionPlanFromSuccinctJson codec keyOrder summary =
      buildExecutionPlanTree codec (nodeMap nodes) (nodes.length + 1) root := by
  rw [executionPlanFromSuccinctJson, hnodes, Except.ok_bind]
  simp only [hcheck, hroot, Except.ok_bind]

/-- **Decoding returns.** The graph check has fuel for every document. If it passes and there is a
node, an unreferenced node is the root, every path of the recursion from it ends, more fuel changes
nothing, and an id below it without a definition makes the decoding fail. -/
theorem executionPlanFromSuccinctJson_returns (keyOrder : List Nat → List Nat)
    (hkeys : ∀ ks, (keyOrder ks).Perm ks) (summary : Json) (nodes : List ParsedNode)
    (hnodes : parseNodes summary = .ok nodes) :
    validateExecutionPlanGraph keyOrder (childrenMap nodes) ≠ .error .outOfFuel ∧
      ∀ s, validateExecutionPlanGraph keyOrder (childrenMap nodes) = .ok s → nodes ≠ [] →
        ∃ root, findRoot nodes = .ok root ∧ (∃ n ∈ nodes, n.id = root) ∧
          (∀ id, root ∉ calledIds (nodeMap nodes) id) ∧ Ends (calledIds (nodeMap nodes)) root ∧
          (∀ fuel, nodes.length < fuel →
            buildExecutionPlanTree codec (nodeMap nodes) fuel root =
              executionPlanFromSuccinctJson codec keyOrder summary) ∧
          ∀ id, Reaches (calledIds (nodeMap nodes)) root id →
            OrdDict.get? (nodeMap nodes) id = none →
              ∃ e, executionPlanFromSuccinctJson codec keyOrder summary = .error e := by
  have hscans := parseNodes_scansAreLeaves hnodes
  have hcalled : calledIds (nodeMap nodes) = childrenOf (childrenMap nodes) :=
    funext (calledIds_eq hscans)
  refine ⟨validateExecutionPlanGraph_fuel keyOrder hkeys _, fun s hcheck hne => ?_⟩
  -- a passed check leaves no cycle below any node
  have hends : ∀ n ∈ nodes, Ends (childrenOf (childrenMap nodes)) n.id := by
    intro n hn
    apply CycleCheck.ends_of_check hcheck
    rw [(hkeys _).mem_iff, mem_keys_childrenMap]
    exact ⟨n, hn, rfl⟩
  -- if every node were referenced, going back along the references would never end
  obtain ⟨root, hroot, hmem, hfree⟩ := findRoot_ok hne fun n hn => (hends n hn).not_onCycle
  have hroot_ends : Ends (childrenOf (childrenMap nodes)) root := by
    obtain ⟨n, hn, rfl⟩ := hmem
    exact hends n hn
  have heq := executionPlanFromSuccinctJson_eq codec hnodes hcheck hroot
  rw [hcalled]
  refine ⟨root, hroot, hmem, hfree, hroot_ends, fun fuel hf => ?_, fun id hreach hnone => ?_⟩
  · rw [heq]
    have hle := depth_le nodes root
    exact buildExecutionPlanTree_fuel codec fuel _ root hroot_ends (by omega) (by omega)
  · cases hresult : executionPlanFromSuccinctJson codec keyOrder summary with
    | error e => exact ⟨e, rfl⟩
    | ok plan =>
      rw [heq] at hresult
      exact absurd hnone (defined_of_build codec hscans _ root id plan hresult hreach)

/-- Node 4 is defined twice, first below itself; node 9 is a child that is defined nowhere, and
node 7 an orphan. -/
def overwrittenCycle : Json :=
  .obj [
    ("full_table_info", .arr [tableEntry 7 (.obj [("parquetScan", .obj [])])]),
    ("structure", .obj [
      ("0", .obj [("crossJoin", .obj [("left", jsonId 4), ("right", jsonId 9)])]),
      ("04", .obj [("coalescePartitions", .obj [("input", jsonId 0)])]),
      ("4", .obj [("empty", .obj [("schema", .obj [])])])])]

/-- Its nodes. -/
def overwrittenCycleNodes : List ParsedNode :=
  [{ id := 0, nodeData := .obj [("crossJoin", .obj [("left", jsonId 4), ("right", jsonId 9)])],
     childIds := [4, 9], isParquetScan := false },
   { id := 4, nodeData := .obj [("coalescePartitions", .obj [("input", jsonId 0)])],
     childIds := [0], isParquetScan := false },
   { id := 4, nodeData := .obj [("empty", .obj [("schema", .obj [])])],
     childIds := [], isParquetScan := false },
   { id := 7, nodeData := .obj [("parquetScan", .obj [])], childIds := [], isParquetScan := true }]

/-- The overwritten definition makes no cycle, and the missing child makes the decoding fail. -/
theorem executionPlanFromSuccinctJson_overwrittenCycle :
    ∃ root, findRoot overwrittenCycleNodes = .ok root ∧
      Ends (calledIds (nodeMap overwrittenCycleNodes)) root ∧
      ∃ e, executionPlanFromSuccinctJson bareCodec id overwrittenCycle = .error e := by
  have hnodes : parseNodes overwrittenCycle = .ok overwrittenCycleNodes := by rfl
  obtain ⟨_, hrest⟩ := executionPlanFromSuccinctJson_returns bareCodec id (fun _ => List.Perm.refl _)
    overwrittenCycle overwrittenCycleNodes hnodes
  obtain ⟨root, hroot, _, _, hends, _, hmissing⟩ := hrest ([], [7, 0, 9, 4]) rfl (by decide)
  have hzero : root = 0 := by
    injection (show Except.ok 0 = Except.ok root from hroot) with h
    exact h.symm
  have hreach : Reaches (calledIds (nodeMap overwrittenCycleNodes)) root 9 := by
    rw [hzero]
    exact Relation.ReflTransGen.single (show 9 ∈ [4, 9] by decide)
  exact ⟨root, hroot, hends, hmissing 9 hreach (by rfl)⟩

end DbPlanBench.Engine
