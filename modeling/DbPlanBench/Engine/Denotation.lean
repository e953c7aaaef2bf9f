import DbPlanBench.Engine.Decode
import DbPlanBench.Engine.RoundTrip
import DbPlanBench.Lib.GraphTree

/-!
# What a succinct document means

A document is a graph of operators: an id is defined as the operator of the last node that
was collected under it, with that node's child ids. The plan it means is the tree that its
root denotes. Decoding computes this tree and nothing else
(`executionPlanFromSuccinctJson_denotes`), if every node is stored as the encoder stores
it: whichever way the document came about, however its ids are chosen and shared, in
whatever order the hash maps are walked.

* `build_of_denotes`, `denotes_of_build` — the recursion and the tree, by induction on the
  tree and on the depth of the recursion.
-/

namespace DbPlanBench.Engine

open GraphTree Paths

variable {Op : Type}

/-- The node stores an operator the way the encoder does, with its child ids. -/
structure StoredNode (frame : Op → Json) (n : ParsedNode) (op : Op) : Prop where
  data : n.nodeData = encodeNode (frame op) n.childIds
  shape : (n.childIds = [] ∧ IsLeaf (frame op)) ∨
    (n.childIds ≠ [] ∧ IsOperator (shapeFor n.childIds.length) (frame op))

/-- The id is defined as an operator with child ids. -/
def DefinedAs (frame : Op → Json) (nodes : List ParsedNode) (id : Nat) (op : Op)
    (ids : List Nat) : Prop :=
  ∃ n, OrdDict.get? (nodeMap nodes) id = some n ∧ n.childIds = ids ∧ StoredNode frame n op

/-! ## Child ids fit -/

theorem lt_of_asU64_eq_some {v : Json} {n : Nat} (h : asU64 v = some n) : n < u64Size := by
  cases v with
  | int z =>
    rw [asU64] at h
    split at h
    next hz =>
      injection h with h
      exact h ▸ hz.2
    next => exact absurd h (by simp)
  | _ => exact absurd h (by simp [asU64])

theorem lt_of_mem_extractChildIds {node : Json} {c : Nat} (h : c ∈ extractChildIds node) :
    c < u64Size := by
  have hfield : ∀ (conf : List (String × Json)) (k : String),
      c ∈ ((OrdDict.get? conf k).bind asU64).toList → c < u64Size := by
    intro conf k hc
    rw [Option.mem_toList] at hc
    obtain ⟨v, _, hv⟩ := Option.bind_eq_some_iff.mp hc
    exact lt_of_asU64_eq_some hv
  unfold extractChildIds at h
  split at h
  next conf rest =>
    rw [readChildIds, List.mem_append, List.mem_append, List.mem_append] at h
    rcases h with ((h | h) | h) | h
    · exact hfield conf "input" h
    · exact hfield conf "left" h
    · exact hfield conf "right" h
    · obtain ⟨v, _, hv⟩ := List.mem_filterMap.mp h
      exact lt_of_asU64_eq_some hv
  next => exact absurd h List.not_mem_nil

theorem lt_of_mem_childIds {summary : Json} {nodes : List ParsedNode}
    (h : parseNodes summary = .ok nodes) {n : ParsedNode} (hn : n ∈ nodes) {c : Nat}
    (hc : c ∈ n.childIds) : c < u64Size := by
  unfold parseNodes at h
  split at h
  next entries tables _ _ =>
    obtain ⟨regular, hregular, h⟩ := Except.bind_eq_ok.mp h
    obtain ⟨parquet, hparquet, h⟩ := Except.bind_eq_ok.mp h
    injection (show Except.ok (regular ++ parquet) = Except.ok nodes from h) with h
    rw [← h] at hn
    rcases List.mem_append.mp hn with hn | hn
    · obtain ⟨e, _, he⟩ := Except.mem_of_mapM hregular hn
      obtain ⟨id, _, he⟩ := Except.bind_eq_ok.mp he
      injection (show Except.ok _ = Except.ok n from he) with he
      rw [← he] at hc
      exact lt_of_mem_extractChildIds hc
    · obtain ⟨t, _, ht⟩ := Except.mem_of_mapM hparquet hn
      unfold parseParquetNode at ht
      split at ht
      next =>
        injection ht with ht
        rw [← ht] at hc
        exact absurd hc List.not_mem_nil
      next => exact absurd ht (by simp)
  next => exact absurd h (by simp)
  next => exact absurd h (by simp)

/-! ## One node -/

section

variable {codec : Codec Op} {frame : Op → Json} {nodes : List ParsedNode} {n : ParsedNode} {op : Op}
  {ts : List (RoseTree Op)}

/-- The JSON of an operator that is stored, with its children. -/
theorem toJson_node (hc : codec.Lawful frame) (hs : StoredNode frame n op)
    (hlen : n.childIds.length = ts.length) (hts : ∀ t ∈ ts, ∃ j, codec.toJson t = .ok j) :
    ∃ js, ts.mapM codec.toJson = .ok js ∧ ∃ j, codec.toJson (.node op ts) = .ok j ∧
      (ts = [] → j = frame op) ∧
        (ts ≠ [] → j = withChildren (shapeFor n.childIds.length) (frame op) js) := by
  obtain ⟨js, hjs⟩ := Except.exists_mapM_ok hts
  refine ⟨js, hjs, ?_⟩
  rcases hs.shape with ⟨hnil, hleaf⟩ | ⟨hne, hop⟩
  · have htnil : ts = [] := by
      rw [hnil] at hlen
      exact List.length_eq_zero_iff.mp hlen.symm
    subst htnil
    exact ⟨_, hc.leaf op hleaf, fun _ => rfl, fun h => absurd rfl h⟩
  · have hpos : n.childIds.length ≠ 0 := fun h => hne (List.length_eq_zero_iff.mp h)
    refine ⟨_, hc.node _ op ts js hop (hlen ▸ (agrees_shapeFor hpos).1) hjs, fun h => ?_,
      fun _ => rfl⟩
    rw [h] at hlen
    exact absurd hlen hpos

/-- **One step of the recursion**: a stored operator with its children built is built. -/
theorem build_node (hc : codec.Lawful frame) (hs : StoredNode frame n op)
    (hscan : n.isParquetScan → n.childIds = []) (hfits : ∀ c ∈ n.childIds, c < u64Size) {id : Nat}
    (hn : OrdDict.get? (nodeMap nodes) id = some n) {fuel : Nat}
    (hts : n.childIds.mapM (buildExecutionPlanTree codec (nodeMap nodes) fuel) = .ok ts)
    (hj : ∀ t ∈ ts, ∃ j, codec.toJson t = .ok j) :
    buildExecutionPlanTree codec (nodeMap nodes) (fuel + 1) id = .ok (.node op ts) := by
  have hlen := (Except.mapM_eq_ok.mp hts).length_eq
  obtain ⟨js, hjs, j, hjson, hleaf, hnode⟩ := toJson_node hc hs hlen hj
  rw [buildExecutionPlanTree, hn]
  rcases hs.shape with ⟨hnil, hframe⟩ | ⟨hne, hop⟩
  · have htnil : ts = [] := by
      rw [hnil] at hlen
      exact List.length_eq_zero_iff.mp hlen.symm
    have hdata : n.nodeData = j := by
      rw [hleaf htnil, hs.data, hnil, encodeNode_leaf hframe]
    have hguard : (n.isParquetScan || n.childIds.isEmpty) = true := by simp [hnil]
    simp only [hguard, if_true, hdata]
    exact hc.roundTrip _ _ hjson
  · -- a node with children is no scan, so they are put back and the result is read
    have hguard : ¬ (n.isParquetScan || n.childIds.isEmpty) = true := by
      intro hg
      rcases Bool.or_eq_true_iff.mp hg with hp | he
      · exact hne (hscan hp)
      · exact hne (List.isEmpty_iff.mp he)
    have hpos : n.childIds.length ≠ 0 := fun h => hne (List.length_eq_zero_iff.mp h)
    have hagrees := agrees_shapeFor hpos
    have hjlen := (Except.mapM_eq_ok.mp hjs).length_eq
    have hrestore := restoreNode_eq hop
      (roundTrips_of_agrees hop hfits hagrees) hagrees hjs hlen.symm (by omega)
    have htne : ts ≠ [] := by
      intro hnil
      rw [hnil] at hlen
      exact hpos hlen
    simp only [hguard, hts, Except.ok_bind, hs.data, hrestore]
    rw [← hnode htne]
    exact hc.roundTrip _ _ hjson

/-! ## The recursion -/

/-- A tree that an id denotes can be serialized. -/
theorem toJson_of_denotes (hc : codec.Lawful frame) (t : RoseTree Op) :
    ∀ id, Denotes (DefinedAs frame nodes) id t → ∃ j, codec.toJson t = .ok j := by
  refine RoseTree.child_induction (P := fun t => ∀ id, Denotes (DefinedAs frame nodes) id t →
    ∃ j, codec.toJson t = .ok j) (fun t ih => ?_) t
  cases t with
  | node op ts =>
    intro id h
    obtain ⟨ids, ⟨n, _, hids, hs⟩, hchildren⟩ := h.inv
    have hts : ∀ t ∈ ts, ∃ j, codec.toJson t = .ok j := by
      intro t ht
      obtain ⟨c, hct⟩ := exists_denoting hchildren ht
      exact ih t ht c hct
    obtain ⟨_, _, j, hj, _⟩ := toJson_node hc hs (hids ▸ hchildren.length_eq) hts
    exact ⟨j, hj⟩

/-- **What an id denotes is built**, to the depth that the tree needs. -/
theorem build_of_denotes (hc : codec.Lawful frame) (hscans : ScansAreLeaves nodes)
    (hfits : ∀ n ∈ nodes, ∀ c ∈ n.childIds, c < u64Size) (t : RoseTree Op) :
    ∀ id, Denotes (DefinedAs frame nodes) id t → ∀ fuel, t.size ≤ fuel →
      buildExecutionPlanTree codec (nodeMap nodes) fuel id = .ok t := by
  refine RoseTree.child_induction (P := fun t => ∀ id, Denotes (DefinedAs frame nodes) id t →
    ∀ fuel, t.size ≤ fuel → buildExecutionPlanTree codec (nodeMap nodes) fuel id = .ok t)
    (fun t ih => ?_) t
  cases t with
  | node op ts =>
    intro id h fuel hfuel
    obtain ⟨ids, ⟨n, hn, hids, hs⟩, hchildren⟩ := h.inv
    have hpos := RoseTree.size_pos (.node op ts)
    obtain ⟨fuel, rfl⟩ : ∃ m, fuel = m + 1 := ⟨fuel - 1, by omega⟩
    have hmem := (mem_of_get?_nodeMap hn).1
    -- every child is smaller, so the fuel that is left is enough for it
    have hbuilt : n.childIds.mapM (buildExecutionPlanTree codec (nodeMap nodes) fuel) = .ok ts := by
      rw [Except.mapM_eq_ok, hids]
      refine List.forall₂_iff_get.mpr ⟨hchildren.length_eq, fun i hi hi' => ?_⟩
      have hlt := RoseTree.size_lt_of_mem_children (t := .node op ts) (List.getElem_mem hi')
      exact ih _ (List.getElem_mem hi') _ (List.forall₂_iff_get.mp hchildren |>.2 i hi hi') fuel
        (by have hlt : (ts.get ⟨i, hi'⟩).size < _ := hlt; omega)
    refine build_node hc hs (hscans n hmem) (hfits n hmem) hn hbuilt fun t ht => ?_
    obtain ⟨c, hct⟩ := exists_denoting hchildren ht
    exact toJson_of_denotes hc t c hct

/-- **What is built, the id denotes**, if every node is stored. -/
theorem denotes_of_build (hc : codec.Lawful frame) (hscans : ScansAreLeaves nodes)
    (hfits : ∀ n ∈ nodes, ∀ c ∈ n.childIds, c < u64Size)
    (hstored : ∀ n ∈ nodes, ∃ op, StoredNode frame n op) (fuel : Nat) : ∀ (id : Nat) (t : RoseTree Op),
      buildExecutionPlanTree codec (nodeMap nodes) fuel id = .ok t →
        Denotes (DefinedAs frame nodes) id t := by
  induction fuel with
  | zero => exact fun _ _ h => absurd h (by simp [buildExecutionPlanTree])
  | succ fuel ih =>
    intro id t h
    cases hn : OrdDict.get? (nodeMap nodes) id with
    | none =>
      rw [buildExecutionPlanTree, hn] at h
      exact absurd h (by simp)
    | some n =>
      have hmem := (mem_of_get?_nodeMap hn).1
      obtain ⟨op, hs⟩ := hstored n hmem
      -- the children were built, or there are none
      obtain ⟨ts, hts⟩ : ∃ ts,
          n.childIds.mapM (buildExecutionPlanTree codec (nodeMap nodes) fuel) = .ok ts := by
        by_cases hnil : n.childIds = []
        · exact ⟨[], by rw [hnil]; rfl⟩
        · have hguard : ¬ (n.isParquetScan || n.childIds.isEmpty) = true := by
            intro hg
            rcases Bool.or_eq_true_iff.mp hg with hp | he
            · exact hnil (hscans n hmem hp)
            · exact hnil (List.isEmpty_iff.mp he)
          rw [buildExecutionPlanTree, hn] at h
          simp only [hguard] at h
          obtain ⟨ts, hts, _⟩ := Except.bind_eq_ok.mp h
          exact ⟨ts, hts⟩
      have hf := Except.mapM_eq_ok.mp hts
      have hdenotes : List.Forall₂ (Denotes (DefinedAs frame nodes)) n.childIds ts :=
        hf.imp fun c t hct => ih c t hct
      have hjson : ∀ t ∈ ts, ∃ j, codec.toJson t = .ok j := by
        intro t ht
        obtain ⟨c, hct⟩ := exists_denoting hdenotes ht
        exact toJson_of_denotes hc t c hct
      have he := build_node hc hs (hscans n hmem) (hfits n hmem) hn hts hjson
      rw [he] at h
      injection h with h
      exact h ▸ .node ⟨n, hn, rfl, hs⟩ hdenotes

end

/-! ## Decoding -/

section

variable {codec : Codec Op} {frame : Op → Json} {keyOrder : List Nat → List Nat} {summary : Json}
  {nodes : List ParsedNode}

/-- The graph check passes exactly if no id lies on a cycle. -/
theorem graphCheck_acyclic_iff (hkeys : ∀ ks, (keyOrder ks).Perm ks) :
    (∃ s, validateExecutionPlanGraph keyOrder (childrenMap nodes) = .ok s) ↔
      ∀ id, ¬ OnCycle (childrenOf (childrenMap nodes)) id := by
  rw [graphCheck_ok_iff hkeys]
  constructor
  · intro h id hcycle
    obtain ⟨b, hb, _⟩ := Relation.TransGen.head'_iff.mp hcycle
    exact h id (mem_keys_of_childrenOf hb) id Relation.ReflTransGen.refl hcycle
  · exact fun h _ _ id _ => h id

/-- Without a cycle every path from a node ends. -/
theorem ends_of_acyclic (hkeys : ∀ ks, (keyOrder ks).Perm ks)
    (hacyclic : ∀ id, ¬ OnCycle (childrenOf (childrenMap nodes)) id) {n : ParsedNode}
    (hn : n ∈ nodes) : Ends (childrenOf (childrenMap nodes)) n.id := by
  obtain ⟨s, hs⟩ := (graphCheck_acyclic_iff hkeys).mpr hacyclic
  apply CycleCheck.ends_of_check hs
  rw [(hkeys _).mem_iff, mem_keys_childrenMap]
  exact ⟨n, hn, rfl⟩

theorem exists_root_node {root : Nat} (h : findRoot nodes = .ok root) :
    ∃ n ∈ nodes, n.id = root := by
  simp only [findRoot] at h
  split at h
  next n hn =>
    injection h with h
    exact ⟨n, List.mem_of_find?_eq_some hn, h⟩
  next => exact absurd h (by simp)

/-- A document is decoded to a tree exactly if there is no cycle and the root denotes the tree. -/
theorem executionPlanFromSuccinctJson_eq_ok_iff (hc : codec.Lawful frame)
    (hkeys : ∀ ks, (keyOrder ks).Perm ks) (hnodes : parseNodes summary = .ok nodes)
    (hstored : ∀ n ∈ nodes, ∃ op, StoredNode frame n op) {t : RoseTree Op} :
    executionPlanFromSuccinctJson codec keyOrder summary = .ok t ↔
      (∀ id, ¬ OnCycle (childrenOf (childrenMap nodes)) id) ∧
        ∃ root, findRoot nodes = .ok root ∧ Denotes (DefinedAs frame nodes) root t := by
  have hscans := parseNodes_scansAreLeaves hnodes
  have hfits : ∀ n ∈ nodes, ∀ c ∈ n.childIds, c < u64Size :=
    fun n hn c hc => lt_of_mem_childIds hnodes hn hc
  rw [← graphCheck_acyclic_iff hkeys]
  constructor
  · intro h
    rw [executionPlanFromSuccinctJson, hnodes, Except.ok_bind] at h
    split at h
    next => exact absurd h (by simp)
    next s hs =>
      obtain ⟨root, hr, h⟩ := Except.bind_eq_ok.mp h
      exact ⟨⟨s, hs⟩, root, hr, denotes_of_build hc hscans hfits hstored _ root t h⟩
  · intro h
    obtain ⟨⟨s, hs⟩, root, hr, hdenotes⟩ := h
    obtain ⟨n, hn, rfl⟩ := exists_root_node hr
    have hends := ends_of_acyclic hkeys ((graphCheck_acyclic_iff hkeys).mp ⟨s, hs⟩) hn
    -- with fuel for the tree and for the document, both recursions agree
    have hle := depth_le nodes n.id
    rw [executionPlanFromSuccinctJson_eq codec hnodes hs hr,
      buildExecutionPlanTree_fuel codec _ (max t.size (nodes.length + 1)) n.id hends (by omega)
        (by omega)]
    exact build_of_denotes hc hscans hfits t _ hdenotes _ (Nat.le_max_left ..)

/-- **Decoding returns exactly the tree that the root denotes**, if there is no cycle. And there is
such a tree exactly if every id below the root is defined. -/
theorem executionPlanFromSuccinctJson_denotes (codec : Codec Op) (frame : Op → Json)
    (hc : codec.Lawful frame) (keyOrder : List Nat → List Nat)
    (hkeys : ∀ ks, (keyOrder ks).Perm ks) (hnodes : parseNodes summary = .ok nodes)
    (hstored : ∀ n ∈ nodes, ∃ op, StoredNode frame n op) :
    (∀ t, executionPlanFromSuccinctJson codec keyOrder summary = .ok t ↔
      (∀ id, ¬ OnCycle (childrenOf (childrenMap nodes)) id) ∧
        ∃ root, findRoot nodes = .ok root ∧ Denotes (DefinedAs frame nodes) root t) ∧
    ((∃ t, executionPlanFromSuccinctJson codec keyOrder summary = .ok t) ↔
      (∀ id, ¬ OnCycle (childrenOf (childrenMap nodes)) id) ∧
        ∃ root, findRoot nodes = .ok root ∧
          ∀ id, Reaches (childrenOf (childrenMap nodes)) root id →
            OrdDict.get? (nodeMap nodes) id ≠ none) := by
  have hscans := parseNodes_scansAreLeaves hnodes
  have hiff : ∀ t, executionPlanFromSuccinctJson codec keyOrder summary = .ok t ↔
      (∀ id, ¬ OnCycle (childrenOf (childrenMap nodes)) id) ∧
        ∃ root, findRoot nodes = .ok root ∧ Denotes (DefinedAs frame nodes) root t :=
    fun t => executionPlanFromSuccinctJson_eq_ok_iff hc hkeys hnodes hstored
  refine ⟨hiff, ?_⟩
  constructor
  · intro h
    obtain ⟨t, ht⟩ := h
    obtain ⟨hacyclic, root, hr, _⟩ := (hiff t).mp ht
    obtain ⟨s, hs⟩ := (graphCheck_acyclic_iff hkeys).mpr hacyclic
    rw [executionPlanFromSuccinctJson_eq codec hnodes hs hr] at ht
    exact ⟨hacyclic, root, hr, fun id => defined_of_build codec hscans _ root id t ht⟩
  · intro h
    obtain ⟨hacyclic, root, hr, hdefined⟩ := h
    obtain ⟨n, hn, rfl⟩ := exists_root_node hr
    have hends := ends_of_acyclic hkeys hacyclic hn
    have hchild : ∀ id op ids, DefinedAs frame nodes id op ids →
        ids = childrenOf (childrenMap nodes) id := by
      intro id op ids hdef
      obtain ⟨m, hm, hids, _⟩ := hdef
      rw [childrenOf, get?_childrenMap, hm]
      exact hids.symm
    obtain ⟨t, ht⟩ := @exists_denotes Nat Op (DefinedAs frame nodes) _
      (fun id op ids hdef c hc => hchild id op ids hdef ▸ hc) _ hends fun id hid => by
        obtain ⟨m, hm⟩ := Option.ne_none_iff_exists'.mp (hdefined id hid)
        obtain ⟨op, hop⟩ := hstored m (mem_of_get?_nodeMap hm).1
        exact ⟨op, m.childIds, m, hm, rfl, hop⟩
    exact ⟨t, (hiff t).mpr ⟨hacyclic, n.id, hr, ht⟩⟩

end

/-- A cross join of node 4 with itself, over one scan. -/
def twiceReferenced : Json :=
  .obj [
    ("full_table_info", .arr [tableEntry 9 (bareFrame ("parquetScan", none))]),
    ("structure", .obj [
      ("4", .obj [("coalescePartitions", .obj [("input", jsonId 9)])]),
      ("7", .obj [("crossJoin", .obj [("left", jsonId 4), ("right", jsonId 4)])])])]

/-- Its nodes. -/
def twiceReferencedNodes : List ParsedNode :=
  [{ id := 4, nodeData := .obj [("coalescePartitions", .obj [("input", jsonId 9)])],
     childIds := [9], isParquetScan := false },
   { id := 7, nodeData := .obj [("crossJoin", .obj [("left", jsonId 4), ("right", jsonId 4)])],
     childIds := [4, 4], isParquetScan := false },
   { id := 9, nodeData := bareFrame ("parquetScan", none), childIds := [], isParquetScan := true }]

theorem twiceReferenced_stored : ∀ n ∈ twiceReferencedNodes, ∃ op, StoredNode bareFrame n op := by
  refine List.forall_mem_cons.mpr ⟨⟨("coalescePartitions", some .input), ?_⟩,
    List.forall_mem_cons.mpr ⟨⟨("crossJoin", some .binary), ?_⟩,
      List.forall_mem_singleton.mpr ⟨("parquetScan", none), ?_⟩⟩⟩
  · exact ⟨rfl, Or.inr ⟨by simp, bareFrame_isOperator.mpr rfl⟩⟩
  · exact ⟨rfl, Or.inr ⟨by simp, bareFrame_isOperator.mpr rfl⟩⟩
  · exact ⟨rfl, Or.inl ⟨rfl, bareFrame_isLeaf.mpr rfl⟩⟩

/-- The plan has the sub-plan of node 4 twice. -/
theorem executionPlanFromSuccinctJson_denotes_twiceReferenced :
    ∃ root, findRoot twiceReferencedNodes = .ok root ∧
      Denotes (DefinedAs bareFrame twiceReferencedNodes) root
        (.node ("crossJoin", some .binary)
          [.node ("coalescePartitions", some .input) [.node ("parquetScan", none) []],
            .node ("coalescePartitions", some .input) [.node ("parquetScan", none) []]]) :=
  (((executionPlanFromSuccinctJson_denotes bareCodec bareFrame bareCodec_lawful id
    (fun _ => List.Perm.refl _) (show parseNodes twiceReferenced = .ok twiceReferencedNodes by rfl)
    twiceReferenced_stored).1 _).mp (by rfl)).2

end DbPlanBench.Engine
