import DbPlanBench.Engine.Succinct
import DbPlanBench.Py.Str
import Mathlib.Data.String.Basic

/-!
# The succinct format round-trips

For every plan whose operators store their children where their number says, the
decoder rebuilds from the encoder's output the tree unfolding of the plan
(`executionPlan_roundTrips`), whatever the sharing.

* `encode_eq` — the encoder's output, one `NodeInfo` for each visited occurrence.
* `parseNodes_succinctJson` — the reader gets one node for each occurrence, in
  some order, the root first: `"0"` is the least of the keys.
* `zero_not_child` — nothing points to the root; the later occurrences of a shared
  sub-plan are not pointed to either, but they come after it.
* `buildExecutionPlanTree_eq` — by induction on the sub-plan at an id.
-/

namespace DbPlanBench.Engine

variable {Op : Type}

/-! ## The assumptions -/

/-- A serialized operator without child fields. -/
def IsLeaf (node : Json) : Prop :=
  ∃ op conf, node = .obj [(op, .obj conf)] ∧ ∀ k ∈ childFields, k ∉ OrdDict.keys conf

/-- What the conversion does: the JSON of an operator is its own configuration (`frame`) with the
JSON of its children in its child fields, and it can be read back. -/
structure Codec.Lawful (codec : Codec Op) (frame : Op → Json) : Prop where
  leaf : ∀ op, IsLeaf (frame op) → codec.toJson (.node op []) = .ok (frame op)
  node : ∀ s op cs js, IsOperator s (frame op) → s.Arity cs.length →
    cs.mapM codec.toJson = .ok js → codec.toJson (.node op cs) = .ok (withChildren s (frame op) js)
  roundTrip : ∀ t j, codec.toJson t = .ok j → codec.fromJson j = .ok t

/-- The child fields that the number of children picks. -/
def shapeFor : Nat → ChildShape
  | 1 => .input
  | 2 => .binary
  | _ => .inputs

/-- No child, one under `input`, two under `left` and `right`, or at least three under `inputs`;
parquet scans have none. -/
def WellShaped (frame : Op → Json) (plan : SharedPlan Op) : Prop :=
  (plan.children = [] ∧ IsLeaf (frame plan.label.2)) ∨
    (plan.children ≠ [] ∧ isParquetScan (frame plan.label.2) = false ∧
      IsOperator (shapeFor plan.children.length) (frame plan.label.2))

/-- An execution plan: a tree of well-shaped operators in which an address names one sub-plan. A
vector holds its nodes, so their numbers fit in a `usize`. -/
structure ExecutionPlan (frame : Op → Json) where
  tree : SharedPlan Op
  shared : ∀ s ∈ tree.subtrees, ∀ t ∈ tree.subtrees, address s = address t → s = t
  wellShaped : ∀ t ∈ tree.subtrees, WellShaped frame t
  fits : tree.size ≤ u64Size

/-- The output records the ids below `n` once each, and only they are pointed to. -/
def Numbers (summary : Json) (n : Nat) : Prop :=
  ∃ (entries : List (String × Json)) (tables : List Json) (ids tableIds : List Nat),
    index summary "structure" = .obj entries ∧ index summary "full_table_info" = .arr tables ∧
    OrdDict.keys entries = ids.map toString ∧
    tables.map (index · "id") = tableIds.map jsonId ∧
    (ids ++ tableIds).Perm (List.range n) ∧
    ∀ p ∈ entries, ∀ c ∈ extractChildIds p.2, c < n

/-! ## Shapes -/

theorem agrees_shapeFor {n : Nat} (h : n ≠ 0) : Agrees (shapeFor n) n := by
  match n, h with
  | 1, _ => exact ⟨rfl, by decide⟩
  | 2, _ => exact ⟨rfl, by decide⟩
  | n + 3, _ => exact ⟨show 1 ≤ n + 3 by omega, fun h => absurd h.2 (by omega)⟩

/-- Blanking and numbering leave an operator without child fields alone. -/
theorem encodeNode_leaf {node : Json} (h : IsLeaf node) : encodeNode node [] = node := by
  obtain ⟨op, conf, rfl, hf⟩ := h
  have hi := hf "input" (by decide)
  have hl := hf "left" (by decide)
  have hr := hf "right" (by decide)
  have his := hf "inputs" (by decide)
  show Json.obj [(op, .obj (blankChildren conf))] = _
  rw [blankChildren, insertIfPresent_of_not_mem _ (by simpa using his),
    insertIfPresent_of_not_mem _ (by simpa using hr),
    insertIfPresent_of_not_mem _ (by simpa using hl), insertIfPresent_of_not_mem _ hi]

theorem extractChildIds_leaf {node : Json} (h : IsLeaf node) : extractChildIds node = [] := by
  obtain ⟨op, conf, rfl, hf⟩ := h
  have hi := hf "input" (by decide)
  have hl := hf "left" (by decide)
  have hr := hf "right" (by decide)
  have his := hf "inputs" (by decide)
  rw [← OrdDict.get?_eq_none] at hi hl hr his
  simp [extractChildIds, readChildIds, hi, hl, hr, his, asArray]

/-- Without ids an encoded node is a blanked one. -/
theorem encodeNode_nil {node : Json} : encodeNode node [] = createNodeWithEmptyChildren node := by
  rw [encodeNode, populateChildIds]
  unfold modifyConf
  split
  next h => exact h.symm
  next => rfl

section

variable {s : ChildShape} {node : Json}

/-- Filling the child fields keeps the shape. -/
theorem withChildren_isOperator (h : IsOperator s node) (js : List Json) :
    IsOperator s (withChildren s node js) := by
  obtain ⟨op, conf, rfl, hs⟩ := h
  have hkeys := keys_fill hs js
  exact ⟨op, s.fill js conf, rfl, hkeys ▸ hs.nodup, fun k hk => hkeys ▸ hs.fields k hk⟩

theorem keys_writeChildIds (conf : List (String × Json)) (ids : List Nat) :
    OrdDict.keys (writeChildIds ids (blankChildren conf)) = OrdDict.keys conf := by
  have hblank : OrdDict.keys (blankChildren conf) = OrdDict.keys conf := by simp [blankChildren]
  unfold writeChildIds
  split
  next => exact hblank
  next => rw [keys_insertIfPresent, hblank]
  next => rw [keys_insertIfPresent, keys_insertIfPresent, hblank]
  next => rw [keys_insertIfPresent, hblank]

/-- A node with its ids gets its children back. -/
theorem restoreNode_eq {codec : Codec Op} (h : IsOperator s node) {ids : List Nat}
    (hr : RoundTrips s node ids) (ha : Agrees s ids.length) {children : List (RoseTree Op)}
    {js : List Json} (hjs : children.mapM codec.toJson = .ok js)
    (hlen : children.length = ids.length) (hjlen : js.length = ids.length) :
    restoreNode codec (encodeNode node ids) children = .ok (withChildren s node js) := by
  have hrestore := hr.children js hjlen
  obtain ⟨op, conf, rfl, hs⟩ := h
  have hfield : ¬ (3 ≤ children.length ∧
      "inputs" ∉ OrdDict.keys (writeChildIds ids (blankChildren conf))) := by
    intro hbad
    rw [keys_writeChildIds, hlen] at hbad
    cases s with
    | input => exact absurd (show ids.length = 1 from ha.1) (by omega)
    | binary => exact absurd (show ids.length = 2 from ha.1) (by omega)
    | inputs => exact hbad.2 (hasShape_inputs hs).2.2.2
  show (if _ then _ else _) = _
  rw [if_neg hfield, hjs]
  exact hrestore

theorem isParquetScan_withChildren (h : IsOperator s node) (js : List Json) :
    isParquetScan (withChildren s node js) = isParquetScan node := by
  obtain ⟨op, conf, rfl, _⟩ := h
  rfl

/-- The children that fill the fields last stay. -/
theorem withChildren_withChildren (h : IsOperator s node) {old new : List Json}
    (ha : s.Arity new.length) (hlen : old.length = new.length) :
    withChildren s (withChildren s node old) new = withChildren s node new := by
  obtain ⟨op, conf, rfl, hs⟩ := h
  show Json.obj [(op, .obj (s.fill new (s.fill old conf)))] = .obj [(op, .obj (s.fill new conf))]
  rw [fill_fill hs ha hlen]

end

/-! ## The JSON of a sub-plan -/

/-- The JSON of a plan, null where there is none. -/
def planJson (codec : Codec Op) (t : SharedPlan Op) : Json :=
  match codec.toJson (unfoldPlan t) with
  | .ok j => j
  | .error _ => .null

theorem unfoldPlan_eq (t : SharedPlan Op) :
    unfoldPlan t = .node t.label.2 (t.children.map unfoldPlan) := RoseTree.map_eq Prod.snd t

section

variable {codec : Codec Op} {frame : Op → Json}

/-- The JSON of a well-shaped plan: its own configuration, filled with the JSON of its children. -/
structure Serialized (codec : Codec Op) (frame : Op → Json) (t : SharedPlan Op) : Prop where
  toJson : codec.toJson (unfoldPlan t) = .ok (planJson codec t)
  leaf : t.children = [] → IsLeaf (planJson codec t)
  filled : t.children ≠ [] → planJson codec t =
    withChildren (shapeFor t.children.length) (frame t.label.2) (t.children.map (planJson codec))
  parquet : t.children ≠ [] → isParquetScan (planJson codec t) = false

/-- Every sub-plan of a well-shaped plan can be serialized. -/
theorem serialized_of_wellShaped (hc : codec.Lawful frame) (t : SharedPlan Op) :
    (∀ s ∈ t.subtrees, WellShaped frame s) → Serialized codec frame t := by
  refine RoseTree.child_induction (P := fun t => (∀ s ∈ t.subtrees, WellShaped frame s) →
    Serialized codec frame t) (fun t ih hw => ?_) t
  have hchild : ∀ c ∈ t.children, Serialized codec frame c := fun c hm =>
    ih c hm fun s hs => hw s (RoseTree.mem_subtrees.mpr (Or.inr ⟨c, hm, hs⟩))
  have hok : ∀ j, codec.toJson (unfoldPlan t) = .ok j → planJson codec t = j := by
    intro j hj
    rw [planJson, hj]
  -- a leaf, or an operator whose children have been serialized
  rcases hw t (RoseTree.mem_subtrees_self t) with ⟨hnil, hleaf⟩ | ⟨hne, hparquet, hop⟩
  · have hj : codec.toJson (unfoldPlan t) = .ok (frame t.label.2) := by
      rw [unfoldPlan_eq, hnil]
      exact hc.leaf _ hleaf
    have hplan := hok _ hj
    exact ⟨hplan ▸ hj, fun _ => hplan ▸ hleaf, fun h => absurd hnil h, fun h => absurd hnil h⟩
  · have hlen : t.children.length ≠ 0 := fun h => hne (List.length_eq_zero_iff.mp h)
    have hmap : (t.children.map unfoldPlan).mapM codec.toJson =
        .ok (t.children.map (planJson codec)) := by
      rw [List.mapM_map]
      exact Except.mapM_ok fun c hm => (hchild c hm).toJson
    have hj : codec.toJson (unfoldPlan t) = .ok (withChildren (shapeFor t.children.length)
        (frame t.label.2) (t.children.map (planJson codec))) := by
      rw [unfoldPlan_eq]
      refine hc.node _ _ _ _ hop ?_ hmap
      rw [List.length_map]
      exact (agrees_shapeFor hlen).1
    have hplan := hok _ hj
    refine ⟨hplan ▸ hj, fun h => absurd h hne, fun _ => hplan, fun _ => ?_⟩
    rw [hplan, isParquetScan_withChildren hop, hparquet]

/-! ## What the encoder writes -/

variable (plan : ExecutionPlan frame)

theorem ExecutionPlan.serialized (hc : codec.Lawful frame) {t : SharedPlan Op}
    (ht : t ∈ plan.tree.subtrees) : Serialized codec frame t :=
  serialized_of_wellShaped hc t fun s hs =>
    plan.wellShaped s (RoseTree.subtrees_trans plan.tree ht hs)

/-- A visited plan is the sub-plan at its number. -/
theorem mem_visitedPlans {tree : SharedPlan Op} {p : SharedPlan Op × Nat} :
    p ∈ visitedPlans tree ↔ tree.subtrees[p.2]? = some p.1 := List.mem_zipIdx_iff_getElem?

theorem mem_subtrees_of_mem_visitedPlans {tree : SharedPlan Op} {p : SharedPlan Op × Nat}
    (h : p ∈ visitedPlans tree) : p.1 ∈ tree.subtrees :=
  List.mem_of_getElem? (mem_visitedPlans.mp h)

/-- The number under which a sub-plan is pointed to. -/
def firstId (tree child : SharedPlan Op) : Nat :=
  match firstVisited (visitedPlans tree) child with
  | .ok id => id
  | .error _ => 0

/-- **A child resolves to a visited occurrence of itself.** -/
theorem firstVisited_eq {child : SharedPlan Op} (hm : child ∈ plan.tree.subtrees) :
    firstVisited (visitedPlans plan.tree) child = .ok (firstId plan.tree child) ∧
      plan.tree.subtrees[firstId plan.tree child]? = some child := by
  have hfind : ∃ p, (visitedPlans plan.tree).find? (fun p => address child == address p.1) =
      some p := by
    obtain ⟨i, hi⟩ := List.getElem?_of_mem hm
    have hmem : (child, i) ∈ visitedPlans plan.tree := mem_visitedPlans.mpr hi
    exact Option.isSome_iff_exists.mp (List.find?_isSome.mpr ⟨(child, i), hmem, beq_self_eq_true _⟩)
  obtain ⟨p, hp⟩ := hfind
  have hvisited := List.mem_of_find?_eq_some hp
  have haddr := List.find?_some hp
  have hsame := plan.shared child hm p.1 (mem_subtrees_of_mem_visitedPlans hvisited)
    (beq_iff_eq.mp haddr)
  have hfirst : firstVisited (visitedPlans plan.tree) child = .ok p.2 := by
    rw [firstVisited, hp]
  have hid : firstId plan.tree child = p.2 := by rw [firstId, hfirst]
  rw [hid, hsame]
  exact ⟨hsame ▸ hfirst, mem_visitedPlans.mp hvisited⟩

/-- The numbers a node stores for its children. -/
def childIdsOf (tree : SharedPlan Op) (t : SharedPlan Op) : List Nat :=
  t.children.map (firstId tree)

/-- What the three passes record of a visited plan. -/
def infoOf (codec : Codec Op) (compact : Json → Json) (tree : SharedPlan Op)
    (p : SharedPlan Op × Nat) : NodeInfo where
  id := p.2
  rawNode := createNodeWithEmptyChildren (planJson codec p.1)
  compactedNode :=
    if isParquetScan (planJson codec p.1) then
      compact (createNodeWithEmptyChildren (planJson codec p.1))
    else createNodeWithEmptyChildren (planJson codec p.1)
  childIds := childIdsOf tree p.1
  isParquetScan := isParquetScan (planJson codec p.1)

/-- **The output lists every visited occurrence.** -/
theorem encode_eq (hc : codec.Lawful frame) (compact : Json → Json) :
    executionPlanToSuccinctJson codec compact plan.tree =
      .ok (succinctJson ((visitedPlans plan.tree).map (infoOf codec compact plan.tree))) := by
  have hcollect : (visitedPlans plan.tree).mapM (collectNode codec compact) =
      .ok ((visitedPlans plan.tree).map fun p =>
        { infoOf codec compact plan.tree p with childIds := [] }) := by
    refine Except.mapM_ok fun p hp => ?_
    have hs := plan.serialized hc (mem_subtrees_of_mem_visitedPlans hp)
    rw [collectNode, hs.toJson]
    rfl
  -- the second pass looks up the first occurrence of each child
  have hlink : (((visitedPlans plan.tree).map fun p =>
      { infoOf codec compact plan.tree p with childIds := [] }).zip (visitedPlans plan.tree)).mapM
        (linkChildren (visitedPlans plan.tree)) =
      .ok ((visitedPlans plan.tree).map (infoOf codec compact plan.tree)) := by
    rw [List.zip_map_left, List.zip_eq_zipWith, List.zipWith_self, List.map_map, List.mapM_map]
    refine Except.mapM_ok fun p hp => ?_
    have hids : p.1.children.mapM (firstVisited (visitedPlans plan.tree)) =
        .ok (childIdsOf plan.tree p.1) := Except.mapM_ok fun c hm =>
      (firstVisited_eq plan (RoseTree.mem_subtrees_of_mem_children plan.tree hm
        (mem_subtrees_of_mem_visitedPlans hp))).1
    show (p.1.children.mapM (firstVisited (visitedPlans plan.tree)) >>= _) = _
    rw [hids]
    rfl
  rw [executionPlanToSuccinctJson, hcollect, Except.ok_bind, hlink]
  rfl

/-! ## What the reader gets -/

/-- The node the reader makes of a visited plan. -/
def parsedOf (codec : Codec Op) (tree : SharedPlan Op) (p : SharedPlan Op × Nat) : ParsedNode where
  id := p.2
  nodeData := encodeNode (planJson codec p.1) (childIdsOf tree p.1)
  childIds := childIdsOf tree p.1
  isParquetScan := isParquetScan (planJson codec p.1)

theorem id_lt {p : SharedPlan Op × Nat} {tree : SharedPlan Op} (hp : p ∈ visitedPlans tree) :
    p.2 < tree.size := (List.getElem?_eq_some_iff.mp (mem_visitedPlans.mp hp)).1

theorem map_snd_visitedPlans (tree : SharedPlan Op) :
    (visitedPlans tree).map Prod.snd = List.range tree.size := by
  rw [visitedPlans, List.zipIdx_map_snd, List.range_eq_range']
  rfl

theorem firstId_lt {t c : SharedPlan Op} (ht : t ∈ plan.tree.subtrees) (hc : c ∈ t.children) :
    firstId plan.tree c < plan.tree.size :=
  (List.getElem?_eq_some_iff.mp
    (firstVisited_eq plan (RoseTree.mem_subtrees_of_mem_children plan.tree hc ht)).2).1

/-- What a plan with children stores round-trips. -/
theorem planJson_roundTrips (hc : codec.Lawful frame) {t : SharedPlan Op}
    (ht : t ∈ plan.tree.subtrees) (hne : t.children ≠ []) :
    RoundTrips (shapeFor t.children.length) (planJson codec t) (childIdsOf plan.tree t) := by
  have hs := plan.serialized hc ht
  have hlen : (childIdsOf plan.tree t).length = t.children.length := List.length_map ..
  refine roundTrips_of_agrees ?_ (fun n hn => ?_) ?_
  · rcases plan.wellShaped t ht with ⟨hnil, _⟩ | ⟨_, _, hop⟩
    · exact absurd hnil hne
    · rw [hs.filled hne]
      exact withChildren_isOperator hop _
  · obtain ⟨c, hm, rfl⟩ := List.mem_map.mp hn
    exact Nat.lt_of_lt_of_le (firstId_lt plan ht hm) plan.fits
  · rw [hlen]
    exact agrees_shapeFor fun h => hne (List.length_eq_zero_iff.mp h)

/-- The reader finds the child ids that were written. -/
theorem extractChildIds_encode (hc : codec.Lawful frame) {t : SharedPlan Op}
    (ht : t ∈ plan.tree.subtrees) :
    extractChildIds (encodeNode (planJson codec t) (childIdsOf plan.tree t)) =
      childIdsOf plan.tree t := by
  by_cases hnil : t.children = []
  · have hleaf := (plan.serialized hc ht).leaf hnil
    have hids : childIdsOf plan.tree t = [] := by rw [childIdsOf, hnil, List.map_nil]
    rw [hids, encodeNode_leaf hleaf, extractChildIds_leaf hleaf]
  · exact (planJson_roundTrips plan hc ht hnil).ids

/-- A numeral has no sign. -/
theorem unsignedDigits_toString (n : Nat) :
    unsignedDigits (toString n).toList = (toString n).toList := by
  unfold unsignedDigits
  split
  next cs he =>
    exact absurd (Py.isDigit_toString n '+' (he ▸ List.mem_cons_self ..)) (by decide)
  next => rfl

/-- An id is read back from its numeral. -/
theorem parseUsize_toString {n : Nat} (h : n < u64Size) : parseUsize (toString n) = .ok n := by
  have hdigit := Py.isDigit_toString n
  simp only [parseUsize, unsignedDigits_toString]
  rw [if_pos ⟨Py.toString_ne_nil n, List.all_eq_true.mpr hdigit,
    by rwa [Py.ofDigitChars_toString]⟩, Py.ofDigitChars_toString]

/-- `"0"` is the least numeral. -/
theorem zero_le_toString (n : Nat) : toString 0 ≤ toString n := by
  have hzero : toString 0 = "0" := rfl
  have hdigit := Py.isDigit_toString n
  rw [hzero, String.le_iff_toList_le]
  cases h : (toString n).toList with
  | nil => exact absurd h (Py.toString_ne_nil n)
  | cons c cs =>
    have hc := Py.isDigit_bounds (hdigit c (h ▸ List.mem_cons_self ..))
    refine not_lt.mp fun hlt => ?_
    cases hlt with
    | rel hlt => exact absurd hc.1 (Nat.not_le_of_lt hlt)
    | cons hlt => cases hlt

/-- The entry of `structure` for a visited plan. -/
def entryOf (codec : Codec Op) (tree : SharedPlan Op) (p : SharedPlan Op × Nat) : String × Json :=
  (toString p.2, encodeNode (planJson codec p.1) (childIdsOf tree p.1))

theorem parseStructureNode_entryOf (hc : codec.Lawful frame) {p : SharedPlan Op × Nat}
    (hp : p ∈ visitedPlans plan.tree) (hs : isParquetScan (planJson codec p.1) = false) :
    parseStructureNode (entryOf codec plan.tree p) = .ok (parsedOf codec plan.tree p) := by
  have hid : parseUsize (entryOf codec plan.tree p).1 = .ok p.2 :=
    parseUsize_toString (Nat.lt_of_lt_of_le (id_lt hp) plan.fits)
  have hids := extractChildIds_encode plan hc (mem_subtrees_of_mem_visitedPlans hp)
  have hparsed : parsedOf codec plan.tree p =
      { id := p.2, nodeData := (entryOf codec plan.tree p).2,
        childIds := extractChildIds (entryOf codec plan.tree p).2, isParquetScan := false } := by
    rw [parsedOf, entryOf, hids, hs]
  rw [parseStructureNode, hid, Except.ok_bind, hparsed]
  rfl

/-- Parquet scans have no children. -/
theorem children_eq_nil (hc : codec.Lawful frame) {t : SharedPlan Op} (ht : t ∈ plan.tree.subtrees)
    (hs : isParquetScan (planJson codec t) = true) : t.children = [] := by
  by_contra hne
  rw [(plan.serialized hc ht).parquet hne] at hs
  exact absurd hs (by decide)

/-- The entry of `full_table_info` for a visited plan. -/
def tableOf (codec : Codec Op) (p : SharedPlan Op × Nat) : Json :=
  tableEntry p.2 (createNodeWithEmptyChildren (planJson codec p.1))

theorem parseParquetNode_tableOf (hc : codec.Lawful frame) {p : SharedPlan Op × Nat}
    (hp : p ∈ visitedPlans plan.tree) (hs : isParquetScan (planJson codec p.1) = true) :
    parseParquetNode (tableOf codec p) = .ok (parsedOf codec plan.tree p) := by
  have hnil := children_eq_nil plan hc (mem_subtrees_of_mem_visitedPlans hp) hs
  have hids : childIdsOf plan.tree p.1 = [] := by rw [childIdsOf, hnil, List.map_nil]
  have hid : asU64 (index (tableOf codec p) "id") = some p.2 :=
    asU64_jsonId (Nat.lt_of_lt_of_le (id_lt hp) plan.fits)
  rw [parseParquetNode, hid, parsedOf, hids, hs, encodeNode_nil]
  rfl

/-- The visited plans of the two tables. -/
def structurePlans (codec : Codec Op) (tree : SharedPlan Op) : List (SharedPlan Op × Nat) :=
  (visitedPlans tree).filter fun p => ! isParquetScan (planJson codec p.1)

def tablePlans (codec : Codec Op) (tree : SharedPlan Op) : List (SharedPlan Op × Nat) :=
  (visitedPlans tree).filter fun p => isParquetScan (planJson codec p.1)

variable (codec) in
/-- The output as its two tables. -/
theorem index_succinctJson (compact : Json → Json) :
    index (succinctJson ((visitedPlans plan.tree).map (infoOf codec compact plan.tree)))
        "structure" = .obj ((structurePlans codec plan.tree).foldl (fun d p =>
          OrdDict.insertSorted d (entryOf codec plan.tree p).1 (entryOf codec plan.tree p).2) []) ∧
      index (succinctJson ((visitedPlans plan.tree).map (infoOf codec compact plan.tree)))
        "full_table_info" = .arr ((tablePlans codec plan.tree).map (tableOf codec)) := by
  constructor
  · show Json.obj ((((visitedPlans plan.tree).map _).filter _).foldl _ []) = _
    rw [List.filter_map, List.foldl_map]
    rfl
  · show Json.arr ((((visitedPlans plan.tree).map _).filter _).map _) = _
    rw [List.filter_map, List.map_map]
    rfl

/-- `structure`, sorted by key. -/
theorem exists_structure (codec : Codec Op) (tree : SharedPlan Op) :
    ∃ ps : List (SharedPlan Op × Nat), ps.Perm (structurePlans codec tree) ∧
      (ps.map fun p => toString p.2).Pairwise (· ≤ ·) ∧
      (structurePlans codec tree).foldl (fun d p =>
        OrdDict.insertSorted d (entryOf codec tree p).1 (entryOf codec tree p).2) [] =
          ps.map (entryOf codec tree) := by
  refine OrdDict.foldl_insertSorted_eq_map (fun p => (entryOf codec tree p).1)
    (fun p => (entryOf codec tree p).2) ?_
  have hids : ((structurePlans codec tree).map Prod.snd).Nodup :=
    (List.filter_sublist.map Prod.snd).nodup (map_snd_visitedPlans tree ▸ List.nodup_range)
  have hkeys : (structurePlans codec tree).map (fun p => (entryOf codec tree p).1) =
      ((structurePlans codec tree).map Prod.snd).map toString := by
    rw [List.map_map]
    rfl
  rw [hkeys]
  exact hids.map fun _ _ h => Py.toString_injective h

theorem root_mem (tree : SharedPlan Op) : (tree, 0) ∈ visitedPlans tree := by
  rw [mem_visitedPlans, RoseTree.subtrees_eq]
  rfl

theorem eq_root {tree : SharedPlan Op} {p : SharedPlan Op × Nat} (hp : p ∈ visitedPlans tree)
    (h : p.2 = 0) : p = (tree, 0) := by
  have hp0 := mem_visitedPlans.mp hp
  rw [h, mem_visitedPlans.mp (root_mem tree)] at hp0
  injection hp0 with hp0
  exact Prod.ext hp0.symm h

/-- **The root comes first.** -/
theorem exists_root_first (hc : codec.Lawful frame) {ps : List (SharedPlan Op × Nat)}
    (hps : ps.Perm (structurePlans codec plan.tree))
    (hsorted : (ps.map fun p => toString p.2).Pairwise (· ≤ ·)) :
    ∃ rest, ps ++ tablePlans codec plan.tree = (plan.tree, 0) :: rest := by
  by_cases hs : isParquetScan (planJson codec plan.tree) = true
  · -- a scan has no children, so it is the whole plan
    have hnil := children_eq_nil plan hc (RoseTree.mem_subtrees_self _) hs
    have hvisited : visitedPlans plan.tree = [(plan.tree, 0)] := by
      rw [visitedPlans, RoseTree.subtrees_eq, hnil]
      rfl
    rw [structurePlans, hvisited, List.filter_cons_of_neg (by simp [hs]), List.filter_nil] at hps
    rw [tablePlans, hvisited, List.filter_cons_of_pos (by exact hs), hps.eq_nil]
    exact ⟨_, rfl⟩
  · -- the ids are sorted as texts, and no numeral comes before "0"
    have hroot : (plan.tree, 0) ∈ ps := by
      rw [hps.mem_iff, structurePlans, List.mem_filter]
      exact ⟨root_mem plan.tree, by simpa using hs⟩
    cases ps with
    | nil => exact absurd hroot List.not_mem_nil
    | cons p rest =>
      have hp : p ∈ visitedPlans plan.tree :=
        List.mem_of_mem_filter (hps.subset (List.mem_cons_self ..))
      have hle : toString p.2 ≤ toString 0 := by
        rcases List.mem_cons.mp hroot with he | hmem
        · rw [← he]
        · rw [List.map_cons, List.pairwise_cons] at hsorted
          exact hsorted.1 _ (List.mem_map_of_mem (f := fun p => toString p.2) hmem)
      have hzero : p.2 = 0 := Py.toString_injective (le_antisymm hle (zero_le_toString p.2))
      exact ⟨rest ++ tablePlans codec plan.tree, by rw [eq_root hp hzero]; rfl⟩

/-- **The reader gets one node for each visited plan**, the root first, and the output numbers
them. -/
theorem parseNodes_succinctJson (hc : codec.Lawful frame) (compact : Json → Json) :
    ∃ ps : List (SharedPlan Op × Nat), ps.Perm (visitedPlans plan.tree) ∧
      (∃ rest, ps = (plan.tree, 0) :: rest) ∧
      parseNodes (succinctJson ((visitedPlans plan.tree).map (infoOf codec compact plan.tree))) =
        .ok (ps.map (parsedOf codec plan.tree)) ∧
      Numbers (succinctJson ((visitedPlans plan.tree).map (infoOf codec compact plan.tree)))
        plan.tree.size := by
  obtain ⟨ps, hps, hsorted, hentries⟩ := exists_structure codec plan.tree
  obtain ⟨hstructure, htable⟩ := index_succinctJson codec plan compact
  rw [hentries] at hstructure
  have hmem : ∀ p ∈ ps, p ∈ visitedPlans plan.tree ∧
      isParquetScan (planJson codec p.1) = false := fun p hp => by
    have h := List.mem_filter.mp (hps.subset hp)
    exact ⟨h.1, by simpa using h.2⟩
  -- scans are listed in `full_table_info`, the other plans in `structure`, and nothing in both
  have hperm : (ps ++ tablePlans codec plan.tree).Perm (visitedPlans plan.tree) := by
    refine (hps.append_right _).trans (List.perm_append_comm.trans ?_)
    exact List.filter_append_perm ..
  refine ⟨ps ++ tablePlans codec plan.tree, hperm, exists_root_first plan hc hps hsorted, ?_, ?_⟩
  · have hnodes : (ps.map (entryOf codec plan.tree)).mapM parseStructureNode =
        .ok (ps.map (parsedOf codec plan.tree)) := by
      rw [List.mapM_map]
      exact Except.mapM_ok fun p hp =>
        parseStructureNode_entryOf plan hc (hmem p hp).1 (hmem p hp).2
    have htables : ((tablePlans codec plan.tree).map (tableOf codec)).mapM parseParquetNode =
        .ok ((tablePlans codec plan.tree).map (parsedOf codec plan.tree)) := by
      rw [List.mapM_map]
      refine Except.mapM_ok fun p hp => ?_
      have h := List.mem_filter.mp hp
      exact parseParquetNode_tableOf plan hc h.1 h.2
    rw [parseNodes, hstructure, htable]
    show (List.mapM _ _ >>= _) = _
    rw [hnodes, Except.ok_bind, htables, Except.ok_bind, List.map_append]
    rfl
  · refine ⟨_, _, ps.map Prod.snd, (tablePlans codec plan.tree).map Prod.snd, hstructure, htable,
      ?_, ?_, ?_, ?_⟩
    · rw [OrdDict.keys, List.map_map, List.map_map]
      rfl
    · rw [List.map_map, List.map_map]
      rfl
    · rw [← List.map_append, ← map_snd_visitedPlans]
      exact hperm.map _
    · intro e he c hce
      obtain ⟨p, hp, rfl⟩ := List.mem_map.mp he
      have ht := mem_subtrees_of_mem_visitedPlans (hmem p hp).1
      rw [entryOf, extractChildIds_encode plan hc ht] at hce
      obtain ⟨d, hd, rfl⟩ := List.mem_map.mp hce
      exact firstId_lt plan ht hd

/-! ## What the reader rebuilds -/

section

variable {ps : List (SharedPlan Op × Nat)} (hps : ps.Perm (visitedPlans plan.tree))

variable (codec) in
include hps in
theorem nodup_ids : ((ps.map (parsedOf codec plan.tree)).map ParsedNode.id).Nodup := by
  rw [List.map_map]
  exact ((hps.map Prod.snd).trans (List.Perm.of_eq (map_snd_visitedPlans plan.tree))).symm.nodup
    List.nodup_range

include hps in
/-- The two maps are keyed by number. -/
theorem nodeMap_eq : nodeMap (ps.map (parsedOf codec plan.tree)) =
    ps.map fun p => (p.2, parsedOf codec plan.tree p) := by
  have h := OrdDict.foldl_set_fresh ParsedNode.id id (ps.map (parsedOf codec plan.tree)) []
    (nodup_ids codec plan hps) fun _ _ => List.not_mem_nil
  rw [List.nil_append, List.map_map] at h
  exact h

include hps in
theorem childrenMap_eq : childrenMap (ps.map (parsedOf codec plan.tree)) =
    ps.map fun p => (p.2, childIdsOf plan.tree p.1) := by
  have h := OrdDict.foldl_set_fresh ParsedNode.id ParsedNode.childIds
    (ps.map (parsedOf codec plan.tree)) [] (nodup_ids codec plan hps) fun _ _ => List.not_mem_nil
  rw [List.nil_append, List.map_map] at h
  exact h

include hps in
/-- An id with children is the number of a visited plan. -/
theorem mem_childrenOf {a b : Nat}
    (hb : b ∈ childrenOf (childrenMap (ps.map (parsedOf codec plan.tree))) a) :
    ∃ t c, plan.tree.subtrees[a]? = some t ∧ c ∈ t.children ∧
      plan.tree.subtrees[b]? = some c := by
  rw [childrenOf, childrenMap_eq plan hps] at hb
  cases h : OrdDict.get? (ps.map fun p => (p.2, childIdsOf plan.tree p.1)) a with
  | none =>
    rw [h] at hb
    exact absurd hb List.not_mem_nil
  | some ids =>
    rw [h] at hb
    obtain ⟨p, hp, he⟩ := List.mem_map.mp (OrdDict.mem_of_get? h)
    injection he with ha hids
    subst ha hids
    obtain ⟨c, hc, rfl⟩ := List.mem_map.mp hb
    have hp := hps.subset hp
    exact ⟨p.1, c, mem_visitedPlans.mp hp, hc, (firstVisited_eq plan
      (RoseTree.mem_subtrees_of_mem_children plan.tree hc (mem_subtrees_of_mem_visitedPlans hp))).2⟩

/-- The size of the sub-plan with a number. -/
def rank (tree : SharedPlan Op) (a : Nat) : Nat := (tree.subtrees[a]?.map RoseTree.size).getD 0

variable (codec) in
include hps in
/-- **The graph check passes**: an edge leads to a smaller sub-plan. -/
theorem validate_eq (keyOrder : List Nat → List Nat) :
    ∃ s, validateExecutionPlanGraph keyOrder (childrenMap (ps.map (parsedOf codec plan.tree))) =
      .ok s := by
  refine CycleCheck.check_of_rank (rank plan.tree) (fun a b hb => ?_) fun a ha => ?_
  · obtain ⟨t, c, ht, hc, hb⟩ := mem_childrenOf plan hps hb
    rw [rank, rank, ht, hb]
    exact RoseTree.size_lt_of_mem_children hc
  · have hsize : rank plan.tree a ≤ plan.tree.size := by
      rw [rank]
      cases h : plan.tree.subtrees[a]? with
      | none => exact Nat.zero_le _
      | some t => exact RoseTree.size_le_of_mem_subtrees _ (List.mem_of_getElem? h)
    have hlen : plan.tree.size ≤
        (mentionedIds (childrenMap (ps.map (parsedOf codec plan.tree)))).length := by
      have hps' := hps.length_eq
      rw [visitedPlans, List.length_zipIdx] at hps'
      rw [mentionedIds, List.length_append, childrenMap_eq plan hps, OrdDict.keys, List.length_map,
        List.length_map, hps']
      exact Nat.le_add_right ..
    omega

variable (codec) in
include hps in
/-- **Nothing points to the root.** -/
theorem findRoot_eq {rest : List (SharedPlan Op × Nat)} (hroot : ps = (plan.tree, 0) :: rest) :
    findRoot (ps.map (parsedOf codec plan.tree)) = .ok 0 := by
  have hzero : 0 ∉ ((childrenMap (ps.map (parsedOf codec plan.tree))).map Prod.snd).flatten := by
    intro h
    rw [childrenMap_eq plan hps, List.map_map] at h
    obtain ⟨ids, hids, h⟩ := List.mem_flatten.mp h
    obtain ⟨p, hp, rfl⟩ := List.mem_map.mp hids
    obtain ⟨c, hc, h⟩ := List.mem_map.mp h
    have ht := mem_subtrees_of_mem_visitedPlans (hps.subset hp)
    have hfirst := (firstVisited_eq plan (RoseTree.mem_subtrees_of_mem_children plan.tree hc ht)).2
    rw [h, mem_visitedPlans.mp (root_mem plan.tree)] at hfirst
    injection hfirst with hfirst
    have hfirst : plan.tree = c := hfirst
    -- a plan does not occur below itself, for it would be smaller than itself
    have hlt := RoseTree.size_lt_of_mem_children hc
    have hle := RoseTree.size_le_of_mem_subtrees _ ht
    rw [← hfirst] at hlt
    omega
  have hfind : (ps.map (parsedOf codec plan.tree)).find? (fun n => decide (n.id ∉
      ((childrenMap (ps.map (parsedOf codec plan.tree))).map Prod.snd).flatten)) =
        some (parsedOf codec plan.tree (plan.tree, 0)) := by
    subst hroot
    exact List.find?_cons_of_pos (decide_eq_true hzero)
  rw [findRoot]
  simp only [hfind]
  rfl

include hps in
/-- **An id is rebuilt to the sub-plan it numbers**, by induction on the sub-plan. -/
theorem buildExecutionPlanTree_eq (hc : codec.Lawful frame) (t : SharedPlan Op) :
    ∀ i fuel, plan.tree.subtrees[i]? = some t → t.size ≤ fuel →
      buildExecutionPlanTree codec (nodeMap (ps.map (parsedOf codec plan.tree))) fuel i =
        .ok (unfoldPlan t) := by
  refine RoseTree.child_induction (P := fun t => ∀ i fuel, plan.tree.subtrees[i]? = some t →
    t.size ≤ fuel → buildExecutionPlanTree codec (nodeMap (ps.map (parsedOf codec plan.tree)))
      fuel i = .ok (unfoldPlan t)) (fun t ih i fuel hi hf => ?_) t
  have ht : t ∈ plan.tree.subtrees := List.mem_of_getElem? hi
  have hs := plan.serialized hc ht
  obtain ⟨fuel, rfl⟩ : ∃ k, fuel = k + 1 := ⟨fuel - 1, by have := t.size_pos; omega⟩
  have hget : OrdDict.get? (nodeMap (ps.map (parsedOf codec plan.tree))) i =
      some (parsedOf codec plan.tree (t, i)) := by
    have hnd := nodup_ids codec plan hps
    rw [nodeMap_eq plan hps]
    refine OrdDict.get?_of_mem ?_ ?_
    · rw [OrdDict.keys, List.map_map]
      rw [List.map_map] at hnd
      exact hnd
    · exact List.mem_map.mpr ⟨(t, i), hps.mem_iff.mpr (mem_visitedPlans.mpr hi), rfl⟩
  rw [buildExecutionPlanTree, hget]
  show (if (isParquetScan (planJson codec t) || (childIdsOf plan.tree t).isEmpty) = true then _
    else _) = _
  -- a node without children is read back as it is
  by_cases hnil : t.children = []
  · have hids : childIdsOf plan.tree t = [] := by rw [childIdsOf, hnil, List.map_nil]
    rw [hids, if_pos (by simp)]
    show codec.fromJson (encodeNode (planJson codec t) (childIdsOf plan.tree t)) = _
    rw [hids, encodeNode_leaf (hs.leaf hnil)]
    exact hc.roundTrip _ _ hs.toJson
  · have hids : childIdsOf plan.tree t ≠ [] := by simpa [childIdsOf] using hnil
    rw [hs.parquet hnil, if_neg (by simpa using hids)]
    have hchildren : (childIdsOf plan.tree t).mapM (buildExecutionPlanTree codec
        (nodeMap (ps.map (parsedOf codec plan.tree))) fuel) = .ok (t.children.map unfoldPlan) := by
      rw [childIdsOf, List.mapM_map]
      refine Except.mapM_ok fun c hm => ih c hm _ fuel ?_ ?_
      · exact (firstVisited_eq plan (RoseTree.mem_subtrees_of_mem_children plan.tree hm ht)).2
      · have := RoseTree.size_lt_of_mem_children hm
        omega
    have hjs : (t.children.map unfoldPlan).mapM codec.toJson =
        .ok (t.children.map (planJson codec)) := by
      rw [List.mapM_map]
      exact Except.mapM_ok fun c hm =>
        (plan.serialized hc (RoseTree.mem_subtrees_of_mem_children plan.tree hm ht)).toJson
    have hlen : t.children.length ≠ 0 := fun h => hnil (List.length_eq_zero_iff.mp h)
    have hop : IsOperator (shapeFor t.children.length) (frame t.label.2) := by
      rcases plan.wellShaped t ht with ⟨h, _⟩ | ⟨_, _, hop⟩
      · exact absurd h hnil
      · exact hop
    have hagrees := agrees_shapeFor hlen
    -- the rebuilt children take the place of the ids, which gives what was serialized
    have hrestore : restoreNode codec (encodeNode (planJson codec t) (childIdsOf plan.tree t))
        (t.children.map unfoldPlan) = .ok (planJson codec t) := by
      rw [restoreNode_eq (hs.filled hnil ▸ withChildren_isOperator hop _)
        (planJson_roundTrips plan hc ht hnil) (by rw [childIdsOf, List.length_map]; exact hagrees)
        hjs (by rw [childIdsOf, List.length_map, List.length_map])
        (by rw [childIdsOf, List.length_map, List.length_map])]
      nth_rewrite 1 [hs.filled hnil]
      rw [withChildren_withChildren hop (by rw [List.length_map]; exact hagrees.1) rfl,
        ← hs.filled hnil]
    show ((childIdsOf plan.tree t).mapM _ >>= _) = _
    rw [hchildren, Except.ok_bind]
    show (restoreNode codec (encodeNode (planJson codec t) (childIdsOf plan.tree t)) _ >>= _) = _
    rw [hrestore]
    exact hc.roundTrip _ _ hs.toJson

end

end

/-- **The succinct format round-trips.** -/
theorem executionPlan_roundTrips (codec : Codec Op) (frame : Op → Json) (hc : codec.Lawful frame)
    (compact : Json → Json) (keyOrder : List Nat → List Nat) (plan : ExecutionPlan frame) :
    ∃ summary nodes, executionPlanToSuccinctJson codec compact plan.tree = .ok summary ∧
      Numbers summary plan.tree.size ∧ parseNodes summary = .ok nodes ∧
      (∃ s, validateExecutionPlanGraph keyOrder (childrenMap nodes) = .ok s) ∧
      findRoot nodes = .ok 0 ∧
      executionPlanFromSuccinctJson codec keyOrder summary = .ok (unfoldPlan plan.tree) := by
  obtain ⟨ps, hps, ⟨rest, hroot⟩, hparse, hnumbers⟩ := parseNodes_succinctJson plan hc compact
  obtain ⟨s, hvalid⟩ := validate_eq codec plan hps keyOrder
  have hfind := findRoot_eq codec plan hps hroot
  refine ⟨_, _, encode_eq plan hc compact, hnumbers, hparse, ⟨s, hvalid⟩, hfind, ?_⟩
  have hlen : ps.length = plan.tree.size := by
    have h := hps.length_eq
    rwa [visitedPlans, List.length_zipIdx] at h
  rw [executionPlanFromSuccinctJson, hparse, Except.ok_bind, hvalid]
  show (findRoot _ >>= _) = _
  rw [hfind, Except.ok_bind, List.length_map, hlen]
  refine buildExecutionPlanTree_eq plan hps hc plan.tree 0 _ ?_ (by omega)
  exact mem_visitedPlans.mp (root_mem plan.tree)

/-! ## A codec

Operators that are serialized with nothing but their children, such as
`coalescePartitions`, `crossJoin` and `union`, over an `empty` plan without columns.
-/

/-- The name of an operator and where it stores its children. -/
abbrev BareOp := String × Option ChildShape

/-- The fields of an operator, filled with children. -/
def bareFields : Option ChildShape → List Json → Except String (List (String × Json))
  | none, [] => .ok [("schema", .obj [])]
  | some .input, [c] => .ok [("input", c)]
  | some .binary, [l, r] => .ok [("left", l), ("right", r)]
  | some .inputs, c :: cs => .ok [("inputs", .arr (c :: cs))]
  | _, _ => .error "wrong number of children"

mutual

def bareJson : RoseTree BareOp → Except String Json
  | .node op cs => do
    let js ← bareJsonList cs
    let fields ← bareFields op.2 js
    return .obj [(op.1, .obj fields)]
termination_by structural t => t

def bareJsonList : List (RoseTree BareOp) → Except String (List Json)
  | [] => .ok []
  | c :: cs => do
    let j ← bareJson c
    let js ← bareJsonList cs
    return j :: js
termination_by structural cs => cs

end

mutual

def bareParse : Json → Except String (RoseTree BareOp)
  | .obj [(op, .obj [("schema", .obj [])])] => .ok (.node (op, none) [])
  | .obj [(op, .obj [("input", c)])] => do
    let c ← bareParse c
    return .node (op, some .input) [c]
  | .obj [(op, .obj [("left", l), ("right", r)])] => do
    let l ← bareParse l
    let r ← bareParse r
    return .node (op, some .binary) [l, r]
  | .obj [(op, .obj [("inputs", .arr cs)])] => do
    let cs ← bareParseList cs
    return .node (op, some .inputs) cs
  | _ => .error "unknown operator"
termination_by structural j => j

def bareParseList : List Json → Except String (List (RoseTree BareOp))
  | [] => .ok []
  | j :: js => do
    let c ← bareParse j
    let cs ← bareParseList js
    return c :: cs
termination_by structural js => js

end

def bareCodec : Codec BareOp := ⟨bareJson, bareParse⟩

/-- The operator without its children. -/
def bareFrame : BareOp → Json
  | (op, none) => .obj [(op, .obj [("schema", .obj [])])]
  | (op, some .input) => .obj [(op, .obj [("input", .null)])]
  | (op, some .binary) => .obj [(op, .obj [("left", .null), ("right", .null)])]
  | (op, some .inputs) => .obj [(op, .obj [("inputs", .arr [])])]

theorem bareJsonList_eq : ∀ cs, bareJsonList cs = cs.mapM bareJson
  | [] => rfl
  | c :: cs => by rw [bareJsonList, bareJsonList_eq cs, List.mapM_cons]

theorem bareFrame_isLeaf {op : BareOp} : IsLeaf (bareFrame op) ↔ op.2 = none := by
  obtain ⟨name, s⟩ := op
  constructor
  · intro h
    obtain ⟨op, conf, he, hf⟩ := h
    cases s with
    | none => rfl
    | some s => cases s <;> (cases he; simp [childFields] at hf)
  · rintro rfl
    exact ⟨name, _, rfl, by decide⟩

theorem bareFrame_isOperator {op : BareOp} {s : ChildShape} :
    IsOperator s (bareFrame op) ↔ op.2 = some s := by
  obtain ⟨name, s'⟩ := op
  constructor
  · intro h
    obtain ⟨op, conf, he, hs⟩ := h
    have hf := hs.fields
    cases s' with
    | none => cases s <;> (cases he; simp [childFields, ChildShape.fields] at hf)
    | some s' =>
      cases s <;> cases s' <;> first
        | rfl
        | (cases he; simp [childFields, ChildShape.fields] at hf)
  · rintro rfl
    cases s <;> exact ⟨name, _, rfl, by decide, by decide⟩

/-- What the children are serialized to is parsed back to them. -/
theorem bareParseList_eq : ∀ {cs : List (RoseTree BareOp)} {js : List Json},
    (∀ c ∈ cs, ∀ j, bareJson c = .ok j → bareParse j = .ok c) → cs.mapM bareJson = .ok js →
      bareParseList js = .ok cs
  | [], js, _, h => by
    injection (show (Except.ok [] : Except String (List Json)) = .ok js from h) with h
    rw [← h]
    rfl
  | c :: cs, js, ih, h => by
    rw [List.mapM_cons] at h
    obtain ⟨j, hj, h⟩ := Except.bind_eq_ok.mp h
    obtain ⟨js', hjs, h⟩ := Except.bind_eq_ok.mp h
    injection (show (Except.ok (j :: js') : Except String (List Json)) = .ok js from h) with h
    rw [← h, bareParseList, ih c (List.mem_cons_self ..) j hj, Except.ok_bind,
      bareParseList_eq (fun c hc => ih c (List.mem_cons_of_mem _ hc)) hjs]
    rfl

/-- The parser reads one serialized operator, given its children. -/
theorem bareParse_fields {op : BareOp} {cs : List (RoseTree BareOp)} {js : List Json}
    {fields : List (String × Json)} (hf : bareFields op.2 js = .ok fields)
    (hcs : bareParseList js = .ok cs) :
    bareParse (.obj [(op.1, .obj fields)]) = .ok (.node op cs) := by
  obtain ⟨name, s⟩ := op
  unfold bareFields at hf
  split at hf
  next he =>
    injection hf with hf
    injection hcs with hcs
    subst hf hcs
    rw [show s = none from he]
    rfl
  next c he =>
    injection hf with hf
    obtain ⟨t, ht, hcs⟩ := Except.bind_eq_ok.mp hcs
    injection hcs with hcs
    subst hf hcs
    rw [show s = some .input from he]
    show (bareParse c >>= _) = _
    rw [ht]
    rfl
  next l r he =>
    injection hf with hf
    obtain ⟨t, ht, hcs⟩ := Except.bind_eq_ok.mp hcs
    obtain ⟨ts, hts, hcs⟩ := Except.bind_eq_ok.mp hcs
    obtain ⟨u, hu, hts⟩ := Except.bind_eq_ok.mp hts
    injection hcs with hcs
    injection hts with hts
    subst hf hcs hts
    rw [show s = some .binary from he]
    show (bareParse l >>= _) = _
    rw [ht, Except.ok_bind, hu]
    rfl
  next c cs' he =>
    injection hf with hf
    subst hf
    rw [show s = some .inputs from he]
    show (bareParseList (c :: cs') >>= _) = _
    rw [hcs]
    rfl
  next => exact absurd hf (by simp)

theorem bareCodec_roundTrip (t : RoseTree BareOp) : ∀ j, bareJson t = .ok j → bareParse j = .ok t := by
  refine RoseTree.child_induction (P := fun t => ∀ j, bareJson t = .ok j → bareParse j = .ok t)
    (fun t ih j hj => ?_) t
  cases t with
  | node op cs =>
    rw [bareJson, bareJsonList_eq] at hj
    obtain ⟨js, hjs, hj⟩ := Except.bind_eq_ok.mp hj
    obtain ⟨fields, hf, hj⟩ := Except.bind_eq_ok.mp hj
    injection (show Except.ok _ = Except.ok j from hj) with hj
    rw [← hj]
    exact bareParse_fields hf (bareParseList_eq ih hjs)

/-- The conversion of bare operators is lawful. -/
theorem bareCodec_lawful : bareCodec.Lawful bareFrame where
  leaf op h := by
    obtain ⟨name, s⟩ := op
    rw [show s = none from bareFrame_isLeaf.mp h]
    rfl
  node s op cs js h ha hjs := by
    obtain ⟨name, s'⟩ := op
    have hlen : js.length = cs.length := (Except.mapM_eq_ok.mp hjs).length_eq.symm
    rw [← hlen] at ha
    rw [show s' = some s from bareFrame_isOperator.mp h]
    show bareJson _ = _
    rw [bareJson, bareJsonList_eq, show cs.mapM bareJson = .ok js from hjs, Except.ok_bind]
    cases s with
    | input =>
      obtain ⟨c, rfl⟩ := List.length_eq_one_iff.mp ha
      rfl
    | binary =>
      obtain ⟨l, r, rfl⟩ := List.length_eq_two.mp ha
      rfl
    | inputs =>
      cases js with
      | nil => exact absurd (show 1 ≤ 0 from ha) (by decide)
      | cons c js => rfl
  roundTrip := bareCodec_roundTrip

/-- A cross join of a plan with itself: both sides are the same `Arc`. -/
def selfJoin : ExecutionPlan bareFrame where
  tree :=
    .node (1, "crossJoin", some .binary)
      [.node (2, "coalescePartitions", some .input) [.node (3, "empty", none) []],
       .node (2, "coalescePartitions", some .input) [.node (3, "empty", none) []]]
  shared s hs t ht h := by
    simp only [RoseTree.subtrees, RoseTree.subtreesList, List.mem_cons, List.append_nil,
      List.cons_append, List.nil_append, List.not_mem_nil, or_false] at hs ht
    rcases hs with rfl | rfl | rfl | rfl | rfl <;> rcases ht with rfl | rfl | rfl | rfl | rfl <;>
      first | rfl | exact absurd h (by decide)
  wellShaped t ht := by
    simp only [RoseTree.subtrees, RoseTree.subtreesList, List.mem_cons, List.append_nil,
      List.cons_append, List.nil_append, List.not_mem_nil, or_false] at ht
    rcases ht with rfl | rfl | rfl | rfl | rfl
    · exact Or.inr ⟨by simp [RoseTree.children], rfl, bareFrame_isOperator.mpr rfl⟩
    · exact Or.inr ⟨by simp [RoseTree.children], rfl, bareFrame_isOperator.mpr rfl⟩
    · exact Or.inl ⟨rfl, bareFrame_isLeaf.mpr rfl⟩
    · exact Or.inr ⟨by simp [RoseTree.children], rfl, bareFrame_isOperator.mpr rfl⟩
    · exact Or.inl ⟨rfl, bareFrame_isLeaf.mpr rfl⟩
  fits := by decide

/-- The self join is written as five nodes, two of them orphans, and read back. -/
theorem executionPlan_roundTrips_selfJoin :
    ∃ summary nodes, executionPlanToSuccinctJson bareCodec id selfJoin.tree = .ok summary ∧
      Numbers summary 5 ∧ parseNodes summary = .ok nodes ∧
      (∃ s, validateExecutionPlanGraph id (childrenMap nodes) = .ok s) ∧
      findRoot nodes = .ok 0 ∧
      executionPlanFromSuccinctJson bareCodec id summary = .ok (unfoldPlan selfJoin.tree) :=
  executionPlan_roundTrips bareCodec bareFrame bareCodec_lawful id id selfJoin

end DbPlanBench.Engine
