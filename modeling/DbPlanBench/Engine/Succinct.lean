import DbPlanBench.Engine.Children
import DbPlanBench.Lib.CycleCheck
import DbPlanBench.Lib.RoseTree

/-!
# The succinct plan format

`execution_plan_to_succinct_json` numbers the nodes of a plan in preorder and
writes two tables: `structure`, one serialized operator for each number with the
numbers of its children in its child fields, and `full_table_info`, the parquet
scans. `execution_plan_from_succinct_json` reads both, looks for a cycle, takes
the first node that nothing points to and rebuilds the plan from there.

A plan is a finite tree of operators; the `Arc` of a sub-plan is its address, and
a sub-plan that is shared occurs several times under one address. The encoder
visits every occurrence, so a shared sub-plan gets several numbers, while parents
point to the first one.

The conversion between an operator and its JSON is DataFusion's (`Codec`); a JSON
document stands for its text. `succinct_table_info` is what the language model is
shown and is not read back, so its compaction is a parameter.
-/

namespace DbPlanBench.Engine

variable {Op : Type}

/-- A plan with the address of every sub-plan. -/
abbrev SharedPlan (Op : Type) := RoseTree (Nat × Op)

/-- The plan without its addresses: what a rebuilt plan is compared with. -/
def unfoldPlan (plan : SharedPlan Op) : RoseTree Op := plan.map Prod.snd

/-- Where a sub-plan lives. -/
def address (plan : SharedPlan Op) : Nat := plan.label.1

/-- DataFusion's conversions: `PhysicalPlanNode::try_from_physical_plan` with `to_value`, and
`physical_plan_from_json`. -/
structure Codec (Op : Type) where
  toJson : RoseTree Op → Except String Json
  fromJson : Json → Except String (RoseTree Op)

/-- `value[k]`, null when there is no such field. -/
def index (v : Json) (k : String) : Json :=
  match v with
  | .obj m => (OrdDict.get? m k).getD .null
  | _ => .null

/-! ## Writing -/

/-- `obj.contains_key("parquetScan")`, false for any other value. -/
def isParquetScan : Json → Bool
  | .obj m => decide ("parquetScan" ∈ OrdDict.keys m)
  | _ => false

/-- `NodeInfo`. -/
structure NodeInfo where
  id : Nat
  rawNode : Json
  compactedNode : Json
  childIds : List Nat
  isParquetScan : Bool

/-- The occurrences of sub-plans with their numbers, in the order of the traversal. -/
def visitedPlans (plan : SharedPlan Op) : List (SharedPlan Op × Nat) := plan.subtrees.zipIdx

/-- The first pass at one node. -/
def collectNode (codec : Codec Op) (compact : Json → Json) (visited : SharedPlan Op × Nat) :
    Except String NodeInfo := do
  let serialized ← codec.toJson (unfoldPlan visited.1)
  let rawNode := createNodeWithEmptyChildren serialized
  let isParquet := isParquetScan serialized
  return {
    id := visited.2
    rawNode
    compactedNode := if isParquet then compact rawNode else rawNode
    childIds := []
    isParquetScan := isParquet }

/-- The number of the first visited plan at the address of `child`. -/
def firstVisited (visited : List (SharedPlan Op × Nat)) (child : SharedPlan Op) :
    Except String Nat :=
  match visited.find? fun p => address child == address p.1 with
  | some p => .ok p.2
  | none => .error "called Option::unwrap() on a None value"

/-- The second pass at one node. -/
def linkChildren (visited : List (SharedPlan Op × Nat)) (p : NodeInfo × SharedPlan Op × Nat) :
    Except String NodeInfo := do
  let childIds ← p.2.1.children.mapM (firstVisited visited)
  return { p.1 with childIds }

/-- An entry of one of the two tables of parquet scans. -/
def tableEntry (id : Nat) (node : Json) : Json := .obj [("id", jsonId id), ("node", node)]

/-- The third pass. -/
def succinctJson (infos : List NodeInfo) : Json :=
  let tables := infos.filter (·.isParquetScan)
  let others := infos.filter (! ·.isParquetScan)
  .obj [
    ("full_table_info", .arr (tables.map fun i => tableEntry i.id i.rawNode)),
    ("structure", .obj (others.foldl
      (fun m i => mapInsert m (toString i.id) (populateChildIds i.rawNode i.childIds)) [])),
    ("succinct_table_info", .arr (tables.map fun i => tableEntry i.id i.compactedNode)),
    ("v", .str "3")]

/-- `execution_plan_to_succinct_json`. -/
def executionPlanToSuccinctJson (codec : Codec Op) (compact : Json → Json)
    (plan : SharedPlan Op) : Except String Json := do
  let visited := visitedPlans plan
  let collected ← visited.mapM (collectNode codec compact)
  let infos ← (collected.zip visited).mapM (linkChildren visited)
  return succinctJson infos

/-! ## Reading -/

/-- `ParsedNode`. -/
structure ParsedNode where
  id : Nat
  nodeData : Json
  childIds : List Nat
  isParquetScan : Bool

/-- The characters of a numeral, without a leading plus sign. -/
def unsignedDigits : List Char → List Char
  | '+' :: cs => cs
  | cs => cs

/-- `s.parse::<usize>()`. -/
def parseUsize (s : String) : Except String Nat :=
  let digits := unsignedDigits s.toList
  if digits ≠ [] ∧ digits.all (·.isDigit) ∧ Nat.ofDigitChars 10 digits 0 < u64Size then
    .ok (Nat.ofDigitChars 10 digits 0)
  else .error "Invalid node ID in structure"

/-- A node of `structure`. -/
def parseStructureNode (entry : String × Json) : Except String ParsedNode := do
  let id ← parseUsize entry.1
  return { id, nodeData := entry.2, childIds := extractChildIds entry.2, isParquetScan := false }

/-- A node of `full_table_info`. -/
def parseParquetNode (node : Json) : Except String ParsedNode :=
  match asU64 (index node "id") with
  | some id => .ok { id, nodeData := index node "node", childIds := [], isParquetScan := true }
  | none => .error "Missing 'id' in parquet node"

/-- `all_nodes`: the nodes of both tables. -/
def parseNodes (summary : Json) : Except String (List ParsedNode) :=
  match index summary "structure", index summary "full_table_info" with
  | .obj entries, .arr tables => do
    let nodes ← entries.mapM parseStructureNode
    let parquet ← tables.mapM parseParquetNode
    return nodes ++ parquet
  | .obj _, _ => .error "Missing 'full_table_info' array in JSON"
  | _, _ => .error "Missing 'structure' object in JSON"

/-- `node_map`. -/
def nodeMap (nodes : List ParsedNode) : List (Nat × ParsedNode) :=
  nodes.foldl (fun m n => OrdDict.set m n.id n) []

/-- `children_map`. -/
def childrenMap (nodes : List ParsedNode) : List (Nat × List Nat) :=
  nodes.foldl (fun m n => OrdDict.set m n.id n.childIds) []

/-- The children of a node, none for an id without a node. -/
def childrenOf (children : List (Nat × List Nat)) (id : Nat) : List Nat :=
  (OrdDict.get? children id).getD []

/-- All ids the map mentions. -/
def mentionedIds (children : List (Nat × List Nat)) : List Nat :=
  OrdDict.keys children ++ (children.map Prod.snd).flatten

/-- `validate_execution_plan_graph`. The recursion is bounded by the number of ids, which it never
reaches (`validateExecutionPlanGraph_fuel`); `keyOrder` is the order in which the hash map yields
its keys. -/
def validateExecutionPlanGraph (keyOrder : List Nat → List Nat) (children : List (Nat × List Nat)) :
    Except (CycleCheck.Fault Nat) (CycleCheck.State Nat) :=
  CycleCheck.check (childrenOf children) ((mentionedIds children).length + 1)
    (keyOrder (OrdDict.keys children))

/-- The first node no node points to. -/
def findRoot (nodes : List ParsedNode) : Except String Nat :=
  let allChildren := ((childrenMap nodes).map Prod.snd).flatten
  match nodes.find? fun n => decide (n.id ∉ allChildren) with
  | some n => .ok n.id
  | none => .error "Could not find root node"

/-- The rebuilt children, serialized again, put back in the node. -/
def restoreNode (codec : Codec Op) (node : Json) (children : List (RoseTree Op)) :
    Except String Json :=
  match node with
  | .obj ((op, .obj conf) :: rest) =>
    -- more than two children need their field before they are converted
    if 3 ≤ children.length ∧ "inputs" ∉ OrdDict.keys conf then
      .error (unsupportedChildren children.length)
    else do
      let children ← children.mapM codec.toJson
      restoreChildren (.obj ((op, .obj conf) :: rest)) children
  | v => .ok v

/-- `build_execution_plan_tree`, to a depth. -/
def buildExecutionPlanTree (codec : Codec Op) (nodes : List (Nat × ParsedNode)) :
    Nat → Nat → Except String (RoseTree Op)
  | 0, _ => .error "the recursion is too deep"
  | fuel + 1, id =>
    match OrdDict.get? nodes id with
    | none => .error ("Node with id " ++ toString id ++ " not found")
    | some node =>
      if node.isParquetScan || node.childIds.isEmpty then codec.fromJson node.nodeData
      else do
        let children ← node.childIds.mapM (buildExecutionPlanTree codec nodes fuel)
        let nodeData ← restoreNode codec node.nodeData children
        codec.fromJson nodeData

/-- The error of a search that does not return. -/
def graphError : CycleCheck.Fault Nat → String
  | .cycle id => "Circular reference detected: node " ++ toString id ++
      " is part of a cycle in the execution plan graph"
  | .outOfFuel => "the recursion is too deep"

/-- `execution_plan_from_succinct_json`. A rebuilt plan is at most as deep as it has nodes. -/
def executionPlanFromSuccinctJson (codec : Codec Op) (keyOrder : List Nat → List Nat)
    (summary : Json) : Except String (RoseTree Op) := do
  let nodes ← parseNodes summary
  match validateExecutionPlanGraph keyOrder (childrenMap nodes) with
  | .error fault => .error (graphError fault)
  | .ok _ =>
    let root ← findRoot nodes
    buildExecutionPlanTree codec (nodeMap nodes) (nodes.length + 1) root

/-! ## The graph check returns -/

/-- Every id is a key or a child. -/
theorem childrenOf_subset (children : List (Nat × List Nat)) (a b : Nat)
    (hb : b ∈ childrenOf children a) : b ∈ mentionedIds children := by
  rw [childrenOf] at hb
  cases h : OrdDict.get? children a with
  | none =>
    rw [h] at hb
    exact absurd hb List.not_mem_nil
  | some ids =>
    rw [h] at hb
    exact List.mem_append_right _ (List.mem_flatten.mpr
      ⟨ids, List.mem_map_of_mem (f := Prod.snd) (OrdDict.mem_of_get? h), hb⟩)

/-- **The bound on the recursion is never reached**, whatever the document. -/
theorem validateExecutionPlanGraph_fuel (keyOrder : List Nat → List Nat)
    (hkeys : ∀ ks, (keyOrder ks).Perm ks) (children : List (Nat × List Nat)) :
    validateExecutionPlanGraph keyOrder children ≠ .error .outOfFuel := by
  refine CycleCheck.check_fuel (U := (mentionedIds children).toFinset) (fun a _ b hb => ?_)
    (fun a ha => ?_) ?_
  · exact List.mem_toFinset.mpr (childrenOf_subset children a b hb)
  · exact List.mem_toFinset.mpr (List.mem_append_left _ ((hkeys _).mem_iff.mp ha))
  · exact Nat.lt_succ_of_le (List.toFinset_card_le _)

end DbPlanBench.Engine
