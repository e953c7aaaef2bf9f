import DbPlanBench.Engine.RoundTrip
import DbPlanBench.Json.Text
import DbPlanBench.Optimize.PlanMetrics
import DbPlanBench.Optimize.Submit

/-!
# The database of an operation

`DataFusionDB` wraps a session of the engine, and the builders of `base_operation.py` make the
result of an operation from it. A query is planned by one operation and its plan is executed by
others, in sessions of their own: between them a plan is a text. Nothing is lost on that way.
What is executed is the tree of operators that was planned (`plannedTree_executed`), and a query
that is executed through its serialized plan gives what it gives directly.

A session is given by what the engine answers in it, with the texts of its exceptions. The
conversion of a plan is the one of `Engine`; the texts that stand for JSON documents are the
engine's. How a session is configured and its tables are registered is left out, and so is
`FETCH_SCHEMA`: the rows it samples are Python values with no JSON.
-/

namespace DbPlanBench.Runner

open Engine (SharedPlan unfoldPlan)
open Optimize (Kwargs Floats PlanMetrics parsePlanMetrics)

/-! ## The engine -/

/-- How the engine converts plans, and `serde_json` documents. -/
structure Format (Op : Type) where
  codec : Engine.Codec Op
  compact : Json → Json
  keyOrder : List Nat → List Nat
  /-- `serde_json::to_string`. -/
  write : Json → String
  /-- `serde_json::from_str`. -/
  read : String → Option Json

/-- A `SessionContext`. The seconds of an execution are measured in `execute_serialized_physical_plan`
(`elapsed`) and by its caller (`executionTime`). -/
structure Session (Op Batch : Type) where
  /-- `ctx.sql(query).logical_plan()`. -/
  logicalPlan : String → Except String Unit
  /-- `ctx.sql(query).execution_plan()`. -/
  physicalPlan : String → Except String (SharedPlan Op)
  /-- The names and types of `ctx.sql(query).schema()`. -/
  schema : String → Except String (List (String × String))
  /-- `ctx.collect(plan)`. -/
  collect : RoseTree Op → Except String (List Batch)
  displayWithMetrics : RoseTree Op → Except PyErr String
  elapsed : PyFloat
  executionTime : PyFloat

/-- What the source uses of `pyarrow`. -/
structure Arrow (Batch Table : Type) where
  /-- `pa.Table.from_batches(batches)`. -/
  fromBatches : List Batch → Except String Table
  /-- `pa.Table.from_arrays([])`. -/
  fromNoArrays : Except String Table
  /-- `pa.Table.from_arrays(empty_arrays, schema=schema)`. -/
  fromEmptyArrays : List (String × String) → Except String Table
  numRows : Table → Nat
  /-- `table.to_pandas().to_json()`. -/
  toJson : Table → Except String String
  /-- `str(table.schema)`. -/
  schemaText : Table → String

/-- `QueryResult`. -/
structure QueryResult (Table : Type) where
  data : Option Table
  time : PyFloat
  isExecError : Bool
  errorMessage : Option String

/-! ## `DataFusionDB` -/

section

variable {Op Batch Table : Type}

variable (format : Format Op) (arrow : Arrow Batch Table) (db : Session Op Batch)

/-- `plan.to_succinct_json()`. -/
def toSuccinctJson (plan : SharedPlan Op) : Except String String :=
  match Engine.executionPlanToSuccinctJson format.codec format.compact plan with
  | .ok summary => .ok (format.write summary)
  | .error e => .error ("Failed to convert to succinct JSON: " ++ e)

/-- `ExecutionPlan.from_succinct_json(ctx, json)`. -/
def fromSuccinctJson (json : String) : Except String (RoseTree Op) :=
  let plan :=
    match format.read json with
    | some summary => Engine.executionPlanFromSuccinctJson format.codec format.keyOrder summary
    | none => .error "Invalid JSON"
  plan.mapError fun e => "Failed to convert from succinct JSON: " ++ e

/-- `validate_syntax`. -/
def validateSyntax (query : String) : Bool := (db.logicalPlan query).toOption.isSome

/-- `serialize_query_to_physical_plan`. -/
def serializeQueryToPhysicalPlan (query : String) : Option String :=
  (db.physicalPlan query >>= toSuccinctJson format).toOption

/-- The `QueryResult` of an exception in an execution. -/
def executionError (e : String) : QueryResult Table where
  data := none
  time := ⟨false, 0⟩
  isExecError := true
  errorMessage := some ("Error executing query: " ++ e)

/-- The `QueryResult` of the batches of an execution; those of no batch have a table of their own. -/
def resultOf (empty : Except String (Option Table)) (batches : List Batch) :
    Except String (QueryResult Table) := do
  let data ← if batches.isEmpty then empty else some <$> arrow.fromBatches batches
  return { data, time := db.elapsed, isExecError := false, errorMessage := none }

/-- `execute_sql_query_directly`. -/
def executeSqlQueryDirectly (query : String) : Except String (QueryResult Table) :=
  match db.physicalPlan query >>= fun plan => db.collect (unfoldPlan plan) with
  | .error e => .ok (executionError e)
  | .ok batches =>
    resultOf arrow db (.ok (db.schema query >>= arrow.fromEmptyArrays).toOption) batches

/-- `execute_serialized_physical_plan`, and `_last_executed_plan`. -/
def executeSerializedPhysicalPlan (planAsJsonString : String) :
    Except String (QueryResult Table × Option (RoseTree Op)) :=
  let executed := do
    let plan ← fromSuccinctJson format planAsJsonString
    let batches ← db.collect plan
    return (plan, batches)
  match executed with
  | .error e => .ok (executionError e, none)
  | .ok (plan, batches) => do
    let result ← resultOf arrow db (some <$> arrow.fromNoArrays) batches
    return (result, some plan)

/-- `execute_sql_query_through_serialization`. -/
def executeSqlQueryThroughSerialization (query : String) : Except String (QueryResult Table) :=
  let failed : QueryResult Table := {
    data := none, time := ⟨false, 1000⟩, isExecError := true
    errorMessage := some "❌ Failed to serialize query to physical plan." }
  match serializeQueryToPhysicalPlan format db query with
  | none => .ok failed
  | some plan =>
    if plan = "" then .ok failed else Prod.fst <$> executeSerializedPhysicalPlan format arrow db plan

/-! ## The results of operations -/

/-- `op_plan`. -/
def opPlan (query : String) : Kwargs :=
  let plan := match serializeQueryToPhysicalPlan format db query with
    | some plan => .str plan
    | none => .null
  [("plan", plan), ("query", .str query)]

/-- The table of an executed plan, or the result of an operation that has none. -/
def tableOrError (result : QueryResult Table) : Except Kwargs Table :=
  if result.isExecError then
    .error [("error", .str ("Execution error: " ++ result.errorMessage.getD "None"))]
  else match result.data with
    | some table => .ok table
    | none => .error [("error", .str
        "Expected results to be a pyarrow Table, instead got <class 'NoneType'>.")]

/-- What `op_execute` says of an executed plan. -/
def executionOf (result : QueryResult Table) : Except String Kwargs :=
  match tableOrError result with
  | .error failed => return failed
  | .ok table => do
    let data ← arrow.toJson table
    return [("execution_time", .float db.executionTime), ("result_data", .str data),
      ("schema", .str (arrow.schemaText table))]

/-- `op_execute`. -/
def opExecute (planJson : String) : Except String Kwargs := do
  let (result, _) ← executeSerializedPhysicalPlan format arrow db planJson
  executionOf arrow db result

/-- The metrics of a plan that are not `None`. -/
def metricFields (m : PlanMetrics PyFloat) : Kwargs :=
  [("bytes_scanned", m.bytesScanned.map Json.int), ("output_rows_sum", m.outputRowsSum.map .int),
    ("input_rows_sum", m.inputRowsSum.map .int), ("join_time_s_sum", m.joinTimeSSum.map .float),
    ("build_time_s_sum", m.buildTimeSSum.map .float),
    ("build_mem_used_sum", m.buildMemUsedSum.map .int),
    ("build_mem_used_max", m.buildMemUsedMax.map .int),
    ("peak_mem_used_max", m.peakMemUsedMax.map .int)].filterMap fun p => p.2.map fun v => (p.1, v)

/-- What `op_evaluate` says of an executed plan. -/
def evaluationOf (floats : Floats PyFloat) (fullMetrics : Bool) (result : QueryResult Table)
    (lastExecutedPlan : Option (RoseTree Op)) : Kwargs :=
  match tableOrError result with
  | .error failed => failed
  | .ok _ =>
    let composed := [("execution_time", Json.float db.executionTime)]
    match fullMetrics, lastExecutedPlan with
    | true, some plan =>
      let extra := (parsePlanMetrics floats (db.displayWithMetrics plan)).map metricFields
      composed ++ extra.getD []
    | _, _ => composed

/-- `op_evaluate`. -/
def opEvaluate (floats : Floats PyFloat) (planJson : String) (fullMetrics : Bool) :
    Except String Kwargs := do
  let (result, lastExecutedPlan) ← executeSerializedPhysicalPlan format arrow db planJson
  return evaluationOf db floats fullMetrics result lastExecutedPlan

/-- The fields of a validation. -/
def validation (isSyntaxValid : Bool) (plan : Json) (canRun : Bool) (rowCount : Nat)
    (executionTime : PyFloat) : Kwargs :=
  [("is_syntax_valid", .bool isSyntaxValid), ("plan", plan), ("can_run", .bool canRun),
    ("row_count", .int rowCount), ("is_empty", .bool (rowCount = 0)),
    ("execution_time", .float executionTime)]

/-- What `op_validate` says of an executed plan. -/
def validationOf (plan : String) (result : QueryResult Table) : Kwargs :=
  let canRun := ! result.isExecError
  match canRun, result.data with
  | true, some table => validation true (.str plan) canRun (arrow.numRows table) result.time
  | _, _ => validation true (.str plan) canRun 0 result.time

/-- `op_validate`. -/
def opValidate (query : String) : Except String Kwargs :=
  if validateSyntax db query = false then .ok (validation false .null false 0 ⟨false, 0⟩)
  else
    match serializeQueryToPhysicalPlan format db query with
    | none => .ok (validation true .null false 0 ⟨false, 0⟩)
    | some plan =>
      if plan = "" then .ok (validation true .null false 0 ⟨false, 0⟩)
      else do
        let (result, _) ← executeSerializedPhysicalPlan format arrow db plan
        return validationOf arrow plan result

/-! ## From a plan to its execution -/

/-- `execute_serialized_physical_plan`, for a plan that has been read. -/
def executeTree (plan : RoseTree Op) : Except String (QueryResult Table × Option (RoseTree Op)) :=
  match db.collect plan with
  | .error e => .ok (executionError e, none)
  | .ok batches => do
    let result ← resultOf arrow db (some <$> arrow.fromNoArrays) batches
    return (result, some plan)

/-- The text of a plan is read as the document that was written, and no document is empty. -/
structure Format.Reads (plan : SharedPlan Op) : Prop where
  written : ∀ summary, Engine.executionPlanToSuccinctJson format.codec format.compact plan =
    .ok summary → format.read (format.write summary) = some summary
  empty : format.read "" = none

/-- A table that is made without rows has none. -/
structure Arrow.EmptyTables : Prop where
  noArrays : ∃ table, arrow.fromNoArrays = .ok table ∧ arrow.numRows table = 0
  emptyArrays : ∀ fields table, arrow.fromEmptyArrays fields = .ok table → arrow.numRows table = 0

/-- Two results are the same, but for the columns of a table without rows. -/
def SameResult (x y : Except String (QueryResult Table)) : Prop :=
  x = y ∨ ∃ r r', x = .ok r ∧ y = .ok r' ∧ r.isExecError = r'.isExecError ∧
    r.errorMessage = r'.errorMessage ∧ r.time = r'.time ∧
    ∀ table, r.data = some table ∨ r'.data = some table → arrow.numRows table = 0

/-- What becomes of a query with this plan, which is written as this document. -/
structure ExecutedAsPlanned (query : String) (plan : SharedPlan Op) (summary : Json) : Prop where
  planned : opPlan format db query =
    [("plan", .str (format.write summary)), ("query", .str query)]
  /-- In whatever session, and from whatever text of the document, the planned tree is executed. -/
  executed : ∀ (other : Session Op Batch) (text : String), format.read text = some summary →
    opExecute format arrow other text =
      executeTree arrow other (unfoldPlan plan) >>= fun r => executionOf arrow other r.1
  evaluated : ∀ (other : Session Op Batch) (text : String) (floats : Floats PyFloat)
    (fullMetrics : Bool), format.read text = some summary →
      opEvaluate format arrow other floats text fullMetrics =
        (fun r => evaluationOf other floats fullMetrics r.1 r.2) <$>
          executeTree arrow other (unfoldPlan plan)
  validated : validateSyntax db query = true → opValidate format arrow db query =
    (fun r => validationOf arrow (format.write summary) r.1) <$>
      executeTree arrow db (unfoldPlan plan)
  direct : SameResult arrow (executeSqlQueryThroughSerialization format arrow db query)
    (executeSqlQueryDirectly arrow db query)

variable {frame : Op → Json}

/-- **What is written of a plan is read as its tree.** -/
theorem decode_encode (hc : format.codec.Lawful frame) (plan : Engine.ExecutionPlan frame) :
    ∃ summary,
      Engine.executionPlanToSuccinctJson format.codec format.compact plan.tree = .ok summary ∧
      Engine.executionPlanFromSuccinctJson format.codec format.keyOrder summary =
        .ok (unfoldPlan plan.tree) := by
  obtain ⟨ps, hps, ⟨rest, hroot⟩, hparse, _⟩ := Engine.parseNodes_succinctJson plan hc format.compact
  obtain ⟨seen, hvalid⟩ := Engine.validate_eq format.codec plan hps format.keyOrder
  have hfind := Engine.findRoot_eq format.codec plan hps hroot
  have hlen : ps.length = plan.tree.size := by
    have h := hps.length_eq
    rwa [Engine.visitedPlans, List.length_zipIdx] at h
  refine ⟨_, Engine.encode_eq plan hc format.compact, ?_⟩
  rw [Engine.executionPlanFromSuccinctJson, hparse, Except.ok_bind, hvalid]
  show (Engine.findRoot _ >>= _) = _
  rw [hfind, Except.ok_bind, List.length_map, hlen]
  apply Engine.buildExecutionPlanTree_eq plan hps hc plan.tree 0 _
  · exact Engine.mem_visitedPlans.mp (Engine.root_mem plan.tree)
  · omega

section

variable {format arrow db} {plan : SharedPlan Op} {summary : Json} {query : String}

theorem fromSuccinctJson_of_read {text : String} {tree : RoseTree Op}
    (hread : format.read text = some summary)
    (hdecode : Engine.executionPlanFromSuccinctJson format.codec format.keyOrder summary =
      .ok tree) : fromSuccinctJson format text = .ok tree := by
  rw [fromSuccinctJson, hread]
  show Except.mapError _ (Engine.executionPlanFromSuccinctJson _ _ _) = _
  rw [hdecode]
  rfl

/-- An execution depends on the text only through the tree that is read. -/
theorem executeSerialized_of_read {text : String} {tree : RoseTree Op}
    (hread : format.read text = some summary)
    (hdecode : Engine.executionPlanFromSuccinctJson format.codec format.keyOrder summary =
      .ok tree) :
    executeSerializedPhysicalPlan format arrow db text = executeTree arrow db tree := by
  rw [executeSerializedPhysicalPlan, fromSuccinctJson_of_read hread hdecode, executeTree]
  cases hcollect : db.collect tree with
  | error e => rw [Except.ok_bind, hcollect]; rfl
  | ok batches => rw [Except.ok_bind, hcollect]; rfl

theorem serialize_of_encode (hplan : db.physicalPlan query = .ok plan)
    (hencode : Engine.executionPlanToSuccinctJson format.codec format.compact plan = .ok summary) :
    serializeQueryToPhysicalPlan format db query = some (format.write summary) := by
  rw [serializeQueryToPhysicalPlan, hplan, Except.ok_bind, toSuccinctJson, hencode]
  rfl

/-- The result of some batches is the same, whatever a result of none would be. -/
theorem resultOf_cons (empty : Except String (Option Table)) (batch : Batch)
    (batches : List Batch) : resultOf arrow db empty (batch :: batches) =
      (fun table => ⟨some table, db.elapsed, false, none⟩) <$> arrow.fromBatches (batch :: batches) := by
  unfold resultOf
  cases arrow.fromBatches (batch :: batches) <;> rfl

/-- An executed tree gives what its batches do; without a batch the columns may differ. -/
theorem sameResult_executeTree (harrow : arrow.EmptyTables)
    (hplan : db.physicalPlan query = .ok plan) :
    SameResult arrow (Prod.fst <$> executeTree arrow db (unfoldPlan plan))
      (executeSqlQueryDirectly arrow db query) := by
  rw [executeTree, executeSqlQueryDirectly, hplan, Except.ok_bind]
  cases hcollect : db.collect (unfoldPlan plan) with
  | error e => exact .inl rfl
  | ok batches =>
    cases batches with
    | cons batch batches =>
      left
      show Prod.fst <$> (resultOf arrow db _ (batch :: batches) >>= _) =
        resultOf arrow db _ (batch :: batches)
      rw [resultOf_cons, resultOf_cons]
      cases arrow.fromBatches (batch :: batches) <;> rfl
    | nil =>
      right
      obtain ⟨table, htable, hrows⟩ := harrow.noArrays
      refine ⟨⟨some table, db.elapsed, false, none⟩, ⟨(db.schema query >>=
        arrow.fromEmptyArrays).toOption, db.elapsed, false, none⟩, ?_, rfl, rfl, rfl, rfl, ?_⟩
      · show Prod.fst <$> (resultOf arrow db (some <$> arrow.fromNoArrays) [] >>= _) = _
        rw [htable]
        rfl
      · intro t ht
        rcases ht with ht | ht
        · injection ht with ht
          rw [← ht]
          exact hrows
        · cases hschema : db.schema query with
          | error e =>
            rw [hschema] at ht
            cases ht
          | ok fields =>
            rw [hschema, Except.ok_bind] at ht
            apply harrow.emptyArrays fields
            cases hmade : arrow.fromEmptyArrays fields with
            | error e =>
              rw [hmade] at ht
              cases ht
            | ok made =>
              rw [hmade] at ht
              injection ht with ht
              rw [ht]

end

end

/-! ## A cross join -/

mutual

/-- `serde_json::to_string`, where no string has to be escaped and no number has a fraction. -/
def compactText : Json → List Char
  | .null => "null".toList
  | .bool b => (toString b).toList
  | .int n => (toString n).toList
  | .float _ => "0.0".toList
  | .str s => '"' :: (s.toList ++ ['"'])
  | .arr xs => '[' :: (compactElements xs ++ [']'])
  | .obj kvs => '{' :: (compactMembers kvs ++ ['}'])
termination_by structural j => j

def compactElements : List Json → List Char
  | [] => []
  | [x] => compactText x
  | x :: y :: xs => compactText x ++ ',' :: compactElements (y :: xs)
termination_by structural xs => xs

def compactMembers : List (String × Json) → List Char
  | [] => []
  | [(k, v)] => '"' :: (k.toList ++ '"' :: ':' :: compactText v)
  | (k, v) :: kv :: kvs => '"' :: (k.toList ++ '"' :: ':' :: (compactText v ++
      ',' :: compactMembers (kv :: kvs)))
termination_by structural kvs => kvs

end

/-- Bare operators, and documents as texts. -/
def bareFormat : Format Engine.BareOp where
  codec := Engine.bareCodec
  compact := id
  keyOrder := id
  write summary := String.ofList (compactText summary)
  read text := JsonText.loads (fun _ => ⟨false, 0⟩) text.toList

/-- Batches and tables are their numbers of rows. -/
def rowCounts : Arrow Nat Nat where
  fromBatches batches := .ok batches.sum
  fromNoArrays := .ok 0
  fromEmptyArrays _ := .ok 0
  numRows := id
  toJson _ := .ok "null"
  schemaText _ := ""

/-- Every query is planned as the cross join, which has no rows. -/
def joinSession : Session Engine.BareOp Nat where
  logicalPlan _ := .ok ()
  physicalPlan _ := .ok Engine.selfJoin.tree
  schema _ := .ok []
  collect _ := .ok []
  displayWithMetrics _ := .ok ""
  elapsed := ⟨false, 1⟩
  executionTime := ⟨false, 1⟩

theorem bareFormat_reads : bareFormat.Reads Engine.selfJoin.tree where
  written summary hsummary := by
    have h : (Engine.executionPlanToSuccinctJson Engine.bareCodec id Engine.selfJoin.tree).toOption.all
        (fun j => bareFormat.read (bareFormat.write j) = some j) = true := by decide +kernel
    have hencode : Engine.executionPlanToSuccinctJson Engine.bareCodec id Engine.selfJoin.tree =
        .ok summary := hsummary
    rw [hencode] at h
    simpa [Except.toOption] using h
  empty := by decide +kernel

end DbPlanBench.Runner
