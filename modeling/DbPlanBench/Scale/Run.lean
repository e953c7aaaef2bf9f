import DbPlanBench.Optimize.Pipeline
import DbPlanBench.Transfer.Plan
import Mathlib.Data.Rat.Defs

/-!
# Scaling optimizations

`scale_optimizations` takes the patches found at one scale factor to another one. It
plans the queries at the target, transfers the base plan of each query and then each
of its patches, validates what it transferred, and returns as the new patch what
`jsonpatch.make_patch` finds between the two transferred structures. The queries run
in a thread pool; their results are collected by index as they complete and then put
together in order.

What a run does not decide is a parameter (`Oracles`): the answers of the planner and
of validation, which may be errors, `make_patch`, and the order in which the queries
complete. `engineOracles` has the planner and the validation of the model in them.

The quotients of the summary are exact here, and no files are written.
-/

namespace DbPlanBench.Scale

open Optimize (Env Kwargs PatchedPlan callKwargs checkWorkers kwarg without)

/-! ## The call -/

/-- What a run depends on and does not decide. A validation is that of a query's base, or of one of
its patches. -/
structure Oracles where
  getEnginePlans : List String → String → Int → Int → Kwargs →
    Except PyErr (List (Option Json × Option String))
  validatePlanResultSet : Nat → Option Nat → Json → Json → String → Kwargs →
    Except PyErr (Option String)
  makePatch : Json → Json → List Json
  excText : PyErr → String
  queryOrder : (n : Nat) → Equiv.Perm (Fin n)

/-- What a validation is submitted for. -/
def validationSite (i : Nat) : Option Nat → Optimize.Site
  | none => .userPlan i
  | some j => .basePlan i j

/-- The planner and the validation of an environment. -/
def engineOracles (env : Env) (makePatch : Json → Json → List Json) : Oracles where
  getEnginePlans queries dataset scaleFactor maxWorkers args :=
    (Optimize.getEnginePlans env queries.zipIdx dataset scaleFactor maxWorkers args).result
  validatePlanResultSet i j candidate baseline folder args :=
    (Optimize.validatePlanResultSet env (validationSite i j) candidate baseline folder args).result
  makePatch := makePatch
  excText := env.excText
  queryOrder := env.queryOrder

/-- The arguments of `scale_optimizations`. `runDirExists` is `none` without a `run_dir`. -/
structure Request where
  queries : List String
  plans : List PatchedPlan
  sourceScaleFactor : Int
  targetScaleFactor : Int
  dataset : String
  runDirExists : Option Bool
  skipValidation : Bool
  maxWorkers : Int
  modalResources : Kwargs
  validateKwargs : Kwargs

/-- A dict with the two keys of a plan. -/
def hasPlanKeys : Option Json → Bool
  | some (.obj plan) => "structure" ∈ OrdDict.keys plan ∧ "succinct_table_info" ∈ OrdDict.keys plan
  | _ => false

/-- The input validation. -/
def checkRequest (req : Request) : Except PyErr Unit :=
  if req.queries.length ≠ req.plans.length then
    .error (.valueError ("queries length (" ++ req.queries.length.repr ++
      ") must match plans length (" ++ req.plans.length.repr ++ ")"))
  else if req.queries = [] then .error (.valueError "queries must not be empty")
  else if req.sourceScaleFactor < 1 then .error (.valueError "source_scale_factor must be >= 1")
  else if req.targetScaleFactor < 1 then .error (.valueError "target_scale_factor must be >= 1")
  else if req.targetScaleFactor ≤ req.sourceScaleFactor then
    .error (.valueError "target_scale_factor must be > source_scale_factor")
  else
    match req.plans.zipIdx.find? fun p => ! hasPlanKeys p.1.basePlan with
    | some p => .error (.valueError ("plans[" ++ p.2.repr ++
        "].base_plan must be a dict with 'structure' and 'succinct_table_info' keys"))
    | none => .ok ()

/-- The resources that `validate_kwargs` does not set itself. -/
def addResources (modalResources validateKwargs : Kwargs) : Kwargs :=
  ["cpu", "memory", "timeout", "sandbox_timeout"].foldl (fun kwargs key =>
    match OrdDict.get? modalResources key with
    | some v => if key ∈ OrdDict.keys kwargs then kwargs else OrdDict.set kwargs key v
    | none => kwargs) validateKwargs

/-- `dict(kwargs.pop("runner_kwargs", {}) or {})`; callers pass a dictionary. -/
def runnerFields (kwargs : Kwargs) : Except PyErr Kwargs :=
  match kwarg kwargs "runner_kwargs" (.obj []) with
  | .obj fields => .ok fields
  | v => if v.truthy then .error .typeError else .ok []

/-- `validate_kwargs_local`, with the target scale factor for the runner. -/
def validateKwargsLocal (req : Request) : Except PyErr Kwargs := do
  let kwargs := addResources req.modalResources req.validateKwargs
  let fields ← runnerFields kwargs
  return OrdDict.set (without ["runner_kwargs"] kwargs) "runner_kwargs"
    (.obj (OrdDict.set fields "scale_factor" (.int req.targetScaleFactor)))

/-- The run directory is new. -/
def checkRunDir (req : Request) : Except PyErr Unit :=
  if req.runDirExists = some true then .error .fileExistsError else .ok ()

/-! ## Planning and validating -/

section

variable (o : Oracles) (req : Request) (validateKwargs : Kwargs)

/-- The arguments that the call of `get_engine_plans` gives itself. -/
def planningKwargs : Kwargs :=
  [("dataset", .str req.dataset), ("scale_factor", .int req.targetScaleFactor),
    ("max_workers", .int req.maxWorkers), ("verbose", .bool false)]

/-- The call of `get_engine_plans`. A plan that is `null` is `None`. -/
def planAtTarget : Except PyErr (List (Option Json × Option String)) := do
  let args ← callKwargs ["queries"] (planningKwargs req) validateKwargs
  let planned ← o.getEnginePlans req.queries req.dataset req.targetScaleFactor req.maxWorkers
    (without (OrdDict.keys (planningKwargs req)) args)
  return planned.map fun p => (p.1.bind Optimize.notNone, p.2)

/-- `sf2_plan` with another structure; it is a dict where a transfer to it has succeeded. -/
def withStructure (sf2Plan : Json) (structure_ : List (String × Json)) : Json :=
  match sf2Plan with
  | .obj fields => .obj (OrdDict.set fields "structure" (.obj structure_))
  | v => v

/-- `data_folder_for_dataset(dataset)`. -/
def dataFolder : String := "/tmp/data/data_" ++ req.dataset

/-- The validation of a transferred structure, if there is one. -/
def validateTransferred (i : Nat) (j : Option Nat) (sf2Plan : Json)
    (structure_ : List (String × Json)) : Except PyErr (Option String) :=
  if req.skipValidation then .ok none
  else do
    let args ← callKwargs ["candidate_plan_str", "baseline_plan_str", "data_folder"]
      [("n_retry", .int 5)] validateKwargs
    o.validatePlanResultSet i j (withStructure sf2Plan structure_) sf2Plan (dataFolder req) args

/-- `d[k]`. -/
def item (d : Json) (k : String) : Except PyErr Json :=
  match d with
  | .obj fields =>
    match OrdDict.get? fields k with
    | some v => .ok v
    | none => .error .keyError
  | _ => .error .typeError

/-- The call of `transfer_plan`. -/
def transferTo (sf1Base sf2Plan : Json) (patch : List Json) :
    Except PyErr (List (String × Json)) := do
  let sf1Structure ← item sf1Base "structure"
  let sf1Info ← item sf1Base "succinct_table_info"
  let sf2Structure ← item sf2Plan "structure"
  let sf2Info ← item sf2Plan "succinct_table_info"
  Transfer.transferPlan sf1Structure sf1Info sf2Structure sf2Info (.arr patch)

end

/-! ## One query -/

/-- The keys of `outcome_counts`. -/
inductive Outcome where
  | successfulTransfer
  | planningFailed
  | baseTransferFailed
  | baseValidationFailed
  | optimizationTransferFailed
  | optimizationValidationFailed
  | skippedNonePatch
deriving DecidableEq

def Outcome.label : Outcome → String
  | .successfulTransfer => "Successful Transfer"
  | .planningFailed => "Planning Failed"
  | .baseTransferFailed => "Base Transfer Failed"
  | .baseValidationFailed => "Base Validation Failed"
  | .optimizationTransferFailed => "Optimization Transfer Failed"
  | .optimizationValidationFailed => "Optimization Validation Failed"
  | .skippedNonePatch => "Skipped (None Patch)"

/-- In the order of the source. -/
def outcomes : List Outcome :=
  [.successfulTransfer, .planningFailed, .baseTransferFailed, .baseValidationFailed,
    .optimizationTransferFailed, .optimizationValidationFailed, .skippedNonePatch]

/-- An entry of `per_patch`. -/
structure PatchMetadata where
  status : String
  error : Option String

/-- `meta`. -/
structure QueryMetadata where
  queryStatus : String
  errorMessage : Option String
  perPatch : List PatchMetadata

/-- What `_process_query` returns. -/
structure QueryResult where
  queryIdx : Nat
  plan : PatchedPlan
  metadata : QueryMetadata
  failure : Option String
  patchOutcomes : List Outcome

/-- The lists that the loop over the patches builds. -/
structure PatchLists where
  transferredNormalized : List (Option (List Json))
  perPatch : List PatchMetadata
  patchOutcomes : List Outcome

/-- The three appends of a round. -/
def PatchLists.append (lists : PatchLists) (patch : Option (List Json)) (metadata : PatchMetadata)
    (outcome : Outcome) : PatchLists where
  transferredNormalized := lists.transferredNormalized ++ [patch]
  perPatch := lists.perPatch ++ [metadata]
  patchOutcomes := lists.patchOutcomes ++ [outcome]

/-- `l[i]`. -/
def nth {α : Type} (l : List α) (i : Nat) : Except PyErr α :=
  match l[i]? with
  | some a => .ok a
  | none => .error .indexError

/-- `s or default`. -/
def orDefault (s : Option String) (default : String) : String :=
  match s with
  | some s => if s = "" then default else s
  | none => default

/-- A query none of whose patches is looked at. -/
def failAll (queryIdx : Nat) (plan : PatchedPlan) (queryStatus patchStatus : String)
    (outcome : Outcome) (errMsg : String) : QueryResult where
  queryIdx := queryIdx
  plan := ⟨plan.basePlan, [none]⟩
  metadata := ⟨queryStatus, some errMsg, plan.patch.map fun _ => ⟨patchStatus, some errMsg⟩⟩
  failure := some errMsg
  patchOutcomes := List.replicate plan.patch.length outcome

section

variable (o : Oracles) (req : Request) (validateKwargs : Kwargs)

/-- A round of the loop over the patches. -/
def transferPatch (queryIdx : Nat) (sf1Base sf2Plan : Json)
    (transferredBaseStructure : List (String × Json)) (lists : PatchLists)
    (p : Option (List Json) × Nat) : Except PyErr PatchLists :=
  match p.1 with
  | none => return lists.append none ⟨"skipped_none", none⟩ .skippedNonePatch
  | some patchOps =>
    match transferTo sf1Base sf2Plan patchOps with
    | .error exc =>
      return lists.append none ⟨"transfer_failed", some (o.excText exc)⟩ .optimizationTransferFailed
    | .ok transferredOptStructure => do
      let transferredPatchOps :=
        o.makePatch (.obj transferredBaseStructure) (.obj transferredOptStructure)
      match ← validateTransferred o req validateKwargs queryIdx (some p.2) sf2Plan
        transferredOptStructure with
      | some err =>
        return lists.append none ⟨"validation_failed", some err⟩ .optimizationValidationFailed
      | none =>
        return lists.append (some transferredPatchOps) ⟨"transferred", none⟩ .successfulTransfer

/-- `_process_query` after its base has been accepted. -/
def transferPatches (queryIdx : Nat) (plan : PatchedPlan) (sf1Base sf2Plan : Json)
    (transferredBaseStructure : List (String × Json)) : Except PyErr QueryResult := do
  let lists ← plan.patch.zipIdx.foldlM (transferPatch o req validateKwargs queryIdx sf1Base sf2Plan
    transferredBaseStructure) ⟨[], [], []⟩
  return {
    queryIdx
    plan := ⟨some (withStructure sf2Plan transferredBaseStructure), lists.transferredNormalized⟩
    metadata := ⟨"ok", none, lists.perPatch⟩
    failure := lists.perPatch.findSome? (·.error)
    patchOutcomes := lists.patchOutcomes }

/-- `_process_query`. -/
def processQuery (planned : List (Option Json × Option String)) (queryIdx : Nat) :
    Except PyErr QueryResult := do
  let plan ← nth req.plans queryIdx
  let sf2 ← nth planned queryIdx
  match sf2.1 with
  | none =>
    return failAll queryIdx plan "sf2_planning_failed" "planning_failed" .planningFailed
      (orDefault sf2.2 "SF2 planning failed")
  | some sf2Plan =>
    let sf1Base := plan.basePlan.getD .null
    match transferTo sf1Base sf2Plan [] with
    | .error exc =>
      return failAll queryIdx plan "base_transfer_failed" "base_transfer_failed" .baseTransferFailed
        ("Base transfer failed: " ++ o.excText exc)
    | .ok transferredBaseStructure => do
      match ← validateTransferred o req validateKwargs queryIdx none sf2Plan
        transferredBaseStructure with
      | some baseValErr =>
        return failAll queryIdx plan "base_validation_failed" "base_validation_failed"
          .baseValidationFailed ("Base validation failed: " ++ baseValErr)
      | none =>
        transferPatches o req validateKwargs queryIdx plan sf1Base sf2Plan transferredBaseStructure

/-! ## All queries -/

/-- The queries in the order they complete. -/
def completed (o : Oracles) (n : Nat) : List Nat := List.ofFn fun k => (o.queryOrder n k).val

/-- `query_results`. -/
def queryResults (planned : List (Option Json × Option String)) :
    Except PyErr (List (Nat × QueryResult)) :=
  (completed o req.queries.length).foldlM (fun results i => do
    let r ← processQuery o req validateKwargs planned i
    return OrdDict.set results i r) []

end

/-- `outcome_counts`. -/
abbrev OutcomeCounts := Outcome → Nat

/-- `outcome_counts[outcome] += 1`. -/
def OutcomeCounts.bump (counts : OutcomeCounts) (c : Outcome) : OutcomeCounts :=
  fun d => if d = c then counts d + 1 else counts d

/-- What the assembly builds. -/
structure Assembled where
  scaledPlans : List PatchedPlan
  metadata : List QueryMetadata
  transferFailures : List (Option String)
  outcomeCounts : OutcomeCounts
  totalPatches : Nat

/-- A round of the assembly. -/
def addQuery (results : List (Nat × QueryResult)) (acc : Assembled) (i : Nat) :
    Except PyErr Assembled :=
  match OrdDict.get? results i with
  | none => .error .keyError
  | some r => .ok {
      scaledPlans := acc.scaledPlans ++ [r.plan]
      metadata := acc.metadata ++ [r.metadata]
      transferFailures := acc.transferFailures.set i r.failure
      outcomeCounts := r.patchOutcomes.foldl OutcomeCounts.bump acc.outcomeCounts
      totalPatches := acc.totalPatches + r.patchOutcomes.length }

/-- The assembly, in the order of the queries. -/
def assemble (results : List (Nat × QueryResult)) (n : Nat) : Except PyErr Assembled :=
  (List.range n).foldlM (addQuery results) ⟨[], [], List.replicate n none, fun _ => 0, 0⟩

/-- The `summary`. -/
structure Summary where
  sourceScaleFactor : Int
  targetScaleFactor : Int
  dataset : String
  skipValidation : Bool
  outcomeRates : List (String × ℚ)

/-- `ScaleResult`. -/
structure ScaleResult where
  summary : Summary
  queries : List String
  scaledPlans : List PatchedPlan
  metadata : List QueryMetadata
  transferFailures : List (Option String)

/-- A rate of the summary. -/
def outcomeRate (counts : OutcomeCounts) (totalPatches : Nat) (c : Outcome) : ℚ :=
  if totalPatches = 0 then 0 else counts c / totalPatches

/-- The returned result. -/
def scaleResult (req : Request) (a : Assembled) : ScaleResult where
  summary := {
    sourceScaleFactor := req.sourceScaleFactor
    targetScaleFactor := req.targetScaleFactor
    dataset := req.dataset
    skipValidation := req.skipValidation
    outcomeRates := outcomes.map fun c => (c.label, outcomeRate a.outcomeCounts a.totalPatches c) }
  queries := req.queries
  scaledPlans := a.scaledPlans
  metadata := a.metadata
  transferFailures := a.transferFailures

/-- `scale_optimizations`. -/
def scaleOptimizations (o : Oracles) (req : Request) : Except PyErr ScaleResult := do
  checkRequest req
  let validateKwargs ← validateKwargsLocal req
  checkRunDir req
  let planned ← planAtTarget o req validateKwargs
  checkWorkers req.maxWorkers
  let results ← queryResults o req validateKwargs planned
  let assembled ← assemble results req.queries.length
  return scaleResult req assembled

end DbPlanBench.Scale
