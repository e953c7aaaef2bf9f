import DbPlanBench.Optimize.Pipeline

/-!
# Calls on any run directory

`optimize_queries` is called with queries, or with the directory of an earlier run
and no queries. What it finds in its directory decides what it leaves out: a prepared
dataset stands for the first three phases, a curated one for the benchmark, and the
files of the steps for their samples. A call without `run_dir` may find files too, as
its directory is named by the minute.

The files are those that runs write, and are taken as parsed. What happens to the
samples after the last step is left out.
-/

namespace DbPlanBench.Optimize

open Sampling (Fault)

/-- `result.json`: the queries, and the configuration under `summary` and `run`. -/
structure StoredResult where
  queries : List String
  run : Kwargs

/-- The files of a run directory. -/
structure RunDir where
  result : Option StoredResult
  curated : Option (List Sampling.CuratedEntry)
  base : Option (List Sampling.QueryData)
  final : Option (List Sampling.QueryData)
  sampled : List (Nat × List Sampling.SampledQuery)
  evaluated : List (Nat × List Sampling.SampledQuery)

def RunDir.empty : RunDir := ⟨none, none, none, none, [], []⟩

/-- The arguments of `optimize_queries`. Where `queries` is `None` those of the request are not
read. -/
structure Call where
  req : Request
  hasQueries : Bool
  maxSamplingWorkers : Int

/-! ## The checks -/

/-- The checks of the plain parameters. -/
def checkCall (call : Call) : Except PyErr (PLift (0 < call.req.nSamplesPerStep.toNat)) :=
  if call.hasQueries then checkParameters call.req
  else do
    let pos ← checkParameters { call.req with basePlans := none }
    if call.req.basePlans.isSome then
      .error (.valueError "base_plans requires queries to be provided")
    else .ok pos

/-- The run directory of a new run is new, that of a resumed run is there. -/
def checkCallDir (call : Call) : Except PyErr Unit :=
  if call.hasQueries then checkRunDir call.req
  else
    match call.req.runDirExists with
    | none => .error (.valueError "queries and run_dir cannot both be None")
    | some there =>
      if ¬ call.req.resume then .error (.valueError "queries missing: resume must be True")
      else if ¬ there then .error (.valueError "run_dir does not exist for resume=True")
      else .ok ()

/-- The checks before the run directory is read. -/
def prepareCall (env : Env) (call : Call) : Except PyErr (Prepared call.req) := do
  let pos ← checkCall call
  match call.req.scaleFactor with
  | none => .error (.valueError "scale_factor cannot be None")
  | some scaleFactor => do
    let kwargs ← prepareKwargs env call.req scaleFactor
    checkCallDir call
    return ⟨pos.down, scaleFactor, kwargs.1, kwargs.2⟩

/-- `existing_result`. -/
def existingResult (call : Call) (dir : RunDir) : Option StoredResult :=
  if call.req.resume then dir.result else none

/-- `queries_list`. -/
def queriesList (call : Call) (dir : RunDir) : Except PyErr (List String) :=
  if call.hasQueries then .ok call.req.queries
  else
    match (existingResult call dir).filter (·.queries ≠ []) with
    | some r => .ok r.queries
    | none => .error (.valueError "queries missing and no existing result.json to resume from")

/-- The names of the strategies. -/
def strategyName : Sampling.Strategy → String
  | .bolEvol => "bol_evol"
  | .pstEvol => "pst_evol"
  | .bestOf => "best_of"

/-- `config_current`. -/
def configCurrent (call : Call) (scaleFactor : Int) : Kwargs :=
  [("strategy", .str (strategyName call.req.strategy)), ("n_steps", .int call.req.nSteps),
    ("n_samples_per_step", .int call.req.nSamplesPerStep),
    ("top_k_patches", .int call.req.topKPatches), ("model", .str call.req.model),
    ("optimization_metric", .str call.req.optimizationMetric), ("n_runs", .int call.req.nRuns),
    ("max_sampling_workers", .int call.maxSamplingWorkers),
    ("max_workers", .int call.req.maxWorkers), ("dataset", .str call.req.dataset),
    ("scale_factor", .int scaleFactor)]

/-- `allowed_diff`. -/
def allowedDiff (call : Call) : List String :=
  if call.req.strategy = .bestOf then ["n_steps", "top_k_patches", "n_samples_per_step"]
  else ["n_steps", "top_k_patches"]

/-- A resumed run has the configuration of the run before it. -/
def checkConfig (call : Call) (dir : RunDir) (scaleFactor : Int) : Except PyErr Unit :=
  match existingResult call dir with
  | none => .ok ()
  | some r =>
    match (configCurrent call scaleFactor).find? fun p => p.1 ∉ allowedDiff call ∧
        (OrdDict.get? r.run p.1).any fun v => ! v.pyEq p.2 with
    | some p =>
      .error (.valueError ("Config mismatch for optimize_queries and resume=True: " ++ p.1))
    | none => .ok ()

/-- The queries of a call that may go on. -/
def loadQueries (call : Call) (dir : RunDir) (scaleFactor : Int) : Except PyErr (List String) := do
  let queries ← queriesList call dir
  checkConfig call dir scaleFactor
  return queries

/-! ## The phases -/

/-- `base_sampling_data`. -/
def baseSamplingData (call : Call) (dir : RunDir) : Option (List Sampling.QueryData) :=
  if call.req.resume then dir.base else none

/-- A curated dataset is reused for the queries that it was made for. -/
def curatedFor (queries : List String) (curated : List Sampling.CuratedEntry) : Bool :=
  let byId := curated.foldl (fun d e => OrdDict.set d e.id e) []
  byId.length = queries.length ∧
    queries.zipIdx.all fun p => (OrdDict.get? byId p.2).any fun e => e.query = p.1

/-- `curated_data`, where there is no prepared dataset. -/
def curatedData (call : Call) (queries : List String) (dir : RunDir) :
    Option (List Sampling.CuratedEntry) :=
  if call.req.resume then dir.curated.filter (curatedFor queries) else none

section

variable (env : Env) (call : Call) (dir : RunDir) (prepared : Prepared call.req)
  (queries : List String)

/-- The first phase: queries are validated and planned. -/
def planningPhase : Submits (List (Option Json) × List (Option String)) :=
  validateAndPlanQueries env queries call.req.dataset prepared.scaleFactor call.req.maxWorkers
    prepared.validateKwargs call.req.skipValidation
    ((baseSamplingData call dir).map fun base => base.map (·.query))

/-- The second: base plans of the user take the place of those of the engine. -/
def userPlanPhase (planned : List (Option Json) × List (Option String)) : Submits Integrated :=
  integrateUserBasePlans env call.req.basePlans planned.1 call.req.dataset prepared.validateKwargs
    call.req.maxWorkers call.req.skipValidation

/-- The third: base plans are benchmarked, and the dataset for sampling is prepared. -/
def basePhase (plans : List (Option Json)) :
    Submits (List (Option Json) ⊕ List Sampling.QueryData) :=
  match baseSamplingData call dir with
  | some base => return .inr base
  | none =>
    match curatedData call queries dir with
    | some curated => return .inr (curated.map (Sampling.prepareEntry call.req.model))
    | none => do
      let curated ← evaluateAndCurateBasePlans env queries plans call.req.dataset
        prepared.scaleFactor call.req.nRuns call.req.maxWorkers prepared.evaluationKwargs
      return curated.map id (·.map (Sampling.prepareEntry call.req.model))

/-- A step of the run is evaluated. -/
def evaluatesStep (run : Sampling.Run) : Bool :=
  run.writes.any fun x =>
    match x.1 with
    | .evaluated _ => true
    | _ => false

/-- The last: `run_sampling_steps` goes on from the files of the steps. With arguments that
`evaluate_sampled_plans` refuses it gets to the first evaluation. -/
def samplingPhase (base : List Sampling.QueryData) :
    Logged Submission Fault Sampling.SamplingDir :=
  let files : Sampling.SamplingDir := ⟨base, dir.final, dir.sampled, dir.evaluated⟩
  match evaluationCall call.req.dataset call.req.nRuns call.req.maxWorkers
      prepared.evaluationKwargs with
  | .ok c =>
    let run := Sampling.runSamplingSteps (samplingParams env call.req prepared c) files
    ⟨c.runLog env run, run.result⟩
  | .error e =>
    let c : EvaluationCall := ⟨call.req.dataset, call.req.nRuns, .bool false, .null, []⟩
    let run := Sampling.runSamplingSteps (samplingParams env call.req prepared c) files
    ⟨[], if evaluatesStep run then .error (.raised e) else run.result⟩

/-- The phases of a call. -/
def callPhases : Logged Submission Fault Outcome := do
  let planned ← Logged.mapError .raised (planningPhase env call dir prepared queries)
  if planned.2.any (·.isSome) then
    return .earlyExit (planned.2.map (·.map Json.str))
  else do
    let integrated ← Logged.mapError .raised (userPlanPhase env call prepared planned)
    match integrated.userPlanFailures with
    | some failures => return .earlyExit (failures.map (·.map Json.str))
    | none => do
      let base ← Logged.mapError .raised (basePhase env call dir prepared queries integrated.plans)
      match base with
      | .inl failures => return .earlyExit failures
      | .inr base => do
        let dir ← samplingPhase env call dir prepared base
        return .optimized dir

end

/-- `optimize_queries` on a run directory. -/
def optimizeCall (env : Env) (call : Call) (dir : RunDir) : Logged Submission Fault Outcome := do
  let prepared ← Logged.lift ((prepareCall env call).mapError .raised)
  let queries ← Logged.lift ((loadQueries call dir prepared.scaleFactor).mapError .raised)
  callPhases env call dir prepared queries

/-! ## A new run -/

section

variable (env : Env) (req : Request) (maxSamplingWorkers : Int)

/-- The call of a new run. -/
def newCall : Call := ⟨req, true, maxSamplingWorkers⟩

end

end DbPlanBench.Optimize
