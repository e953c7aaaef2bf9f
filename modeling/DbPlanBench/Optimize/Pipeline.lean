import DbPlanBench.Optimize.Validate

/-!
# Optimizing queries

`optimize_queries` on a new run: the arguments are checked and the scale factor is
attached to the runner arguments of both kinds of keyword arguments; then queries
are validated, base plans of the user are validated, all base plans are
benchmarked, and the sampling loop has every candidate validated and evaluated.

The keyword arguments of sampling go to the language model only and are left out; so
is what happens to the samples after the last step. Calls that find files of earlier
runs are in `Resumed`.

* `benchmarkPlans_keeps` — the scale factor of a benchmark's operations.
-/

namespace DbPlanBench.Optimize

open Sampling (Fault)

/-! ## Benchmarking -/

/-- `kwargs["sandbox_placeholders"]["FULL_METRICS"] = True`, the dictionary being made if need be. -/
def setFullMetrics (kwargs : Kwargs) : Except PyErr Kwargs :=
  match kwarg kwargs "sandbox_placeholders" (.obj []) with
  | .obj fields =>
    .ok (OrdDict.set kwargs "sandbox_placeholders"
      (.obj (OrdDict.set fields "FULL_METRICS" (.bool true))))
  | _ => .error .typeError

/-- `PatchedPlan`. -/
structure PatchedPlan where
  basePlan : Option Json
  patch : List (Option (List Json))
deriving DecidableEq

/-- The plan of a patch, or the measurement that says why there is none. -/
def patchedPlan (env : Env) (basePlan : Option Json) (patchOps : Option (List Json)) :
    Except Kwargs Json :=
  match basePlan, patchOps with
  | none, _ => .error [("error", .str "base_plan is None")]
  | some _, none => .error [("error", .str "patch_missing"), ("skipped", .bool true)]
  | some plan, some [] => .ok plan
  | some plan, some ops =>
    match Sampling.applyPatchesToPlan env.patch plan ops with
    | .ok patched => .ok patched
    | .error text => .error [("error", .str text)]

/-- The `worker` of `benchmark_plans`. -/
def benchmarkOne (env : Env) (site : Site) (basePlan : Option Json) (patchOps : Option (List Json))
    (dataFolder : String) (nRuns : Int) (maxEvalWorkers : Json) (kwargs : Kwargs) :
    Submits Kwargs :=
  match patchedPlan env basePlan patchOps with
  | .error measurement => return measurement
  | .ok plan => do
    let outcome ← Logged.attempt (do
      let args ← Logged.lift (callKwargs ["operation", "plan_json", "data_folder", "n_runs"]
        [("max_eval_workers", maxEvalWorkers)] kwargs)
      evaluatePlanNRuns env site plan dataFolder nRuns args)
    match outcome with
    | .ok measurement => return measurement
    | .error exc => return [("error", .str (env.excText exc))]

/-- `benchmark_plans`. -/
def benchmarkPlans (env : Env) (plans : List PatchedPlan) (dataset : String) (scaleFactor nRuns
    maxWorkers : Int) (args : Kwargs) : Submits (List (List Kwargs)) := do
  let execLocal := kwarg args "exec_local" (.bool false)
  let maxEvalWorkers := kwarg args "max_eval_workers" (.int 8)
  let fullMetrics := kwarg args "get_full_metrics" (.bool false)
  let kwargs := without ["output_file", "max_eval_workers", "get_full_metrics", "exec_local"] args
  if maxWorkers < 1 then
    Logged.lift (.error (.valueError "max_workers must be >= 1"))
  else if nRuns < 1 then
    Logged.lift (.error (.valueError "n_runs must be >= 1"))
  else do
    let runnerKwargs ← Logged.lift (copyRunnerKwargs kwargs)
    let runnerKwargs ← Logged.lift (withScale "runner_kwargs['scale_factor']" (.int scaleFactor)
      runnerKwargs)
    let kwargs := OrdDict.set kwargs "runner_kwargs" (.obj runnerKwargs)
    -- `_set_full_metrics` is called with the `runner_kwargs` that hold the scale factor
    let kwargs ← Logged.lift (if fullMetrics.truthy then setFullMetrics kwargs else .ok kwargs)
    Logged.lift (if execLocal.truthy then ensureLocalData env dataset scaleFactor else .ok ())
    let dataFolder := dataFolderForDataset env dataset execLocal.truthy (.int scaleFactor)
    let kwargs := OrdDict.set kwargs "exec_local" execLocal
    Logged.forEach (fun p => Logged.forEach (fun ops =>
      benchmarkOne env (.basePlan p.2 ops.2) p.1.basePlan ops.1 dataFolder nRuns maxEvalWorkers
        kwargs) p.1.patch.zipIdx) plans.zipIdx

/-- The failure of a base plan's evaluation. -/
def evaluationFailure (results : List Kwargs) : Option Json :=
  let result := results.head?.getD []
  if result = [] then some (.str "evaluation_failed") else resultError result

/-- An entry of the curated dataset. -/
def curatedEntry (id : Nat) (query : String) (plan : Option Json) (results : List Kwargs) :
    Sampling.CuratedEntry where
  id := id
  query := query
  plan := plan.getD .null
  complexity := .int 0
  rowCount := .int 0
  evaluationStats := .obj (results.head?.getD [])

/-- `_evaluate_and_curate_base_plans`: the failures, or the curated dataset. -/
def evaluateAndCurateBasePlans (env : Env) (queries : List String) (enginePlans : List (Option Json))
    (dataset : String) (scaleFactor nRuns maxWorkers : Int) (evaluationKwargs : Kwargs) :
    Submits (List (Option Json) ⊕ List Sampling.CuratedEntry) := do
  let explicit := [("dataset", Json.str dataset), ("scale_factor", .int scaleFactor),
    ("n_runs", .int nRuns), ("max_workers", .int maxWorkers), ("verbose", .bool false)]
  let args ← Logged.lift (callKwargs ["plans"] explicit evaluationKwargs)
  let results ← benchmarkPlans env (enginePlans.map fun plan => ⟨plan, [some []]⟩) dataset
    scaleFactor nRuns maxWorkers (without (OrdDict.keys explicit) args)
  let failures := results.map evaluationFailure
  if failures.any (·.isSome) then return .inl failures
  else
    return .inr (((queries.zip (enginePlans.zip results)).zipIdx).map fun p =>
      curatedEntry p.2 p.1.1 p.1.2.1 p.1.2.2)

/-! ## Sampling -/

/-- The validation half of `validate_evaluate_plan_wrapper`. -/
def validateSample (env : Env) (site : Site) (plan originalPlan : Json) (dataFolder : String)
    (execLocal : Json) (kwargs : Kwargs) : Submits (Option String) := do
  let args ← Logged.lift (callKwargs ["candidate_plan_str", "baseline_plan_str", "data_folder"]
    [("n_retry", .int 5), ("verbose", .bool false), ("exec_local", execLocal)] kwargs)
  validatePlanResultSet env site plan originalPlan dataFolder args

/-- Its evaluation half. -/
def evaluateSample (env : Env) (site : Site) (plan : Json) (dataFolder : String) (nRuns : Int)
    (execLocal : Json) (kwargs : Kwargs) : Submits Kwargs := do
  let args ← Logged.lift (callKwargs ["operation", "plan_json", "data_folder", "n_runs"]
    [("verbose", .bool false), ("exec_local", execLocal)] kwargs)
  evaluatePlanNRuns env site plan dataFolder nRuns args

/-- What `evaluate_sampled_plans` is called with, apart from its files. -/
structure EvaluationCall where
  dataset : String
  nRuns : Int
  execLocal : Json
  scaleFactor : Json
  kwargs : Kwargs

def EvaluationCall.dataFolder (env : Env) (c : EvaluationCall) : String :=
  dataFolderForDataset env c.dataset c.execLocal.truthy c.scaleFactor

/-- The call in `_run_step`. -/
def evaluationCall (dataset : String) (nRuns maxWorkers : Int) (evaluationKwargs : Kwargs) :
    Except PyErr EvaluationCall := do
  let explicit := [("input_file", Json.null), ("output_file", .null), ("dataset", .str dataset),
    ("n_runs", .int nRuns), ("max_workers", .int maxWorkers), ("verbose", .bool false)]
  let args ← callKwargs [] explicit (without ["n_runs"] evaluationKwargs)
  let kwargs := without ("exec_local" :: OrdDict.keys explicit) args
  let scaleFactor ← runnerScale kwargs
  return ⟨dataset, nRuns, kwarg args "exec_local" (.bool false), scaleFactor, kwargs⟩

/-- The engine that the sampling loop sees in a step. -/
def EvaluationCall.engine (env : Env) (c : EvaluationCall) (step : Nat) : Sampling.Engine where
  validate := fun pos plan originalPlan =>
    (validateSample env (.sample step pos.1 pos.2) plan originalPlan (c.dataFolder env) c.execLocal
      c.kwargs).result.mapError env.excText
  evaluate := fun pos plan =>
    match (evaluateSample env (.sample step pos.1 pos.2) plan (c.dataFolder env) c.nRuns c.execLocal
      c.kwargs).result with
    | .error exc => .error (env.excText exc)
    | .ok stats =>
      match resultError stats with
      | some err => .error (env.str err)
      | none => .ok (.obj stats)

/-- The plan of a sample that is submitted. -/
def submittedPlan (patch : Sampling.JsonPatch) (originalPlan : Json) (s : Sampling.SampledPlan) :
    Option Json :=
  if s.isValid = false then none
  else match s.sampledPatches with
    | none => none
    | some [] => none
    | some patches =>
      (Sampling.applyPatchesToPlan patch originalPlan (s.upstreamPatches ++ patches)).toOption

/-- What is submitted for a sample. -/
def EvaluationCall.sampleLog (env : Env) (c : EvaluationCall) (step : Nat) (originalPlan : Json)
    (pos : Nat × Nat) (s : Sampling.SampledPlan) : List Submission :=
  match submittedPlan env.patch originalPlan s with
  | none => []
  | some plan =>
    let validation := validateSample env (.sample step pos.1 pos.2) plan originalPlan
      (c.dataFolder env) c.execLocal c.kwargs
    match validation.result with
    | .ok none => validation.log ++ (evaluateSample env (.sample step pos.1 pos.2) plan
        (c.dataFolder env) c.nRuns c.execLocal c.kwargs).log
    | _ => validation.log

/-- What is submitted for a step's samples. -/
def EvaluationCall.stepLog (env : Env) (c : EvaluationCall) (step : Nat)
    (sampled : List Sampling.SampledQuery) : List Submission :=
  sampled.zipIdx.flatMap fun q => q.1.sampledPlans.zipIdx.flatMap fun s =>
    c.sampleLog env step q.1.plan (q.2, s.2) s.1

/-- What is submitted in a run of the sampling loop: the samples of each step that is evaluated. -/
def EvaluationCall.runLog (env : Env) (c : EvaluationCall) (run : Sampling.Run) : List Submission :=
  run.writes.flatMap fun x =>
    match x.1 with
    | .evaluated k => c.stepLog env k ((OrdDict.get? x.2.sampled k).getD [])
    | _ => []

/-! ## A new run -/

/-- The arguments of `optimize_queries` on a new run. `runDirExists` is `none` without a `run_dir`. -/
structure Request where
  queries : List String
  basePlans : Option (List (Option Json))
  runDirExists : Option Bool
  dataset : String
  scaleFactor : Option Int
  strategy : Sampling.Strategy
  nSteps : Int
  nSamplesPerStep : Int
  topKPatches : Int
  nRuns : Int
  model : String
  optimizationMetric : String
  maxWorkers : Int
  maxEvalWorkers : Int
  resume : Bool
  skipValidation : Bool
  validateKwargs : Kwargs
  evaluationKwargs : Kwargs
  getFullMetrics : Bool
  execLocal : Bool

/-- `_attach_runner_scale`. -/
def attachRunnerScale (scaleFactor : Int) (kwargsName : String) (kwargs : Kwargs) :
    Except PyErr Kwargs := do
  let fields ← runnerDict (kwargsName ++ "['runner_kwargs'] must be a dict") kwargs
  let fields ← withScale (kwargsName ++ "['runner_kwargs']['scale_factor']") (.int scaleFactor) fields
  return OrdDict.set (without ["runner_kwargs"] kwargs) "runner_kwargs" (.obj fields)

/-- `kwargs.pop("scale_factor", None)`, which may not be another one. -/
def popScale (scaleFactor : Int) (kwargsName : String) (kwargs : Kwargs) : Except PyErr Kwargs :=
  match kwarg kwargs "scale_factor" .null with
  | .null => .ok (without ["scale_factor"] kwargs)
  | v =>
    if v.pyEq (.int scaleFactor) then .ok (without ["scale_factor"] kwargs)
    else .error (.valueError (scaleConflict (kwargsName ++ "['scale_factor']")))

/-- Local copies of the keyword arguments, with `exec_local`. -/
def localKwargs (dropped : List String) (execLocal : Bool) (kwargs : Kwargs) : Kwargs :=
  if execLocal then OrdDict.set (without dropped kwargs) "exec_local" (.bool true)
  else without dropped kwargs

/-- What the first checks of `optimize_queries` leave. -/
structure Prepared (req : Request) where
  samplesPos : 0 < req.nSamplesPerStep.toNat
  scaleFactor : Int
  validateKwargs : Kwargs
  evaluationKwargs : Kwargs

/-- The checks of the plain parameters. -/
def checkParameters (req : Request) : Except PyErr (PLift (0 < req.nSamplesPerStep.toNat)) :=
  if req.nSteps < 0 then .error (.valueError "n_steps must be >= 0")
  else if hsamples : req.nSamplesPerStep < 1 then
    .error (.valueError "n_samples_per_step must be >= 1")
  else if req.topKPatches < 1 then .error (.valueError "top_k_patches must be >= 1")
  else if req.strategy = .bestOf ∧ 1 < req.nSteps then
    .error (.valueError "best_of only supports n_steps <= 1")
  else
    match req.basePlans.filter (·.length ≠ req.queries.length) with
    | some plans => .error (.valueError ("base_plans length (" ++ plans.length.repr ++
        ") must match queries length (" ++ req.queries.length.repr ++ ")"))
    | none => .ok ⟨by omega⟩

/-- The keyword arguments of validation and of evaluation. -/
def prepareKwargs (env : Env) (req : Request) (scaleFactor : Int) :
    Except PyErr (Kwargs × Kwargs) := do
  (if req.execLocal then ensureLocalData env req.dataset scaleFactor else .ok ())
  let validateKwargs ← popScale scaleFactor "validate_kwargs"
    (localKwargs ["dataset"] req.execLocal req.validateKwargs)
  let evaluationKwargs ← popScale scaleFactor "evaluation_kwargs"
    (localKwargs ["dataset", "n_runs"] req.execLocal req.evaluationKwargs)
  let validateKwargs ← attachRunnerScale scaleFactor "validate_kwargs" validateKwargs
  let evaluationKwargs ← attachRunnerScale scaleFactor "evaluation_kwargs" evaluationKwargs
  let evaluationKwargs ← (if req.getFullMetrics then setFullMetrics evaluationKwargs
    else .ok evaluationKwargs)
  return (validateKwargs, OrdDict.set evaluationKwargs "max_eval_workers" (.int req.maxEvalWorkers))

/-- The run directory of a new run is new. -/
def checkRunDir (req : Request) : Except PyErr Unit :=
  match req.runDirExists with
  | none => .ok ()
  | some there =>
    if req.resume then .error (.valueError "queries + run_dir requires resume=False")
    else if there then .error .fileExistsError
    else .ok ()

/-- The checks before anything is submitted. -/
def prepare (env : Env) (req : Request) : Except PyErr (Prepared req) := do
  let pos ← checkParameters req
  match req.scaleFactor with
  | none => .error (.valueError "scale_factor cannot be None")
  | some scaleFactor => do
    let kwargs ← prepareKwargs env req scaleFactor
    checkRunDir req
    return ⟨pos.down, scaleFactor, kwargs.1, kwargs.2⟩

/-- How a run ends: with failures, or with the sampling directory. -/
inductive Outcome where
  | earlyExit (failures : List (Option Json))
  | optimized (dir : Sampling.SamplingDir)

/-- The call of `run_sampling_steps`. -/
def samplingParams (env : Env) (req : Request) (prepared : Prepared req) (c : EvaluationCall) :
    Sampling.Params where
  strategy := req.strategy
  nSteps := req.nSteps
  nSamplesPerStep := req.nSamplesPerStep.toNat
  samplesPos := prepared.samplesPos
  optimizationMetric := req.optimizationMetric
  model := req.model
  resume := req.resume
  patch := env.patch
  llm := env.llm
  engine := c.engine env

/-- `_run_optimization_sampling` on a new run. Without steps nothing is evaluated. -/
def runOptimizationSampling (env : Env) (req : Request) (prepared : Prepared req)
    (curated : List Sampling.CuratedEntry) : Logged Submission Fault Sampling.SamplingDir :=
  let dir := Sampling.newDir (curated.map (Sampling.prepareEntry req.model))
  if req.nSteps ≤ 0 then
    return { dir with final := some dir.base }
  else do
    let c ← Logged.lift ((evaluationCall req.dataset req.nRuns req.maxWorkers
      prepared.evaluationKwargs).mapError .raised)
    let run := Sampling.runSamplingSteps (samplingParams env req prepared c) dir
    ⟨c.runLog env run, run.result⟩

/-- The phases of `optimize_queries`. -/
def optimizePrepared (env : Env) (req : Request) (prepared : Prepared req) :
    Logged Submission Fault Outcome := do
  let planned ← Logged.mapError .raised (validateAndPlanQueries env req.queries req.dataset
    prepared.scaleFactor req.maxWorkers prepared.validateKwargs req.skipValidation none)
  if planned.2.any (·.isSome) then
    return .earlyExit (planned.2.map (·.map Json.str))
  else do
    let integrated ← Logged.mapError .raised (integrateUserBasePlans env req.basePlans planned.1
      req.dataset prepared.validateKwargs req.maxWorkers req.skipValidation)
    match integrated.userPlanFailures with
    | some failures => return .earlyExit (failures.map (·.map Json.str))
    | none => do
      let curated ← Logged.mapError .raised (evaluateAndCurateBasePlans env req.queries
        integrated.plans req.dataset prepared.scaleFactor req.nRuns req.maxWorkers
        prepared.evaluationKwargs)
      match curated with
      | .inl failures => return .earlyExit failures
      | .inr entries => do
        let dir ← runOptimizationSampling env req prepared entries
        return .optimized dir

/-- `optimize_queries` on a new run. -/
def optimizeQueries (env : Env) (req : Request) : Logged Submission Fault Outcome := do
  let prepared ← Logged.lift ((prepare env req).mapError .raised)
  optimizePrepared env req prepared

/-! ## The arguments of submissions -/

theorem kwarg_set_ne {name name' : String} (h : name' ≠ name) (args : Kwargs) (v default : Json) :
    kwarg (OrdDict.set args name v) name' default = kwarg args name' default := by
  rw [kwarg, kwarg, OrdDict.get?_set_ne args v h]

theorem kwarg_set_self (args : Kwargs) (name : String) (v default : Json) :
    kwarg (OrdDict.set args name v) name default = v := by
  rw [kwarg, OrdDict.get?_set_self]
  rfl

theorem kwarg_setFullMetrics {kwargs kwargs' : Kwargs} (h : setFullMetrics kwargs = .ok kwargs')
    {name : String} (hname : name ≠ "sandbox_placeholders") (default : Json) :
    kwarg kwargs' name default = kwarg kwargs name default := by
  unfold setFullMetrics at h
  split at h
  next =>
    injection h with h
    rw [← h, kwarg_set_ne hname]
  next => exact absurd h (by simp)

theorem setFullMetrics_failsIn (kwargs : Kwargs) : (setFullMetrics kwargs).FailsIn NoConflict := by
  unfold setFullMetrics
  split
  next => exact .ok _
  next => exact .error id

theorem ensureLocalData_failsIn (env : Env) (dataset : String) (scaleFactor : Int) :
    (ensureLocalData env dataset scaleFactor).FailsIn NoConflict := by
  unfold ensureLocalData
  split
  next => exact .ok ()
  next =>
    split
    next =>
      refine .error fun hc => ?_
      rw [IsConflict, String.toList_append, String.toList_append] at hc
      obtain ⟨rest, hrest⟩ := hc
      exact absurd (congrArg List.head? hrest) (by simp)
    next =>
      split
      next => exact .error id
      next => exact .ok ()

theorem benchmarkOne_keeps (env : Env) (site : Site) (basePlan : Option Json)
    (patchOps : Option (List Json)) (dataFolder : String) (nRuns : Int) (maxEvalWorkers : Json)
    {kwargs fields : Kwargs} (hrunner : kwarg kwargs "runner_kwargs" .null = .obj fields) :
    Logged.Keeps (Submission.Of dataFolder (kwarg kwargs "exec_local" (.bool false)) (.obj fields))
      NoConflict
      (benchmarkOne env site basePlan patchOps dataFolder nRuns maxEvalWorkers kwargs) := by
  unfold benchmarkOne
  split
  next => exact .pure _
  next plan _ =>
    refine Logged.Keeps.bind (Logged.Keeps.attempt (E := NoConflict) ?_)
      fun outcome _ => ?_
    · refine (Logged.Keeps.lift (callKwargs_failsIn _ _ _)).bind fun args hargs => ?_
      have hlocal := kwarg_callKwargs hargs "exec_local" rfl (.bool false)
      have hrunner' := (kwarg_callKwargs hargs "runner_kwargs" rfl .null).trans hrunner
      rw [← hlocal]
      exact evaluatePlanNRuns_keeps env site dataFolder plan nRuns hrunner'
    · split
      next => exact .pure _
      next => exact .pure _

/-- **Every evaluation of a benchmark has its scale factor**, and the folder of it. -/
theorem benchmarkPlans_keeps (env : Env) (plans : List PatchedPlan) (dataset : String)
    (scaleFactor nRuns maxWorkers : Int) {args fields r : Kwargs}
    (hrunner : kwarg args "runner_kwargs" .null = .obj fields)
    (hr : withScale "runner_kwargs['scale_factor']" (.int scaleFactor) fields = .ok r) :
    Logged.Keeps (Submission.Of (dataFolderForDataset env dataset
        (kwarg args "exec_local" (.bool false)).truthy (.int scaleFactor))
        (kwarg args "exec_local" (.bool false)) (.obj r)) NoConflict
      (benchmarkPlans env plans dataset scaleFactor nRuns maxWorkers args) := by
  unfold benchmarkPlans
  dsimp only
  split
  next => exact .lift (.error (by decide))
  next =>
    split
    next => exact .lift (.error (by decide))
    next =>
      rw [copyRunnerKwargs, kwarg_without (by decide), hrunner]
      refine (Logged.Keeps.pure fields).bind fun fields' hf => ?_
      injection hf with hf
      subst hf
      rw [hr]
      refine (Logged.Keeps.pure r).bind fun r' hr' => ?_
      injection hr' with hr'
      subst hr'
      refine (Logged.Keeps.lift ?_).bind fun kwargs hkwargs => ?_
      · split
        next => exact setFullMetrics_failsIn _
        next => exact .ok _
      refine (Logged.Keeps.lift ?_).bind fun _ _ => ?_
      · split
        next => exact ensureLocalData_failsIn env dataset scaleFactor
        next => exact .ok ()
      refine Logged.Keeps.forEach fun p _ => Logged.Keeps.forEach fun ops _ => ?_
      -- neither the metrics nor the flag change what `runner_kwargs` says about the scale factor
      have hfields : kwarg (OrdDict.set kwargs "exec_local" (kwarg args "exec_local" (.bool false)))
          "runner_kwargs" .null = .obj r := by
        rw [kwarg_set_ne (by decide)]
        split at hkwargs
        next =>
          rw [kwarg_setFullMetrics hkwargs (by decide), kwarg_set_self]
        next =>
          injection hkwargs with hkwargs
          rw [← hkwargs, kwarg_set_self]
      have hone := benchmarkOne_keeps env (.basePlan p.2 ops.2) p.1.basePlan ops.1
        (dataFolderForDataset env dataset (kwarg args "exec_local" (.bool false)).truthy
          (.int scaleFactor)) nRuns (kwarg args "max_eval_workers" (.int 8)) hfields
      rwa [kwarg_set_self] at hone

end DbPlanBench.Optimize
