import Mathlib.Data.List.Infix
import Mathlib.Data.List.OfFn
import Mathlib.Logic.Equiv.Defs
import DbPlanBench.Lib.Logged
import DbPlanBench.Sampling.Orchestrator

/-!
# Submitting operations

Everything a run asks the execution engine goes through `submit_run_operation`, on
Modal or locally. A program here logs these calls, with the arguments that decide
where they run. Keyword arguments are dictionaries of JSON values, handed on with
`**kwargs`: a function takes its own parameters out and passes the rest.

The engine's answers are parameters, and so are the comparison of result sets, the
statistics of a metric and the order in which concurrent operations complete. JSON
text is left out: a plan is its value.

* `validatePlanResultSet` — a plan against a baseline, `evaluatePlanNRuns` — its metrics.
* `Submission.Of` — the arguments of a submission that its callers decide on.
-/

namespace DbPlanBench.Optimize

open Sampling (Fault)

/-- `**kwargs`. -/
abbrev Kwargs := List (String × Json)

/-- `Operation`. -/
inductive Operation where
  | plan
  | validate
  | execute
  | evaluate
deriving DecidableEq

/-- A call of `submit_run_operation`. -/
structure Submission where
  operation : Operation
  inputStr : Json
  dataFolder : String
  nRetry : Json
  runnerKwargs : Json
  execLocal : Json
deriving DecidableEq

/-- What an operation is submitted for. -/
inductive Site where
  | query (i : Nat)
  | userPlan (i : Nat)
  | basePlan (i j : Nat)
  | sample (step query sample : Nat)

/-- Whether data for a local run is there, or can be generated. -/
inductive LocalData where
  | present
  | generated
  | failed (text : String)

/-- What a run depends on and does not decide. `answer` gives the fields of a result, none for a
missing one, or the text of an exception. -/
structure Env where
  localDataDir : String
  str : Json → String
  excText : PyErr → String
  loads : String → Option Json
  answer : Site → Operation → Nat → Except String Kwargs
  arrival : Site → (n : Nat) → Equiv.Perm (Fin n)
  queryOrder : (n : Nat) → Equiv.Perm (Fin n)
  compareResultSets : Json → Json → Bool
  computeMetricStats : List Json → Kwargs
  localData : String → Int → LocalData
  patch : Sampling.JsonPatch
  llm : Nat → Nat → String → Json → Nat → Sampling.GenerationResult

/-- A program that submits operations. -/
abbrev Submits := Logged Submission PyErr

/-- `DEFAULT_SCALE_FACTOR`. -/
def defaultScaleFactor : Int := 3

/-! ## Keyword arguments -/

/-- An argument, or its default. -/
def kwarg (args : Kwargs) (name : String) (default : Json) : Json :=
  (OrdDict.get? args name).getD default

/-- What a function with these parameters has in its `**kwargs`. -/
def without (names : List String) (args : Kwargs) : Kwargs := args.filter fun p => p.1 ∉ names

/-- The arguments of a call `f(..., name=value, **kwargs)`; none may be given twice. -/
def callKwargs (positional : List String) (explicit kwargs : Kwargs) : Except PyErr Kwargs :=
  if ∃ name ∈ positional ++ OrdDict.keys explicit, name ∈ OrdDict.keys kwargs then
    .error .typeError
  else .ok (explicit ++ kwargs)

/-- `(kwargs.get("runner_kwargs") or {}).get("scale_factor", DEFAULT_SCALE_FACTOR)`. -/
def runnerScale (kwargs : Kwargs) : Except PyErr Json :=
  match kwarg kwargs "runner_kwargs" .null with
  | .obj fields => .ok ((OrdDict.get? fields "scale_factor").getD (.int defaultScaleFactor))
  | v => if v.truthy then .error .attributeError else .ok (.int defaultScaleFactor)

/-- `data_folder_for_dataset`. -/
def dataFolderForDataset (env : Env) (dataset : String) (execLocal : Bool) (scaleFactor : Json) :
    String :=
  if execLocal then
    let scaleless := dataset.toLower = "job"
    let suffix := if scaleless ∨ scaleFactor = .null then "" else "_sf" ++ env.str scaleFactor
    env.localDataDir ++ "/data_" ++ dataset ++ suffix
  else "/tmp/data/data_" ++ dataset

/-- `ensure_local_data`. -/
def ensureLocalData (env : Env) (dataset : String) (scaleFactor : Int) : Except PyErr Unit :=
  match env.localData dataset scaleFactor with
  | .present => .ok ()
  | found =>
    if dataset ∉ ["tpch", "tpcds", "job"] then
      .error (.valueError ("Local data generation is supported for 'tpch', 'tpcds', 'job', not '" ++
        dataset ++ "'."))
    else match found with
      | .failed text => .error (.runtimeError text)
      | _ => .ok ()

/-- `ThreadPoolExecutor(max_workers=n)`. -/
def checkWorkers (n : Int) : Except PyErr Unit :=
  if n ≤ 0 then .error (.valueError "max_workers must be greater than 0") else .ok ()

/-! ## Operations -/

/-- `submit_run_operation`. -/
def submitRunOperation (env : Env) (site : Site) (index : Nat) (operation : Operation)
    (inputStr : Json) (dataFolder : String) (args : Kwargs) : Submits Kwargs := do
  let nRetry := kwarg args "n_retry" (.int 2)
  let execLocal := kwarg args "exec_local" (.bool false)
  if ¬ execLocal.truthy ∧ nRetry.asInt.any (· < 0) then
    Logged.lift (.error (.valueError "n_retry must be non-negative"))
  else
    Logged.tell {
      operation, inputStr, dataFolder, nRetry, execLocal
      runnerKwargs := kwarg args "runner_kwargs" .null }
    Logged.lift ((env.answer site operation index).mapError .runtimeError)

/-- `"error"` of a result, if it is one. -/
def resultError (r : Kwargs) : Option Json := (OrdDict.get? r "error").filter (·.truthy)

/-- `baseline_data` and `primary_cand_data`. -/
structure Compared where
  baselineData : Option Json
  primaryCandData : Option Json

/-- `r["result_data"]`. -/
def resultData (r : Kwargs) : Except PyErr Json :=
  match OrdDict.get? r "result_data" with
  | some d => .ok d
  | none => .error .keyError

/-- A value, where `null` is `None`. -/
def notNone (v : Json) : Option Json := if v = .null then none else some v

def resultSetMismatch : String :=
  "Result set mismatch: candidate plan output does not match baseline plan output."

def nonDeterministicPlan : String :=
  "Non-deterministic plan: candidate plan produced different results across executions."

/-- An execution arrives: the error to return, or what has been compared so far. -/
def arrive (env : Env) (c : Compared) (isBase : Bool) (outcome : Except PyErr Kwargs) :
    Except PyErr (Except String Compared) :=
  match outcome with
  | .error exc => .ok (.error ("Validation failed: " ++ env.excText exc))
  | .ok r =>
    -- an empty result is an error as well, one without a text
    if r = [] ∨ (resultError r).isSome then
      let text := env.str ((OrdDict.get? r "error").getD (.str "Unknown error"))
      .ok (.error ((if isBase then "Baseline execution failed: " else "Candidate execution failed: ") ++
        text))
    else do
      let data ← resultData r
      -- the first candidate is the reference; a baseline that comes before it waits
      match isBase, c.primaryCandData, c.baselineData with
      | true, some primary, _ =>
        if env.compareResultSets data primary then return .ok c else return .error resultSetMismatch
      | true, none, _ => return .ok { c with baselineData := notNone data }
      | false, none, some baseline =>
        if env.compareResultSets baseline data then return .ok ⟨none, notNone data⟩
        else return .error resultSetMismatch
      | false, none, none => return .ok { c with primaryCandData := notNone data }
      | false, some primary, _ =>
        if env.compareResultSets primary data then return .ok c
        else return .error nonDeterministicPlan

/-- The executions in the order they arrive. -/
def arriveAll (env : Env) : Compared → List (Bool × Except PyErr Kwargs) →
    Except PyErr (Option String)
  | _, [] => .ok none
  | c, (isBase, outcome) :: rest => do
    match ← arrive env c isBase outcome with
    | .error text => return some text
    | .ok c' => arriveAll env c' rest

/-- Some results in the order their operations complete. -/
def completed {α : Type} (env : Env) (site : Site) (results : List α) : List α :=
  List.ofFn fun i => results.get (env.arrival site results.length i)

/-- `validate_plan_result_set`: the baseline is execution 0. -/
def validatePlanResultSet (env : Env) (site : Site) (candidate baseline : Json)
    (dataFolder : String) (args : Kwargs) : Submits (Option String) := do
  let nRetry := kwarg args "n_retry" (.int 5)
  let execLocal := kwarg args "exec_local" (.bool false)
  let kwargs := without ["n_retry", "n_determinism_retries", "exec_local"] args
  match (kwarg args "n_determinism_retries" (.int 3)).asInt with
  | none => Logged.lift (.error .typeError)
  | some n => do
    Logged.lift (checkWorkers (if execLocal.truthy then 1 else 1 + n))
    let outcomes ← Logged.forEach (fun i => do
      let outcome ← Logged.attempt (do
        let args ← Logged.lift (callKwargs ["operation", "input_str", "data_folder"]
          [("n_retry", nRetry), ("exec_local", execLocal)] kwargs)
        submitRunOperation env site i .execute (if i = 0 then baseline else candidate) dataFolder
          args)
      return (decide (i = 0), outcome)) (List.range (1 + n.toNat))
    Logged.lift (arriveAll env ⟨none, none⟩ (completed env site outcomes))

/-! ## Evaluating -/

/-- `sub in s`. -/
def contains (sub s : String) : Bool := decide (sub.toList <:+: s.toList)

/-- `_rank_error`. -/
def rankError (err : String) : Nat :=
  if contains "Exception during evaluation process!" err then 0
  else if contains "No Result returned from AWS (S3)" err then 1
  else 2

/-- The result of one evaluation, or why there is none. -/
def evaluationOutcome (env : Env) (outcome : Except PyErr Kwargs) : Except String Kwargs :=
  match outcome with
  | .error _ => .error "Failed to evaluate plan: Exception during evaluation process!"
  | .ok r =>
    if r = [] then .error "Failed to evaluate plan: No Result returned from AWS (S3)!"
    else match resultError r with
      | some err => .error ("Failed to evaluate plan: " ++ env.str err)
      | none => .ok r

/-- `best_error`: the first of the largest rank. -/
def bestError (errors : List String) : Option String :=
  errors.foldl (fun best err =>
    match best with
    | none => some err
    | some b => if rankError b < rankError err then some err else best) none

/-- The fields of `evaluate_plan_n_runs`'s result. -/
def aggregate (env : Env) (outcomes : List (Except String Kwargs)) : Kwargs :=
  let successes := outcomes.filterMap Except.toOption
  if successes = [] then
    let errors := outcomes.filterMap fun
      | .error err => some err
      | .ok _ => none
    [("n_runs", .int 0), ("benchmark_stats", .obj []),
      ("error", .str ((bestError errors).getD
        "Failed to evaluate plan: All evaluation attempts failed!"))]
  else
    let stats := successes.flatten.foldl (fun d p => OrdDict.push d p.1 p.2) []
    [("n_runs", .int successes.length),
      ("benchmark_stats", .obj (stats.map fun p =>
        (p.1, .obj (("all_runs", .arr p.2) :: env.computeMetricStats p.2))))]

/-- `evaluate_plan_n_runs`, for `Operation.EVALUATE`. -/
def evaluatePlanNRuns (env : Env) (site : Site) (plan : Json) (dataFolder : String) (nRuns : Int)
    (args : Kwargs) : Submits Kwargs := do
  let execLocal := kwarg args "exec_local" (.bool false)
  let runnerKwargs := match kwarg args "runner_kwargs" .null with
    | .null => .obj []
    | v => v
  let kwargs := without ["max_eval_workers", "runner_kwargs", "exec_local"] args
  if nRuns < 1 then
    Logged.lift (.error (.valueError "n_runs must be >= 1"))
  else
    match (if execLocal.truthy then some 1 else (kwarg args "max_eval_workers" (.int 8)).asInt) with
    | none => Logged.lift (.error .typeError)
    | some workers => do
      Logged.lift (checkWorkers workers)
      let outcomes ← Logged.forEach (fun i => Logged.attempt (do
        let args ← Logged.lift (callKwargs ["operation", "input_str", "data_folder"]
          [("runner_kwargs", runnerKwargs), ("exec_local", execLocal)] kwargs)
        submitRunOperation env site i .evaluate plan dataFolder args)) (List.range nRuns.toNat)
      return aggregate env ((completed env site outcomes).map (evaluationOutcome env))

/-! ## The arguments of submissions -/

theorem get?_without (names : List String) (args : Kwargs) (name : String) :
    OrdDict.get? (without names args) name =
      if name ∈ names then none else OrdDict.get? args name := by
  rw [without, OrdDict.get?_filter_keys (fun k => decide (k ∉ names))]
  simp only [decide_eq_true_eq, ite_not]

theorem kwarg_without {names : List String} {name : String} (h : name ∉ names) (args : Kwargs)
    (default : Json) : kwarg (without names args) name default = kwarg args name default := by
  rw [kwarg, kwarg, get?_without, if_neg h]

theorem get?_callKwargs {positional : List String} {explicit kwargs args : Kwargs}
    (h : callKwargs positional explicit kwargs = .ok args) (name : String) :
    OrdDict.get? args name = (OrdDict.get? explicit name).or (OrdDict.get? kwargs name) := by
  unfold callKwargs at h
  split at h
  next => exact absurd h (by simp)
  next =>
    injection h with h
    rw [← h, OrdDict.get?_append]

/-- An argument that the call gives itself. -/
theorem kwarg_callKwargs_explicit {positional : List String} {explicit kwargs args : Kwargs}
    (h : callKwargs positional explicit kwargs = .ok args) (name : String) {v : Json}
    (hv : OrdDict.get? explicit name = some v) (default : Json) : kwarg args name default = v := by
  rw [kwarg, get?_callKwargs h, hv]
  rfl

/-- An argument that is handed on. -/
theorem kwarg_callKwargs {positional : List String} {explicit kwargs args : Kwargs}
    (h : callKwargs positional explicit kwargs = .ok args) (name : String)
    (hname : OrdDict.get? explicit name = none) (default : Json) :
    kwarg args name default = kwarg kwargs name default := by
  rw [kwarg, kwarg, get?_callKwargs h, hname]
  rfl

/-- The folder, mode and runner arguments of a submission. -/
structure Submission.Of (dataFolder : String) (execLocal runnerKwargs : Json) (s : Submission) :
    Prop where
  dataFolder : s.dataFolder = dataFolder
  execLocal : s.execLocal = execLocal
  runnerKwargs : s.runnerKwargs = runnerKwargs

/-- A `ValueError` about two scale factors. -/
def IsConflict : PyErr → Prop
  | .valueError msg => "scale_factor conflicts with ".toList <+: msg.toList
  | _ => False

/-- Another exception. -/
def NoConflict (e : PyErr) : Prop := ¬ IsConflict e

instance (e : PyErr) : Decidable (IsConflict e) :=
  match e with
  | .valueError msg => inferInstanceAs (Decidable ("scale_factor conflicts with ".toList <+: msg.toList))
  | .planTransferError .. | .keyError | .indexError | .attributeError | .typeError
  | .runtimeError _ | .fileExistsError => instDecidableFalse

instance (e : PyErr) : Decidable (NoConflict e) := inferInstanceAs (Decidable (¬ IsConflict e))

theorem checkWorkers_failsIn (n : Int) : (checkWorkers n).FailsIn NoConflict := by
  unfold checkWorkers
  split
  next => exact .error (by decide)
  next => exact .ok ()

theorem callKwargs_failsIn (positional : List String) (explicit kwargs : Kwargs) :
    (callKwargs positional explicit kwargs).FailsIn NoConflict := by
  unfold callKwargs
  split
  next => exact .error (by decide)
  next => exact .ok _

section

variable (env : Env) (site : Site) (dataFolder : String) (args : Kwargs)

theorem submitRunOperation_keeps (index : Nat) (operation : Operation) (inputStr : Json) :
    Logged.Keeps (Submission.Of dataFolder (kwarg args "exec_local" (.bool false))
        (kwarg args "runner_kwargs" .null)) NoConflict
      (submitRunOperation env site index operation inputStr dataFolder args) := by
  unfold submitRunOperation
  dsimp only
  split
  next => exact .lift (.error (by decide))
  next =>
    refine (Logged.Keeps.tell ⟨rfl, rfl, rfl⟩).bind fun _ _ => .lift ?_
    cases env.answer site operation index with
    | ok r => exact .ok r
    | error text => exact .error id

variable {env} in
theorem arrive_failsIn (c : Compared) (isBase : Bool) (outcome : Except PyErr Kwargs) :
    (arrive env c isBase outcome).FailsIn NoConflict := by
  unfold arrive
  split
  next => exact .ok _
  next r =>
    split
    next => exact .ok _
    next =>
      refine Except.FailsIn.bind ?_ fun data _ => ?_
      · unfold resultData
        split
        next => exact .ok _
        next => exact .error id
      · repeat' split
        all_goals exact .ok _

variable {env} in
theorem arriveAll_failsIn : ∀ (l : List (Bool × Except PyErr Kwargs)) (c : Compared),
    (arriveAll env c l).FailsIn NoConflict
  | [], _ => .ok none
  | (isBase, outcome) :: rest, c => by
    rw [arriveAll]
    refine (arrive_failsIn c isBase outcome).bind fun r _ => ?_
    cases r with
    | error text => exact .ok _
    | ok c' => exact arriveAll_failsIn rest c'

/-- **Every execution of a validation has the arguments of the validation.** -/
theorem validatePlanResultSet_keeps (candidate baseline : Json) :
    Logged.Keeps (Submission.Of dataFolder (kwarg args "exec_local" (.bool false))
        (kwarg args "runner_kwargs" .null)) NoConflict
      (validatePlanResultSet env site candidate baseline dataFolder args) := by
  unfold validatePlanResultSet
  dsimp only
  split
  next => exact .lift (.error id)
  next n _ =>
    refine (Logged.Keeps.lift (checkWorkers_failsIn _)).bind fun _ _ => ?_
    refine (Logged.Keeps.forEach fun i _ => ?_).bind fun outcomes _ =>
      .lift (arriveAll_failsIn _ _)
    refine (Logged.Keeps.attempt (E := NoConflict) ?_).bind fun _ _ => .pure _
    refine (Logged.Keeps.lift (callKwargs_failsIn _ _ _)).bind fun args' hargs' => ?_
    have hlocal := kwarg_callKwargs_explicit hargs' "exec_local" rfl (.bool false)
    have hrunner := kwarg_callKwargs hargs' "runner_kwargs" rfl .null
    rw [kwarg_without (by decide)] at hrunner
    rw [← hlocal, ← hrunner]
    exact submitRunOperation_keeps env site dataFolder args' i .execute _

variable {args} in
/-- **Every evaluation of a plan has the arguments of the call**, if its runner arguments are a
dictionary. -/
theorem evaluatePlanNRuns_keeps (plan : Json) (nRuns : Int) {fields : Kwargs}
    (hrunner : kwarg args "runner_kwargs" .null = .obj fields) :
    Logged.Keeps (Submission.Of dataFolder (kwarg args "exec_local" (.bool false)) (.obj fields))
      NoConflict (evaluatePlanNRuns env site plan dataFolder nRuns args) := by
  unfold evaluatePlanNRuns
  dsimp only
  split
  next => exact .lift (.error (by decide))
  next =>
    split
    next => exact .lift (.error id)
    next workers _ =>
      refine (Logged.Keeps.lift (checkWorkers_failsIn _)).bind fun _ _ => ?_
      refine (Logged.Keeps.forEach fun i _ => ?_).bind fun _ _ => .pure _
      refine Logged.Keeps.attempt (E := NoConflict) ?_
      refine (Logged.Keeps.lift (callKwargs_failsIn _ _ _)).bind fun args' hargs' => ?_
      have hlocal := kwarg_callKwargs_explicit hargs' "exec_local" rfl (.bool false)
      have hrunner' := kwarg_callKwargs_explicit hargs' "runner_kwargs" rfl .null
      simp only [hrunner] at hrunner'
      rw [← hlocal, ← hrunner']
      exact submitRunOperation_keeps env site dataFolder args' i .evaluate _

end

end DbPlanBench.Optimize
