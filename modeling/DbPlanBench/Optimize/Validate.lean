import Mathlib.Data.List.Sort
import DbPlanBench.Optimize.Submit

/-!
# Validating and planning queries

`validate_queries` has the engine validate each query and run its plan several
times; `get_engine_plans` only plans it. Both bring the scale factor into
`runner_kwargs`, where `check_query_validity` and the runner find it. The queries
are processed in the order their validations complete, and the second of two equal
ones is a duplicate.
-/

namespace DbPlanBench.Optimize

/-! ## Scale factors -/

/-- The text of a `ValueError` about two scale factors. -/
def scaleConflict (name : String) : String := "scale_factor conflicts with " ++ name

/-- The scale factor in `runner_kwargs`, where another one may not be. -/
def withScale (name : String) (scaleFactor : Json) (runnerKwargs : Kwargs) : Except PyErr Kwargs :=
  match OrdDict.get? runnerKwargs "scale_factor" with
  | some v =>
    if v.pyEq scaleFactor then .ok (OrdDict.set runnerKwargs "scale_factor" scaleFactor)
    else .error (.valueError (scaleConflict name))
  | none => .ok (OrdDict.set runnerKwargs "scale_factor" scaleFactor)

/-- `runner_kwargs = kwargs.pop("runner_kwargs", {}) or {}`, a dictionary. -/
def runnerDict (notDict : String) (kwargs : Kwargs) : Except PyErr Kwargs :=
  match kwarg kwargs "runner_kwargs" (.obj []) with
  | .obj fields => .ok fields
  | v => if v.truthy then .error (.valueError notDict) else .ok []

/-- `dict(kwargs["runner_kwargs"])`, where it may be missing or `None`; callers pass a dictionary. -/
def copyRunnerKwargs (kwargs : Kwargs) : Except PyErr Kwargs :=
  match kwarg kwargs "runner_kwargs" .null with
  | .null => .ok []
  | .obj fields => .ok fields
  | _ => .error .typeError

/-! ## One query -/

/-- `ValidationResult`. -/
structure ValidationResult where
  error : Option Json
  isSyntaxValid : Json
  plan : Json
  canRun : Json
  isEmpty : Json
  rowCount : Json
  executionTime : Json
  isNondeterministic : Bool

/-- `bad_result`. -/
def badResult (errorMsg : Json) (result : Kwargs) : ValidationResult where
  error := some errorMsg
  isSyntaxValid := kwarg result "is_syntax_valid" (.bool false)
  plan := kwarg result "plan" .null
  canRun := kwarg result "can_run" (.bool false)
  isEmpty := kwarg result "is_empty" (.bool true)
  rowCount := kwarg result "row_count" (.int 0)
  executionTime := kwarg result "execution_time" (.float ⟨false, 0⟩)
  isNondeterministic := false

/-- `result[name]`. -/
def field (result : Kwargs) (name : String) : Except PyErr Json :=
  match OrdDict.get? result name with
  | some v => .ok v
  | none => .error .keyError

/-- The plan whose determinism is checked, if it is. -/
def determinismPlan (result : Kwargs) : Except PyErr (Option Json) := do
  if ! (← field result "is_syntax_valid").truthy then return none
  let plan ← field result "plan"
  if plan = .null then return none
  if ! (← field result "can_run").truthy then return none
  if (← field result "is_empty").truthy then return none
  return some plan

/-- The returned `ValidationResult` of a query that was validated. -/
def goodResult (result : Kwargs) (nonDeterministic : Bool) : Except PyErr ValidationResult := do
  return {
    error := none
    isSyntaxValid := ← field result "is_syntax_valid"
    plan := ← field result "plan"
    canRun := ← field result "can_run"
    isEmpty := ← field result "is_empty"
    rowCount := ← field result "row_count"
    executionTime := ← field result "execution_time"
    isNondeterministic := nonDeterministic }

/-- `check_query_validity`. -/
def checkQueryValidity (env : Env) (site : Site) (query dataset : String) (args : Kwargs) :
    Submits ValidationResult := do
  let nRetries := kwarg args "n_determinism_retries" (.int 3)
  let execLocal := kwarg args "exec_local" (.bool false)
  let kwargs := without ["n_determinism_retries", "verbose", "exec_local"] args
  let scaleFactor ← Logged.lift (runnerScale kwargs)
  let dataFolder := dataFolderForDataset env dataset execLocal.truthy scaleFactor
  let submitArgs ← Logged.lift (callKwargs ["operation", "input_str", "data_folder"]
    [("n_retry", .int 5), ("exec_local", execLocal)] kwargs)
  let result ← submitRunOperation env site 0 .validate (.str query) dataFolder submitArgs
  if result = [] then
    return badResult (.str "Failed to get validation result for query") []
  else match OrdDict.get? result "error" with
  | some err => return badResult err []
  | none => do
    match ← Logged.lift (determinismPlan result) with
    | none => Logged.lift (goodResult result false)
    | some plan => do
      let planArgs ← Logged.lift (callKwargs ["candidate_plan_str", "baseline_plan_str", "data_folder"]
        [("n_retry", .int 5), ("n_determinism_retries", nRetries), ("exec_local", execLocal)] kwargs)
      match ← validatePlanResultSet env site plan plan dataFolder planArgs with
      | none => Logged.lift (goodResult result false)
      | some err =>
        -- a query whose plan answers differently each time is valid, and marked as such
        if contains "mismatch" err ∨ contains "Non-deterministic" err then
          Logged.lift (goodResult result true)
        else
          return badResult (.str ("Failed to time query plan for nondeterminism check. Reason: " ++
            err)) result

/-! ## All queries -/

/-- The `type` of a validated query. -/
inductive Verdict where
  | failed (category : String)
  | valid (plan rowCount : Json)

/-- The classification of `validate_single_query`. -/
def classify (r : ValidationResult) : Verdict :=
  if r.error ≠ none then .failed "validation_error"
  else if ! r.isSyntaxValid.truthy then .failed "syntax_error"
  else if ! r.plan.truthy then .failed "no_plan"
  else if ! r.canRun.truthy then .failed "cannot_run"
  else if r.isEmpty.truthy then .failed "empty_result"
  else if r.isNondeterministic then .failed "nondeterministic"
  else .valid r.plan r.rowCount

/-- `_DEAD_LETTER_CATEGORIES`. -/
def deadLetterCategories : List String :=
  ["validation_error", "syntax_error", "no_plan", "cannot_run", "empty_result", "nondeterministic",
    "duplicate"]

/-- The categories in the order of the file: `write_json` sorts the keys. -/
def writtenCategories : List String := deadLetterCategories.insertionSort (· ≤ ·)

/-- `query_to_data` with the ids and plans, `dead_letters`, and `seen`. -/
structure Validated where
  queryToData : List (String × Nat × Json × Json)
  deadLetters : List (String × String)
  seen : List String

/-- A validation completes; `dead_letters` has the category of each failed query. -/
def harvest (v : Validated) (id : Nat) (query : String) (verdict : Verdict) : Validated :=
  match verdict with
  | .failed category => { v with deadLetters := v.deadLetters ++ [(category, query)] }
  | .valid plan rowCount =>
    if query ∈ v.seen then { v with deadLetters := v.deadLetters ++ [("duplicate", query)] }
    else
      { v with
        seen := v.seen ++ [query]
        queryToData := OrdDict.set v.queryToData query (id, plan, rowCount) }

/-- The completed validations, in their order; the first exception is raised. -/
def harvestAll (v : Validated) : List ((Nat × String) × Except PyErr Verdict) →
    Except PyErr Validated
  | [] => .ok v
  | (_, .error e) :: _ => .error e
  | ((id, query), .ok verdict) :: rest => harvestAll (harvest v id query verdict) rest

/-- The results of some queries in the order their operations complete. -/
def inQueryOrder {α : Type} (env : Env) (results : List α) : List α :=
  List.ofFn fun i => results.get (env.queryOrder results.length i)

/-- The results in the order of the queries; the first exception to arrive is raised. -/
def gather {α : Type} (env : Env) (outcomes : List (Except PyErr α)) : Except PyErr (List α) := do
  let _ ← (inQueryOrder env outcomes).mapM id
  outcomes.mapM id

/-- `validate_queries`, with `output_format="plans"`, for the queries with their positions as ids.
Its callers leave `seen_queries` at its default. -/
def validateQueries (env : Env) (queries : List String) (dataset : String) (maxWorkers : Int)
    (args : Kwargs) : Submits Validated := do
  let scaleFactor := kwarg args "scale_factor" (.int defaultScaleFactor)
  let execLocal := kwarg args "exec_local" (.bool false)
  let kwargs := without ["scale_factor", "exec_local", "seen_queries"] args
  let kwargsLocal := without ["runner_kwargs"] kwargs
  let runnerKwargs ← Logged.lift (runnerDict "runner_kwargs must be a dict" kwargs)
  if scaleFactor = .null then
    Logged.lift (.error (.valueError "scale_factor cannot be None"))
  else do
    let runnerKwargs ← Logged.lift (withScale "runner_kwargs['scale_factor']" scaleFactor runnerKwargs)
    Logged.lift (checkWorkers maxWorkers)
    let verdicts ← Logged.forEach (fun p => do
      let outcome ← Logged.attempt (do
        let args ← Logged.lift (callKwargs ["query", "dataset"]
          [("runner_kwargs", .obj runnerKwargs), ("verbose", .bool false), ("exec_local", execLocal)]
          kwargsLocal)
        checkQueryValidity env (.query p.2) p.1 dataset args)
      return ((p.2, p.1), outcome.map classify)) queries.zipIdx
    Logged.lift (harvestAll ⟨[], [], []⟩ (inQueryOrder env verdicts))

/-- The plan as it is read back from the file: a text that is JSON is parsed. -/
def parsedPlan (env : Env) (plan : Json) : Json :=
  match plan with
  | .str text => (env.loads text).getD plan
  | _ => plan

/-! ## Planning only -/

/-- The outcome of `_plan_worker`. -/
def planOutcome (env : Env) (r : Kwargs) : Except PyErr (Option Json × Option String) :=
  if r = [] then .ok (none, some "plan_error")
  else match resultError r with
  | some err => .ok (none, some ("plan_error: " ++ env.str err))
  | none =>
    let plan := kwarg r "plan" .null
    if ! plan.truthy then .ok (none, some "no_plan")
    else match plan with
      | .str text =>
        match env.loads text with
        | some p => .ok (some p, none)
        | none => .error (.valueError "Expecting value")
      | p => .ok (some p, none)

/-- `get_engine_plans`. -/
def getEnginePlans (env : Env) (queries : List (String × Nat)) (dataset : String) (scaleFactor : Int)
    (maxWorkers : Int) (args : Kwargs) : Submits (List (Option Json × Option String)) := do
  let execLocal := kwarg args "exec_local" (.bool false)
  let kwargs := without ["exec_local"] args
  if queries = [] then
    Logged.lift (.error (.valueError "queries must not be empty"))
  else if maxWorkers < 1 then
    Logged.lift (.error (.valueError "max_workers must be >= 1"))
  else do
    let runnerKwargs ← Logged.lift (copyRunnerKwargs kwargs)
    let runnerKwargs ← Logged.lift (withScale "runner_kwargs['scale_factor']" (.int scaleFactor)
      runnerKwargs)
    let kwargs := OrdDict.set (OrdDict.set kwargs "runner_kwargs" (.obj runnerKwargs)) "exec_local"
      execLocal
    if execLocal.truthy then Logged.lift (ensureLocalData env dataset scaleFactor)
    let dataFolder := dataFolderForDataset env dataset execLocal.truthy (.int scaleFactor)
    let outcomes ← Logged.forEach (fun p => Logged.attempt (do
      let args ← Logged.lift (callKwargs ["operation", "input_str", "data_folder"] [] kwargs)
      let result ← submitRunOperation env (.query p.2) 0 .plan (.str p.1) dataFolder args
      Logged.lift (planOutcome env result))) queries
    Logged.lift (gather env outcomes)

/-- `_plan_queries_with_dedup`. -/
def planQueriesWithDedup (env : Env) (queries : List String) (dataset : String) (scaleFactor : Int)
    (maxWorkers : Int) (validateKwargs : Kwargs) :
    Submits (List (Option Json) × List (Option String)) := do
  let nonDup := queries.zipIdx.filter fun p => queries.count p.1 = 1
  let planned ← if nonDup = [] then pure [] else do
    let args ← Logged.lift (callKwargs ["queries"] [("dataset", .str dataset),
      ("scale_factor", .int scaleFactor), ("max_workers", .int maxWorkers), ("verbose", .bool false)]
      validateKwargs)
    getEnginePlans env nonDup dataset scaleFactor maxWorkers
      (without ["dataset", "scale_factor", "max_workers", "verbose"] args)
  let byId := (nonDup.map (·.2)).zip planned
  let outcomes := queries.zipIdx.map fun p =>
    (OrdDict.get? byId p.2).getD (none, some "duplicate")
  return outcomes.unzip

/-! ## The first phase -/

/-- `_validate_and_plan_queries`; `existing` are the queries of `base_sampling_data`. The scale
factor is passed on when validation is skipped. -/
def validateAndPlanQueries (env : Env) (queries : List String) (dataset : String) (scaleFactor : Int)
    (maxWorkers : Int) (validateKwargs : Kwargs) (skipValidation : Bool)
    (existing : Option (List String)) : Submits (List (Option Json) × List (Option String)) :=
  match existing with
  | some old =>
    if old ≠ queries then
      Logged.lift (.error (.valueError
        "queries do not match existing base_sampling.json for resume=True"))
    else return (queries.map fun _ => none, queries.map fun _ => none)
  | none =>
    if skipValidation then
      planQueriesWithDedup env queries dataset scaleFactor maxWorkers validateKwargs
    else do
      let explicit := [("input_file", Json.null), ("output_file", .null), ("dead_letter_file", .null),
        ("dataset", .str dataset), ("max_workers", .int maxWorkers),
        ("output_format", .str "plans"), ("verbose", .bool false),
        ("log_context", .str "optimization")]
      let args ← Logged.lift (callKwargs [] explicit validateKwargs)
      let validated ← validateQueries env queries dataset maxWorkers
        (without (OrdDict.keys explicit) args)
      let byId := validated.queryToData.map fun p => (p.2.1, parsedPlan env p.2.2.1)
      -- of several categories that name the query the last one in the file stays
      let failures := queries.zipIdx.map fun p =>
        match (writtenCategories.filter fun c => (c, p.1) ∈ validated.deadLetters).getLast? with
        | some category => some category
        | none => if p.2 ∈ OrdDict.keys byId then none else some "validation_missing"
      return (queries.zipIdx.map fun p => OrdDict.get? byId p.2, failures)

/-- What `_integrate_user_base_plans` returns. -/
structure Integrated where
  plans : List (Option Json)
  basePlanSources : List String
  userPlanFailures : Option (List (Option String))

/-- `_validate_one`. -/
def validateOne (env : Env) (dataFolder : String) (validateKwargs : Kwargs)
    (p : (Option Json × Option Json) × Nat) : Submits (Option String) :=
  match p.1.1, p.1.2 with
  | none, _ => return none
  | some _, none => return some "Cannot validate: engine plan is None"
  | some userPlan, some enginePlan => do
    let args ← Logged.lift (callKwargs ["candidate_plan_str", "baseline_plan_str", "data_folder"]
      [("n_retry", .int 5)] validateKwargs)
    validatePlanResultSet env (.userPlan p.2) userPlan enginePlan dataFolder args

/-- `_integrate_user_base_plans`; `userBasePlans` is aligned to the queries. -/
def integrateUserBasePlans (env : Env) (userBasePlans : Option (List (Option Json)))
    (enginePlans : List (Option Json)) (dataset : String) (validateKwargs : Kwargs)
    (maxWorkers : Int) (skipValidation : Bool) :
    Submits Integrated :=
  let engineOnly := enginePlans.map fun _ => "engine"
  match userBasePlans with
  | none => return ⟨enginePlans, engineOnly, none⟩
  | some userPlans => do
    let integrated : Integrated := {
      plans := userPlans.zipWith (fun user engine => user.orElse fun _ => engine) enginePlans
      basePlanSources := userPlans.map fun user => if user.isSome then "custom" else "engine"
      userPlanFailures := none }
    if skipValidation then return integrated
    else do
      -- the folder is that of Modal, wherever the operations run
      let dataFolder := dataFolderForDataset env dataset false .null
      Logged.lift (checkWorkers maxWorkers)
      let outcomes ← Logged.forEach
        (fun p => Logged.attempt (validateOne env dataFolder validateKwargs p))
        (userPlans.zip enginePlans).zipIdx
      let failures ← Logged.lift (gather env outcomes)
      if failures.any (·.isSome) then return ⟨enginePlans, engineOnly, some failures⟩
      else return integrated

/-! ## The arguments of submissions -/

theorem field_failsIn (result : Kwargs) (name : String) :
    (field result name).FailsIn NoConflict := by
  unfold field
  split
  next => exact .ok _
  next => exact .error id

theorem goodResult_failsIn (result : Kwargs) (nonDeterministic : Bool) :
    (goodResult result nonDeterministic).FailsIn NoConflict := by
  unfold goodResult
  iterate 6 refine (field_failsIn result _).bind fun _ _ => ?_
  exact .ok _

theorem determinismPlan_failsIn (result : Kwargs) :
    (determinismPlan result).FailsIn NoConflict := by
  unfold determinismPlan
  refine (field_failsIn result _).bind fun _ _ => ?_
  split
  next => exact .ok _
  refine (field_failsIn result _).bind fun _ _ => ?_
  split
  next => exact .ok _
  refine (field_failsIn result _).bind fun _ _ => ?_
  split
  next => exact .ok _
  refine (field_failsIn result _).bind fun _ _ => ?_
  split
  next => exact .ok _
  next => exact .ok _

theorem runnerScale_without {names : List String} (h : "runner_kwargs" ∉ names) (args : Kwargs) :
    runnerScale (without names args) = runnerScale args := by
  rw [runnerScale, kwarg_without h]
  rfl

/-- **Every operation of a query's validation has the arguments of the call**, and the folder of
their scale factor. -/
theorem checkQueryValidity_keeps (env : Env) (site : Site) (query dataset : String) {args : Kwargs}
    {scaleFactor : Json} (hscale : runnerScale args = .ok scaleFactor) :
    Logged.Keeps (Submission.Of
        (dataFolderForDataset env dataset (kwarg args "exec_local" (.bool false)).truthy scaleFactor)
        (kwarg args "exec_local" (.bool false)) (kwarg args "runner_kwargs" .null))
      NoConflict (checkQueryValidity env site query dataset args) := by
  unfold checkQueryValidity
  dsimp only
  rw [runnerScale_without (by decide), hscale]
  let folder := dataFolderForDataset env dataset (kwarg args "exec_local" (.bool false)).truthy
    scaleFactor
  have hrunner : kwarg (without ["n_determinism_retries", "verbose", "exec_local"] args)
      "runner_kwargs" .null = kwarg args "runner_kwargs" .null := kwarg_without (by decide) args .null
  refine (Logged.Keeps.pure scaleFactor).bind fun scale hs => ?_
  injection hs with hs
  subst hs
  refine (Logged.Keeps.lift (callKwargs_failsIn _ _ _)).bind fun args' hargs' => ?_
  have hlocal' := kwarg_callKwargs_explicit hargs' "exec_local" rfl (.bool false)
  have hrunner' := (kwarg_callKwargs hargs' "runner_kwargs" rfl .null).trans hrunner
  have hsubmit := submitRunOperation_keeps env site folder args' 0 .validate (.str query)
  rw [hlocal', hrunner'] at hsubmit
  -- the operation of the query itself, and then those of its plan
  refine hsubmit.bind fun result _ => ?_
  split
  next => exact .pure _
  next =>
    split
    next => exact .pure _
    next =>
      refine (Logged.Keeps.lift (determinismPlan_failsIn _)).bind fun plan _ => ?_
      split
      next => exact .lift (goodResult_failsIn _ _)
      next plan _ =>
        refine (Logged.Keeps.lift (callKwargs_failsIn _ _ _)).bind
          fun planArgs hplan => ?_
        have hlocal := kwarg_callKwargs_explicit hplan "exec_local" rfl (.bool false)
        have hrun := (kwarg_callKwargs hplan "runner_kwargs" rfl .null).trans hrunner
        have hvalidate := validatePlanResultSet_keeps env site folder planArgs plan plan
        rw [hlocal, hrun] at hvalidate
        refine hvalidate.bind fun verdict _ => ?_
        split
        next => exact .lift (goodResult_failsIn _ _)
        next =>
          split
          next => exact .lift (goodResult_failsIn _ _)
          next => exact .pure _

theorem get?_withScale {name : String} {scaleFactor : Json} {runnerKwargs r : Kwargs}
    (h : withScale name scaleFactor runnerKwargs = .ok r) :
    OrdDict.get? r "scale_factor" = some scaleFactor := by
  unfold withScale at h
  split at h
  next =>
    split at h
    next =>
      injection h with h
      rw [← h, OrdDict.get?_set_self]
    next => exact absurd h (by simp)
  next =>
    injection h with h
    rw [← h, OrdDict.get?_set_self]

theorem runnerScale_of_obj {args fields : Kwargs} {scaleFactor : Json}
    (h : kwarg args "runner_kwargs" .null = .obj fields)
    (hscale : OrdDict.get? fields "scale_factor" = some scaleFactor) :
    runnerScale args = .ok scaleFactor := by
  rw [runnerScale, h]
  simp only [hscale, Option.getD_some]

theorem mem_inQueryOrder {α : Type} {env : Env} {results : List α} {x : α}
    (h : x ∈ inQueryOrder env results) : x ∈ results := by
  obtain ⟨i, rfl⟩ := (List.mem_ofFn' _ _).mp h
  exact List.get_mem _ _

theorem harvestAll_error {e : PyErr} : ∀ {l : List ((Nat × String) × Except PyErr Verdict)}
    {v : Validated}, harvestAll v l = .error e → ∃ p, (p, .error e) ∈ l
  | [], _, h => absurd h (by simp [harvestAll])
  | (p, .error e') :: _, _, h => by
    injection h with h
    exact ⟨p, h ▸ List.mem_cons_self ..⟩
  | ((_, _), .ok _) :: rest, _, h => by
    obtain ⟨p, hp⟩ := harvestAll_error (l := rest) h
    exact ⟨p, List.mem_cons_of_mem _ hp⟩

theorem gather_error {α : Type} {env : Env} {outcomes : List (Except PyErr α)} {e : PyErr}
    (h : gather env outcomes = .error e) : .error e ∈ outcomes := by
  unfold gather at h
  rcases Except.bind_eq_error.mp h with h | ⟨_, _, h⟩
  · obtain ⟨x, hx, he⟩ := Except.exists_of_mapM_eq_error h
    exact he ▸ mem_inQueryOrder hx
  · obtain ⟨x, hx, he⟩ := Except.exists_of_mapM_eq_error h
    exact he ▸ hx

/-- **Every operation of `validate_queries` has its scale factor**, which is in `runner_kwargs`, and
the folder of it. -/
theorem validateQueries_keeps (env : Env) (queries : List String) (dataset : String)
    (maxWorkers : Int) {args runnerKwargs r : Kwargs} {scaleFactor : Json}
    (hscale : kwarg args "scale_factor" (.int defaultScaleFactor) = scaleFactor)
    (hrunner : kwarg args "runner_kwargs" (.obj []) = .obj runnerKwargs)
    (hr : withScale "runner_kwargs['scale_factor']" scaleFactor runnerKwargs = .ok r) :
    Logged.Keeps (Submission.Of
        (dataFolderForDataset env dataset (kwarg args "exec_local" (.bool false)).truthy scaleFactor)
        (kwarg args "exec_local" (.bool false)) (.obj r))
      NoConflict (validateQueries env queries dataset maxWorkers args) := by
  have hdict : runnerDict "runner_kwargs must be a dict"
      (without ["scale_factor", "exec_local", "seen_queries"] args) = .ok runnerKwargs := by
    rw [runnerDict, kwarg_without (by decide), hrunner]
  have hone : ∀ p : String × Nat, Logged.Keeps (Submission.Of (dataFolderForDataset env dataset
      (kwarg args "exec_local" (.bool false)).truthy scaleFactor)
      (kwarg args "exec_local" (.bool false)) (.obj r)) NoConflict (do
        let args ← Logged.lift (callKwargs ["query", "dataset"]
          [("runner_kwargs", .obj r), ("verbose", .bool false),
            ("exec_local", kwarg args "exec_local" (.bool false))]
          (without ["runner_kwargs"] (without ["scale_factor", "exec_local", "seen_queries"] args)))
        checkQueryValidity env (.query p.2) p.1 dataset args) := by
    intro p
    refine (Logged.Keeps.lift (callKwargs_failsIn _ _ _)).bind fun args' hargs' => ?_
    have hlocal' := kwarg_callKwargs_explicit hargs' "exec_local" rfl (.bool false)
    have hrunner' := kwarg_callKwargs_explicit hargs' "runner_kwargs" rfl .null
    have hcheck := checkQueryValidity_keeps env (.query p.2) p.1 dataset
      (runnerScale_of_obj hrunner' (get?_withScale hr))
    rwa [hlocal', hrunner'] at hcheck
  unfold validateQueries
  dsimp only
  rw [hdict, hscale]
  refine (Logged.Keeps.pure runnerKwargs).bind fun runnerKwargs' hr' => ?_
  injection hr' with hr'
  subst hr'
  split
  next => exact .lift (.error (by decide))
  next =>
    rw [hr]
    refine (Logged.Keeps.pure r).bind fun r' hr' => ?_
    injection hr' with hr'
    subst hr'
    refine (Logged.Keeps.lift (checkWorkers_failsIn _)).bind fun _ _ => ?_
    refine (Logged.Keeps.forEach fun p _ => ?_).bind fun verdicts hverdicts =>
      .lift fun e he => ?_
    · exact Logged.Keeps.bind (hone p).attempt fun _ _ => .pure _
    · -- an error that is not harvested is that of one of the queries
      obtain ⟨q, hq⟩ := harvestAll_error he
      obtain ⟨p, _, hp⟩ := Logged.mem_of_forEach hverdicts _ (mem_inQueryOrder hq)
      obtain ⟨outcome, houtcome, hp⟩ := Logged.result_bind.mp hp
      injection houtcome with houtcome
      injection (show Except.ok _ = Except.ok _ from hp) with hp
      have hmap := (Prod.mk.inj hp).2
      cases outcome with
      | ok v => exact absurd hmap (by simp [Except.map])
      | error e' =>
        injection hmap with hmap
        exact hmap ▸ (hone p).error e' houtcome

theorem validateOne_keeps (env : Env) (dataFolder : String) (validateKwargs : Kwargs)
    (p : (Option Json × Option Json) × Nat) :
    Logged.Keeps (Submission.Of dataFolder (kwarg validateKwargs "exec_local" (.bool false))
        (kwarg validateKwargs "runner_kwargs" .null)) NoConflict
      (validateOne env dataFolder validateKwargs p) := by
  unfold validateOne
  split
  next => exact .pure _
  next => exact .pure _
  next user engine _ _ =>
    refine (Logged.Keeps.lift (callKwargs_failsIn _ _ _)).bind fun args hargs => ?_
    have hlocal := kwarg_callKwargs hargs "exec_local" rfl (.bool false)
    have hrunner := kwarg_callKwargs hargs "runner_kwargs" rfl .null
    rw [← hlocal, ← hrunner]
    exact validatePlanResultSet_keeps env _ _ args user engine

/-- **Every operation on the plans of the user has the arguments of validation**, but the folder of
Modal. -/
theorem integrateUserBasePlans_keeps (env : Env) (userBasePlans : Option (List (Option Json)))
    (enginePlans : List (Option Json)) (dataset : String) (validateKwargs : Kwargs)
    (maxWorkers : Int) (skipValidation : Bool) :
    Logged.Keeps (Submission.Of (dataFolderForDataset env dataset false .null)
        (kwarg validateKwargs "exec_local" (.bool false)) (kwarg validateKwargs "runner_kwargs" .null))
      NoConflict (integrateUserBasePlans env userBasePlans enginePlans dataset
        validateKwargs maxWorkers skipValidation) := by
  have hone := validateOne_keeps env (dataFolderForDataset env dataset false .null) validateKwargs
  unfold integrateUserBasePlans
  dsimp only
  split
  next => exact .pure _
  next =>
    split
    next => exact .pure _
    next =>
      refine (Logged.Keeps.lift (checkWorkers_failsIn _)).bind fun _ _ => ?_
      refine (Logged.Keeps.forEach fun p _ => (hone p).attempt).bind fun outcomes houtcomes => ?_
      refine (Logged.Keeps.lift fun e he => ?_).bind fun failures _ => ?_
      · obtain ⟨p, _, hp⟩ := Logged.mem_of_forEach houtcomes _ (gather_error he)
        injection hp with hp
        exact (hone p).error e hp
      · split
        next => exact .pure _
        next => exact .pure _

end DbPlanBench.Optimize
