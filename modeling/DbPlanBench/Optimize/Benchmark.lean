import DbPlanBench.Lib.Slots
import DbPlanBench.Optimize.Duplicates
import DbPlanBench.Optimize.Pipeline

/-!
# Benchmarks

`benchmark_plans` measures every patch of every plan in one pool, and rows of results
grow as results arrive. `benchmark_queries` plans queries in a pool, benchmarks the
plans there are, and brings the results back to the positions of their queries.
Here both have their pools, which complete in any order; what a call does by itself
is as in a benchmark without a pool.

* `benchmarkPlansPooled_eq` — the pool returns what a loop over plans and patches does.
* `benchmark_aligned` — results are those of their own patches and queries.
-/

namespace DbPlanBench.Optimize

/-! ## Plans and patches -/

/-- What the calls of a benchmark share. -/
structure BenchmarkRun where
  dataFolder : String
  nRuns : Int
  maxEvalWorkers : Json
  kwargs : Kwargs

/-- The checks of `benchmark_plans`, and what it then calls `worker` with. -/
def benchmarkSetup (env : Env) (dataset : String) (scaleFactor nRuns maxWorkers : Int)
    (args : Kwargs) : Except PyErr BenchmarkRun := do
  let execLocal := kwarg args "exec_local" (.bool false)
  let kwargs := without ["output_file", "max_eval_workers", "get_full_metrics", "exec_local"] args
  if maxWorkers < 1 then .error (.valueError "max_workers must be >= 1")
  else if nRuns < 1 then .error (.valueError "n_runs must be >= 1")
  else do
    let runnerKwargs ← copyRunnerKwargs kwargs
    let runnerKwargs ← withScale "runner_kwargs['scale_factor']" (.int scaleFactor) runnerKwargs
    let kwargs := OrdDict.set kwargs "runner_kwargs" (.obj runnerKwargs)
    let kwargs ← (if (kwarg args "get_full_metrics" (.bool false)).truthy then setFullMetrics kwargs
      else .ok kwargs)
    (if execLocal.truthy then ensureLocalData env dataset scaleFactor else .ok ())
    return {
      dataFolder := dataFolderForDataset env dataset execLocal.truthy (.int scaleFactor)
      nRuns
      maxEvalWorkers := kwarg args "max_eval_workers" (.int 8)
      kwargs := OrdDict.set kwargs "exec_local" execLocal }

/-- The arguments of a call of `worker`. -/
structure Job where
  planIdx : Nat
  patchIdx : Nat
  basePlan : Option Json
  patchOps : Option (List Json)

/-- The calls that are submitted. -/
def jobs (plans : List PatchedPlan) : List Job :=
  plans.zipIdx.flatMap fun p => p.1.patch.zipIdx.map fun ops => ⟨p.2, ops.2, p.1.basePlan, ops.1⟩

/-- `worker`. -/
def runJob (env : Env) (run : BenchmarkRun) (job : Job) : Except PyErr Kwargs :=
  (benchmarkOne env (.basePlan job.planIdx job.patchIdx) job.basePlan job.patchOps run.dataFolder
    run.nRuns run.maxEvalWorkers run.kwargs).result

/-- `benchmark_plans`, with its pool. -/
def benchmarkPlansPooled (env : Env) (order : Slots.Order) (plans : List PatchedPlan)
    (dataset : String) (scaleFactor nRuns maxWorkers : Int) (args : Kwargs) :
    Except PyErr (List (List Kwargs)) := do
  let run ← benchmarkSetup env dataset scaleFactor nRuns maxWorkers args
  (Slots.reorder order (jobs plans)).foldlM (fun results job => do
    let measurement ← runJob env run job
    return Slots.store [] results (job.planIdx, job.patchIdx) measurement)
    (List.replicate plans.length [])

/-! ## Planning -/

/-- The checks of `get_engine_plans`, and the folder and arguments of its operations. -/
def planningSetup (env : Env) (dataset : String) (scaleFactor maxWorkers : Int) (args : Kwargs) :
    Except PyErr (String × Kwargs) := do
  let execLocal := kwarg args "exec_local" (.bool false)
  let kwargs := without ["exec_local"] args
  if maxWorkers < 1 then .error (.valueError "max_workers must be >= 1")
  else do
    let runnerKwargs ← copyRunnerKwargs kwargs
    let runnerKwargs ← withScale "runner_kwargs['scale_factor']" (.int scaleFactor) runnerKwargs
    (if execLocal.truthy then ensureLocalData env dataset scaleFactor else .ok ())
    return (dataFolderForDataset env dataset execLocal.truthy (.int scaleFactor),
      OrdDict.set (OrdDict.set kwargs "runner_kwargs" (.obj runnerKwargs)) "exec_local" execLocal)

/-- `_plan_worker`. -/
def planWorker (env : Env) (dataFolder : String) (kwargs : Kwargs) (p : String × Nat) :
    Submits (Option Json × Option String) := do
  let args ← Logged.lift (callKwargs ["operation", "input_str", "data_folder"] [] kwargs)
  let result ← submitRunOperation env (.query p.2) 0 .plan (.str p.1) dataFolder args
  Logged.lift (planOutcome env result)

/-- `get_engine_plans`, with its pool: the plans and the errors, which start as `None`. -/
def getEnginePlansPooled (env : Env) (order : Slots.Order) (queries : List String)
    (dataset : String) (scaleFactor maxWorkers : Int) (args : Kwargs) :
    Except PyErr (List (Option Json × Option String)) := do
  if queries = [] then .error (.valueError "queries must not be empty")
  else do
    let run ← planningSetup env dataset scaleFactor maxWorkers args
    let slots ← Slots.fill (fun p => do
      let outcome ← (planWorker env run.1 run.2 p).result
      return (p.2, outcome)) (Slots.reorder order queries.zipIdx)
      (List.replicate queries.length none)
    return slots.map fun slot => slot.getD (none, none)

/-! ## Queries -/

/-- A plan without an error; JSON's `null` is `None`. -/
def isPlanned (p : Option Json × Option String) : Bool :=
  p.1 ≠ none && p.1 ≠ some .null && p.2 = none

/-- `[{"error": f"planning_failed: {error}"}]` where there is an error. -/
def planningFailure (p : Option Json × Option String) : List Kwargs :=
  match p.2 with
  | some err => [[("error", .str ("planning_failed: " ++ err))]]
  | none => []

/-- `results[original_idx] = benchmark_result.results[delegate_idx]`. -/
def bringBackOne (benchmarked results : List (List Kwargs)) (p : Nat × Nat) :
    Except PyErr (List (List Kwargs)) :=
  match benchmarked[p.2]? with
  | some row => .ok (results.set p.1 row)
  | none => .error .indexError

/-- The results of the plans that were benchmarked, at the positions of their queries. -/
def bringBack (successful : List Nat) (benchmarked results : List (List Kwargs)) :
    Except PyErr (List (List Kwargs)) :=
  successful.zipIdx.foldlM (bringBackOne benchmarked) results

/-- The checks of `benchmark_queries`, and its keyword arguments. -/
def queriesSetup (queries : List String) (scaleFactor nRuns maxWorkers : Int) (args : Kwargs) :
    Except PyErr Kwargs := do
  let kwargs := without ["output_file", "max_eval_workers", "get_full_metrics", "exec_local"] args
  if queries = [] then .error (.valueError "queries must not be empty")
  else if maxWorkers < 1 then .error (.valueError "max_workers must be >= 1")
  else if nRuns < 1 then .error (.valueError "n_runs must be >= 1")
  else do
    let runnerKwargs ← copyRunnerKwargs kwargs
    let runnerKwargs ← withScale "runner_kwargs['scale_factor']" (.int scaleFactor) runnerKwargs
    return OrdDict.set kwargs "runner_kwargs" (.obj runnerKwargs)

/-- The arguments that `benchmark_queries` has for `get_engine_plans`. -/
def planningArgs (args kwargs : Kwargs) : Kwargs :=
  ("exec_local", kwarg args "exec_local" (.bool false)) :: kwargs

/-- And those for `benchmark_plans`. -/
def benchmarkArgs (args kwargs : Kwargs) : Kwargs :=
  ("output_file", .null) :: ("max_eval_workers", kwarg args "max_eval_workers" (.int 8)) ::
    ("get_full_metrics", kwarg args "get_full_metrics" (.bool false)) ::
    ("exec_local", kwarg args "exec_local" (.bool false)) :: kwargs

/-- `benchmark_queries`. -/
def benchmarkQueries (env : Env) (planOrder benchmarkOrder : Slots.Order) (queries : List String)
    (dataset : String) (scaleFactor nRuns maxWorkers : Int) (args : Kwargs) :
    Except PyErr (List (List Kwargs)) := do
  let kwargs ← queriesSetup queries scaleFactor nRuns maxWorkers args
  let planned ← getEnginePlansPooled env planOrder queries dataset scaleFactor maxWorkers
    (planningArgs args kwargs)
  let successful := planned.zipIdx.filter fun p => isPlanned p.1
  let results := planned.map planningFailure
  if successful = [] then return results
  else do
    let benchmarked ← benchmarkPlansPooled env benchmarkOrder
      (successful.map fun p => ⟨p.1.1, [some []]⟩) dataset scaleFactor nRuns maxWorkers
      (benchmarkArgs args kwargs)
    bringBack (successful.map (·.2)) benchmarked results

/-! ## Entries of patches -/

theorem exists_benchmarkOne (env : Env) (site : Site) (basePlan : Option Json)
    (patchOps : Option (List Json)) (dataFolder : String) (nRuns : Int) (maxEvalWorkers : Json)
    (kwargs : Kwargs) : ∃ m, (benchmarkOne env site basePlan patchOps dataFolder nRuns maxEvalWorkers
      kwargs).result = .ok m := by
  unfold benchmarkOne
  cases patchedPlan env basePlan patchOps with
  | error m => exact ⟨m, rfl⟩
  | ok plan =>
    simp only [Logged.result_attempt_bind]
    split
    next m _ => exact ⟨m, rfl⟩
    next => exact ⟨_, rfl⟩

theorem mem_jobs {plans : List PatchedPlan} {job : Job} :
    job ∈ jobs plans ↔ ∃ plan, plans[job.planIdx]? = some plan ∧
      plan.patch[job.patchIdx]? = some job.patchOps ∧ job.basePlan = plan.basePlan := by
  obtain ⟨i, j, basePlan, ops⟩ := job
  simp only [jobs, List.mem_flatMap, List.mem_map, Prod.exists, List.mem_zipIdx_iff_getElem?,
    Job.mk.injEq]
  constructor
  · intro h
    obtain ⟨plan, i', hplan, ops', j', hops, rfl, rfl, rfl, rfl⟩ := h
    exact ⟨plan, hplan, hops, rfl⟩
  · intro h
    obtain ⟨plan, hplan, hops, rfl⟩ := h
    exact ⟨plan, i, hplan, ops, j, hops, rfl, rfl, rfl, rfl⟩

/-- A job is the only one for its place. -/
theorem eq_of_mem_jobs {plans : List PatchedPlan} {job job' : Job} (h : job ∈ jobs plans)
    (h' : job' ∈ jobs plans) (hplan : job.planIdx = job'.planIdx)
    (hpatch : job.patchIdx = job'.patchIdx) : job = job' := by
  obtain ⟨plan, hp, hops, hbase⟩ := mem_jobs.mp h
  obtain ⟨plan', hp', hops', hbase'⟩ := mem_jobs.mp h'
  obtain ⟨i, j, basePlan, ops⟩ := job
  obtain ⟨i', j', basePlan', ops'⟩ := job'
  dsimp only at hplan hpatch hp hp' hops hops' hbase hbase'
  subst hplan hpatch
  obtain rfl := Option.some.inj (hp.symm.trans hp')
  obtain rfl := Option.some.inj (hops.symm.trans hops')
  rw [hbase, hbase']

/-- Every patch has one entry, which is its own measurement. -/
structure PlansAligned (env : Env) (run : BenchmarkRun) (plans : List PatchedPlan)
    (results : List (List Kwargs)) : Prop where
  length : results.length = plans.length
  rows : ∀ (i : Nat) (plan : PatchedPlan) (row : List Kwargs), plans[i]? = some plan →
    results[i]? = some row → row.length = plan.patch.length
  entries : ∀ (i j : Nat) (plan : PatchedPlan) (row : List Kwargs) (ops : Option (List Json)),
    plans[i]? = some plan → results[i]? = some row → plan.patch[j]? = some ops →
    ∃ m, row[j]? = some m ∧ runJob env run ⟨i, j, plan.basePlan, ops⟩ = .ok m

/-- **The pool is aligned whatever its order**, and returns when the checks pass. -/
theorem benchmarkPlansPooled_spec {env : Env} (order : Slots.Order) (plans : List PatchedPlan)
    {dataset : String} {scaleFactor nRuns maxWorkers : Int} {args : Kwargs} {run : BenchmarkRun}
    (hrun : benchmarkSetup env dataset scaleFactor nRuns maxWorkers args = .ok run) :
    ∃ results, benchmarkPlansPooled env order plans dataset scaleFactor nRuns maxWorkers args =
      .ok results ∧ PlansAligned env run plans results := by
  choose value hvalue using fun job : Job => exists_benchmarkOne env
    (.basePlan job.planIdx job.patchIdx) job.basePlan job.patchOps run.dataFolder run.nRuns
    run.maxEvalWorkers run.kwargs
  have hperm := Slots.reorder_perm order (jobs plans)
  obtain ⟨hlength, hstored⟩ := Slots.stored_foldl
    (fun job : Job => (job.planIdx, job.patchIdx)) value [] plans.length
    (Slots.reorder order (jobs plans))
    fun job hjob job' hjob' hpos => congrArg value (eq_of_mem_jobs (hperm.mem_iff.mp hjob)
      (hperm.mem_iff.mp hjob') (congrArg Prod.fst hpos) (congrArg Prod.snd hpos))
  refine ⟨_, ?_, hlength, ?_, ?_⟩
  · rw [benchmarkPlansPooled, hrun, Except.ok_bind]
    exact Except.foldlM_ok (fun results job => by rw [runJob, hvalue]; rfl) _ _
  · intro i plan row hplan hrow
    have hlt : ∀ j, j < row.length ↔ j < plan.patch.length := by
      intro j
      rw [(hstored i row hrow).length j]
      constructor
      · intro h
        obtain ⟨job, hjob, rfl, hj⟩ := h
        obtain ⟨plan', hplan', hops, _⟩ := mem_jobs.mp (hperm.mem_iff.mp hjob)
        obtain rfl := Option.some.inj (hplan.symm.trans hplan')
        exact Nat.lt_of_le_of_lt hj (List.getElem?_eq_some_iff.mp hops).1
      · intro hj
        exact ⟨⟨i, j, plan.basePlan, plan.patch[j]⟩, hperm.mem_iff.mpr
          (mem_jobs.mpr ⟨plan, hplan, List.getElem?_eq_getElem hj, rfl⟩), rfl, Nat.le_refl _⟩
    have := hlt row.length
    have := hlt plan.patch.length
    omega
  · intro i j plan row ops hplan hrow hops
    exact ⟨value ⟨i, j, plan.basePlan, ops⟩, (hstored i row hrow).entry ⟨i, j, plan.basePlan, ops⟩
      (hperm.mem_iff.mpr (mem_jobs.mpr ⟨plan, hplan, hops, rfl⟩)) rfl, hvalue _⟩

/-- A benchmark without a pool. -/
theorem result_benchmarkPlans (env : Env) (plans : List PatchedPlan) (dataset : String)
    (scaleFactor nRuns maxWorkers : Int) (args : Kwargs) :
    (benchmarkPlans env plans dataset scaleFactor nRuns maxWorkers args).result =
      (benchmarkSetup env dataset scaleFactor nRuns maxWorkers args) >>= fun run =>
        (Logged.forEach (fun p => Logged.forEach (fun ops =>
          benchmarkOne env (.basePlan p.2 ops.2) p.1.basePlan ops.1 run.dataFolder run.nRuns
            run.maxEvalWorkers run.kwargs) p.1.patch.zipIdx) plans.zipIdx :
          Submits (List (List Kwargs))).result := by
  unfold benchmarkPlans benchmarkSetup
  dsimp only
  split
  next => rfl
  next =>
    split
    next => rfl
    next =>
      simp only [Logged.result_bind_eq, Logged.lift, bind_assoc]
      rfl

/-- There is one way to be aligned. -/
theorem PlansAligned.unique {env : Env} {run : BenchmarkRun} {plans : List PatchedPlan}
    {results results' : List (List Kwargs)} (h : PlansAligned env run plans results)
    (h' : PlansAligned env run plans results') : results = results' := by
  refine List.ext_getElem (h.length.trans h'.length.symm) fun i hi hi' => ?_
  have hplan := List.getElem?_eq_getElem (h.length ▸ hi)
  have hrow := List.getElem?_eq_getElem hi
  have hrow' := List.getElem?_eq_getElem hi'
  have hlen := h.rows i _ _ hplan hrow
  have hlen' := h'.rows i _ _ hplan hrow'
  refine List.ext_getElem (hlen.trans hlen'.symm) fun j hj hj' => ?_
  have hops := List.getElem?_eq_getElem (hlen ▸ hj)
  obtain ⟨m, hm, hrun⟩ := h.entries i j _ _ _ hplan hrow hops
  obtain ⟨m', hm', hrun'⟩ := h'.entries i j _ _ _ hplan hrow' hops
  obtain rfl := Except.ok.inj (hrun.symm.trans hrun')
  exact (List.getElem_eq_iff hj).mpr hm |>.trans ((List.getElem_eq_iff hj').mpr hm').symm

/-- **The pool returns what a loop over plans and patches does**, whatever its order. -/
theorem benchmarkPlansPooled_eq (env : Env) (order : Slots.Order) (plans : List PatchedPlan)
    (dataset : String) (scaleFactor nRuns maxWorkers : Int) (args : Kwargs) :
    benchmarkPlansPooled env order plans dataset scaleFactor nRuns maxWorkers args =
      (benchmarkPlans env plans dataset scaleFactor nRuns maxWorkers args).result := by
  rw [result_benchmarkPlans]
  cases hrun : benchmarkSetup env dataset scaleFactor nRuns maxWorkers args with
  | error e => rw [benchmarkPlansPooled, hrun, Except.error_bind, Except.error_bind]
  | ok run =>
    obtain ⟨results, hresults, haligned⟩ := benchmarkPlansPooled_spec order plans hrun
    choose value hvalue using fun job : Job => exists_benchmarkOne env
      (.basePlan job.planIdx job.patchIdx) job.basePlan job.patchOps run.dataFolder run.nRuns
      run.maxEvalWorkers run.kwargs
    have hloop := Logged.result_forEach (l := plans.zipIdx) fun p _ =>
      Logged.result_forEach (l := p.1.patch.zipIdx) fun ops _ =>
        hvalue ⟨p.2, ops.2, p.1.basePlan, ops.1⟩
    rw [hresults, Except.ok_bind, hloop]
    refine congrArg Except.ok (haligned.unique ⟨by simp, fun i plan row hplan hrow => ?_,
      fun i j plan row ops hplan hrow hops => ?_⟩)
    · rw [List.getElem?_map, List.getElem?_zipIdx, hplan] at hrow
      obtain rfl := Option.some.inj hrow
      rw [List.length_map, List.length_zipIdx]
    · rw [List.getElem?_map, List.getElem?_zipIdx, hplan] at hrow
      obtain rfl := Option.some.inj hrow
      refine ⟨value ⟨i, j, plan.basePlan, ops⟩, ?_, hvalue _⟩
      simp [hops]

/-! ## Plans of queries -/

/-- What is planned for the queries, each by its own call. -/
def Planned (env : Env) (planning : String × Kwargs) (queries : List String)
    (planned : List (Option Json × Option String)) : Prop :=
  (queries.zipIdx.mapM fun p => (planWorker env planning.1 planning.2 p).result) = .ok planned

/-- **The pool of `get_engine_plans` is aligned whatever its order.** -/
theorem getEnginePlansPooled_eq_ok {env : Env} (order : Slots.Order) {queries : List String}
    {dataset : String} {scaleFactor maxWorkers : Int} {args : Kwargs} {planning : String × Kwargs}
    (hqueries : queries ≠ [])
    (hplanning : planningSetup env dataset scaleFactor maxWorkers args = .ok planning)
    {planned : List (Option Json × Option String)} :
    getEnginePlansPooled env order queries dataset scaleFactor maxWorkers args = .ok planned ↔
      Planned env planning queries planned := by
  have hrun : ∀ p : String × Nat, (do
      let outcome ← (planWorker env planning.1 planning.2 p).result
      return (p.2, outcome) : Except PyErr (Nat × (Option Json × Option String))) =
        ((planWorker env planning.1 planning.2 p).result).map fun outcome => (p.2, outcome) := by
    intro p
    cases (planWorker env planning.1 planning.2 p).result <;> rfl
  rw [getEnginePlansPooled, if_neg hqueries, hplanning, Except.ok_bind, Except.bind_eq_ok]
  simp only [Slots.fill_zipIdx_eq_ok hrun (Slots.reorder_perm order queries.zipIdx)]
  constructor
  · intro h
    obtain ⟨slots, ⟨outcomes, houtcomes, rfl⟩, h⟩ := h
    rw [List.map_map] at h
    injection h with h
    rw [← h]
    exact houtcomes.trans (congrArg Except.ok (List.map_id outcomes).symm)
  · intro hplanned
    refine ⟨_, ⟨planned, hplanned, rfl⟩, ?_⟩
    rw [List.map_map]
    exact congrArg Except.ok (List.map_id planned)

theorem gather_eq_ok {α : Type} {env : Env} {outcomes : List (Except PyErr α)} {l : List α} :
    gather env outcomes = .ok l ↔ outcomes.mapM id = .ok l := by
  rw [gather, Except.bind_eq_ok]
  constructor
  · intro h
    obtain ⟨_, _, h⟩ := h
    exact h
  · intro h
    obtain ⟨l', hl'⟩ := Except.exists_mapM_ok (f := id) (l := inQueryOrder env outcomes)
      fun x hx => by
      obtain ⟨a, _, ha⟩ := Except.ok_of_mapM h x (mem_inQueryOrder hx)
      exact ⟨a, ha⟩
    exact ⟨l', hl', h⟩

/-! ## Entries of queries -/

/-- The text of a plan is a document, and not `null`. -/
def EngineSerializes (env : Env) : Prop :=
  ∀ (i : Nat) (fields : Kwargs) (text : String), env.answer (.query i) .plan 0 = .ok fields →
    kwarg fields "plan" .null = .str text → env.loads text ≠ some .null

/-- The indices of the queries that are benchmarked. -/
def successfulIndices (planned : List (Option Json × Option String)) : List Nat :=
  (planned.zipIdx.filter fun p => isPlanned p.1).map (·.2)

/-- The entry of query `i`: the error of its planning, or the measurement of its own plan, which has
the number that the query has among those that were planned. -/
inductive QueryEntry (env : Env) (setup : Except PyErr BenchmarkRun) (successful : List Nat)
    (i : Nat) : Option Json × Option String → List Kwargs → Prop where
  | failed (err : String) : QueryEntry env setup successful i (none, some err)
      [[("error", .str ("planning_failed: " ++ err))]]
  | measured {run : BenchmarkRun} {d : Nat} {plan : Json} {m : Kwargs} (hrun : setup = .ok run)
      (hd : successful[d]? = some i) (hm : runJob env run ⟨d, 0, some plan, some []⟩ = .ok m) :
      QueryEntry env setup successful i (some plan, none) [m]

/-- Every query has one entry. -/
structure QueriesAligned (env : Env) (setup : Except PyErr BenchmarkRun)
    (planned : List (Option Json × Option String)) (queries : List String)
    (results : List (List Kwargs)) : Prop where
  length : results.length = queries.length
  entries : ∀ (i : Nat) (row : List Kwargs), results[i]? = some row → ∃ outcome,
    planned[i]? = some outcome ∧ QueryEntry env setup (successfulIndices planned) i outcome row

/-- A plan that is not `None`, or an error. -/
theorem planOutcome_cases {env : Env} {fields : Kwargs} {outcome : Option Json × Option String}
    (hnull : ∀ text, kwarg fields "plan" .null = .str text → env.loads text ≠ some .null)
    (h : planOutcome env fields = .ok outcome) :
    (∃ err, outcome = (none, some err)) ∨ ∃ plan, outcome = (some plan, none) ∧ plan ≠ .null := by
  unfold planOutcome at h
  split at h
  next =>
    injection h with h
    exact Or.inl ⟨_, h.symm⟩
  next =>
    split at h
    next =>
      injection h with h
      exact Or.inl ⟨_, h.symm⟩
    next =>
      dsimp only at h
      split at h
      next =>
        injection h with h
        exact Or.inl ⟨_, h.symm⟩
      next htruthy =>
        split at h
        next text htext =>
          split at h
          next p hp =>
            injection h with h
            exact Or.inr ⟨p, h.symm, fun hp' => hnull text htext (hp' ▸ hp)⟩
          next => exact absurd h (by simp)
        next p _ =>
          injection h with h
          refine Or.inr ⟨_, h.symm, fun hp => htruthy ?_⟩
          rw [hp]
          rfl

/-- What a call of `_plan_worker` returns is the outcome of the engine's answer. -/
theorem planWorker_cases {env : Env} (hengine : EngineSerializes env) {dataFolder : String}
    {kwargs : Kwargs} {p : String × Nat} {outcome : Option Json × Option String}
    (h : (planWorker env dataFolder kwargs p).result = .ok outcome) :
    (∃ err, outcome = (none, some err)) ∨ ∃ plan, outcome = (some plan, none) ∧ plan ≠ .null := by
  obtain ⟨args, _, h⟩ := Logged.result_bind.mp h
  obtain ⟨fields, hfields, h⟩ := Logged.result_bind.mp h
  refine planOutcome_cases (fun text htext => hengine p.2 fields text ?_ htext) h
  unfold submitRunOperation at hfields
  dsimp only at hfields
  split at hfields
  next => exact absurd hfields (by simp [Logged.lift])
  next =>
    obtain ⟨_, _, hfields⟩ := Logged.result_bind.mp hfields
    exact Except.mapError_eq_ok.mp hfields

/-- The benchmarked plans are brought back to the places in the list, and nothing else changes. -/
theorem foldlM_bringBackOne (benchmarked : List (List Kwargs)) : ∀ {successful : List Nat} (k : Nat)
    (results : List (List Kwargs)), successful.Nodup → k + successful.length ≤ benchmarked.length →
    ∃ r, (successful.zipIdx k).foldlM (bringBackOne benchmarked) results = .ok r ∧
      r.length = results.length ∧ (∀ i, i ∉ successful → r[i]? = results[i]?) ∧
      ∀ d i, successful[d]? = some i → i < results.length → r[i]? = benchmarked[k + d]?
  | [], k, results, _, _ => ⟨results, rfl, rfl, fun _ _ => rfl, fun d i h => absurd h (by simp)⟩
  | a :: successful, k, results, hnodup, hlen => by
    obtain ⟨ha, hnodup⟩ := List.nodup_cons.mp hnodup
    rw [List.length_cons] at hlen
    obtain ⟨row, hrow⟩ : ∃ row, benchmarked[k]? = some row :=
      ⟨_, List.getElem?_eq_getElem (by omega)⟩
    obtain ⟨r, hr, hlength, hother, hown⟩ := foldlM_bringBackOne benchmarked (k + 1)
      (results.set a row) hnodup (by omega)
    rw [List.length_set] at hlength hown
    refine ⟨r, ?_, hlength, fun i hi => ?_, fun d i hd hi => ?_⟩
    · rw [List.zipIdx_cons, List.foldlM_cons, bringBackOne, hrow]
      exact hr
    · obtain ⟨hia, hi⟩ := not_or.mp (mt List.mem_cons.mpr hi)
      rw [hother i hi, List.getElem?_set_ne (Ne.symm hia)]
    · cases d with
      | zero =>
        obtain rfl := Option.some.inj hd
        rw [hother a ha, List.getElem?_set_self hi, Nat.add_zero, hrow]
      | succ d =>
        rw [hown d i hd hi, Nat.add_right_comm, Nat.add_assoc]

section

variable {planned : List (Option Json × Option String)}

theorem getElem?_of_successfulIndices {d i : Nat} (h : (successfulIndices planned)[d]? = some i) :
    ∃ outcome, (planned.zipIdx.filter fun p => isPlanned p.1)[d]? = some (outcome, i) ∧
      planned[i]? = some outcome ∧ isPlanned outcome = true := by
  rw [successfulIndices, List.getElem?_map] at h
  obtain ⟨⟨outcome, i'⟩, hp, rfl⟩ := Option.map_eq_some_iff.mp h
  obtain ⟨hmem, hplanned⟩ := List.mem_filter.mp (List.mem_of_getElem? hp)
  exact ⟨outcome, hp, List.mem_zipIdx_iff_getElem?.mp hmem, hplanned⟩

theorem mem_successfulIndices {i : Nat} : i ∈ successfulIndices planned ↔
    ∃ outcome, planned[i]? = some outcome ∧ isPlanned outcome = true := by
  constructor
  · intro h
    obtain ⟨d, hd⟩ := List.getElem?_of_mem h
    obtain ⟨outcome, _, hrest⟩ := getElem?_of_successfulIndices hd
    exact ⟨outcome, hrest⟩
  · intro h
    obtain ⟨outcome, hi, hplanned⟩ := h
    exact List.mem_map.mpr ⟨(outcome, i), List.mem_filter.mpr
      ⟨List.mem_zipIdx_iff_getElem?.mpr hi, hplanned⟩, rfl⟩

theorem nodup_successfulIndices (planned : List (Option Json × Option String)) :
    (successfulIndices planned).Nodup := by
  have h : (planned.zipIdx.map (·.2)).Nodup := by
    rw [List.zipIdx_map_snd]
    exact List.nodup_range'
  exact h.sublist (List.filter_sublist.map _)

/-- The outcomes of planning that there are. -/
def EachDecided (planned : List (Option Json × Option String)) : Prop :=
  ∀ outcome ∈ planned, (∃ err, outcome = (none, some err)) ∨
    ∃ plan, outcome = (some plan, none) ∧ plan ≠ .null

variable {env : Env} {setup : Except PyErr BenchmarkRun} {queries : List String}

/-- The entries of the queries that were not planned. -/
theorem entry_of_failed (hdecided : EachDecided planned) {i : Nat}
    {outcome : Option Json × Option String} (hi : planned[i]? = some outcome)
    (hout : i ∉ successfulIndices planned) :
    QueryEntry env setup (successfulIndices planned) i outcome (planningFailure outcome) := by
  rcases hdecided outcome (List.mem_of_getElem? hi) with ⟨err, rfl⟩ | ⟨plan, rfl, hplan⟩
  · exact .failed err
  · exact absurd (mem_successfulIndices.mpr ⟨_, hi, by simp [isPlanned, hplan]⟩) hout

/-- **Results that are brought back are aligned.** -/
theorem bringBack_aligned {run : BenchmarkRun} {benchmarked : List (List Kwargs)}
    (hlength : planned.length = queries.length) (hdecided : EachDecided planned)
    (hrun : setup = .ok run)
    (hplans : PlansAligned env run ((planned.zipIdx.filter fun p => isPlanned p.1).map
      fun p => ⟨p.1.1, [some []]⟩) benchmarked) :
    ∃ results, bringBack (successfulIndices planned) benchmarked (planned.map planningFailure) =
      .ok results ∧ QueriesAligned env setup planned queries results := by
  have hsize : benchmarked.length = (successfulIndices planned).length := by
    rw [hplans.length, successfulIndices, List.length_map, List.length_map]
  obtain ⟨results, hresults, hlen, hother, hown⟩ := foldlM_bringBackOne benchmarked 0
    (planned.map planningFailure) (nodup_successfulIndices planned)
    (Nat.le_of_eq ((Nat.zero_add _).trans hsize.symm))
  rw [List.length_map] at hlen hown
  refine ⟨results, hresults, hlen.trans hlength, fun i row hrow => ?_⟩
  obtain ⟨outcome, hi⟩ : ∃ outcome, planned[i]? = some outcome :=
    ⟨_, List.getElem?_eq_getElem (hlen ▸ (List.getElem?_eq_some_iff.mp hrow).1)⟩
  refine ⟨outcome, hi, ?_⟩
  by_cases hmem : i ∈ successfulIndices planned
  · obtain ⟨d, hd⟩ := List.getElem?_of_mem hmem
    obtain ⟨outcome', hsub, hi', hplanned⟩ := getElem?_of_successfulIndices hd
    obtain rfl := Option.some.inj (hi.symm.trans hi')
    rw [hown d i hd (List.getElem?_eq_some_iff.mp hi).1, Nat.zero_add] at hrow
    rcases hdecided outcome (List.mem_of_getElem? hi) with ⟨err, rfl⟩ | ⟨plan, rfl, _⟩
    · exact absurd hplanned (by simp [isPlanned])
    · -- the row of a plan with one patch has one entry
      have hplan : ((planned.zipIdx.filter fun p => isPlanned p.1).map
          fun p => (⟨p.1.1, [some []]⟩ : PatchedPlan))[d]? = some ⟨some plan, [some []]⟩ := by
        rw [List.getElem?_map, hsub]
        rfl
      obtain ⟨m, hm, hmeasured⟩ := hplans.entries d 0 _ row (some []) hplan hrow rfl
      obtain ⟨m', rfl⟩ := List.length_eq_one_iff.mp (hplans.rows d _ row hplan hrow)
      obtain rfl := Option.some.inj hm
      exact .measured hrun hd hmeasured
  · rw [hother i hmem, List.getElem?_map, hi] at hrow
    obtain rfl := Option.some.inj hrow
    exact entry_of_failed hdecided hi hmem

end

theorem Planned.decided {env : Env} (hengine : EngineSerializes env) {planning : String × Kwargs}
    {queries : List String} {planned : List (Option Json × Option String)}
    (h : Planned env planning queries planned) : EachDecided planned := by
  intro outcome ho
  obtain ⟨p, _, hp⟩ := Except.mem_of_mapM h ho
  exact planWorker_cases hengine hp

theorem Planned.length {env : Env} {planning : String × Kwargs} {queries : List String}
    {planned : List (Option Json × Option String)} (h : Planned env planning queries planned) :
    planned.length = queries.length := by
  have hforall := (Except.mapM_eq_ok.mp h).length_eq
  rw [List.length_zipIdx] at hforall
  exact hforall.symm

/-- When no query was planned, all of them failed. -/
theorem aligned_of_none_planned {env : Env} {setup : Except PyErr BenchmarkRun}
    {planned : List (Option Json × Option String)} {queries : List String}
    (hlength : planned.length = queries.length) (hdecided : EachDecided planned)
    (hnone : (planned.zipIdx.filter fun p => isPlanned p.1) = []) :
    QueriesAligned env setup planned queries (planned.map planningFailure) where
  length := by rw [List.length_map, hlength]
  entries i row hrow := by
    rw [List.getElem?_map] at hrow
    obtain ⟨outcome, hi, rfl⟩ := Option.map_eq_some_iff.mp hrow
    refine ⟨outcome, hi, entry_of_failed hdecided hi ?_⟩
    rw [successfulIndices, hnone]
    exact List.not_mem_nil

section

variable {env : Env} {planOrder benchmarkOrder : Slots.Order} {dataset : String}
  {scaleFactor nRuns maxWorkers : Int} {args : Kwargs}

theorem benchmarkPlansPooled_aligned {plans : List PatchedPlan} {results : List (List Kwargs)}
    (h : benchmarkPlansPooled env benchmarkOrder plans dataset scaleFactor nRuns maxWorkers args =
      .ok results) :
    ∃ run, benchmarkSetup env dataset scaleFactor nRuns maxWorkers args = .ok run ∧
      PlansAligned env run plans results := by
  obtain ⟨run, hrun, _⟩ := Except.bind_eq_ok.mp h
  obtain ⟨results', hresults', haligned⟩ := benchmarkPlansPooled_spec benchmarkOrder plans hrun
  obtain rfl := Except.ok.inj (h.symm.trans hresults')
  exact ⟨run, hrun, haligned⟩

/-- The checks of a planning that returned. -/
theorem planningSetup_of_ok {queries : List String} {planned : List (Option Json × Option String)}
    (h : getEnginePlansPooled env planOrder queries dataset scaleFactor maxWorkers args =
      .ok planned) :
    queries ≠ [] ∧
      ∃ planning, planningSetup env dataset scaleFactor maxWorkers args = .ok planning := by
  unfold getEnginePlansPooled at h
  split at h
  next => exact absurd h (by simp)
  next hqueries =>
    obtain ⟨planning, hplanning, _⟩ := Except.bind_eq_ok.mp h
    exact ⟨hqueries, planning, hplanning⟩

theorem ne_nil_of_queriesSetup {queries : List String} {kwargs : Kwargs}
    (h : queriesSetup queries scaleFactor nRuns maxWorkers args = .ok kwargs) : queries ≠ [] := by
  rintro rfl
  exact absurd (show Except.error _ = Except.ok kwargs from h) (by simp)

theorem benchmarkQueries_aligned (hengine : EngineSerializes env) {queries : List String}
    {results : List (List Kwargs)}
    (h : benchmarkQueries env planOrder benchmarkOrder queries dataset scaleFactor nRuns maxWorkers
      args = .ok results) :
    ∃ kwargs planning planned,
      queriesSetup queries scaleFactor nRuns maxWorkers args = .ok kwargs ∧
      planningSetup env dataset scaleFactor maxWorkers (planningArgs args kwargs) = .ok planning ∧
      Planned env planning queries planned ∧
      QueriesAligned env (benchmarkSetup env dataset scaleFactor nRuns maxWorkers
        (benchmarkArgs args kwargs)) planned queries results := by
  obtain ⟨kwargs, hkwargs, h⟩ := Except.bind_eq_ok.mp h
  obtain ⟨planned, hpooled, h⟩ := Except.bind_eq_ok.mp h
  obtain ⟨hqueries, planning, hplanning⟩ := planningSetup_of_ok hpooled
  have hplanned := (getEnginePlansPooled_eq_ok _ hqueries hplanning).mp hpooled
  refine ⟨kwargs, planning, planned, hkwargs, hplanning, hplanned, ?_⟩
  dsimp only at h
  split at h
  next hnone =>
    obtain rfl := Except.ok.inj h
    exact aligned_of_none_planned hplanned.length (hplanned.decided hengine) hnone
  next =>
    obtain ⟨benchmarked, hbenchmarked, h⟩ := Except.bind_eq_ok.mp h
    obtain ⟨run, hrun, hplans⟩ := benchmarkPlansPooled_aligned hbenchmarked
    obtain ⟨results', hresults', haligned⟩ := bringBack_aligned hplanned.length
      (hplanned.decided hengine) hrun hplans
    obtain rfl := Except.ok.inj (h.symm.trans hresults')
    exact haligned

theorem benchmarkQueries_returns (hengine : EngineSerializes env) {queries : List String}
    {kwargs : Kwargs} {planning : String × Kwargs} {planned : List (Option Json × Option String)}
    {run : BenchmarkRun}
    (hkwargs : queriesSetup queries scaleFactor nRuns maxWorkers args = .ok kwargs)
    (hplanning : planningSetup env dataset scaleFactor maxWorkers (planningArgs args kwargs) =
      .ok planning)
    (hplanned : Planned env planning queries planned)
    (hrun : benchmarkSetup env dataset scaleFactor nRuns maxWorkers (benchmarkArgs args kwargs) =
      .ok run) :
    ∃ results, benchmarkQueries env planOrder benchmarkOrder queries dataset scaleFactor nRuns
      maxWorkers args = .ok results := by
  have hpooled := (getEnginePlansPooled_eq_ok planOrder (ne_nil_of_queriesSetup hkwargs)
    hplanning).mpr hplanned
  rw [benchmarkQueries, hkwargs, Except.ok_bind, hpooled, Except.ok_bind]
  dsimp only
  split
  next => exact ⟨_, rfl⟩
  next =>
    obtain ⟨benchmarked, hbenchmarked, hplans⟩ := benchmarkPlansPooled_spec benchmarkOrder
      ((planned.zipIdx.filter fun p => isPlanned p.1).map fun p => ⟨p.1.1, [some []]⟩) hrun
    obtain ⟨results, hresults, _⟩ := bringBack_aligned hplanned.length (hplanned.decided hengine)
      hrun hplans
    rw [hbenchmarked, Except.ok_bind]
    exact ⟨results, hresults⟩

end

/-- **Benchmark results stay aligned**, in every order in which the pools complete: every patch has
one entry, its own measurement, and every query has one, the error of its planning or the
measurement of its own plan. Both functions return when their checks pass and no call of a planning
pool raises. -/
theorem benchmark_aligned (env : Env) (hengine : EngineSerializes env)
    (planOrder benchmarkOrder : Slots.Order) (dataset : String)
    (scaleFactor nRuns maxWorkers : Int) (args : Kwargs) :
    (∀ plans results, benchmarkPlansPooled env benchmarkOrder plans dataset scaleFactor nRuns
        maxWorkers args = .ok results →
      ∃ run, benchmarkSetup env dataset scaleFactor nRuns maxWorkers args = .ok run ∧
        PlansAligned env run plans results) ∧
    (∀ plans run, benchmarkSetup env dataset scaleFactor nRuns maxWorkers args = .ok run →
      ∃ results, benchmarkPlansPooled env benchmarkOrder plans dataset scaleFactor nRuns maxWorkers
        args = .ok results) ∧
    (∀ queries results, benchmarkQueries env planOrder benchmarkOrder queries dataset scaleFactor
        nRuns maxWorkers args = .ok results →
      ∃ kwargs planning planned,
        queriesSetup queries scaleFactor nRuns maxWorkers args = .ok kwargs ∧
        planningSetup env dataset scaleFactor maxWorkers (planningArgs args kwargs) = .ok planning ∧
        Planned env planning queries planned ∧
        QueriesAligned env (benchmarkSetup env dataset scaleFactor nRuns maxWorkers
          (benchmarkArgs args kwargs)) planned queries results) ∧
    (∀ queries kwargs planning planned,
      queriesSetup queries scaleFactor nRuns maxWorkers args = .ok kwargs →
      planningSetup env dataset scaleFactor maxWorkers (planningArgs args kwargs) = .ok planning →
      Planned env planning queries planned →
      (∃ run, benchmarkSetup env dataset scaleFactor nRuns maxWorkers (benchmarkArgs args kwargs) =
        .ok run) →
      ∃ results, benchmarkQueries env planOrder benchmarkOrder queries dataset scaleFactor nRuns
        maxWorkers args = .ok results) := by
  refine ⟨fun plans results h => benchmarkPlansPooled_aligned h, fun plans run hrun => ?_,
    fun queries results h => benchmarkQueries_aligned hengine h, ?_⟩
  · obtain ⟨results, hresults, _⟩ := benchmarkPlansPooled_spec benchmarkOrder plans hrun
    exact ⟨results, hresults⟩
  · rintro queries kwargs planning planned hkwargs hplanning hplanned ⟨run, hrun⟩
    exact benchmarkQueries_returns hengine hkwargs hplanning hplanned hrun

/-- One of two queries is planned, and the evaluations of its plan say how long it ran. -/
def firstFails : Env := { baselineLast with
  loads := fun _ => some (.obj [])
  answer := fun site operation _ => match site, operation with
    | .query 0, .plan => .ok [("error", .str "no such table")]
    | _, .plan => .ok [("plan", .str "\x7b\x7d"), ("query", .str "SELECT 1")]
    | _, _ => .ok [("execution_time", .int 1)] }

/-- The same, but for the first query no runner can be built. -/
def firstRaises : Env := { firstFails with
  answer := fun site operation index => match site, operation with
    | .query 0, .plan => .error "Could not connect to the Modal server."
    | _, _ => firstFails.answer site operation index }

/-- The exception leaves the call, and the second query, which is planned, has no entry either. -/
theorem benchmark_planningRaises :
    EngineSerializes firstRaises ∧
    (∃ kwargs planning outcome, queriesSetup ["SELECT 2", "SELECT 1"] 3 3 4 [] = .ok kwargs ∧
      planningSetup firstRaises "tpch" 3 4 (planningArgs [] kwargs) = .ok planning ∧
      (planWorker firstRaises planning.1 planning.2 ("SELECT 1", 1)).result = .ok outcome ∧
      isPlanned outcome = true) ∧
    benchmarkQueries firstRaises (fun _ => Fin.revPerm) (fun _ => Fin.revPerm)
      ["SELECT 2", "SELECT 1"] "tpch" 3 3 4 [] =
        .error (.runtimeError "Could not connect to the Modal server.") := by
  refine ⟨fun _ _ _ _ _ h => absurd h (by simp [firstRaises, firstFails]), ?_, by decide +kernel⟩
  exact ⟨_, _, (some (.obj []), none), rfl, rfl, by decide +kernel, by decide +kernel⟩

/-- The query that fails has its error, and the other one its measurement. -/
theorem benchmark_firstFails :
    (benchmarkQueries firstFails (fun _ => Fin.revPerm) (fun _ => Fin.revPerm)
      ["SELECT", "SELECT 1"] "tpch" 3 3 4 []).toOption = some [
        [[("error", .str "planning_failed: plan_error: ")]],
        [[("n_runs", .int 3), ("benchmark_stats", .obj [("execution_time",
          .obj [("all_runs", .arr [.int 1, .int 1, .int 1])])])]]] ∧
    ∃ results kwargs planned, QueriesAligned firstFails (benchmarkSetup firstFails "tpch" 3 3 4
      (benchmarkArgs [] kwargs)) planned ["SELECT", "SELECT 1"] results := by
  have hengine : EngineSerializes firstFails := fun _ _ _ _ _ h => absurd h (by simp [firstFails])
  have hok : (benchmarkQueries firstFails (fun _ => Fin.revPerm) (fun _ => Fin.revPerm)
      ["SELECT", "SELECT 1"] "tpch" 3 3 4 []).toOption.isSome = true := by decide +kernel
  obtain ⟨results, hresults⟩ := Except.exists_of_isSome hok
  obtain ⟨_, _, haligned, _⟩ := benchmark_aligned firstFails hengine (fun _ => Fin.revPerm)
    (fun _ => Fin.revPerm) "tpch" 3 3 4 []
  obtain ⟨kwargs, _, planned, _, _, _, h⟩ := haligned _ results hresults
  exact ⟨by decide +kernel, results, kwargs, planned, h⟩

end DbPlanBench.Optimize
