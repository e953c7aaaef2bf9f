import DbPlanBench.Optimize.Resumed
import DbPlanBench.Optimize.ScaleFactor

/-!
# One data folder in a run

A run reads one dataset at one scale factor, on Modal or locally, and every
operation it submits should get the folder of these three. Each phase computes the
folder for itself, from its own copy of the arguments: validation, planning and
evaluation from `exec_local` and the scale factor in their keyword arguments, the
benchmark from its parameters.

`_integrate_user_base_plans` leaves both out. So in a local run the plans of the
user are compared with those of the engine on the data of Modal. And keyword arguments
that turn the local mode on themselves do so for their phases only.

* `prepareCall_ok` — what the checks leave in the keyword arguments.
* `mem_optimizeCall_log` — what is submitted is submitted in one of the phases.
* `integrateUserBasePlans_submits` — a user plan is submitted once all queries have plans.
-/

namespace DbPlanBench.Optimize

open Sampling (Fault)

/-- The folder of a call's dataset, mode and scale factor. -/
def requestFolder (env : Env) (req : Request) : String :=
  dataFolderForDataset env req.dataset req.execLocal ((req.scaleFactor.map Json.int).getD .null)

/-- Every operation of the call gets the folder of its dataset, mode and scale factor. -/
def OneFolder (env : Env) (call : Call) (dir : RunDir) : Prop :=
  ∀ s ∈ (optimizeCall env call dir).log, s.dataFolder = requestFolder env call.req

/-! ## The phases of a call -/

section

variable (env : Env) (call : Call) (dir : RunDir) (prepared : Prepared call.req)
  (queries : List String)

/-- The call passes its checks. -/
structure Loaded : Prop where
  prepares : prepareCall env call = .ok prepared
  loads : loadQueries call dir prepared.scaleFactor = .ok queries

/-- No query fails in the first phase. -/
structure AllPlanned (planned : List (Option Json) × List (Option String)) : Prop where
  result : (planningPhase env call dir prepared queries).result = .ok planned
  failures : ∀ failure ∈ planned.2, failure = none

/-- The base plans that the first two phases leave, if nothing fails in them. -/
def BasePlans (plans : List (Option Json)) : Prop :=
  ∃ planned integrated, AllPlanned env call dir prepared queries planned ∧
    (userPlanPhase env call prepared planned).result = .ok integrated ∧
      integrated.userPlanFailures = none ∧ integrated.plans = plans

/-- What the phases submit that run with `evaluation_kwargs`. -/
inductive Measured : Submission → Prop
  | basePlan {s : Submission} {plans : List (Option Json)} :
      BasePlans env call dir prepared queries plans →
        s ∈ (basePhase env call dir prepared queries plans).log → Measured s
  | sample {s : Submission} {plans : List (Option Json)} {base : List Sampling.QueryData} :
      BasePlans env call dir prepared queries plans →
        (basePhase env call dir prepared queries plans).result = .ok (.inr base) →
          s ∈ (samplingPhase env call dir prepared base).log → Measured s

end

section

variable (env : Env) (call : Call) (dir : RunDir)

/-- Queries are validated or planned. -/
def PlansQueries : Prop :=
  ∃ prepared queries, Loaded env call dir prepared queries ∧
    (planningPhase env call dir prepared queries).log ≠ []

/-- Plans of the user are compared with those of the engine: there are some, validation is not
skipped, no prepared dataset is found, and all queries have been validated. -/
def ComparesUserPlans : Prop :=
  call.req.skipValidation = false ∧ baseSamplingData call dir = none ∧
    (∃ plans, call.req.basePlans = some plans ∧ ∃ plan, some plan ∈ plans) ∧
      ∃ prepared queries planned, Loaded env call dir prepared queries ∧
        AllPlanned env call dir prepared queries planned

/-- Base plans or samples are measured. -/
def MeasuresPlans : Prop :=
  ∃ prepared queries, Loaded env call dir prepared queries ∧
    ∃ s, Measured env call dir prepared queries s

end

/-- The folder of the phases with these keyword arguments. They run locally with the call, or where
the arguments say so themselves. -/
def kwargsFolder (env : Env) (req : Request) (kwargs : Kwargs) : String :=
  dataFolderForDataset env req.dataset
    (req.execLocal || (kwarg kwargs "exec_local" (.bool false)).truthy)
    ((req.scaleFactor.map Json.int).getD .null)

/-! ## What the checks leave -/

section

variable {scaleFactor : Int} {kwargs kwargs' : Kwargs} {kwargsName : String}

theorem popScale_ok (h : popScale scaleFactor kwargsName kwargs = .ok kwargs') :
    kwargs' = without ["scale_factor"] kwargs := by
  unfold popScale at h
  split at h
  next =>
    injection h with h
    exact h.symm
  next =>
    split at h
    next =>
      injection h with h
      exact h.symm
    next => exact absurd h (by simp)

theorem attachRunnerScale_ok (h : attachRunnerScale scaleFactor kwargsName kwargs = .ok kwargs') :
    ∃ fields, OrdDict.get? fields "scale_factor" = some (.int scaleFactor) ∧
      kwargs' = OrdDict.set (without ["runner_kwargs"] kwargs) "runner_kwargs" (.obj fields) := by
  obtain ⟨_, _, h⟩ := Except.bind_eq_ok.mp h
  obtain ⟨fields, hfields, h⟩ := Except.bind_eq_ok.mp h
  injection (show Except.ok _ = Except.ok kwargs' from h) with h
  exact ⟨fields, get?_withScale hfields, h.symm⟩

/-- Keyword arguments with the scale factor and the mode of the run. -/
structure InRun (scaleFactor : Int) (execLocal : Bool) (kwargs : Kwargs) : Prop
    extends Attached scaleFactor kwargs where
  mode : (kwarg kwargs "exec_local" (.bool false)).truthy = execLocal

theorem InRun.set {execLocal : Bool} {name : String} (h : InRun scaleFactor execLocal kwargs)
    (hname : name ∉ ["runner_kwargs", "scale_factor", "exec_local"]) (v : Json) :
    InRun scaleFactor execLocal (OrdDict.set kwargs name v) := by
  simp only [List.mem_cons, List.not_mem_nil, or_false, not_or] at hname
  refine ⟨h.toAttached.set hname.1 hname.2.1 v, ?_⟩
  rw [kwarg_set_ne (Ne.symm hname.2.2)]
  exact h.mode

theorem InRun.setFullMetrics {execLocal : Bool} (h : InRun scaleFactor execLocal kwargs)
    (hset : setFullMetrics kwargs = .ok kwargs') : InRun scaleFactor execLocal kwargs' := by
  unfold Optimize.setFullMetrics at hset
  split at hset
  next =>
    injection hset with hset
    exact hset ▸ h.set (by decide) _
  next => exact absurd hset (by simp)

/-- The mode of the call is put into its keyword arguments. -/
theorem mode_localKwargs (execLocal : Bool) (given : Kwargs) {dropped : List String}
    (hdropped : "exec_local" ∉ dropped) :
    (kwarg (localKwargs dropped execLocal given) "exec_local" (.bool false)).truthy =
      (execLocal || (kwarg given "exec_local" (.bool false)).truthy) := by
  unfold localKwargs
  cases execLocal with
  | true => rw [if_pos rfl, kwarg_set_self]; rfl
  | false => rw [if_neg (by decide), kwarg_without hdropped, Bool.false_or]

theorem inRun_attached {execLocal : Bool} {given kwargs'' : Kwargs} {dropped : List String}
    (hdropped : "exec_local" ∉ dropped)
    (hpop : popScale scaleFactor kwargsName (localKwargs dropped execLocal given) = .ok kwargs')
    (hattach : attachRunnerScale scaleFactor kwargsName kwargs' = .ok kwargs'') :
    InRun scaleFactor (execLocal || (kwarg given "exec_local" (.bool false)).truthy) kwargs'' := by
  have hpop := popScale_ok hpop
  obtain ⟨fields, hfields, rfl⟩ := attachRunnerScale_ok hattach
  subst hpop
  refine ⟨attached_attachedKwargs hfields dropped execLocal given, ?_⟩
  rw [kwarg_set_ne (by decide), kwarg_without (by decide), kwarg_without (by decide)]
  exact mode_localKwargs execLocal given hdropped

variable {env : Env} {call : Call}

/-- **The checks of a call leave its scale factor and its mode in the keyword arguments.** -/
theorem prepareCall_ok {prepared : Prepared call.req}
    (h : prepareCall env call = .ok prepared) :
    call.req.scaleFactor = some prepared.scaleFactor ∧
      InRun prepared.scaleFactor
        (call.req.execLocal ||
          (kwarg call.req.validateKwargs "exec_local" (.bool false)).truthy)
        prepared.validateKwargs ∧
      InRun prepared.scaleFactor
        (call.req.execLocal ||
          (kwarg call.req.evaluationKwargs "exec_local" (.bool false)).truthy)
        prepared.evaluationKwargs := by
  obtain ⟨pos, _, h⟩ := Except.bind_eq_ok.mp h
  split at h
  next => exact absurd h (by simp)
  next scaleFactor hscale =>
    obtain ⟨kwargs, hkwargs, h⟩ := Except.bind_eq_ok.mp h
    obtain ⟨_, _, h⟩ := Except.bind_eq_ok.mp h
    injection (show Except.ok _ = Except.ok prepared from h) with h
    subst h
    obtain ⟨_, _, hkwargs⟩ := Except.bind_eq_ok.mp hkwargs
    obtain ⟨poppedV, hpopV, hkwargs⟩ := Except.bind_eq_ok.mp hkwargs
    obtain ⟨poppedE, hpopE, hkwargs⟩ := Except.bind_eq_ok.mp hkwargs
    obtain ⟨attachedV, hattachV, hkwargs⟩ := Except.bind_eq_ok.mp hkwargs
    obtain ⟨attachedE, hattachE, hkwargs⟩ := Except.bind_eq_ok.mp hkwargs
    obtain ⟨metrics, hmetrics, hkwargs⟩ := Except.bind_eq_ok.mp hkwargs
    injection (show Except.ok _ = Except.ok kwargs from hkwargs) with hkwargs
    subst hkwargs
    have hinE := inRun_attached (by decide) hpopE hattachE
    refine ⟨hscale, inRun_attached (by decide) hpopV hattachV, InRun.set ?_ (by decide) _⟩
    split at hmetrics
    next => exact hinE.setFullMetrics hmetrics
    next =>
      injection hmetrics with hmetrics
      exact hmetrics ▸ hinE

end

/-! ## The phases -/

/-- Everything that is submitted gets the folder. -/
def InFolder {ε α : Type} (dataFolder : String) (x : Logged Submission ε α) : Prop :=
  Logged.Keeps (fun s => s.dataFolder = dataFolder) (fun _ => True) x

section

variable {ε α β : Type} {dataFolder : String}

theorem InFolder.of_keeps {execLocal runnerKwargs : Json} {E : PyErr → Prop} {x : Submits α}
    (h : Logged.Keeps (Submission.Of dataFolder execLocal runnerKwargs) E x) :
    InFolder dataFolder x := h.mono (fun _ hs => hs.dataFolder) fun _ _ => trivial

theorem InFolder.lift (x : Except ε α) : InFolder dataFolder (Logged.lift x : Logged _ ε α) :=
  Logged.Keeps.lift fun _ _ => trivial

end

section

variable {env : Env} {scaleFactor : Int} {execLocal : Bool} {kwargs : Kwargs}

/-- The runner arguments, where a scale factor equal to theirs is asked for. -/
theorem withScale_eq {name : String} {fields r : Kwargs} {other : Int}
    (hfields : OrdDict.get? fields "scale_factor" = some (.int scaleFactor))
    (h : withScale name (.int other) fields = .ok r) : scaleFactor = other := by
  by_contra hne
  rw [withScale_other hfields hne name] at h
  exact absurd h (by simp)

/-- Query validation: its default scale factor is that of the run, or nothing is submitted. -/
theorem validateQueries_inFolder (hk : InRun scaleFactor execLocal kwargs) (queries : List String)
    (dataset : String) (maxWorkers : Int) {explicit args : Kwargs}
    (hargs : callKwargs [] explicit kwargs = .ok args)
    (hexplicit : ∀ name ∈ ["runner_kwargs", "scale_factor", "exec_local"],
      OrdDict.get? explicit name = none) :
    InFolder (dataFolderForDataset env dataset execLocal (.int scaleFactor))
      (validateQueries env queries dataset maxWorkers (without (OrdDict.keys explicit) args)) := by
  obtain ⟨fields, hrunner, hfields⟩ := hk.toAttached.kwarg_eq
  have hget : ∀ name ∈ ["runner_kwargs", "scale_factor", "exec_local"], ∀ default,
      kwarg (without (OrdDict.keys explicit) args) name default = kwarg kwargs name default := by
    intro name hname default
    rw [kwarg_without (OrdDict.get?_eq_none.mp (hexplicit name hname)),
      kwarg_callKwargs hargs name (hexplicit name hname)]
  have hscale : kwarg (without (OrdDict.keys explicit) args) "scale_factor"
      (.int defaultScaleFactor) = .int defaultScaleFactor := by
    rw [hget _ (by decide), kwarg, hk.topLevel]
    rfl
  have hdict := (hget "runner_kwargs" (by decide) (.obj [])).trans (hrunner _)
  have hmode := congrArg Json.truthy (hget "exec_local" (by decide) (.bool false))
  rw [hk.mode] at hmode
  cases hr : withScale "runner_kwargs['scale_factor']" (.int defaultScaleFactor) fields with
  | ok r =>
    have he := withScale_eq hfields hr
    have hkeeps := validateQueries_keeps env queries dataset maxWorkers hscale hdict hr
    rw [hmode, ← he] at hkeeps
    exact .of_keeps hkeeps
  | error e =>
    -- the scale factors conflict before the first query is submitted
    have hrunnerDict : runnerDict "runner_kwargs must be a dict" (without
        ["scale_factor", "exec_local", "seen_queries"] (without (OrdDict.keys explicit) args)) =
          .ok fields := by
      rw [runnerDict, kwarg_without (by decide), hdict]
    unfold validateQueries
    dsimp only
    rw [hrunnerDict, hscale]
    refine (InFolder.lift _).bind fun fields' hf => ?_
    injection hf with hf
    rw [if_neg (by simp), ← hf, hr]
    exact (InFolder.lift _).bind fun _ h => absurd h (by simp [Logged.lift])

/-- The plan of one query. -/
theorem planOne_inFolder (env : Env) (dataFolder : String) (kwargs : Kwargs) (p : String × Nat) :
    InFolder dataFolder (do
      let args ← Logged.lift (callKwargs ["operation", "input_str", "data_folder"] [] kwargs)
      let result ← submitRunOperation env (.query p.2) 0 .plan (.str p.1) dataFolder args
      Logged.lift (planOutcome env result)) :=
  (InFolder.lift _).bind fun args _ =>
    (InFolder.of_keeps (submitRunOperation_keeps env _ _ args 0 .plan (.str p.1))).bind
      fun _ _ => InFolder.lift _

/-- Planning. -/
theorem getEnginePlans_inFolder (env : Env) (queries : List (String × Nat)) (dataset : String)
    (scaleFactor maxWorkers : Int) (args : Kwargs) :
    InFolder (dataFolderForDataset env dataset (kwarg args "exec_local" (.bool false)).truthy
      (.int scaleFactor)) (getEnginePlans env queries dataset scaleFactor maxWorkers args) := by
  unfold getEnginePlans
  dsimp only
  split
  next => exact .lift _
  next =>
    split
    next => exact .lift _
    next =>
      refine (InFolder.lift _).bind fun _ _ => (InFolder.lift _).bind fun runnerKwargs _ => ?_
      -- local data is seen to first, where it is needed
      split
      next =>
        exact (InFolder.lift _).bind fun _ _ => (Logged.Keeps.forEach fun p _ =>
          (planOne_inFolder env _ _ p).attempt).bind fun _ _ => InFolder.lift _
      next =>
        exact (Logged.Keeps.forEach fun p _ => (planOne_inFolder env _ _ p).attempt).bind
          fun _ _ => InFolder.lift _

/-- **The first phase gets the folder of the run.** -/
theorem validateAndPlanQueries_inFolder (hk : InRun scaleFactor execLocal kwargs)
    (queries : List String) (dataset : String) (maxWorkers : Int) (skipValidation : Bool) :
    InFolder (dataFolderForDataset env dataset execLocal (.int scaleFactor))
      (validateAndPlanQueries env queries dataset scaleFactor maxWorkers kwargs skipValidation
        none) := by
  unfold validateAndPlanQueries
  dsimp only
  split
  next =>
    unfold planQueriesWithDedup
    dsimp only
    split
    next => exact (Logged.Keeps.pure _).bind fun _ _ => .pure _
    next =>
      refine (InFolder.lift _).bind fun args hargs => Logged.Keeps.bind ?_ fun _ _ => .pure _
      have hplans := getEnginePlans_inFolder env
        (queries.zipIdx.filter fun p => queries.count p.1 = 1) dataset scaleFactor maxWorkers
        (without ["dataset", "scale_factor", "max_workers", "verbose"] args)
      rw [kwarg_without (by decide), kwarg_callKwargs hargs "exec_local" rfl, hk.mode] at hplans
      exact hplans
  next =>
    refine (InFolder.lift _).bind fun args hargs => ?_
    have hexplicit : ∀ name ∈ ["runner_kwargs", "scale_factor", "exec_local"], OrdDict.get?
        [("input_file", Json.null), ("output_file", .null), ("dead_letter_file", .null),
          ("dataset", .str dataset), ("max_workers", .int maxWorkers),
          ("output_format", .str "plans"), ("verbose", .bool false),
          ("log_context", .str "optimization")] name = none := by
      simp only [List.forall_mem_cons]
      exact ⟨rfl, rfl, rfl, fun _ h => absurd h List.not_mem_nil⟩
    exact (validateQueries_inFolder hk queries dataset maxWorkers hargs hexplicit).bind
      fun _ _ => .pure _

/-- **So does the benchmark of the base plans.** -/
theorem evaluateAndCurateBasePlans_inFolder (hk : InRun scaleFactor execLocal kwargs)
    (queries : List String) (enginePlans : List (Option Json)) (dataset : String)
    (nRuns maxWorkers : Int) :
    InFolder (dataFolderForDataset env dataset execLocal (.int scaleFactor))
      (evaluateAndCurateBasePlans env queries enginePlans dataset scaleFactor nRuns maxWorkers
        kwargs) := by
  obtain ⟨fields, hrunner, hfields⟩ := hk.toAttached.kwarg_eq
  obtain ⟨r, hr⟩ := withScale_attached hfields "runner_kwargs['scale_factor']"
  unfold evaluateAndCurateBasePlans
  dsimp only
  refine (InFolder.lift _).bind fun args hargs => Logged.Keeps.bind ?_ fun results _ => ?_
  · have hdict := (kwarg_callKwargs hargs "runner_kwargs" rfl .null).trans (hrunner .null)
    have hrest : kwarg (without (OrdDict.keys [("dataset", Json.str dataset),
        ("scale_factor", .int scaleFactor), ("n_runs", .int nRuns),
        ("max_workers", .int maxWorkers), ("verbose", .bool false)]) args) "runner_kwargs" .null =
          .obj fields := by
      rw [kwarg_without (by simp [OrdDict.keys])]
      exact hdict
    have hkeeps := benchmarkPlans_keeps env (enginePlans.map fun plan => ⟨plan, [some []]⟩)
      dataset scaleFactor nRuns maxWorkers hrest hr
    rw [kwarg_without (by simp [OrdDict.keys]), kwarg_callKwargs hargs "exec_local" rfl, hk.mode]
      at hkeeps
    exact InFolder.of_keeps hkeeps
  · split
    next => exact .pure _
    next => exact .pure _

/-- The call in `_run_step` has the scale factor and the mode of the run. -/
theorem evaluationCall_dataFolder {dataset : String} {nRuns maxWorkers : Int} {c : EvaluationCall}
    (hk : InRun scaleFactor execLocal kwargs)
    (h : evaluationCall dataset nRuns maxWorkers kwargs = .ok c) :
    c.dataFolder env = dataFolderForDataset env dataset execLocal (.int scaleFactor) := by
  obtain ⟨fields, hrunner, hfields⟩ := hk.toAttached.kwarg_eq
  have hrun := (evaluationCall_runner h .null).trans (hrunner .null)
  unfold evaluationCall at h
  obtain ⟨args, hargs, h⟩ := Except.bind_eq_ok.mp h
  obtain ⟨scale, hscale, h⟩ := Except.bind_eq_ok.mp h
  injection (show Except.ok _ = Except.ok c from h) with h
  subst h
  rw [runnerScale_of_obj hrun hfields] at hscale
  injection hscale with hscale
  have hmode := kwarg_callKwargs hargs "exec_local" rfl (.bool false)
  rw [kwarg_without (by decide)] at hmode
  rw [EvaluationCall.dataFolder, hmode, hk.mode, ← hscale]

theorem basePhase_inFolder {call : Call} {prepared : Prepared call.req}
    (hk : InRun prepared.scaleFactor execLocal prepared.evaluationKwargs) (dir : RunDir)
    (queries : List String) (plans : List (Option Json)) :
    InFolder (dataFolderForDataset env call.req.dataset execLocal (.int prepared.scaleFactor))
      (basePhase env call dir prepared queries plans) := by
  unfold basePhase
  split
  next => exact .pure _
  next =>
    split
    next => exact .pure _
    next => exact (evaluateAndCurateBasePlans_inFolder hk _ _ _ _ _).bind fun _ _ => .pure _

/-- **And so does the sampling loop.** -/
theorem samplingPhase_inFolder {call : Call} {prepared : Prepared call.req}
    (hk : InRun scaleFactor execLocal prepared.evaluationKwargs) (dir : RunDir)
    (base : List Sampling.QueryData) :
    ∀ s ∈ (samplingPhase env call dir prepared base).log,
      s.dataFolder = dataFolderForDataset env call.req.dataset execLocal (.int scaleFactor) := by
  obtain ⟨fields, hrunner, _⟩ := hk.toAttached.kwarg_eq
  intro s hs
  unfold samplingPhase at hs
  dsimp only at hs
  split at hs
  next c hc =>
    rw [← evaluationCall_dataFolder hk hc]
    obtain ⟨site, plan, ⟨originalPlan, hs⟩ | hs⟩ := EvaluationCall.mem_runLog hs
    · refine ((InFolder.lift _).bind fun args _ => ?_ :
        InFolder _ (validateSample env site plan originalPlan _ _ _)).log s hs
      exact InFolder.of_keeps (validatePlanResultSet_keeps env site _ args plan originalPlan)
    · refine ((InFolder.lift _).bind fun args hargs => ?_ :
        InFolder _ (evaluateSample env site plan _ _ _ _)).log s hs
      have hdict := ((kwarg_callKwargs hargs "runner_kwargs" rfl .null).trans
        (evaluationCall_runner hc .null)).trans (hrunner .null)
      exact InFolder.of_keeps (evaluatePlanNRuns_keeps env site _ plan c.nRuns hdict)
  next => exact absurd hs List.not_mem_nil

end

/-! ## The plans of the user -/

/-- Keyword arguments with which executions of a plan are submitted: none of them is set by the
calls on the way, and the number of retries is one. -/
structure Executable (kwargs : Kwargs) : Prop where
  free : ∀ name ∈ ["operation", "input_str", "data_folder", "candidate_plan_str",
    "baseline_plan_str", "n_retry"], name ∉ OrdDict.keys kwargs
  workers : ∃ n, (kwarg kwargs "n_determinism_retries" (.int 3)).asInt = some n ∧
    checkWorkers (if (kwarg kwargs "exec_local" (.bool false)).truthy then 1 else 1 + n) = .ok ()

section

variable {env : Env} {kwargs args : Kwargs}

theorem callKwargs_ok_iff {positional : List String} {explicit : Kwargs} :
    callKwargs positional explicit kwargs = .ok args ↔
      (∀ name ∈ positional ++ OrdDict.keys explicit, name ∉ OrdDict.keys kwargs) ∧
        args = explicit ++ kwargs := by
  unfold callKwargs
  split
  next h =>
    obtain ⟨name, hname, hmem⟩ := h
    exact iff_of_false (by simp) fun h => h.1 name hname hmem
  next h =>
    push Not at h
    exact ⟨fun he => ⟨h, (Except.ok.inj he).symm⟩, fun he => by rw [he.2]⟩

theorem mem_keys_without {names : List String} {name : String} (h : name ∉ names) :
    name ∈ OrdDict.keys (without names kwargs) ↔ name ∈ OrdDict.keys kwargs := by
  rw [← OrdDict.get?_isSome, ← OrdDict.get?_isSome, get?_without, if_neg h]

/-- The determinism of a plan that is not checked is not that of a valid query. -/
theorem classify_of_unchecked {result : Kwargs} {r : ValidationResult} {nonDeterministic : Bool}
    (hplan : determinismPlan result = .ok none) (hr : goodResult result nonDeterministic = .ok r)
    (plan rowCount : Json) : classify r ≠ .valid plan rowCount := by
  obtain ⟨syn, hsyn, hr⟩ := Except.bind_eq_ok.mp hr
  obtain ⟨pl, hpl, hr⟩ := Except.bind_eq_ok.mp hr
  obtain ⟨run, hrun, hr⟩ := Except.bind_eq_ok.mp hr
  obtain ⟨empty, hempty, hr⟩ := Except.bind_eq_ok.mp hr
  obtain ⟨rows, _, hr⟩ := Except.bind_eq_ok.mp hr
  obtain ⟨time, _, hr⟩ := Except.bind_eq_ok.mp hr
  injection (show Except.ok _ = Except.ok r from hr) with hr
  subst hr
  unfold determinismPlan at hplan
  rw [hsyn, Except.ok_bind] at hplan
  unfold classify
  dsimp only
  cases hs : syn.truthy with
  | false => simp
  | true =>
    rw [hs, hpl, Except.ok_bind] at hplan
    by_cases hnull : pl = .null
    · subst hnull
      simp [Json.truthy]
    rw [hrun, hempty] at hplan
    cases hp : pl.truthy with
    | false => simp
    | true =>
      cases hru : run.truthy with
      | false => simp
      | true =>
        cases he : empty.truthy with
        | true => simp
        | false => simp [hru, he, hnull, pure, Except.pure] at hplan

/-- A validation that returns has workers. -/
theorem workers_of_validatePlanResultSet {site : Site} {candidate baseline : Json}
    {dataFolder : String} {verdict : Option String}
    (h : (validatePlanResultSet env site candidate baseline dataFolder args).result =
      .ok verdict) :
    ∃ n, (kwarg args "n_determinism_retries" (.int 3)).asInt = some n ∧
      checkWorkers (if (kwarg args "exec_local" (.bool false)).truthy then 1 else 1 + n) =
        .ok () := by
  unfold validatePlanResultSet at h
  dsimp only at h
  split at h
  next => exact absurd h (by simp [Logged.lift])
  next n hn =>
    obtain ⟨_, hworkers, _⟩ := Logged.result_bind.mp h
    exact ⟨n, hn, hworkers⟩

/-- The calls of a query's validation refuse the arguments that they set themselves. -/
theorem free_of_calls {submitArgs planArgs explicit explicit' : Kwargs}
    (hsubmit : callKwargs ["operation", "input_str", "data_folder"]
      (("n_retry", .int 5) :: explicit)
      (without ["n_determinism_retries", "verbose", "exec_local"] kwargs) = .ok submitArgs)
    (hplan : callKwargs ["candidate_plan_str", "baseline_plan_str", "data_folder"] explicit'
      (without ["n_determinism_retries", "verbose", "exec_local"] kwargs) = .ok planArgs) :
    ∀ name ∈ ["operation", "input_str", "data_folder", "candidate_plan_str",
      "baseline_plan_str", "n_retry"], name ∉ OrdDict.keys kwargs := by
  intro name hname hmem
  have hsubmit := (callKwargs_ok_iff.mp hsubmit).1
  have hplan := (callKwargs_ok_iff.mp hplan).1
  have hmem' : name ∈ OrdDict.keys
      (without ["n_determinism_retries", "verbose", "exec_local"] kwargs) := by
    refine (mem_keys_without ?_).mpr hmem
    simp only [List.mem_cons, List.not_mem_nil, or_false] at hname
    rcases hname with rfl | rfl | rfl | rfl | rfl | rfl <;> decide
  simp only [List.mem_cons, List.not_mem_nil, or_false] at hname
  rcases hname with rfl | rfl | rfl | rfl | rfl | rfl
  · exact hsubmit "operation" (by simp) hmem'
  · exact hsubmit "input_str" (by simp) hmem'
  · exact hsubmit "data_folder" (by simp) hmem'
  · exact hplan "candidate_plan_str" (by simp) hmem'
  · exact hplan "baseline_plan_str" (by simp) hmem'
  · exact hsubmit "n_retry" (by simp [OrdDict.keys]) hmem'

/-- **A query is found valid only with keyword arguments that executions are submitted with.** -/
theorem executable_of_valid {site : Site} {query dataset : String} {r : ValidationResult}
    {plan rowCount : Json} (h : (checkQueryValidity env site query dataset kwargs).result = .ok r)
    (hr : classify r = .valid plan rowCount) : Executable kwargs := by
  unfold checkQueryValidity at h
  dsimp only at h
  obtain ⟨scale, _, h⟩ := Logged.result_bind.mp h
  obtain ⟨submitArgs, hsubmit, h⟩ := Logged.result_bind.mp h
  obtain ⟨result, _, h⟩ := Logged.result_bind.mp h
  have hbad : ∀ err given, r ≠ badResult err given := by
    rintro err given rfl
    simp [classify, badResult] at hr
  split at h
  next =>
    injection (show Except.ok _ = Except.ok r from h) with h
    exact absurd h.symm (hbad _ _)
  next =>
    split at h
    next =>
      injection (show Except.ok _ = Except.ok r from h) with h
      exact absurd h.symm (hbad _ _)
    next =>
      obtain ⟨checked, hchecked, h⟩ := Logged.result_bind.mp h
      split at h
      next => exact absurd hr (classify_of_unchecked hchecked h plan rowCount)
      next planned =>
        obtain ⟨planArgs, hplan, h⟩ := Logged.result_bind.mp h
        obtain ⟨verdict, hverdict, h⟩ := Logged.result_bind.mp h
        have hplan := show callKwargs _ _ _ = .ok planArgs from hplan
        have hworkers := workers_of_validatePlanResultSet hverdict
        rw [kwarg_callKwargs_explicit hplan "n_determinism_retries" rfl,
          kwarg_callKwargs_explicit hplan "exec_local" rfl] at hworkers
        exact ⟨free_of_calls (show callKwargs _ _ _ = .ok submitArgs from hsubmit) hplan, hworkers⟩

/-- What is collected comes from a query that was found valid. -/
theorem exists_valid_of_harvestAll : ∀ {l : List ((Nat × String) × Except PyErr Verdict)}
    {v v' : Validated} {x : String × Nat × Json × Json}, harvestAll v l = .ok v' →
      x ∈ v'.queryToData →
        x ∈ v.queryToData ∨ ∃ p plan rowCount, (p, .ok (.valid plan rowCount)) ∈ l
  | [], v, v', x, h, hx => by
    injection h with h
    exact Or.inl (h ▸ hx)
  | (_, .error _) :: _, _, _, _, h, _ => absurd h (by simp [harvestAll])
  | ((id, query), .ok verdict) :: rest, v, v', x, h, hx => by
    rcases exists_valid_of_harvestAll (l := rest) h hx with hx | ⟨p, plan, rowCount, hp⟩
    · cases verdict with
      | failed category => exact Or.inl hx
      | valid plan rowCount => exact Or.inr ⟨_, plan, rowCount, List.mem_cons_self ..⟩
    · exact Or.inr ⟨p, plan, rowCount, List.mem_cons_of_mem _ hp⟩

/-- A validation that finds a valid query has keyword arguments that executions are submitted
with. -/
theorem executable_of_validateQueries {queries : List String} {dataset : String} {maxWorkers : Int}
    {validated : Validated} {x : String × Nat × Json × Json}
    (h : (validateQueries env queries dataset maxWorkers args).result = .ok validated)
    (hx : x ∈ validated.queryToData) : Executable args := by
  unfold validateQueries at h
  dsimp only at h
  obtain ⟨_, _, h⟩ := Logged.result_bind.mp h
  split at h
  next => exact absurd h (by simp [Logged.lift])
  next =>
    obtain ⟨runner, _, h⟩ := Logged.result_bind.mp h
    obtain ⟨_, _, h⟩ := Logged.result_bind.mp h
    obtain ⟨verdicts, hverdicts, h⟩ := Logged.result_bind.mp h
    rcases exists_valid_of_harvestAll (show harvestAll _ _ = .ok validated from h) hx with
      hx | ⟨p, plan, rowCount, hp⟩
    · exact absurd hx List.not_mem_nil
    obtain ⟨q, _, hq⟩ := Logged.mem_of_forEach hverdicts _ (mem_inQueryOrder hp)
    obtain ⟨outcome, houtcome, hq⟩ := Logged.result_bind.mp hq
    injection houtcome with houtcome
    injection (show Except.ok _ = Except.ok _ from hq) with hq
    have hmap := (Prod.mk.inj hq).2
    cases outcome with
    | error e => exact absurd hmap (by simp [Except.map])
    | ok r =>
      obtain ⟨checkArgs, hcheck, hvalid⟩ := Logged.result_bind.mp houtcome
      have hcheck := show callKwargs _ _ _ = .ok checkArgs from hcheck
      have hexec := executable_of_valid hvalid (Except.ok.inj hmap)
      -- the query's own call is given the rest of the keyword arguments
      have hmem : ∀ name ∉ ["runner_kwargs", "scale_factor", "exec_local", "seen_queries",
          "verbose"], name ∈ OrdDict.keys args → name ∈ OrdDict.keys checkArgs := by
        intro name hname hmem
        simp only [List.mem_cons, List.not_mem_nil, or_false, not_or] at hname
        rw [(callKwargs_ok_iff.mp hcheck).2, OrdDict.keys_append]
        refine List.mem_append_right _ ((mem_keys_without (by simp [hname])).mpr
          ((mem_keys_without (by simp [hname])).mpr hmem))
      obtain ⟨n, hn, hworkers⟩ := hexec.workers
      rw [kwarg_callKwargs_explicit hcheck "exec_local" rfl] at hworkers
      rw [kwarg_callKwargs hcheck "n_determinism_retries" rfl, kwarg_without (by decide),
        kwarg_without (by decide)] at hn
      refine ⟨fun name hname hin => hexec.free name hname (hmem name ?_ hin), n, hn, hworkers⟩
      simp only [List.mem_cons, List.not_mem_nil, or_false] at hname
      rcases hname with rfl | rfl | rfl | rfl | rfl | rfl <;> decide

variable (env) in
/-- An execution of a plan is submitted. -/
theorem submitRunOperation_log (site : Site) (i : Nat) (operation : Operation) (input : Json)
    (dataFolder : String) (hretry : kwarg args "n_retry" (.int 2) = .int 5) :
    ∃ s, s ∈ (submitRunOperation env site i operation input dataFolder args).log := by
  have hguard : ¬ (¬ (kwarg args "exec_local" (.bool false)).truthy ∧
      (Json.int 5).asInt.any (· < 0)) := fun h => absurd h.2 (by decide)
  unfold submitRunOperation
  dsimp only
  rw [hretry, if_neg hguard]
  exact ⟨_, Logged.mem_log_bind_left (List.mem_singleton.mpr rfl)⟩

variable (env) in
/-- **A user plan is submitted** with such keyword arguments, if the engine has a plan. -/
theorem validateOne_submits (hk : Executable kwargs) (dataFolder : String) (user engine : Json)
    (i : Nat) : ∃ s, s ∈ (validateOne env dataFolder kwargs ((some user, some engine), i)).log := by
  have hargs : callKwargs ["candidate_plan_str", "baseline_plan_str", "data_folder"]
      [("n_retry", .int 5)] kwargs = .ok (("n_retry", .int 5) :: kwargs) :=
    callKwargs_ok_iff.mpr ⟨fun name hname => hk.free name (by
      simp only [OrdDict.keys, List.map_cons, List.map_nil, List.cons_append, List.nil_append,
        List.mem_cons, List.not_mem_nil, or_false] at hname ⊢
      tauto), rfl⟩
  obtain ⟨n, hn, hworkers⟩ := hk.workers
  have hretries := (kwarg_callKwargs hargs "n_determinism_retries" rfl (.int 3))
  have hlocal := kwarg_callKwargs hargs "exec_local" rfl (.bool false)
  -- the first execution of the validation, that of the baseline
  have hexecute : callKwargs ["operation", "input_str", "data_folder"]
      [("n_retry", kwarg (("n_retry", .int 5) :: kwargs) "n_retry" (.int 5)),
        ("exec_local", kwarg (("n_retry", .int 5) :: kwargs) "exec_local" (.bool false))]
      (without ["n_retry", "n_determinism_retries", "exec_local"]
        (("n_retry", .int 5) :: kwargs)) = .ok ([("n_retry", .int 5), ("exec_local",
          kwarg (("n_retry", .int 5) :: kwargs) "exec_local" (.bool false))] ++ without
        ["n_retry", "n_determinism_retries", "exec_local"] (("n_retry", .int 5) :: kwargs)) := by
    refine callKwargs_ok_iff.mpr ⟨fun name hname hmem => ?_, rfl⟩
    have hfree : ∀ name ∈ ["operation", "input_str", "data_folder"], name ∉ OrdDict.keys
        (without ["n_retry", "n_determinism_retries", "exec_local"]
          (("n_retry", .int 5) :: kwargs)) := by
      intro name hname hmem
      simp only [List.mem_cons, List.not_mem_nil, or_false] at hname
      have hmem := (mem_keys_without (by rcases hname with rfl | rfl | rfl <;> decide)).mp hmem
      rcases List.mem_cons.mp hmem with rfl | hmem
      · exact absurd hname (by decide)
      · refine hk.free name ?_ hmem
        rcases hname with rfl | rfl | rfl <;> decide
    rcases List.mem_append.mp hname with hname | hname
    · exact hfree name hname hmem
    · rw [← OrdDict.get?_isSome, get?_without] at hmem
      simp only [OrdDict.keys, List.map_cons, List.map_nil, List.mem_cons, List.not_mem_nil,
        or_false] at hname
      rw [if_pos (by rcases hname with rfl | rfl <;> decide)] at hmem
      obtain ⟨_, hmem⟩ := hmem
      exact absurd hmem (by simp)
  obtain ⟨s, hs⟩ := submitRunOperation_log env (.userPlan i) 0 .execute engine dataFolder
    (kwarg_callKwargs_explicit hexecute "n_retry" rfl (.int 2))
  refine ⟨s, ?_⟩
  unfold validateOne
  dsimp only
  refine Logged.mem_log_bind (show (Logged.lift _ : Submits Kwargs).result = .ok _ from hargs) ?_
  unfold validatePlanResultSet
  dsimp only
  rw [hretries, hn, hlocal]
  refine Logged.mem_log_bind (show (Logged.lift _ : Submits Unit).result = .ok () from hworkers)
    (Logged.mem_log_bind_left (Logged.mem_log_forEach (fun j _ => ⟨_, rfl⟩) ⟨0, ?_, ?_⟩))
  · exact List.mem_range.mpr (by omega)
  · exact Logged.mem_log_bind_left (Logged.mem_log_bind
      (show (Logged.lift _ : Submits Kwargs).result = .ok _ from hexecute) hs)

/-- Queries that are all validated have plans, with keyword arguments that executions are submitted
with. -/
theorem validated_plans {queries : List String} {dataset : String} {scaleFactor maxWorkers : Int}
    {planned : List (Option Json) × List (Option String)}
    (h : (validateAndPlanQueries env queries dataset scaleFactor maxWorkers kwargs false
      none).result = .ok planned) (hnone : ∀ failure ∈ planned.2, failure = none) :
    planned.1.length = queries.length ∧ (∀ plan ∈ planned.1, ∃ p, plan = some p) ∧
      (queries ≠ [] → Executable kwargs) := by
  unfold validateAndPlanQueries at h
  dsimp only at h
  rw [if_neg (by decide)] at h
  obtain ⟨args, hargs, h⟩ := Logged.result_bind.mp h
  obtain ⟨validated, hvalidated, h⟩ := Logged.result_bind.mp h
  injection (show Except.ok _ = Except.ok planned from h) with h
  subst h
  have hargs := show callKwargs _ _ _ = .ok args from hargs
  -- no failure is reported for a query, so it has an entry
  have hfound : ∀ p ∈ queries.zipIdx, p.2 ∈ OrdDict.keys (validated.queryToData.map fun p =>
      (p.2.1, parsedPlan env p.2.2.1)) := by
    intro p hp
    have hfailure := hnone _ (List.mem_map_of_mem hp)
    split at hfailure
    next => exact absurd hfailure (by simp)
    next =>
      by_contra hmem
      rw [if_neg hmem] at hfailure
      exact absurd hfailure (by simp)
  refine ⟨by rw [List.length_map, List.length_zipIdx], fun plan hplan => ?_, fun hne => ?_⟩
  · obtain ⟨p, hp, rfl⟩ := List.mem_map.mp hplan
    exact OrdDict.get?_isSome.mpr (hfound p hp)
  · obtain ⟨p, hp⟩ := List.exists_mem_of_ne_nil queries.zipIdx (by
      rw [ne_eq, ← List.length_eq_zero_iff, List.length_zipIdx, List.length_eq_zero_iff]
      exact hne)
    obtain ⟨v, hv⟩ := OrdDict.get?_isSome.mpr (hfound p hp)
    obtain ⟨x, hx, _⟩ := List.mem_map.mp (OrdDict.mem_of_get? hv)
    have hexec := executable_of_validateQueries hvalidated hx
    obtain ⟨n, hn, hworkers⟩ := hexec.workers
    rw [kwarg_without (by simp [OrdDict.keys]), kwarg_callKwargs hargs _ rfl] at hn hworkers
    refine ⟨fun name hname hmem => hexec.free name hname ?_, n, hn, hworkers⟩
    rw [mem_keys_without, (callKwargs_ok_iff.mp hargs).2, OrdDict.keys_append]
    · exact List.mem_append_right _ hmem
    · simp only [List.mem_cons, List.not_mem_nil, or_false] at hname
      rcases hname with rfl | rfl | rfl | rfl | rfl | rfl <;> simp [OrdDict.keys]

variable (env) in
/-- A user plan among plans of the engine: something is submitted. -/
theorem integrateUserBasePlans_submits (hk : Executable kwargs) {userPlans : List (Option Json)}
    {enginePlans : List (Option Json)} (hlen : enginePlans.length = userPlans.length)
    (hengine : ∀ plan ∈ enginePlans, ∃ p, plan = some p) {plan : Json}
    (hplan : some plan ∈ userPlans) (dataset : String) {maxWorkers : Int}
    (hworkers : checkWorkers maxWorkers = .ok ()) :
    ∃ s, s ∈ (integrateUserBasePlans env (some userPlans) enginePlans dataset kwargs maxWorkers
      false).log := by
  obtain ⟨i, hi⟩ := List.getElem?_of_mem hplan
  have hlt : i < enginePlans.length := hlen ▸ (List.getElem?_eq_some_iff.mp hi).1
  obtain ⟨engine, hget⟩ := hengine enginePlans[i] (List.getElem_mem hlt)
  have hmem : ((some plan, some engine), i) ∈ (userPlans.zip enginePlans).zipIdx := by
    rw [List.mem_zipIdx_iff_getElem?, List.getElem?_zip_eq_some]
    exact ⟨hi, by rw [List.getElem?_eq_getElem hlt, hget]⟩
  obtain ⟨s, hs⟩ := validateOne_submits env hk (dataFolderForDataset env dataset false .null)
    plan engine i
  refine ⟨s, ?_⟩
  unfold integrateUserBasePlans
  dsimp only
  rw [if_neg (by decide)]
  exact Logged.mem_log_bind
    (show (Logged.lift _ : Submits Unit).result = .ok () from hworkers)
    (Logged.mem_log_bind_left (Logged.mem_log_forEach (fun p _ => ⟨_, rfl⟩) ⟨_, hmem, hs⟩))

/-- A validation that returns has workers. -/
theorem checkWorkers_of_validated {queries : List String} {dataset : String}
    {scaleFactor maxWorkers : Int} {planned : List (Option Json) × List (Option String)}
    (h : (validateAndPlanQueries env queries dataset scaleFactor maxWorkers kwargs false
      none).result = .ok planned) : checkWorkers maxWorkers = .ok () := by
  unfold validateAndPlanQueries at h
  dsimp only at h
  rw [if_neg (by decide)] at h
  obtain ⟨_, _, h⟩ := Logged.result_bind.mp h
  obtain ⟨_, h, _⟩ := Logged.result_bind.mp h
  unfold validateQueries at h
  dsimp only at h
  obtain ⟨_, _, h⟩ := Logged.result_bind.mp h
  split at h
  next => exact absurd h (by simp [Logged.lift])
  next =>
    obtain ⟨_, _, h⟩ := Logged.result_bind.mp h
    obtain ⟨_, hworkers, _⟩ := Logged.result_bind.mp h
    exact hworkers

end

/-! ## Whole runs -/

section

variable {env : Env} {req : Request}

/-- Where no plan of the user meets one of the engine, nothing is submitted. -/
theorem integrateUserBasePlans_idle {userBasePlans : Option (List (Option Json))}
    {enginePlans : List (Option Json)} {skipValidation : Bool} {s : Submission}
    (h : skipValidation = true ∨ ∀ plans, userBasePlans = some plans →
      ∀ p ∈ plans.zip enginePlans, p.1 = none ∨ p.2 = none)
    (dataset : String) (kwargs : Kwargs) (maxWorkers : Int) :
    s ∉ (integrateUserBasePlans env userBasePlans enginePlans dataset kwargs maxWorkers
      skipValidation).log := by
  have hkeeps : Logged.Keeps (fun _ => False) (fun _ => True) (integrateUserBasePlans env
      userBasePlans enginePlans dataset kwargs maxWorkers skipValidation) := by
    unfold integrateUserBasePlans
    dsimp only
    split
    next => exact .pure _
    next userPlans =>
      split
      next => exact .pure _
      next hskip =>
        have hnone := h.resolve_left hskip userPlans rfl
        refine (Logged.Keeps.lift fun _ _ => trivial).bind fun _ _ => Logged.Keeps.bind
          (Logged.Keeps.forEach fun p hp => Logged.Keeps.attempt (E := fun _ => True) ?_)
          fun _ _ => (Logged.Keeps.lift fun _ _ => trivial).bind fun failures _ => ?_
        · have hp := hnone p.1 (List.mem_of_getElem? (List.mem_zipIdx_iff_getElem?.mp hp))
          unfold validateOne
          split
          next => exact .pure _
          next => exact .pure _
          next user engine huser hengine =>
            rw [huser, hengine] at hp
            exact absurd hp (by simp)
        · split
          next => exact .pure _
          next => exact .pure _
  exact hkeeps.log s

theorem any_isSome_iff {failures : List (Option String)} :
    ¬ failures.any (·.isSome) ↔ ∀ failure ∈ failures, failure = none := by
  rw [List.any_eq_true]
  push Not
  exact forall₂_congr fun failure _ => by cases failure <;> simp

variable {call : Call} {dir : RunDir} {prepared : Prepared call.req} {queries : List String}
  {s : Submission}

/-- What is submitted by a phase. -/
theorem phase_of_mem_log (h : s ∈ (callPhases env call dir prepared queries).log) :
    s ∈ (planningPhase env call dir prepared queries).log ∨
      (∃ planned, AllPlanned env call dir prepared queries planned ∧
        s ∈ (userPlanPhase env call prepared planned).log) ∨
      Measured env call dir prepared queries s := by
  unfold callPhases at h
  rcases Logged.mem_log_bind_iff.mp h with h | ⟨planned, hplanned, h⟩
  · exact Or.inl h
  right
  split at h
  next => exact absurd h List.not_mem_nil
  next hfailures =>
    have hall : AllPlanned env call dir prepared queries planned :=
      ⟨Except.mapError_eq_ok.mp hplanned, any_isSome_iff.mp hfailures⟩
    rcases Logged.mem_log_bind_iff.mp h with h | ⟨integrated, hintegrated, h⟩
    · exact Or.inl ⟨planned, hall, h⟩
    right
    split at h
    next => exact absurd h List.not_mem_nil
    next hnone =>
      have hplans : BasePlans env call dir prepared queries integrated.plans :=
        ⟨planned, integrated, hall, Except.mapError_eq_ok.mp hintegrated, hnone, rfl⟩
      rcases Logged.mem_log_bind_iff.mp h with h | ⟨base, hbase, h⟩
      · exact .basePlan hplans h
      split at h
      next => exact absurd h List.not_mem_nil
      next base =>
        rcases Logged.mem_log_bind_iff.mp h with h | ⟨_, _, h⟩
        · exact .sample hplans (Except.mapError_eq_ok.mp hbase) h
        · exact absurd h List.not_mem_nil

/-- What the second phase submits is submitted. -/
theorem mem_log_of_userPlan {planned : List (Option Json) × List (Option String)}
    (hall : AllPlanned env call dir prepared queries planned)
    (h : s ∈ (userPlanPhase env call prepared planned).log) :
    s ∈ (callPhases env call dir prepared queries).log := by
  refine Logged.mem_log_bind (Except.mapError_eq_ok.mpr hall.result) ?_
  rw [if_neg (any_isSome_iff.mpr hall.failures)]
  exact Logged.mem_log_bind_left h

/-- And so is what the phases after it do. -/
theorem mem_log_of_measured (h : Measured env call dir prepared queries s) :
    s ∈ (callPhases env call dir prepared queries).log := by
  have hrest : ∃ plans, BasePlans env call dir prepared queries plans ∧
      (s ∈ (basePhase env call dir prepared queries plans).log ∨ ∃ base,
        (basePhase env call dir prepared queries plans).result = .ok (.inr base) ∧
          s ∈ (samplingPhase env call dir prepared base).log) := by
    cases h with
    | basePlan hplans h => exact ⟨_, hplans, Or.inl h⟩
    | sample hplans hbase h => exact ⟨_, hplans, Or.inr ⟨_, hbase, h⟩⟩
  obtain ⟨plans, ⟨planned, integrated, hall, hintegrated, hnone, rfl⟩, h⟩ := hrest
  refine Logged.mem_log_bind (Except.mapError_eq_ok.mpr hall.result) ?_
  rw [if_neg (any_isSome_iff.mpr hall.failures)]
  refine Logged.mem_log_bind (Except.mapError_eq_ok.mpr hintegrated) ?_
  rw [hnone]
  rcases h with h | ⟨base, hbase, h⟩
  · exact Logged.mem_log_bind_left h
  · exact Logged.mem_log_bind (Except.mapError_eq_ok.mpr hbase) (Logged.mem_log_bind_left h)

/-- **What is submitted is submitted in one of the phases.** -/
theorem mem_optimizeCall_log : s ∈ (optimizeCall env call dir).log ↔
    ∃ prepared queries, Loaded env call dir prepared queries ∧
      (s ∈ (planningPhase env call dir prepared queries).log ∨
        (∃ planned, AllPlanned env call dir prepared queries planned ∧
          s ∈ (userPlanPhase env call prepared planned).log) ∨
        Measured env call dir prepared queries s) := by
  rw [optimizeCall, Logged.mem_log_bind_iff]
  constructor
  · intro h
    rcases h with h | ⟨prepared, hprepare, h⟩
    · exact absurd h List.not_mem_nil
    rcases Logged.mem_log_bind_iff.mp h with h | ⟨queries, hqueries, h⟩
    · exact absurd h List.not_mem_nil
    · exact ⟨prepared, queries, ⟨Except.mapError_eq_ok.mp hprepare,
        Except.mapError_eq_ok.mp hqueries⟩, phase_of_mem_log h⟩
  · intro h
    obtain ⟨prepared, queries, ⟨hprepare, hqueries⟩, h⟩ := h
    refine Or.inr ⟨prepared, Except.mapError_eq_ok.mpr hprepare,
      Logged.mem_log_bind (Except.mapError_eq_ok.mpr hqueries) ?_⟩
    rcases h with h | ⟨planned, hall, h⟩ | h
    · exact Logged.mem_log_bind_left h
    · exact mem_log_of_userPlan hall h
    · exact mem_log_of_measured h

/-! ## The folder of each phase -/

/-- The folder of the phases with these keyword arguments. -/
theorem kwargsFolder_eq (hscale : call.req.scaleFactor = some prepared.scaleFactor)
    (kwargs : Kwargs) :
    kwargsFolder env call.req kwargs = dataFolderForDataset env call.req.dataset
      (call.req.execLocal || (kwarg kwargs "exec_local" (.bool false)).truthy)
      (.int prepared.scaleFactor) := by
  rw [kwargsFolder, hscale]
  rfl

theorem planningPhase_dataFolder (hprepare : prepareCall env call = .ok prepared)
    (h : s ∈ (planningPhase env call dir prepared queries).log) :
    s.dataFolder = kwargsFolder env call.req call.req.validateKwargs := by
  obtain ⟨hscale, hv, _⟩ := prepareCall_ok hprepare
  rw [kwargsFolder_eq hscale]
  unfold planningPhase at h
  cases hbase : baseSamplingData call dir with
  | none =>
    rw [hbase] at h
    exact (validateAndPlanQueries_inFolder hv _ _ _ _).log s h
  | some base =>
    rw [hbase] at h
    unfold validateAndPlanQueries at h
    dsimp only [Option.map_some] at h
    split at h
    next => exact absurd h List.not_mem_nil
    next => exact absurd h List.not_mem_nil

theorem userPlanPhase_dataFolder {planned : List (Option Json) × List (Option String)}
    (h : s ∈ (userPlanPhase env call prepared planned).log) :
    s.dataFolder = dataFolderForDataset env call.req.dataset false .null :=
  ((integrateUserBasePlans_keeps env _ _ _ _ _ _).log s h).dataFolder

theorem Measured.dataFolder (hprepare : prepareCall env call = .ok prepared)
    (h : Measured env call dir prepared queries s) :
    s.dataFolder = kwargsFolder env call.req call.req.evaluationKwargs := by
  obtain ⟨hscale, _, he⟩ := prepareCall_ok hprepare
  rw [kwargsFolder_eq hscale]
  cases h with
  | basePlan _ h => exact (basePhase_inFolder he _ _ _).log s h
  | sample _ _ h => exact samplingPhase_inFolder he _ _ s h

/-! ## When plans of the user are submitted -/

/-- A call with plans of the user has as many queries. -/
theorem length_basePlans {plans : List (Option Json)} (h : Loaded env call dir prepared queries)
    (hplans : call.req.basePlans = some plans) : plans.length = queries.length := by
  obtain ⟨pos, hpos, _⟩ := Except.bind_eq_ok.mp h.prepares
  unfold checkCall at hpos
  split at hpos
  next hhas =>
    obtain ⟨queries', hqueries, hrest⟩ := Except.bind_eq_ok.mp h.loads
    obtain ⟨_, _, hrest⟩ := Except.bind_eq_ok.mp hrest
    injection (show Except.ok _ = Except.ok queries from hrest) with hrest
    rw [queriesList, if_pos hhas, hrest] at hqueries
    injection hqueries with hqueries
    rw [← hqueries]
    exact (parametersAccepted_of_ok hpos).basePlans plans hplans
  next =>
    obtain ⟨_, _, hrest⟩ := Except.bind_eq_ok.mp hpos
    rw [hplans, if_pos (show (some plans).isSome = true from rfl)] at hrest
    exact absurd hrest (by simp)

/-- A plan of the user is submitted where it is compared. -/
theorem userPlan_submitted (h : ComparesUserPlans env call dir) :
    ∃ prepared queries planned s, Loaded env call dir prepared queries ∧
      AllPlanned env call dir prepared queries planned ∧
        s ∈ (userPlanPhase env call prepared planned).log := by
  obtain ⟨hskip, hbase, ⟨plans, hplans, plan, hplan⟩, prepared, queries, planned, hloaded,
    hall⟩ := h
  have hresult := hall.result
  rw [planningPhase, hbase, hskip] at hresult
  obtain ⟨hlen, hengine, hexec⟩ := validated_plans hresult hall.failures
  have hgiven := length_basePlans hloaded hplans
  have hne : queries ≠ [] := by
    rintro rfl
    rw [List.length_nil, List.length_eq_zero_iff] at hgiven
    exact absurd (hgiven ▸ hplan) List.not_mem_nil
  obtain ⟨s, hs⟩ := integrateUserBasePlans_submits env (hexec hne)
    (hlen.trans hgiven.symm) hengine hplan call.req.dataset (checkWorkers_of_validated hresult)
  refine ⟨prepared, queries, planned, s, hloaded, hall, ?_⟩
  rw [userPlanPhase, hskip, hplans]
  exact hs

/-- With a prepared dataset the engine is not asked for plans. -/
theorem AllPlanned.no_plans {planned : List (Option Json) × List (Option String)}
    {base : List Sampling.QueryData} (h : AllPlanned env call dir prepared queries planned)
    (hbase : baseSamplingData call dir = some base) : ∀ plan ∈ planned.1, plan = none := by
  have hresult := h.result
  unfold planningPhase validateAndPlanQueries at hresult
  rw [hbase] at hresult
  dsimp only [Option.map_some] at hresult
  split at hresult
  next => exact absurd hresult (by simp [Logged.lift])
  next =>
    injection (show Except.ok _ = Except.ok planned from hresult) with hresult
    rw [← hresult]
    intro plan hplan
    obtain ⟨_, _, rfl⟩ := List.mem_map.mp hplan
    rfl

/-- And only there. -/
theorem comparesUserPlans_of_submitted {planned : List (Option Json) × List (Option String)}
    (hloaded : Loaded env call dir prepared queries)
    (hall : AllPlanned env call dir prepared queries planned)
    (h : s ∈ (userPlanPhase env call prepared planned).log) : ComparesUserPlans env call dir := by
  by_contra hnot
  refine integrateUserBasePlans_idle ?_ call.req.dataset prepared.validateKwargs
    call.req.maxWorkers h
  by_contra hsome
  rw [not_or] at hsome
  obtain ⟨hskip, hplans⟩ := hsome
  push Not at hplans
  obtain ⟨plans, hgiven, p, hp, huser, hengine⟩ := hplans
  obtain ⟨hp1, hp2⟩ := List.of_mem_zip (a := p.1) (b := p.2) hp
  obtain ⟨plan, hplan⟩ := Option.ne_none_iff_exists'.mp huser
  refine hnot ⟨by simpa using hskip, ?_, ⟨plans, hgiven, plan, hplan ▸ hp1⟩, prepared, queries,
    planned, hloaded, hall⟩
  cases hbase : baseSamplingData call dir with
  | none => rfl
  | some base => exact absurd (hall.no_plans hbase p.2 hp2) hengine

end

/-- **A call has one data folder** exactly if each phase that submits something has the call's: user
plans are compared on the data of Modal, and the other phases have the mode of their keyword
arguments. -/
theorem optimizeCall_oneFolder_iff (env : Env) (call : Call) (dir : RunDir) :
    OneFolder env call dir ↔
      (PlansQueries env call dir →
          kwargsFolder env call.req call.req.validateKwargs = requestFolder env call.req) ∧
        (ComparesUserPlans env call dir →
          dataFolderForDataset env call.req.dataset false .null = requestFolder env call.req) ∧
        (MeasuresPlans env call dir →
          kwargsFolder env call.req call.req.evaluationKwargs = requestFolder env call.req) := by
  constructor
  · intro h
    refine ⟨?_, fun hcompares => ?_, ?_⟩
    · intro h
      obtain ⟨prepared, queries, hloaded, hne⟩ := h
      obtain ⟨s, hs⟩ := List.exists_mem_of_ne_nil _ hne
      rw [← planningPhase_dataFolder hloaded.prepares hs]
      exact h s (mem_optimizeCall_log.mpr ⟨prepared, queries, hloaded, Or.inl hs⟩)
    · obtain ⟨prepared, queries, planned, s, hloaded, hall, hs⟩ := userPlan_submitted hcompares
      rw [← userPlanPhase_dataFolder hs]
      exact h s (mem_optimizeCall_log.mpr
        ⟨prepared, queries, hloaded, Or.inr (Or.inl ⟨planned, hall, hs⟩)⟩)
    · intro h
      obtain ⟨prepared, queries, hloaded, s, hs⟩ := h
      rw [← hs.dataFolder hloaded.prepares]
      exact h s (mem_optimizeCall_log.mpr ⟨prepared, queries, hloaded, Or.inr (Or.inr hs)⟩)
  · rintro ⟨hplanning, huser, hmeasured⟩ s hs
    obtain ⟨prepared, queries, hloaded, hs⟩ := mem_optimizeCall_log.mp hs
    rcases hs with hs | ⟨planned, hall, hs⟩ | hs
    · rw [planningPhase_dataFolder hloaded.prepares hs]
      exact hplanning ⟨prepared, queries, hloaded, List.ne_nil_of_mem hs⟩
    · rw [userPlanPhase_dataFolder hs]
      exact huser (comparesUserPlans_of_submitted hloaded hall hs)
    · rw [hs.dataFolder hloaded.prepares]
      exact hmeasured ⟨prepared, queries, hloaded, s, hs⟩

/-- The same engine, where numbers are written out. -/
def localEnv : Env :=
  { oneRowEnv with
    localDataDir := "/repo/data"
    str := fun v => (v.asInt.map Int.repr).getD "None" }

/-- A call with a plan of the user, run locally. -/
def localUserPlan : Call :=
  newCall { oneQuery 3 with
    basePlans := some [some (.obj [("structure", .obj [])])]
    execLocal := true } 50

/-- **Its plan is compared on the data of Modal**, between operations on local data. -/
theorem localUserPlan_two_folders :
    (((optimizeCall localEnv localUserPlan .empty).log.map
          fun s => (s.dataFolder, s.execLocal)).dedup =
        [("/tmp/data/data_tpch", .bool true), ("/repo/data/data_tpch_sf3", .bool true)]) ∧
      requestFolder localEnv localUserPlan.req = "/repo/data/data_tpch_sf3" ∧
      ¬ OneFolder localEnv localUserPlan .empty := by
  have hfolders : ((optimizeCall localEnv localUserPlan .empty).log.map
      fun s => (s.dataFolder, s.execLocal)).dedup =
        [("/tmp/data/data_tpch", .bool true), ("/repo/data/data_tpch_sf3", .bool true)] := by
    decide +kernel
  have hrequest : requestFolder localEnv localUserPlan.req = "/repo/data/data_tpch_sf3" := by
    decide +kernel
  refine ⟨hfolders, hrequest, fun h => ?_⟩
  have hmem : ("/tmp/data/data_tpch", Json.bool true) ∈
      ((optimizeCall localEnv localUserPlan .empty).log.map
        fun s => (s.dataFolder, s.execLocal)) := by
    rw [← List.mem_dedup, hfolders]
    exact List.mem_cons_self ..
  obtain ⟨s, hs, he⟩ := List.mem_map.mp hmem
  have hfolder := h s hs
  rw [hrequest, (Prod.mk.inj he).1] at hfolder
  exact absurd hfolder (by decide)

end DbPlanBench.Optimize
