import Mathlib.Data.Fintype.Basic
import DbPlanBench.Optimize.Pipeline
import DbPlanBench.Sampling.Faults

/-!
# One scale factor in a run

A run is given a scale factor, and every operation it submits should have it in its
runner arguments, with no conflict on the way. What each phase submits is put
together from the `_keeps` lemmas: the scale factor of a phase is the one attached to
its keyword arguments.

`_validate_and_plan_queries` does not hand the scale factor on to
`validate_queries`, whose default stands beside the one in `runner_kwargs`. So a
run with another scale factor than the default fails as soon as it is past its
checks.
-/

namespace DbPlanBench.Optimize

open Sampling (Fault)

/-! ## The arguments -/

/-- The scale factors that the keyword arguments name, if any, equal `scaleFactor`. At the top level
`None` names none. -/
structure NamesNoOther (scaleFactor : Int) (kwargs : Kwargs) : Prop where
  topLevel : ∀ v, OrdDict.get? kwargs "scale_factor" = some v →
    v = .null ∨ v.pyEq (.int scaleFactor) = true
  runner : ∀ fields v, OrdDict.get? kwargs "runner_kwargs" = some (.obj fields) →
    OrdDict.get? fields "scale_factor" = some v → v.pyEq (.int scaleFactor) = true

/-- `runner_kwargs` is a dictionary, or empty. -/
def RunnerIsDict (kwargs : Kwargs) : Prop :=
  ∀ v, OrdDict.get? kwargs "runner_kwargs" = some v → (∃ fields, v = .obj fields) ∨ v.truthy = false

/-- `sandbox_placeholders` is a dictionary, if it is given. -/
def PlaceholdersAreDict (kwargs : Kwargs) : Prop :=
  ∀ v, OrdDict.get? kwargs "sandbox_placeholders" = some v → ∃ fields, v = .obj fields

/-- Parameters of `validate_queries` that `_validate_and_plan_queries` sets. -/
def ownParameters : List String :=
  ["input_file", "output_file", "dead_letter_file", "max_workers", "output_format", "verbose",
    "log_context"]

/-- The plain parameters are in their ranges. -/
structure ParametersAccepted (req : Request) : Prop where
  nSteps : 0 ≤ req.nSteps
  nSamplesPerStep : 1 ≤ req.nSamplesPerStep
  topKPatches : 1 ≤ req.topKPatches
  bestOf : req.strategy = .bestOf → req.nSteps ≤ 1
  basePlans : ∀ plans, req.basePlans = some plans → plans.length = req.queries.length

/-- The keyword arguments can be prepared, and local data if it is needed. -/
structure KwargsAccepted (env : Env) (req : Request) (scaleFactor : Int) : Prop where
  localData : req.execLocal = true → ensureLocalData env req.dataset scaleFactor = .ok ()
  validateRunner : RunnerIsDict req.validateKwargs
  evaluationRunner : RunnerIsDict req.evaluationKwargs
  fullMetrics : req.getFullMetrics = true → PlaceholdersAreDict req.evaluationKwargs

/-- A call that gets past the checks of `optimize_queries`. -/
structure Checked (env : Env) (req : Request) (scaleFactor : Int) : Prop
    extends ParametersAccepted req, KwargsAccepted env req scaleFactor where
  runDir : ∀ there, req.runDirExists = some there → req.resume = false ∧ there = false

/-- A call that gets into `validate_queries`. -/
structure Accepted (env : Env) (req : Request) (scaleFactor : Int) : Prop
    extends Checked env req scaleFactor where
  ownParameters : ∀ name ∈ ownParameters, name ∉ OrdDict.keys req.validateKwargs

/-- Keyword arguments with the scale factor in their runner arguments, and nowhere else. -/
structure Attached (scaleFactor : Int) (kwargs : Kwargs) : Prop where
  runner : ∃ fields, OrdDict.get? kwargs "runner_kwargs" = some (.obj fields) ∧
    OrdDict.get? fields "scale_factor" = some (.int scaleFactor)
  topLevel : OrdDict.get? kwargs "scale_factor" = none

/-! ## Checking them -/

section

variable {scaleFactor : Int} {kwargs : Kwargs}

theorem get?_localKwargs {dropped : List String} {name : String} (hdropped : name ∉ dropped)
    (hlocal : name ≠ "exec_local") (execLocal : Bool) (kwargs : Kwargs) :
    OrdDict.get? (localKwargs dropped execLocal kwargs) name = OrdDict.get? kwargs name := by
  unfold localKwargs
  cases execLocal with
  | true => rw [if_pos rfl, OrdDict.get?_set_ne _ _ hlocal, get?_without, if_neg hdropped]
  | false => rw [if_neg (by decide), get?_without, if_neg hdropped]

theorem get?_localKwargs_dropped {dropped : List String} {name : String} (hdropped : name ∈ dropped)
    (hlocal : name ≠ "exec_local") (execLocal : Bool) (kwargs : Kwargs) :
    OrdDict.get? (localKwargs dropped execLocal kwargs) name = none := by
  unfold localKwargs
  cases execLocal with
  | true => rw [if_pos rfl, OrdDict.get?_set_ne _ _ hlocal, get?_without, if_pos hdropped]
  | false => rw [if_neg (by decide), get?_without, if_pos hdropped]

theorem popScale_localKwargs (h : NamesNoOther scaleFactor kwargs) {dropped : List String}
    (hdropped : "scale_factor" ∉ dropped) (execLocal : Bool) (kwargsName : String) :
    popScale scaleFactor kwargsName (localKwargs dropped execLocal kwargs) =
      .ok (without ["scale_factor"] (localKwargs dropped execLocal kwargs)) := by
  unfold popScale kwarg
  rw [get?_localKwargs hdropped (by decide)]
  cases hget : OrdDict.get? kwargs "scale_factor" with
  | none => rfl
  | some v =>
    rw [Option.getD_some]
    split
    next => rfl
    next hnull => rw [if_pos ((h.topLevel v hget).resolve_left hnull)]

/-- Where only this scale factor is named, it is attached if there is a dictionary to hold it. -/
theorem attachRunnerScale_eq (hdict : RunnerIsDict kwargs)
    (hnames : ∀ fields v, OrdDict.get? kwargs "runner_kwargs" = some (.obj fields) →
      OrdDict.get? fields "scale_factor" = some v → v.pyEq (.int scaleFactor) = true)
    (kwargsName : String) :
    ∃ fields, OrdDict.get? fields "scale_factor" = some (.int scaleFactor) ∧
      attachRunnerScale scaleFactor kwargsName kwargs =
        .ok (OrdDict.set (without ["runner_kwargs"] kwargs) "runner_kwargs" (.obj fields)) := by
  -- an absent or a falsy value counts as the empty dictionary
  obtain ⟨fields, hfields, hnamed⟩ : ∃ fields,
      runnerDict (kwargsName ++ "['runner_kwargs'] must be a dict") kwargs = .ok fields ∧
        ∀ v, OrdDict.get? fields "scale_factor" = some v → v.pyEq (.int scaleFactor) = true := by
    unfold runnerDict kwarg
    cases hget : OrdDict.get? kwargs "runner_kwargs" with
    | none => exact ⟨[], rfl, fun v hv => absurd hv (by simp)⟩
    | some v =>
      rw [Option.getD_some]
      split
      next fields => exact ⟨fields, rfl, fun v hv => hnames fields v hget hv⟩
      next hobj =>
        have hfalsy : v.truthy = false := by
          rcases hdict v hget with hfields | hfalsy
          · obtain ⟨fields, he⟩ := hfields
            exact absurd he (hobj fields)
          · exact hfalsy
        exact ⟨[], by rw [hfalsy]; rfl, fun v hv => absurd hv (by simp)⟩
  have hscale :
      withScale (kwargsName ++ "['runner_kwargs']['scale_factor']") (.int scaleFactor) fields =
      .ok (OrdDict.set fields "scale_factor" (.int scaleFactor)) := by
    unfold withScale
    split
    next v hv => rw [if_pos (hnamed v hv)]
    next => rfl
  exact ⟨_, get?_withScale hscale, by rw [attachRunnerScale, hfields, Except.ok_bind, hscale]; rfl⟩

theorem attachRunnerScale_of_not_dict (hdict : ¬ RunnerIsDict kwargs) (kwargsName : String) :
    attachRunnerScale scaleFactor kwargsName kwargs =
      .error (.valueError (kwargsName ++ "['runner_kwargs'] must be a dict")) := by
  unfold RunnerIsDict at hdict
  push Not at hdict
  obtain ⟨v, hget, hobj, htruthy⟩ := hdict
  unfold attachRunnerScale runnerDict kwarg
  rw [hget, Option.getD_some]
  split
  next fields => exact absurd rfl (hobj fields)
  next => rw [if_pos (by simpa using htruthy)]; rfl

theorem Attached.set {name : String} (h : Attached scaleFactor kwargs)
    (hrunner : name ≠ "runner_kwargs")
    (hscale : name ≠ "scale_factor") (v : Json) :
    Attached scaleFactor (OrdDict.set kwargs name v) where
  runner := by
    rw [OrdDict.get?_set_ne _ _ hrunner.symm]
    exact h.runner
  topLevel := by
    rw [OrdDict.get?_set_ne _ _ hscale.symm]
    exact h.topLevel

theorem setFullMetrics_of_dict (h : PlaceholdersAreDict kwargs) :
    ∃ v, setFullMetrics kwargs = .ok (OrdDict.set kwargs "sandbox_placeholders" v) := by
  unfold setFullMetrics kwarg
  cases hget : OrdDict.get? kwargs "sandbox_placeholders" with
  | none => exact ⟨_, rfl⟩
  | some v =>
    obtain ⟨fields, rfl⟩ := h v hget
    exact ⟨_, rfl⟩

theorem setFullMetrics_of_not_dict (h : ¬ PlaceholdersAreDict kwargs) :
    setFullMetrics kwargs = .error .typeError := by
  unfold PlaceholdersAreDict at h
  push Not at h
  obtain ⟨v, hget, hobj⟩ := h
  unfold setFullMetrics kwarg
  rw [hget, Option.getD_some]
  split
  next fields => exact absurd rfl (hobj fields)
  next => rfl

end

/-! ## Which calls are accepted -/

section

variable {env : Env} {req : Request} {scaleFactor : Int}

theorem parametersAccepted_of_ok {pos : PLift (0 < req.nSamplesPerStep.toNat)}
    (h : checkParameters req = .ok pos) : ParametersAccepted req := by
  unfold checkParameters at h
  split_ifs at h with hsteps hsamples htop hbest
  cases hplans : req.basePlans.filter (·.length ≠ req.queries.length) with
  | some plans =>
    rw [hplans] at h
    exact absurd h (by simp)
  | none =>
    refine ⟨by omega, by omega, by omega, fun hstrategy => ?_, fun plans hgiven => ?_⟩
    · by_contra hlt
      exact hbest ⟨hstrategy, by omega⟩
    · rw [hgiven] at hplans
      simpa using hplans

theorem checkParameters_of_accepted (h : ParametersAccepted req) :
    ∃ pos, checkParameters req = .ok pos := by
  have hbest : ¬ (req.strategy = .bestOf ∧ 1 < req.nSteps) := by
    intro hb
    have hle := h.bestOf hb.1
    omega
  have hplans : req.basePlans.filter (·.length ≠ req.queries.length) = none := by
    cases hgiven : req.basePlans with
    | none => rfl
    | some plans =>
      have hlen := h.basePlans plans hgiven
      simpa using hlen
  have hsteps := h.nSteps
  have hsamples := h.nSamplesPerStep
  have htop := h.topKPatches
  refine ⟨⟨by omega⟩, ?_⟩
  rw [checkParameters, if_neg (by omega), dif_neg (by omega), if_neg (by omega), if_neg hbest, hplans]

theorem checkParameters_failsIn (req : Request) : (checkParameters req).FailsIn NoConflict := by
  unfold checkParameters
  split_ifs
  · exact .error (by decide)
  · exact .error (by decide)
  · exact .error (by decide)
  · exact .error (by decide)
  · split
    next =>
      refine .error fun hc => ?_
      rw [IsConflict, String.toList_append, String.toList_append, String.toList_append] at hc
      obtain ⟨rest, hrest⟩ := hc
      exact absurd (congrArg List.head? hrest) (by simp)
    next => exact .ok _

theorem checkRunDir_ok_iff : checkRunDir req = .ok () ↔
    ∀ there, req.runDirExists = some there → req.resume = false ∧ there = false := by
  unfold checkRunDir
  split
  next h => simp [h]
  next there h =>
    rw [h]
    cases req.resume <;> cases there <;> simp

theorem checkRunDir_failsIn (req : Request) : (checkRunDir req).FailsIn NoConflict := by
  unfold checkRunDir
  split
  next => exact .ok ()
  next =>
    split
    next => exact .error (by decide)
    next =>
      split
      next => exact .error id
      next => exact .ok ()

/-- The local copy of some keyword arguments with these runner arguments. -/
def attachedKwargs (dropped : List String) (execLocal : Bool) (kwargs fields : Kwargs) : Kwargs :=
  OrdDict.set (without ["runner_kwargs"] (without ["scale_factor"]
    (localKwargs dropped execLocal kwargs))) "runner_kwargs" (.obj fields)

theorem attached_attachedKwargs {fields : Kwargs}
    (h : OrdDict.get? fields "scale_factor" = some (.int scaleFactor)) (dropped : List String)
    (execLocal : Bool) (kwargs : Kwargs) :
    Attached scaleFactor (attachedKwargs dropped execLocal kwargs fields) where
  runner := ⟨fields, OrdDict.get?_set_self _ _ _, h⟩
  topLevel := by
    rw [attachedKwargs, OrdDict.get?_set_ne _ _ (by decide), get?_without, if_neg (by decide),
      get?_without, if_pos (by decide)]

/-- All other keyword arguments are those of the request. -/
theorem get?_attachedKwargs {name : String}
    (hname : name ∉ ["runner_kwargs", "scale_factor", "exec_local"]) (dropped : List String)
    (execLocal : Bool) (kwargs fields : Kwargs) :
    OrdDict.get? (attachedKwargs dropped execLocal kwargs fields) name =
      if name ∈ dropped then none else OrdDict.get? kwargs name := by
  simp only [List.mem_cons, List.not_mem_nil, or_false, not_or] at hname
  rw [attachedKwargs, OrdDict.get?_set_ne _ _ hname.1, get?_without,
    if_neg (by simpa using hname.1), get?_without, if_neg (by simpa using hname.2.1)]
  split
  next h => exact get?_localKwargs_dropped h hname.2.2 execLocal kwargs
  next h => exact get?_localKwargs h hname.2.2 execLocal kwargs

/-- **The scale factor is attached to keyword arguments that name no other**, if there is a
dictionary to hold it. -/
theorem attachRunnerScale_cases {kwargs : Kwargs} (hnames : NamesNoOther scaleFactor kwargs)
    {dropped : List String} (hdropped : "runner_kwargs" ∉ dropped) (execLocal : Bool)
    (kwargsName : String) :
    (RunnerIsDict kwargs ∧ ∃ fields, OrdDict.get? fields "scale_factor" = some (.int scaleFactor) ∧
      attachRunnerScale scaleFactor kwargsName
        (without ["scale_factor"] (localKwargs dropped execLocal kwargs)) =
          .ok (attachedKwargs dropped execLocal kwargs fields)) ∨
    (¬ RunnerIsDict kwargs ∧ attachRunnerScale scaleFactor kwargsName
        (without ["scale_factor"] (localKwargs dropped execLocal kwargs)) =
          .error (.valueError (kwargsName ++ "['runner_kwargs'] must be a dict"))) := by
  have hget : OrdDict.get? (without ["scale_factor"] (localKwargs dropped execLocal kwargs))
      "runner_kwargs" = OrdDict.get? kwargs "runner_kwargs" := by
    rw [get?_without, if_neg (by decide), get?_localKwargs hdropped (by decide)]
  by_cases hdict : RunnerIsDict kwargs
  · exact Or.inl ⟨hdict, attachRunnerScale_eq (fun v hv => hdict v (hget ▸ hv))
      (fun fields v hf hv => hnames.runner fields v (hget ▸ hf) hv) kwargsName⟩
  · exact Or.inr ⟨hdict, attachRunnerScale_of_not_dict
      (fun h => hdict fun v hv => h v (hget.trans hv)) kwargsName⟩

/-- `FULL_METRICS` is set after the scale factor is attached. -/
theorem setFullMetrics_cases {kwargs fields : Kwargs} (getFullMetrics execLocal : Bool)
    (hfields : OrdDict.get? fields "scale_factor" = some (.int scaleFactor)) :
    let attached := attachedKwargs ["dataset", "n_runs"] execLocal kwargs fields
    let result := if getFullMetrics = true then setFullMetrics attached else .ok attached
    ((getFullMetrics = true → PlaceholdersAreDict kwargs) ∧
      ∃ e, result = .ok e ∧ Attached scaleFactor e) ∨
    (¬ (getFullMetrics = true → PlaceholdersAreDict kwargs) ∧ result = .error .typeError) := by
  intro attached result
  have hattached := attached_attachedKwargs hfields ["dataset", "n_runs"] execLocal kwargs
  cases getFullMetrics with
  | false => exact Or.inl ⟨fun h => absurd h (by decide), attached, rfl, hattached⟩
  | true =>
    have hget : OrdDict.get? attached "sandbox_placeholders" =
        OrdDict.get? kwargs "sandbox_placeholders" := by
      rw [get?_attachedKwargs (by decide), if_neg (by decide)]
    by_cases hdict : PlaceholdersAreDict kwargs
    · obtain ⟨v, hv⟩ := setFullMetrics_of_dict
        (show PlaceholdersAreDict attached from fun v h => hdict v (hget ▸ h))
      exact Or.inl ⟨fun _ => hdict, _, hv, hattached.set (by decide) (by decide) v⟩
    · exact Or.inr ⟨fun h => hdict (h rfl),
        setFullMetrics_of_not_dict fun h => hdict fun v hv => h v (hget.trans hv)⟩

variable (env) in
/-- How the keyword arguments are prepared where they name no other scale factor. -/
theorem prepareKwargs_cases (hv : NamesNoOther scaleFactor req.validateKwargs)
    (he : NamesNoOther scaleFactor req.evaluationKwargs) :
    (KwargsAccepted env req scaleFactor ∧
      ∃ kwargs, prepareKwargs env req scaleFactor = .ok kwargs ∧ Attached scaleFactor kwargs.1 ∧
        Attached scaleFactor kwargs.2 ∧ OrdDict.get? kwargs.1 "dataset" = none ∧
        ∀ name ∈ ownParameters, OrdDict.get? kwargs.1 name = OrdDict.get? req.validateKwargs name) ∨
    (¬ KwargsAccepted env req scaleFactor ∧
      ∃ e, prepareKwargs env req scaleFactor = .error e ∧ NoConflict e) := by
  unfold prepareKwargs
  rw [popScale_localKwargs hv (by decide), popScale_localKwargs he (by decide)]
  -- in the order of the source: the data, the two runners, the metrics; the first to fail decides
  by_cases hlocal : req.execLocal = true → ensureLocalData env req.dataset scaleFactor = .ok ()
  · have hstart : (if req.execLocal = true then ensureLocalData env req.dataset scaleFactor
        else .ok ()) = .ok () := by
      split
      next h => exact hlocal h
      next => rfl
    rw [hstart, Except.ok_bind, Except.ok_bind, Except.ok_bind]
    rcases attachRunnerScale_cases hv (show "runner_kwargs" ∉ ["dataset"] by decide) req.execLocal
      "validate_kwargs" with ⟨hdictv, fieldsv, hfieldsv, hattachv⟩ | ⟨hdictv, hattachv⟩
    · rw [hattachv, Except.ok_bind]
      rcases attachRunnerScale_cases he (show "runner_kwargs" ∉ ["dataset", "n_runs"] by decide)
        req.execLocal "evaluation_kwargs" with
        ⟨hdicte, fieldse, hfieldse, hattache⟩ | ⟨hdicte, hattache⟩
      · rw [hattache, Except.ok_bind]
        rcases setFullMetrics_cases req.getFullMetrics req.execLocal hfieldse with
          ⟨hmetrics, e, hset, hattached⟩ | ⟨hmetrics, hset⟩
        · rw [hset]
          refine Or.inl ⟨⟨hlocal, hdictv, hdicte, hmetrics⟩, _, rfl,
            attached_attachedKwargs hfieldsv _ _ _, hattached.set (by decide) (by decide) _, ?_,
            fun name hname => ?_⟩
          · exact (get?_attachedKwargs (by decide) _ _ _ _).trans (if_pos (by decide))
          · have hne : ∀ n ∈ ownParameters, n ∉ ["runner_kwargs", "scale_factor", "exec_local"] ∧
                n ∉ ["dataset"] := by decide
            exact (get?_attachedKwargs (hne name hname).1 _ _ _ _).trans (if_neg (hne name hname).2)
        · rw [hset]
          exact Or.inr ⟨fun h => hmetrics h.fullMetrics, _, rfl, id⟩
      · rw [hattache]
        exact Or.inr ⟨fun h => hdicte h.evaluationRunner, _, rfl, by decide⟩
    · rw [hattachv]
      exact Or.inr ⟨fun h => hdictv h.validateRunner, _, rfl, by decide⟩
  · refine Or.inr ⟨fun h => hlocal h.localData, ?_⟩
    push Not at hlocal
    rw [if_pos hlocal.1]
    cases hdata : ensureLocalData env req.dataset scaleFactor with
    | ok u => exact absurd hdata hlocal.2
    | error e => exact ⟨e, rfl, ensureLocalData_failsIn _ _ _ e hdata⟩

/-- What the checks leave. -/
structure Prepared.For (scaleFactor : Int) (prepared : Prepared req) : Prop where
  scale : prepared.scaleFactor = scaleFactor
  validate : Attached scaleFactor prepared.validateKwargs
  evaluation : Attached scaleFactor prepared.evaluationKwargs
  dataset : OrdDict.get? prepared.validateKwargs "dataset" = none
  own : ∀ name ∈ ownParameters,
    OrdDict.get? prepared.validateKwargs name = OrdDict.get? req.validateKwargs name

variable (env) in
/-- **The checks of a call whose keyword arguments name no other scale factor.** -/
theorem prepare_cases (hscale : req.scaleFactor = some scaleFactor)
    (hv : NamesNoOther scaleFactor req.validateKwargs)
    (he : NamesNoOther scaleFactor req.evaluationKwargs) :
    (Checked env req scaleFactor ∧
      ∃ prepared, prepare env req = .ok prepared ∧ Prepared.For scaleFactor prepared) ∨
    (¬ Checked env req scaleFactor ∧ ∃ e, prepare env req = .error e ∧ NoConflict e) := by
  unfold prepare
  cases hparams : checkParameters req with
  | error e =>
    refine Or.inr ⟨fun h => ?_, e, rfl, checkParameters_failsIn req e hparams⟩
    obtain ⟨pos, hpos⟩ := checkParameters_of_accepted h.toParametersAccepted
    exact absurd (hparams.symm.trans hpos) (by simp)
  | ok pos =>
    rw [Except.ok_bind, hscale]
    rcases prepareKwargs_cases env hv he with
      ⟨hkwargs, kwargs, hprepare, hvalidate, hevaluation, hdataset, hown⟩ |
        ⟨hkwargs, e, hprepare, hplain⟩
    · simp only [hprepare, Except.ok_bind]
      cases hdir : checkRunDir req with
      | ok u =>
        exact Or.inl ⟨⟨parametersAccepted_of_ok hparams, hkwargs, checkRunDir_ok_iff.mp hdir⟩,
          _, rfl, rfl, hvalidate, hevaluation, hdataset, hown⟩
      | error e =>
        refine Or.inr ⟨fun h => ?_, e, rfl, checkRunDir_failsIn req e hdir⟩
        exact absurd (hdir.symm.trans (checkRunDir_ok_iff.mpr h.runDir)) (by simp)
    · simp only [hprepare]
      exact Or.inr ⟨fun h => hkwargs h.toKwargsAccepted, e, rfl, hplain⟩

end

/-! ## What the phases submit -/

/-- The scale factor is in the runner arguments. -/
def Submission.UsesScale (scaleFactor : Int) (s : Submission) : Prop :=
  ∃ fields, s.runnerKwargs = .obj fields ∧
    OrdDict.get? fields "scale_factor" = some (.int scaleFactor)

theorem Submission.Of.usesScale {dataFolder : String} {execLocal : Json} {fields : Kwargs}
    {scaleFactor : Int} {s : Submission} (h : s.Of dataFolder execLocal (.obj fields))
    (hfields : OrdDict.get? fields "scale_factor" = some (.int scaleFactor)) :
    s.UsesScale scaleFactor := ⟨fields, h.runnerKwargs, hfields⟩

section

variable {env : Env} {scaleFactor : Int} {kwargs : Kwargs}

/-- A conflict does not arise where the scale factor is attached. -/
theorem withScale_attached {fields : Kwargs}
    (h : OrdDict.get? fields "scale_factor" = some (.int scaleFactor)) (name : String) :
    ∃ r, withScale name (.int scaleFactor) fields = .ok r := by
  unfold withScale
  rw [h]
  exact ⟨_, if_pos (by simp [Json.pyEq, Json.number?])⟩

/-- It does where another one is given. -/
theorem withScale_other {fields : Kwargs} {other : Int}
    (h : OrdDict.get? fields "scale_factor" = some (.int scaleFactor)) (hne : scaleFactor ≠ other)
    (name : String) :
    withScale name (.int other) fields = .error (.valueError (scaleConflict name)) := by
  unfold withScale
  rw [h]
  exact if_neg (by simpa [Json.pyEq, Json.number?] using hne.symm)

/-- Query validation with the default scale factor attached. -/
theorem validateAndPlanQueries_keeps (hk : Attached defaultScaleFactor kwargs)
    (queries : List String) (dataset : String) (maxWorkers : Int) :
    Logged.Keeps (Submission.UsesScale defaultScaleFactor) NoConflict
      (validateAndPlanQueries env queries dataset scaleFactor maxWorkers kwargs false none) := by
  obtain ⟨fields, hrunner, hfields⟩ := hk.runner
  obtain ⟨r, hr⟩ := withScale_attached hfields "runner_kwargs['scale_factor']"
  unfold validateAndPlanQueries
  dsimp only
  rw [if_neg (by decide)]
  refine (Logged.Keeps.lift (callKwargs_failsIn _ _ _)).bind fun args hargs => ?_
  refine Logged.Keeps.bind ?_ fun validated _ => .pure _
  have hscale := kwarg_callKwargs hargs "scale_factor" rfl (.int defaultScaleFactor)
  rw [kwarg, kwarg, hk.topLevel] at hscale
  have hdict := kwarg_callKwargs hargs "runner_kwargs" rfl (.obj [])
  rw [kwarg, kwarg, hrunner] at hdict
  refine (validateQueries_keeps env queries dataset maxWorkers ?_ ?_ hr).mono
    (fun s hs => hs.usesScale (get?_withScale hr)) fun _ h => h
  · rw [kwarg_without (by simp [OrdDict.keys])]
    exact hscale
  · rw [kwarg_without (by simp [OrdDict.keys])]
    exact hdict

/-- Validation of the user's plans. -/
theorem integrateUserBasePlans_usesScale (hk : Attached scaleFactor kwargs)
    (userBasePlans : Option (List (Option Json))) (enginePlans : List (Option Json))
    (dataset : String) (maxWorkers : Int) (skipValidation : Bool) :
    Logged.Keeps (Submission.UsesScale scaleFactor) NoConflict
      (integrateUserBasePlans env userBasePlans enginePlans dataset kwargs maxWorkers
        skipValidation) := by
  obtain ⟨fields, hrunner, hfields⟩ := hk.runner
  have hkeeps := integrateUserBasePlans_keeps env userBasePlans enginePlans dataset kwargs maxWorkers
    skipValidation
  rw [show kwarg kwargs "runner_kwargs" .null = .obj fields by rw [kwarg, hrunner]; rfl] at hkeeps
  exact hkeeps.mono (fun s hs => hs.usesScale hfields) fun _ h => h

variable (env) in
/-- Benchmarks of the base plans. -/
theorem evaluateAndCurateBasePlans_keeps (hk : Attached scaleFactor kwargs) (queries : List String)
    (enginePlans : List (Option Json)) (dataset : String) (nRuns maxWorkers : Int) :
    Logged.Keeps (Submission.UsesScale scaleFactor) NoConflict
      (evaluateAndCurateBasePlans env queries enginePlans dataset scaleFactor nRuns maxWorkers
        kwargs) := by
  obtain ⟨fields, hrunner, hfields⟩ := hk.runner
  obtain ⟨r, hr⟩ := withScale_attached hfields "runner_kwargs['scale_factor']"
  unfold evaluateAndCurateBasePlans
  dsimp only
  refine (Logged.Keeps.lift (callKwargs_failsIn _ _ _)).bind fun args hargs => ?_
  refine Logged.Keeps.bind ?_ fun results _ => ?_
  · have hdict := kwarg_callKwargs hargs "runner_kwargs" rfl .null
    rw [kwarg, kwarg, hrunner] at hdict
    refine (benchmarkPlans_keeps env _ dataset scaleFactor nRuns maxWorkers ?_ hr).mono
      (fun s hs => hs.usesScale (get?_withScale hr)) fun _ h => h
    rw [kwarg_without (by simp [OrdDict.keys])]
    exact hdict
  · split
    next => exact .pure _
    next => exact .pure _

/-- The runner arguments that are handed on. -/
theorem Attached.kwarg_eq (hk : Attached scaleFactor kwargs) :
    ∃ fields, (∀ default, kwarg kwargs "runner_kwargs" default = .obj fields) ∧
      OrdDict.get? fields "scale_factor" = some (.int scaleFactor) := by
  obtain ⟨fields, hrunner, hfields⟩ := hk.runner
  exact ⟨fields, fun default => by rw [kwarg, hrunner]; rfl, hfields⟩

end

/-! ## Sampling -/

section

variable {env : Env} {scaleFactor : Int} {c : EvaluationCall} {fields : Kwargs}

/-- The call in `_run_step` hands the runner arguments on. -/
theorem evaluationCall_runner {dataset : String} {nRuns maxWorkers : Int} {kwargs : Kwargs}
    (h : evaluationCall dataset nRuns maxWorkers kwargs = .ok c) (default : Json) :
    kwarg c.kwargs "runner_kwargs" default = kwarg kwargs "runner_kwargs" default := by
  unfold evaluationCall at h
  obtain ⟨args, hargs, h⟩ := Except.bind_eq_ok.mp h
  obtain ⟨scale, _, h⟩ := Except.bind_eq_ok.mp h
  injection (show Except.ok _ = Except.ok c from h) with h
  rw [← h, kwarg_without (by simp [OrdDict.keys]), kwarg_callKwargs hargs "runner_kwargs" rfl,
    kwarg_without (by decide)]

theorem runnerScale_failsIn (kwargs : Kwargs) : (runnerScale kwargs).FailsIn NoConflict := by
  unfold runnerScale
  split
  next => exact .ok _
  next =>
    split
    next => exact .error id
    next => exact .ok _

theorem evaluationCall_failsIn (dataset : String) (nRuns maxWorkers : Int) (kwargs : Kwargs) :
    (evaluationCall dataset nRuns maxWorkers kwargs).FailsIn NoConflict :=
  (callKwargs_failsIn _ _ _).bind fun _ _ => (runnerScale_failsIn _).bind fun _ _ => .ok _

variable (env) in
theorem validateSample_log (hrunner : ∀ d, kwarg c.kwargs "runner_kwargs" d = .obj fields)
    (hfields : OrdDict.get? fields "scale_factor" = some (.int scaleFactor)) (site : Site)
    (plan originalPlan : Json) :
    ∀ s ∈ (validateSample env site plan originalPlan (c.dataFolder env) c.execLocal c.kwargs).log,
      s.UsesScale scaleFactor := by
  suffices h : Logged.Keeps (Submission.UsesScale scaleFactor) NoConflict
      (validateSample env site plan originalPlan (c.dataFolder env) c.execLocal c.kwargs) from h.log
  refine (Logged.Keeps.lift (callKwargs_failsIn _ _ _)).bind fun args hargs => ?_
  have hkeeps := validatePlanResultSet_keeps env site (c.dataFolder env) args plan originalPlan
  rw [kwarg_callKwargs hargs "runner_kwargs" rfl, hrunner] at hkeeps
  exact hkeeps.mono (fun s hs => hs.usesScale hfields) fun _ h => h

theorem evaluateSample_log (hrunner : ∀ d, kwarg c.kwargs "runner_kwargs" d = .obj fields)
    (hfields : OrdDict.get? fields "scale_factor" = some (.int scaleFactor)) (site : Site)
    (plan : Json) :
    ∀ s ∈ (evaluateSample env site plan (c.dataFolder env) c.nRuns c.execLocal c.kwargs).log,
      s.UsesScale scaleFactor := by
  suffices h : Logged.Keeps (Submission.UsesScale scaleFactor) NoConflict
      (evaluateSample env site plan (c.dataFolder env) c.nRuns c.execLocal c.kwargs) from h.log
  refine (Logged.Keeps.lift (callKwargs_failsIn _ _ _)).bind fun args hargs => ?_
  have hdict := (kwarg_callKwargs hargs "runner_kwargs" rfl .null).trans (hrunner .null)
  exact (evaluatePlanNRuns_keeps env site (c.dataFolder env) plan c.nRuns hdict).mono
    (fun s hs => hs.usesScale hfields) fun _ h => h

/-- What a sampling run submits is submitted by the validation or by the evaluation of a sample. -/
theorem EvaluationCall.mem_runLog {run : Sampling.Run} {s : Submission} (hs : s ∈ c.runLog env run) :
    ∃ site plan,
      (∃ originalPlan, s ∈ (validateSample env site plan originalPlan (c.dataFolder env) c.execLocal
        c.kwargs).log) ∨
      s ∈ (evaluateSample env site plan (c.dataFolder env) c.nRuns c.execLocal c.kwargs).log := by
  obtain ⟨x, _, hs⟩ := List.mem_flatMap.mp hs
  split at hs
  next k _ =>
    obtain ⟨q, _, hs⟩ := List.mem_flatMap.mp hs
    obtain ⟨p, _, hs⟩ := List.mem_flatMap.mp hs
    unfold EvaluationCall.sampleLog at hs
    split at hs
    next => exact absurd hs List.not_mem_nil
    next plan _ =>
      dsimp only at hs
      split at hs
      next =>
        rcases List.mem_append.mp hs with hs | hs
        · exact ⟨.sample k q.2 p.2, plan, Or.inl ⟨q.1.plan, hs⟩⟩
        · exact ⟨.sample k q.2 p.2, plan, Or.inr hs⟩
      next => exact ⟨.sample k q.2 p.2, plan, Or.inl ⟨q.1.plan, hs⟩⟩
  next => exact absurd hs List.not_mem_nil

/-- **Every operation of a sampling run has the scale factor of its keyword arguments.** -/
theorem EvaluationCall.runLog_usesScale
    (hrunner : ∀ d, kwarg c.kwargs "runner_kwargs" d = .obj fields)
    (hfields : OrdDict.get? fields "scale_factor" = some (.int scaleFactor)) (run : Sampling.Run) :
    ∀ s ∈ c.runLog env run, s.UsesScale scaleFactor := by
  intro s hs
  obtain ⟨site, plan, ⟨originalPlan, hs⟩ | hs⟩ := EvaluationCall.mem_runLog hs
  · exact validateSample_log env hrunner hfields site plan originalPlan s hs
  · exact evaluateSample_log hrunner hfields site plan s hs

/-- A fault that is no conflict of scale factors. -/
def FaultNoConflict (f : Fault) : Prop := ∀ e, f = .raised e → NoConflict e

/-- The sampling phase. -/
theorem runOptimizationSampling_keeps {req : Request} {prepared : Prepared req}
    (hk : Attached scaleFactor prepared.evaluationKwargs) (curated : List Sampling.CuratedEntry) :
    Logged.Keeps (Submission.UsesScale scaleFactor) FaultNoConflict
      (runOptimizationSampling env req prepared curated) := by
  obtain ⟨fields, hrunner, hfields⟩ := hk.kwarg_eq
  unfold runOptimizationSampling
  dsimp only
  split
  next => exact .pure _
  next =>
    refine (Logged.Keeps.lift ((evaluationCall_failsIn _ _ _ _).mapError ?_)).bind fun c hc => ?_
    · rintro e he _ ⟨⟩
      exact he
    · have hc := Except.mapError_eq_ok.mp hc
      refine ⟨EvaluationCall.runLog_usesScale
        (fun d => (evaluationCall_runner hc d).trans (hrunner d)) hfields _, fun f hf e he => ?_⟩
      have hplain := Sampling.runSamplingSteps_failsIn _ _ f hf
      rw [he] at hplain
      cases e with
      | valueError text => exact absurd hplain id
      | _ => exact id

end

/-! ## Whole runs -/

/-- Every operation has the scale factor, and no two scale factors conflict. -/
def OneScale (scaleFactor : Int) (run : Logged Submission Fault Outcome) : Prop :=
  Logged.Keeps (Submission.UsesScale scaleFactor) FaultNoConflict run

section

variable {env : Env} {req : Request} {scaleFactor : Int}

theorem faultNoConflict_raised {e : PyErr} (h : NoConflict e) : FaultNoConflict (.raised e) := by
  rintro _ ⟨⟩
  exact h

/-- **With the default scale factor every phase has it.** -/
theorem optimizePrepared_oneScale {prepared : Prepared req}
    (hp : Prepared.For defaultScaleFactor prepared) (hskip : req.skipValidation = false) :
    OneScale defaultScaleFactor (optimizePrepared env req prepared) := by
  have hcurate := fun plans => evaluateAndCurateBasePlans_keeps env hp.evaluation req.queries
    plans req.dataset req.nRuns req.maxWorkers
  rw [← hp.scale] at hcurate
  unfold OneScale optimizePrepared
  rw [hskip]
  -- phase by phase; without a plan left the run ends before the next one
  refine Logged.Keeps.bind ((validateAndPlanQueries_keeps hp.validate _ _ _).mapError
    fun _ => faultNoConflict_raised) fun planned _ => ?_
  split
  next => exact .pure _
  next =>
    refine Logged.Keeps.bind ((integrateUserBasePlans_usesScale hp.validate _ _ _ _ _).mapError
      fun _ => faultNoConflict_raised) fun integrated _ => ?_
    split
    next => exact .pure _
    next =>
      refine Logged.Keeps.bind (Logged.Keeps.mapError ?_ fun _ => faultNoConflict_raised)
        fun curated _ => ?_
      · exact (hcurate integrated.plans).mono (fun s hs => hp.scale ▸ hs) fun _ h => h
      · split
        next => exact .pure _
        next entries _ =>
          exact (runOptimizationSampling_keeps hp.evaluation entries).bind fun dir _ => .pure _

/-- The error of `validate_queries` for two scale factors. -/
theorem validateQueries_error {args fields : Kwargs} {other : Int} {e : PyErr}
    (hscale : kwarg args "scale_factor" (.int defaultScaleFactor) = .int other)
    (hrunner : kwarg args "runner_kwargs" (.obj []) = .obj fields)
    (he : withScale "runner_kwargs['scale_factor']" (.int other) fields = .error e)
    (queries : List String) (dataset : String) (maxWorkers : Int) :
    (validateQueries env queries dataset maxWorkers args).result = .error e := by
  have hdict : runnerDict "runner_kwargs must be a dict"
      (without ["scale_factor", "exec_local", "seen_queries"] args) = .ok fields := by
    rw [runnerDict, kwarg_without (by decide), hrunner]
  unfold validateQueries
  dsimp only
  rw [hdict, hscale, Logged.bind_of_ok (show (Logged.lift (.ok fields) : Submits Kwargs).result =
    .ok fields from rfl), if_neg (by simp), he]
  rfl

variable (env) in
/-- **With another one, the default of `validate_queries` conflicts with it.** -/
theorem validateAndPlanQueries_conflict {kwargs : Kwargs} (hk : Attached scaleFactor kwargs)
    (hown : ∀ name ∈ "dataset" :: ownParameters, OrdDict.get? kwargs name = none)
    (hne : scaleFactor ≠ defaultScaleFactor) (queries : List String) (dataset : String)
    (maxWorkers : Int) :
    (validateAndPlanQueries env queries dataset scaleFactor maxWorkers kwargs false none).result =
      .error (.valueError (scaleConflict "runner_kwargs['scale_factor']")) := by
  obtain ⟨fields, hrunner, hfields⟩ := hk.kwarg_eq
  unfold validateAndPlanQueries
  dsimp only
  rw [if_neg (by decide)]
  cases hargs : callKwargs [] [("input_file", Json.null), ("output_file", .null),
      ("dead_letter_file", .null), ("dataset", .str dataset), ("max_workers", .int maxWorkers),
      ("output_format", .str "plans"), ("verbose", .bool false),
      ("log_context", .str "optimization")] kwargs with
  -- the validation accepts the keyword arguments, for none of them is one of its own
  | error e =>
    unfold callKwargs at hargs
    split at hargs
    next h =>
      obtain ⟨name, hname, hmem⟩ := h
      refine absurd hmem (OrdDict.get?_eq_none.mp (hown name ?_))
      simp only [OrdDict.keys, List.map_cons, List.map_nil, List.nil_append, List.mem_cons,
        List.not_mem_nil, or_false] at hname
      simp only [ownParameters, List.mem_cons, List.not_mem_nil, or_false]
      tauto
    next => exact absurd hargs (by simp)
  | ok args =>
    -- the scale factor of the run is in `runner_kwargs` only, so the default is compared with it
    have hscale := kwarg_callKwargs hargs "scale_factor" rfl (.int defaultScaleFactor)
    rw [kwarg, kwarg, hk.topLevel] at hscale
    have hdict := (kwarg_callKwargs hargs "runner_kwargs" rfl (.obj [])).trans (hrunner _)
    rw [Logged.bind_of_ok (show (Logged.lift (.ok args) : Submits Kwargs).result = .ok args from rfl),
      Logged.bind_of_error (validateQueries_error ?_ ?_ (withScale_other hfields hne _) _ _ _)]
    · rw [kwarg_without (by simp [OrdDict.keys])]
      exact hscale
    · rw [kwarg_without (by simp [OrdDict.keys])]
      exact hdict

/-- Keyword arguments that `_validate_and_plan_queries` sets itself are refused. -/
theorem validateAndPlanQueries_ownParameter {kwargs : Kwargs} {name : String}
    (hname : name ∈ ownParameters) (hmem : name ∈ OrdDict.keys kwargs) (queries : List String)
    (dataset : String) (maxWorkers : Int) :
    validateAndPlanQueries env queries dataset scaleFactor maxWorkers kwargs false none =
      ⟨[], .error .typeError⟩ := by
  unfold validateAndPlanQueries
  dsimp only
  rw [if_neg (by decide), callKwargs, if_pos]
  · rfl
  · refine ⟨name, ?_, hmem⟩
    simp only [OrdDict.keys, List.map_cons, List.map_nil, List.nil_append, List.mem_cons,
      List.not_mem_nil, or_false]
    simp only [ownParameters, List.mem_cons, List.not_mem_nil, or_false] at hname
    tauto

/-- An exception in the first phase ends the run. -/
theorem optimizePrepared_error {prepared : Prepared req} {e : PyErr}
    (h : (validateAndPlanQueries env req.queries req.dataset prepared.scaleFactor req.maxWorkers
      prepared.validateKwargs req.skipValidation none).result = .error e) :
    optimizePrepared env req prepared = ⟨(validateAndPlanQueries env req.queries req.dataset
      prepared.scaleFactor req.maxWorkers prepared.validateKwargs req.skipValidation none).log,
      .error (.raised e)⟩ := by
  unfold optimizePrepared
  rw [Logged.bind_of_error]
  · rfl
  · rw [Logged.mapError, h]
    rfl

/-- **A new run has one scale factor exactly when it is the default, or the call is refused for
another reason**, whatever the keyword arguments that name no other. -/
theorem optimizeQueries_oneScale_iff (env : Env) (req : Request) (scaleFactor : Int)
    (hscale : req.scaleFactor = some scaleFactor) (hskip : req.skipValidation = false)
    (hv : NamesNoOther scaleFactor req.validateKwargs)
    (he : NamesNoOther scaleFactor req.evaluationKwargs) :
    OneScale scaleFactor (optimizeQueries env req) ↔
      scaleFactor = defaultScaleFactor ∨ ¬ Accepted env req scaleFactor := by
  unfold optimizeQueries
  rcases prepare_cases env hscale hv he with
    ⟨hchecked, prepared, hprepare, hp⟩ | ⟨hchecked, e, hprepare, hplain⟩
  · rw [hprepare]
    show OneScale scaleFactor (optimizePrepared env req prepared) ↔ _
    by_cases hdefault : scaleFactor = defaultScaleFactor
    · subst hdefault
      exact iff_of_true (optimizePrepared_oneScale hp hskip) (Or.inl rfl)
    -- an argument that the run gives itself is refused before the scale factors are compared
    by_cases hown : ∀ name ∈ ownParameters, name ∉ OrdDict.keys req.validateKwargs
    · refine iff_of_false (fun h => ?_) fun h => h.elim hdefault fun h => h ⟨hchecked, hown⟩
      have hconflict := validateAndPlanQueries_conflict env hp.validate (fun name hname => ?_)
        hdefault req.queries req.dataset req.maxWorkers
      · rw [← hskip, ← hp.scale] at hconflict
        refine h.error (.raised _) ?_ _ rfl
          (show IsConflict (.valueError (scaleConflict "runner_kwargs['scale_factor']")) by decide)
        rw [optimizePrepared_error hconflict]
      · rcases List.mem_cons.mp hname with rfl | hname
        · exact hp.dataset
        · rw [hp.own name hname, OrdDict.get?_eq_none]
          exact hown name hname
    · refine iff_of_true ?_ (Or.inr fun h => hown h.ownParameters)
      push Not at hown
      obtain ⟨name, hname, hmem⟩ := hown
      have hmem : name ∈ OrdDict.keys prepared.validateKwargs := by
        rw [← OrdDict.get?_isSome, hp.own name hname, OrdDict.get?_isSome]
        exact hmem
      have hrefused : validateAndPlanQueries env req.queries req.dataset prepared.scaleFactor
          req.maxWorkers prepared.validateKwargs req.skipValidation none = _ :=
        hskip ▸ validateAndPlanQueries_ownParameter hname hmem _ _ _
      rw [optimizePrepared_error (congrArg Logged.result hrefused), hrefused]
      exact ⟨fun _ h => absurd h List.not_mem_nil, .error (faultNoConflict_raised id)⟩
  · rw [hprepare]
    refine iff_of_true ?_ (Or.inr fun h => hchecked h.toChecked)
    exact (Logged.Keeps.lift (.error (faultNoConflict_raised hplain))).bind
      fun _ h => absurd h (by simp [Logged.lift])

end

/-- An engine whose only query has one row and whose operations all succeed, in their order. -/
def oneRowEnv : Env where
  localDataDir := "data"
  str := fun _ => "None"
  excText := PyErr.className
  loads := fun _ => none
  answer := fun _ operation _ => .ok (match operation with
    | .validate => [("is_syntax_valid", .bool true), ("plan", .obj [("structure", .obj [])]),
        ("can_run", .bool true), ("is_empty", .bool false), ("row_count", .int 1),
        ("execution_time", .int 1)]
    | .execute => [("result_data", .str "[]")]
    | .plan => [("plan", .obj [("structure", .obj [])])]
    | .evaluate => [("execution_time", .int 1)])
  arrival := fun _ n => Equiv.refl (Fin n)
  queryOrder := fun n => Equiv.refl (Fin n)
  compareResultSets := fun a b => a.pyEq b
  computeMetricStats := fun _ => []
  localData := fun _ _ => .present
  patch := fun s _ => .ok s
  llm := fun _ _ _ _ _ => ⟨⟨.null, .null, .null, .null, .null⟩, none, some []⟩

/-- A call with a query and a scale factor, everything else by default but for fewer steps. -/
def oneQuery (scaleFactor : Int) : Request where
  queries := ["SELECT 1"]
  basePlans := none
  runDirExists := none
  dataset := "tpch"
  scaleFactor := some scaleFactor
  strategy := .bolEvol
  nSteps := 1
  nSamplesPerStep := 1
  topKPatches := 1
  nRuns := 1
  model := "gpt-5"
  optimizationMetric := "execution_time.min"
  maxWorkers := 20
  maxEvalWorkers := 8
  resume := false
  skipValidation := false
  validateKwargs := []
  evaluationKwargs := []
  getFullMetrics := false
  execLocal := false

theorem namesNoOther_nil (scaleFactor : Int) : NamesNoOther scaleFactor [] :=
  ⟨fun _ h => absurd h (by simp), fun _ _ h => absurd h (by simp)⟩

/-- The default scale factor, with operations that are submitted. -/
theorem optimizeQueries_oneScale_default :
    (optimizeQueries oneRowEnv (oneQuery 3)).log ≠ [] ∧
      OneScale 3 (optimizeQueries oneRowEnv (oneQuery 3)) :=
  ⟨by decide, (optimizeQueries_oneScale_iff oneRowEnv (oneQuery 3) 3 rfl rfl (namesNoOther_nil 3)
    (namesNoOther_nil 3)).mpr (Or.inl rfl)⟩

/-- Any call with scale factor 10 fails. -/
theorem optimizeQueries_conflict_ten :
    (optimizeQueries oneRowEnv (oneQuery 10)).result =
        .error (.raised (.valueError "scale_factor conflicts with runner_kwargs['scale_factor']")) ∧
      NamesNoOther 10 (oneQuery 10).validateKwargs ∧
      NamesNoOther 10 (oneQuery 10).evaluationKwargs ∧
      ¬ OneScale 10 (optimizeQueries oneRowEnv (oneQuery 10)) := by
  have hresult : (optimizeQueries oneRowEnv (oneQuery 10)).result =
      .error (.raised (.valueError "scale_factor conflicts with runner_kwargs['scale_factor']")) := rfl
  refine ⟨hresult, namesNoOther_nil 10, namesNoOther_nil 10, fun h => ?_⟩
  exact h.error _ hresult _ rfl (show IsConflict _ by decide)

end DbPlanBench.Optimize
