import DbPlanBench.Sampling.Select

/-!
# One sampling step

`sample_plans_from_file` selects base plans in every query, patches the query's plan
accordingly and asks the language model for patches to the result;
`evaluate_sampled_plans` applies each answer to the query's plan and has the engine
validate and time it. A step runs both and merges the outcome (`runStep`).

The answers of the model and of the engine are parameters, indexed by the position
of the question, so the same question may be answered differently twice. Applying
patches is `jsonpatch`'s; its exceptions are texts.

* `runStep_eq` — what a step adds to each query.
-/

namespace DbPlanBench.Sampling

/-- `JsonPatch(patches).apply(structure)`: the patched document, or the text of the exception. -/
abbrev JsonPatch := Json → List Json → Except String Json

/-- `apply_patches_to_plan`. -/
def applyPatchesToPlan (patch : JsonPatch) (originalPlan : Json) (patches : List Json) :
    Except String Json :=
  match originalPlan with
  | .obj fields =>
    match OrdDict.get? fields "structure" with
    | some s => do
      let modified ← patch s patches
      return .obj (OrdDict.set fields "structure" modified)
    | none => .error "'structure'"
  | _ => .error "the plan is not a dictionary"

/-! ## Sampling -/

/-- `GenerationResult`. -/
structure GenerationResult where
  response : Response
  errorMessage : Option String
  sampledPatches : Option (List Json)

/-- The model's answers to a query of the batch, by its position. -/
abbrev Answers := Nat → String → Json → List GenerationResult

/-- `new_sampled_plan`. -/
def newSampledPlan (base : BasePlan) (result : GenerationResult) : SampledPlan where
  parentSampleId := base.parentSampleId
  upstreamPatches := base.upstreamPatches
  upstreamEvaluationStats := base.upstreamEvaluationStats
  sampledPatches := result.sampledPatches
  isValid := result.errorMessage.isNone
  errorMessage := result.errorMessage
  response := result.response
  evaluationStats := .null

/-- The base plans of a query. -/
def selectBasePlans (strategy : SamplingStrategy) (q : QueryData) :
    Except Fault (QueryData × List BasePlan) := do
  let bases ← getBasePlansForSampling q.sampledPlans strategy
  return (q, bases)

/-- An item of `queries_batch`. -/
def batchItem (patch : JsonPatch) (p : QueryData × BasePlan) : Except Fault (String × Json) :=
  match applyPatchesToPlan patch p.1.plan p.2.upstreamPatches with
  | .ok plan => .ok (p.1.query, plan)
  | .error text => .error (.patchError text)

/-- The samples of a query, given the answers for its base plans. -/
def sampledQuery (model : String) (p : QueryData × List BasePlan)
    (answers : List (List GenerationResult)) : SampledQuery where
  id := p.1.id
  query := p.1.query
  plan := p.1.plan
  model := model
  sampledPlans := (p.2.zip answers).flatMap fun a => a.2.map (newSampledPlan a.1)

/-- The answers are handed out in the order of the batch. -/
def distribute (model : String) : List (QueryData × List BasePlan) →
    List (List GenerationResult) → List SampledQuery
  | [], _ => []
  | p :: rest, answers =>
    sampledQuery model p (answers.take p.2.length) ::
      distribute model rest (answers.drop p.2.length)

/-- `sample_plans_from_file`. -/
def samplePlansFromFile (patch : JsonPatch) (strategy : SamplingStrategy) (model : String)
    (generate : Answers) (queries : List QueryData) : Except Fault (List SampledQuery) := do
  let selected ← queries.mapM (selectBasePlans strategy)
  let batch ← (selected.flatMap fun p => p.2.map fun b => (p.1, b)).mapM (batchItem patch)
  let answers := batch.zipIdx.map fun p => generate p.2 p.1.1 p.1.2
  return distribute model selected answers

/-! ## Evaluating -/

/-- The engine's answers, by the positions of the query and of the sample: an exception, or the
error of a failed validation, and the evaluation of a plan. -/
structure Engine where
  validate : Nat × Nat → Json → Json → Except String (Option String)
  evaluate : Nat × Nat → Json → Except String Json

/-- `invalid_result`. -/
def invalidResult (s : SampledPlan) (errorMessage : Option String) : SampledPlan :=
  { s with isValid := false, errorMessage := errorMessage, evaluationStats := .null }

/-- `valid_result`. -/
def validResult (s : SampledPlan) (evaluationStats : Json) : SampledPlan :=
  { s with isValid := true, errorMessage := none, evaluationStats := evaluationStats }

/-- `validate_evaluate_plan_wrapper`, and the harvesting of its result. -/
def validateEvaluatePlan (engine : Engine) (pos : Nat × Nat) (plan originalPlan : Json)
    (s : SampledPlan) : SampledPlan :=
  match engine.validate pos plan originalPlan with
  | .error exc => invalidResult s (some ("Failed to get evaluation result: " ++ exc))
  | .ok (some validationError) => invalidResult s (some validationError)
  | .ok none =>
    match engine.evaluate pos plan with
    | .error exc => invalidResult s (some ("Evaluation failed: " ++ exc))
    | .ok stats => validResult s stats

/-- One sample of `evaluate_sampled_plans`. -/
def evaluatePlan (patch : JsonPatch) (engine : Engine) (pos : Nat × Nat) (originalPlan : Json)
    (s : SampledPlan) : SampledPlan :=
  if s.isValid = false then invalidResult s s.errorMessage
  else match s.sampledPatches with
    | none => invalidResult s (some "Failed to apply patches to plan: sampled_patches is None")
    | some [] => validResult s s.upstreamEvaluationStats
    | some patches =>
      match applyPatchesToPlan patch originalPlan (s.upstreamPatches ++ patches) with
      | .error exc => invalidResult s (some ("Failed to apply patches to plan: " ++ exc))
      | .ok plan => validateEvaluatePlan engine pos plan originalPlan s

/-- One query of `evaluate_sampled_plans`. -/
def evaluateQuery (patch : JsonPatch) (engine : Engine) (p : SampledQuery × Nat) : SampledQuery :=
  { p.1 with
    sampledPlans := p.1.sampledPlans.zipIdx.map fun s =>
      evaluatePlan patch engine (p.2, s.2) p.1.plan s.1 }

/-- `evaluate_sampled_plans`. -/
def evaluateSampledPlans (patch : JsonPatch) (engine : Engine) (sampled : List SampledQuery) :
    List SampledQuery := sampled.zipIdx.map (evaluateQuery patch engine)

/-! ## Steps -/

/-- What a step is run with. -/
structure Step where
  strategy : SamplingStrategy
  model : String
  generate : Answers
  engine : Engine

/-- The files of a step. -/
def stepFile (patch : JsonPatch) (step : Step) (state : List QueryData) :
    Except Fault (List SampledQuery) := do
  let sampled ← samplePlansFromFile patch step.strategy step.model step.generate state
  return evaluateSampledPlans patch step.engine sampled

/-- Sample, evaluate, accumulate. -/
def runStep (patch : JsonPatch) (state : List QueryData) (step : Step) :
    Except Fault (List QueryData) := do
  let evaluated ← stepFile patch step state
  match accumulateSamples evaluated state with
  | .ok state' => .ok state'
  | .error e => .error (.raised e)

/-! ## What an evaluation leaves alone, and what a valid sample shows -/

section

variable {patch : JsonPatch} {engine : Engine} {pos : Nat × Nat} {originalPlan : Json}
  {s : SampledPlan}

/-- An evaluation decides on validity, error and statistics. -/
theorem evaluatePlan_cases (P : SampledPlan → Prop) (hinvalid : ∀ msg, P (invalidResult s msg))
    (hvalid : ∀ stats, P (validResult s stats)) :
    P (evaluatePlan patch engine pos originalPlan s) := by
  unfold evaluatePlan
  split
  next => exact hinvalid _
  next =>
    split
    next => exact hinvalid _
    next => exact hvalid _
    next =>
      split
      next => exact hinvalid _
      next =>
        unfold validateEvaluatePlan
        split
        next => exact hinvalid _
        next => exact hinvalid _
        next =>
          split
          next => exact hinvalid _
          next => exact hvalid _

@[simp] theorem evaluatePlan_parentSampleId :
    (evaluatePlan patch engine pos originalPlan s).parentSampleId = s.parentSampleId :=
  evaluatePlan_cases (fun r => r.parentSampleId = s.parentSampleId) (fun _ => rfl) fun _ => rfl

@[simp] theorem evaluatePlan_upstreamPatches :
    (evaluatePlan patch engine pos originalPlan s).upstreamPatches = s.upstreamPatches :=
  evaluatePlan_cases (fun r => r.upstreamPatches = s.upstreamPatches) (fun _ => rfl) fun _ => rfl

@[simp] theorem evaluatePlan_sampledPatches :
    (evaluatePlan patch engine pos originalPlan s).sampledPatches = s.sampledPatches :=
  evaluatePlan_cases (fun r => r.sampledPatches = s.sampledPatches) (fun _ => rfl) fun _ => rfl

/-- The engine measured the plan with all patches of the sample applied. -/
def Measured (patch : JsonPatch) (engine : Engine) (pos : Nat × Nat) (originalPlan : Json)
    (patches : List Json) (stats : Json) : Prop :=
  ∃ patched, applyPatchesToPlan patch originalPlan patches = .ok patched ∧
    engine.validate pos patched originalPlan = .ok none ∧ engine.evaluate pos patched = .ok stats

/-- **A valid sample was measured, or has no patches of its own** and takes the statistics of what
it is based on. -/
theorem evaluatePlan_valid (h : (evaluatePlan patch engine pos originalPlan s).isValid = true) :
    ∃ patches, s.sampledPatches = some patches ∧
      if patches = [] then
        (evaluatePlan patch engine pos originalPlan s).evaluationStats = s.upstreamEvaluationStats
      else Measured patch engine pos originalPlan (s.upstreamPatches ++ patches)
        (evaluatePlan patch engine pos originalPlan s).evaluationStats := by
  unfold evaluatePlan at h ⊢
  split at h
  next => exact absurd h (by simp [invalidResult])
  next hs =>
    rw [if_neg hs]
    split at h
    next => exact absurd h (by simp [invalidResult])
    -- empty list: nothing to measure
    next hp =>
      refine ⟨[], hp, ?_⟩
      rw [if_pos rfl]
      rfl
    -- patches that apply: the engine validates the result and then runs it
    next patches hne hp =>
      refine ⟨patches, hp, ?_⟩
      rw [if_neg hne]
      split at h
      next => exact absurd h (by simp [invalidResult])
      next patched happly =>
        unfold validateEvaluatePlan at h ⊢
        split at h
        next => exact absurd h (by simp [invalidResult])
        next => exact absurd h (by simp [invalidResult])
        next hvalidate =>
          split at h
          next => exact absurd h (by simp [invalidResult])
          next stats hevaluate =>
            refine ⟨patched, happly, hvalidate, ?_⟩
            simp only [hevaluate]
            rfl

end

/-! ## What a step adds -/

/-- A sample a step takes of a query: its base plan is an entry of the tree. -/
def SampleOf (patch : JsonPatch) (step : Step) (q : QueryData) (s : SampledPlan) : Prop :=
  ∃ p ∈ q.sampledPlans, ∃ base, basePlanOf q.sampledPlans p = .ok base ∧
    ∃ pos result, s = evaluatePlan patch step.engine pos q.plan (newSampledPlan base result)

theorem selectBasePlans_eq {strategy : SamplingStrategy} {q : QueryData}
    {p : QueryData × List BasePlan} (h : selectBasePlans strategy q = .ok p) :
    p.1 = q ∧ getBasePlansForSampling q.sampledPlans strategy = .ok p.2 := by
  obtain ⟨bases, hbases, h⟩ := Except.bind_eq_ok.mp h
  injection (show Except.ok (q, bases) = Except.ok p from h) with h
  subst h
  exact ⟨rfl, hbases⟩

theorem map_id_select {strategy : SamplingStrategy} {state : List QueryData}
    {selected : List (QueryData × List BasePlan)}
    (h : state.mapM (selectBasePlans strategy) = .ok selected) :
    selected.map (·.1.id) = state.map (·.id) := by
  have hf := Except.mapM_eq_ok.mp h
  clear h
  induction hf with
  | nil => rfl
  | cons hp _ ih => rw [List.map_cons, List.map_cons, ih, (selectBasePlans_eq hp).1]

theorem map_id_distribute (model : String) : ∀ (selected : List (QueryData × List BasePlan))
    (answers : List (List GenerationResult)),
    (distribute model selected answers).map (·.id) = selected.map (·.1.id)
  | [], _ => rfl
  | p :: rest, answers => by
    rw [distribute, List.map_cons, map_id_distribute model rest, List.map_cons]
    rfl

/-- A query is given samples of its own base plans. -/
theorem mem_distribute {model : String} : ∀ {selected : List (QueryData × List BasePlan)}
    {answers : List (List GenerationResult)} {sq : SampledQuery},
    sq ∈ distribute model selected answers →
      ∃ p ∈ selected, sq.id = p.1.id ∧ sq.plan = p.1.plan ∧
        ∀ s ∈ sq.sampledPlans, ∃ base ∈ p.2, ∃ result, s = newSampledPlan base result
  | [], _, _, h => absurd h List.not_mem_nil
  | p :: rest, answers, sq, h => by
    rcases List.mem_cons.mp h with rfl | h
    · refine ⟨p, List.mem_cons_self .., rfl, rfl, fun s hs => ?_⟩
      obtain ⟨a, ha, hs⟩ := List.mem_flatMap.mp hs
      obtain ⟨result, _, rfl⟩ := List.mem_map.mp hs
      exact ⟨a.1, (List.of_mem_zip ha).1, result, rfl⟩
    · obtain ⟨p', hp', hsq⟩ := mem_distribute h
      exact ⟨p', List.mem_cons_of_mem _ hp', hsq⟩

theorem map_id_evaluate (patch : JsonPatch) (engine : Engine) (sampled : List SampledQuery) :
    (evaluateSampledPlans patch engine sampled).map (·.id) = sampled.map (·.id) := by
  have h := List.zipIdx_map_fst 0 sampled
  nth_rewrite 2 [← h]
  rw [evaluateSampledPlans, List.map_map, List.map_map]
  rfl

/-- An evaluated query has the samples it had, evaluated. -/
theorem mem_evaluate {patch : JsonPatch} {engine : Engine} {sampled : List SampledQuery}
    {sq : SampledQuery} (h : sq ∈ evaluateSampledPlans patch engine sampled) :
    ∃ sq' ∈ sampled, sq.id = sq'.id ∧ ∀ s ∈ sq.sampledPlans, ∃ s' ∈ sq'.sampledPlans, ∃ pos,
      s = evaluatePlan patch engine pos sq'.plan s' := by
  obtain ⟨p, hp, rfl⟩ := List.mem_map.mp h
  refine ⟨p.1, List.mem_of_getElem? (List.mem_zipIdx_iff_getElem?.mp hp), rfl, fun s hs => ?_⟩
  obtain ⟨s', hs', rfl⟩ := List.mem_map.mp hs
  exact ⟨s'.1, List.mem_of_getElem? (List.mem_zipIdx_iff_getElem?.mp hs'), _, rfl⟩

/-- The files of a step have the queries of the state, with samples of their entries. -/
theorem stepFile_spec {patch : JsonPatch} {step : Step} {state : List QueryData}
    {evaluated : List SampledQuery} (hids : (state.map (·.id)).Nodup)
    (hroot : ∀ q ∈ state, ∃ r ∈ q.sampledPlans, r.sampleId = none ∧ r.isValid = true ∧
      entryAt q.sampledPlans none = .ok r)
    (h : stepFile patch step state = .ok evaluated) :
    evaluated.map (·.id) = state.map (·.id) ∧
      ∀ q ∈ state, ∀ s ∈ samplesOf evaluated q.id, SampleOf patch step q s := by
  obtain ⟨sampled, hsampled, h⟩ := Except.bind_eq_ok.mp h
  injection (show Except.ok _ = Except.ok evaluated from h) with h
  subst h
  obtain ⟨selected, hselected, hsampled⟩ := Except.bind_eq_ok.mp hsampled
  obtain ⟨batch, _, hsampled⟩ := Except.bind_eq_ok.mp hsampled
  injection (show Except.ok _ = Except.ok sampled from hsampled) with hsampled
  subst hsampled
  constructor
  · rw [map_id_evaluate, map_id_distribute, map_id_select hselected]
  · intro q hq s hs
    rw [samplesOf] at hs
    -- the sample is traced back: evaluated, distributed to its query, answered for a base plan
    cases hfind : (evaluateSampledPlans patch step.engine (distribute step.model selected
        (batch.zipIdx.map fun p => step.generate p.2 p.1.1 p.1.2))).find? (fun p => p.id = q.id) with
    | none =>
      rw [hfind] at hs
      exact absurd hs List.not_mem_nil
    | some sq =>
      rw [hfind] at hs
      have hid := List.find?_some hfind
      obtain ⟨sq', hsq', hid', hsamples⟩ := mem_evaluate (List.mem_of_find?_eq_some hfind)
      obtain ⟨p, hp, hpid, hplan, hbases⟩ := mem_distribute hsq'
      obtain ⟨q', hq', hselected⟩ := Except.mem_of_mapM hselected hp
      obtain ⟨hpq, hget⟩ := selectBasePlans_eq hselected
      have hqq : q' = q := List.inj_on_of_nodup_map hids hq' hq (by
        rw [← hpq, ← hpid, ← hid']
        simpa using hid)
      subst hqq
      obtain ⟨s', hs', pos, rfl⟩ := hsamples s hs
      obtain ⟨base, hbase, result, rfl⟩ := hbases s' hs'
      obtain ⟨entry, hentry, hbo⟩ := exists_basePlanOf (hroot q' hq) hget base hbase
      exact ⟨entry, hentry, base, hbo, pos, result, by rw [hplan, hpq]⟩

/-- **A step adds to every query samples of its own entries.** -/
theorem runStep_eq {patch : JsonPatch} {step : Step} {state state' : List QueryData}
    (hids : (state.map (·.id)).Nodup)
    (hroot : ∀ q ∈ state, ∃ r ∈ q.sampledPlans, r.sampleId = none ∧ r.isValid = true ∧
      entryAt q.sampledPlans none = .ok r)
    (h : runStep patch state step = .ok state') :
    ∃ evaluated, stepFile patch step state = .ok evaluated ∧
      state' = state.map (fun q => addSamples (samplesOf evaluated q.id) q) ∧
      ∀ q ∈ state, ∀ s ∈ samplesOf evaluated q.id, SampleOf patch step q s := by
  obtain ⟨evaluated, hfile, h⟩ := Except.bind_eq_ok.mp h
  obtain ⟨heids, hsamples⟩ := stepFile_spec hids hroot hfile
  have hmerge := accumulateSamples_eq hids (heids ▸ hids) fun q hq =>
    heids ▸ List.mem_map_of_mem hq
  rw [hmerge] at h
  injection h with h
  exact ⟨evaluated, hfile, h.symm, hsamples⟩

end DbPlanBench.Sampling
