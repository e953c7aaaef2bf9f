import DbPlanBench.Sampling.Step

/-!
# Evaluating a file of samples

`evaluate_sampled_plans` goes through the samples of a file in a random order. It
submits those that have to be run to a pool of workers, with a bound on how many are
under way, and collects the results in the order in which they complete. At the end
it writes all results back to the samples they belong to.

Which of the submitted plans are complete when the loop waits is open, and so is the
order in which they are harvested: a step (`EvalStep`) takes any of them. A plan is
found again by its future; `Call.asked` says only whose answers the backend gives.

* `EvalStep` — one turn of the loop over the samples, or one wait.
* `writeBack` — the samples with their results.
-/

namespace DbPlanBench.Sampling

/-! ## Answers -/

/-- What `evaluate_plan_n_runs` returns: statistics, with an error if no run succeeded. -/
structure RunsResult where
  error : Option String
  stats : Json

/-- An error that is not empty. -/
def RunsResult.failure? (r : RunsResult) : Option String := r.error.filter (· ≠ "")

/-- The answers of `validate_plan_result_set` and of `evaluate_plan_n_runs` for the plan of a
sample, by the positions of the query and of the sample. Both may raise an exception. -/
structure Backend where
  validate : Nat × Nat → Json → Json → Except String (Option String)
  evaluate : Nat × Nat → Json → Except String RunsResult

/-- An error and an exception of an evaluation are reported alike. -/
def Backend.engine (backend : Backend) : Engine where
  validate := backend.validate
  evaluate pos plan :=
    match backend.evaluate pos plan with
    | .error exc => .error exc
    | .ok r =>
      match r.failure? with
      | some error => .error error
      | none => .ok r.stats

/-- A value of `plan_results`. -/
structure Verdict where
  isValid : Bool
  errorMessage : Option String
  evaluationStats : Json

/-- What `invalid_result` returns. -/
def invalidVerdict (errorMessage : Option String) : Verdict := ⟨false, errorMessage, .null⟩

/-- What `valid_result` returns. -/
def validVerdict (evaluationStats : Json) : Verdict := ⟨true, none, evaluationStats⟩

/-- `sampled_plan.update(plan_result)`. -/
def SampledPlan.update (s : SampledPlan) (v : Verdict) : SampledPlan :=
  { s with isValid := v.isValid, errorMessage := v.errorMessage,
           evaluationStats := v.evaluationStats }

/-- The arguments of a submitted call, and the sample it is for. -/
structure Call where
  asked : Nat × Nat
  plan : Json
  originalPlan : Json

/-- A submitted call. -/
structure Future where
  id : Nat
  call : Call

/-- `validate_evaluate_plan_wrapper`. -/
def validateEvaluatePlanWrapper (backend : Backend) (call : Call) : Except String Verdict := do
  match ← backend.validate call.asked call.plan call.originalPlan with
  | some validationError => return invalidVerdict (some validationError)
  | none =>
    match backend.evaluate call.asked call.plan with
    | .error exc => return invalidVerdict (some ("Evaluation failed: " ++ exc))
    | .ok r =>
      match r.failure? with
      | some error => return invalidVerdict (some ("Evaluation failed: " ++ error))
      | none => return validVerdict r.stats

/-! ## The loop -/

/-- What the loop does with a sample: invalid ones are written at once, results and errors are
noted, and plans are submitted. -/
inductive Prepared where
  | invalid (errorMessage : Option String)
  | result (v : Verdict)
  | failed (errorMessage : String)
  | submit (plan : Json)

def prepare (patch : JsonPatch) (originalPlan : Json) (s : SampledPlan) : Prepared :=
  if s.isValid = false then .invalid s.errorMessage
  else match s.sampledPatches with
    | none => .failed "Failed to apply patches to plan: sampled_patches is None"
    | some [] => .result (validVerdict s.upstreamEvaluationStats)
    | some patches =>
      match applyPatchesToPlan patch originalPlan (s.upstreamPatches ++ patches) with
      | .error exc => .failed ("Failed to apply patches to plan: " ++ exc)
      | .ok plan => .submit plan

/-- The variables of `evaluate_sampled_plans`, with the positions that are still to come. -/
structure EvalState where
  sampledData : List SampledQuery
  todo : List (Nat × Nat)
  planResults : List ((Nat × Nat) × Verdict)
  errors : List ((Nat × Nat) × String)
  futureToMetadata : List (Nat × (Nat × Nat))
  inflight : List Future
  submitted : Nat

/-- The plan and the sample at a position. -/
def planAt (data : List SampledQuery) (pos : Nat × Nat) : Option (Json × SampledPlan) :=
  data[pos.1]?.bind fun q => q.sampledPlans[pos.2]?.map fun s => (q.plan, s)

/-- The update of the sample at a position. -/
def updateSample (data : List SampledQuery) (pos : Nat × Nat) (f : SampledPlan → SampledPlan) :
    List SampledQuery :=
  data.modify pos.1 fun q => { q with sampledPlans := q.sampledPlans.modify pos.2 f }

/-- `max_inflight`. -/
def maxInflight (maxWorkers : Int) : Nat := (max 1 (maxWorkers * 2)).toNat

/-- The body of the loop in `harvest`, `none` where the future is not in the map. -/
def harvestOne (backend : Backend) (st : EvalState) (future : Future) : Option EvalState :=
  match OrdDict.get? st.futureToMetadata future.id with
  | none => none
  | some pos =>
    let st := { st with futureToMetadata := OrdDict.erase st.futureToMetadata future.id }
    match validateEvaluatePlanWrapper backend future.call with
    | .ok planResult => some { st with planResults := OrdDict.set st.planResults pos planResult }
    | .error exc =>
      some { st with
        errors := OrdDict.set st.errors pos ("Failed to get evaluation result: " ++ exc) }

/-- `harvest`. -/
def harvest (backend : Backend) (done : List Future) (st : EvalState) : Option EvalState :=
  done.foldlM (harvestOne backend) st

/-- The loop waits: there is no room for the next plan, or no sample left and plans under way. -/
def Blocked (patch : JsonPatch) (maxWorkers : Int) (st : EvalState) : Prop :=
  match st.todo with
  | [] => st.inflight ≠ []
  | pos :: _ => ∃ originalPlan s plan, planAt st.sampledData pos = some (originalPlan, s) ∧
      prepare patch originalPlan s = .submit plan ∧ maxInflight maxWorkers ≤ st.inflight.length

/-- One turn of the loop, or one wait with what is done then. -/
inductive EvalStep (patch : JsonPatch) (backend : Backend) (maxWorkers : Int) :
    EvalState → EvalState → Prop where
  | invalid {st : EvalState} {pos : Nat × Nat} {todo : List (Nat × Nat)} {originalPlan : Json}
      {s : SampledPlan} {errorMessage : Option String} (htodo : st.todo = pos :: todo)
      (hat : planAt st.sampledData pos = some (originalPlan, s))
      (hprepare : prepare patch originalPlan s = .invalid errorMessage) :
      EvalStep patch backend maxWorkers st { st with
        sampledData := updateSample st.sampledData pos (·.update (invalidVerdict errorMessage))
        todo := todo }
  | result {st : EvalState} {pos : Nat × Nat} {todo : List (Nat × Nat)} {originalPlan : Json}
      {s : SampledPlan} {v : Verdict} (htodo : st.todo = pos :: todo)
      (hat : planAt st.sampledData pos = some (originalPlan, s))
      (hprepare : prepare patch originalPlan s = .result v) :
      EvalStep patch backend maxWorkers st { st with
        planResults := OrdDict.set st.planResults pos v
        todo := todo }
  | failed {st : EvalState} {pos : Nat × Nat} {todo : List (Nat × Nat)} {originalPlan : Json}
      {s : SampledPlan} {errorMessage : String} (htodo : st.todo = pos :: todo)
      (hat : planAt st.sampledData pos = some (originalPlan, s))
      (hprepare : prepare patch originalPlan s = .failed errorMessage) :
      EvalStep patch backend maxWorkers st { st with
        errors := OrdDict.set st.errors pos errorMessage
        todo := todo }
  | submit {st : EvalState} {pos : Nat × Nat} {todo : List (Nat × Nat)} {originalPlan : Json}
      {s : SampledPlan} {plan : Json} (htodo : st.todo = pos :: todo)
      (hat : planAt st.sampledData pos = some (originalPlan, s))
      (hprepare : prepare patch originalPlan s = .submit plan)
      (hroom : st.inflight.length < maxInflight maxWorkers) :
      EvalStep patch backend maxWorkers st { st with
        inflight := st.inflight ++ [⟨st.submitted, pos, plan, originalPlan⟩]
        futureToMetadata := OrdDict.set st.futureToMetadata st.submitted pos
        submitted := st.submitted + 1
        todo := todo }
  | wait {st st' : EvalState} {done inflight : List Future} (hblocked : Blocked patch maxWorkers st)
      (hdone : st.inflight.Perm (done ++ inflight)) (hsome : done ≠ [])
      (hharvest : harvest backend done { st with inflight := inflight } = some st') :
      EvalStep patch backend maxWorkers st st'

/-- The positions of the samples of a file. -/
def positions (sampled : List SampledQuery) : List (Nat × Nat) :=
  sampled.zipIdx.flatMap fun q => (List.range q.1.sampledPlans.length).map (q.2, ·)

/-- `order` goes through the queries in some order, and through the samples of each in some order. -/
def Shuffled (sampled : List SampledQuery) (order : List (Nat × Nat)) : Prop :=
  ∃ queries blocks, queries.Perm sampled.zipIdx ∧
    List.Forall₂ (fun (q : SampledQuery × Nat) (block : List (Nat × Nat)) =>
      block.Perm ((List.range q.1.sampledPlans.length).map (q.2, ·))) queries blocks ∧
    order = blocks.flatten

/-- The state after `n` steps, for a positive number of workers. -/
inductive EvalReach (patch : JsonPatch) (backend : Backend) (maxWorkers : Int)
    (sampled : List SampledQuery) : Nat → EvalState → Prop where
  | start {order : List (Nat × Nat)} (hworkers : 1 ≤ maxWorkers) (horder : Shuffled sampled order) :
      EvalReach patch backend maxWorkers sampled 0 ⟨sampled, order, [], [], [], [], 0⟩
  | step {n : Nat} {st st' : EvalState} (h : EvalReach patch backend maxWorkers sampled n st)
      (hstep : EvalStep patch backend maxWorkers st st') :
      EvalReach patch backend maxWorkers sampled (n + 1) st'

/-- Both loops have ended. -/
def EvalState.Finished (st : EvalState) : Prop := st.todo = [] ∧ st.inflight = []

/-- The last two loops: results first, then errors. -/
def writeBack (st : EvalState) : List SampledQuery :=
  st.errors.foldl (fun data e => updateSample data e.1 (·.update (invalidVerdict (some e.2))))
    (st.planResults.foldl (fun data r => updateSample data r.1 (·.update r.2)) st.sampledData)

/-! ## Files changed sample by sample -/

/-- A file with a function of its position, its query and itself in place of each sample. -/
def mapSamples (g : Nat × Nat → SampledQuery → SampledPlan → SampledPlan)
    (sampled : List SampledQuery) : List SampledQuery :=
  sampled.zipIdx.map fun q =>
    { q.1 with sampledPlans := q.1.sampledPlans.zipIdx.map fun s => g (q.2, s.2) q.1 s.1 }

/-- The sample of a query at a position. -/
def SampleAt (sampled : List SampledQuery) (pos : Nat × Nat) (q : SampledQuery)
    (s : SampledPlan) : Prop :=
  sampled[pos.1]? = some q ∧ q.sampledPlans[pos.2]? = some s

section

variable {sampled : List SampledQuery} {g g' : Nat × Nat → SampledQuery → SampledPlan → SampledPlan}

theorem getElem?_mapSamples (i : Nat) : (mapSamples g sampled)[i]? = sampled[i]?.map fun q =>
    { q with sampledPlans := q.sampledPlans.zipIdx.map fun s => g (i, s.2) q s.1 } := by
  rw [mapSamples, List.getElem?_map, List.getElem?_zipIdx, Option.map_map, Nat.zero_add]
  rfl

theorem mapSamples_id : mapSamples (fun _ _ s => s) sampled = sampled := by
  refine List.ext_getElem? fun i => ?_
  rw [getElem?_mapSamples]
  cases sampled[i]? with
  | none => rfl
  | some q =>
    have hfst : q.sampledPlans.zipIdx.map (fun s => s.1) = q.sampledPlans := List.zipIdx_map_fst 0 _
    simp only [Option.map_some, hfst]

/-- Only what happens to the samples of the file counts. -/
theorem mapSamples_congr (h : ∀ pos q s, SampleAt sampled pos q s → g pos q s = g' pos q s) :
    mapSamples g sampled = mapSamples g' sampled := by
  refine List.map_congr_left fun q hq => ?_
  have hq := List.mem_zipIdx_iff_getElem?.mp hq
  refine congrArg (fun plans => { q.1 with sampledPlans := plans })
    (List.map_congr_left fun s hs => ?_)
  exact h (q.2, s.2) q.1 s.1 ⟨hq, List.mem_zipIdx_iff_getElem?.mp hs⟩

theorem planAt_mapSamples {pos : Nat × Nat} {originalPlan : Json} {s' : SampledPlan} :
    planAt (mapSamples g sampled) pos = some (originalPlan, s') ↔
      ∃ q s, SampleAt sampled pos q s ∧ originalPlan = q.plan ∧ s' = g pos q s := by
  rw [planAt, getElem?_mapSamples]
  constructor
  · intro h
    obtain ⟨q', hq', h⟩ := Option.bind_eq_some_iff.mp h
    obtain ⟨q, hq, rfl⟩ := Option.map_eq_some_iff.mp hq'
    obtain ⟨s, hs, h⟩ := Option.map_eq_some_iff.mp h
    rw [List.getElem?_map, List.getElem?_zipIdx, Nat.zero_add] at hs
    obtain ⟨p, hp, rfl⟩ := Option.map_eq_some_iff.mp hs
    obtain ⟨s, hat, rfl⟩ := Option.map_eq_some_iff.mp hp
    injection h with hplan hsample
    exact ⟨q, s, ⟨hq, hat⟩, hplan.symm, hsample.symm⟩
  · intro h
    obtain ⟨q, s, ⟨hq, hs⟩, rfl, rfl⟩ := h
    simp [hq, hs, List.getElem?_zipIdx]

/-- An update at one position changes what is done with the sample there. -/
theorem updateSample_mapSamples (pos : Nat × Nat) (f : SampledPlan → SampledPlan) :
    updateSample (mapSamples g sampled) pos f =
      mapSamples (fun pos' q s => if pos' = pos then f (g pos' q s) else g pos' q s) sampled := by
  obtain ⟨i, j⟩ := pos
  refine List.ext_getElem? fun i' => ?_
  rw [updateSample, List.getElem?_modify, getElem?_mapSamples, getElem?_mapSamples]
  cases sampled[i']? with
  | none => simp
  | some q =>
    by_cases hi : i = i'
    · subst hi
      simp only [if_true, Option.map_eq_map, Option.map_some, Prod.mk.injEq, true_and]
      refine congrArg (fun plans => some { q with sampledPlans := plans })
        (List.ext_getElem? fun j' => ?_)
      rw [List.getElem?_modify, List.getElem?_map, List.getElem?_map, List.getElem?_zipIdx]
      cases q.sampledPlans[j']? with
      | none => rfl
      | some s =>
        by_cases hj : j = j'
        · subst hj
          simp
        · simp [hj, Ne.symm hj]
    · simp only [if_neg hi, Option.map_some, Prod.mk.injEq, Ne.symm hi, false_and, if_false]
      rfl

/-- The verdicts of an evaluation, position by position. -/
theorem evaluateSampledPlans_eq_mapSamples (patch : JsonPatch) (engine : Engine) :
    evaluateSampledPlans patch engine sampled =
      mapSamples (fun pos q s => evaluatePlan patch engine pos q.plan s) sampled := rfl

end

end DbPlanBench.Sampling
