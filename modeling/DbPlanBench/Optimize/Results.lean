import DbPlanBench.Optimize.Pipeline

/-!
# Results of a run

After the last step `_process_sampling_results` counts how the samples of every
query came out, by what their error messages contain, and ranks the valid ones
together with the base plan by a metric. The best few of them are returned, with
what they gain over the base.

The quotients are exact here. A search for ASCII text in a lower-cased message does
not see how other letters are lower-cased, so these are left as they are.
-/

namespace DbPlanBench.Optimize

open Sampling (Fault PlanInfo QueryData)

/-! ## Finding the samples of a query -/

/-- `sampling_by_id`. -/
def samplingById (data : List QueryData) : List (Nat × QueryData) :=
  data.foldl (fun d q => OrdDict.set d q.id q) []

/-- `id_indexed`: the ids are the positions of the queries. -/
def idIndexed (data : List QueryData) (n : Nat) : Bool :=
  (OrdDict.keys (samplingById data)).all (· < n) &&
    (List.range n).all (· ∈ OrdDict.keys (samplingById data))

/-- The loop that fills `query_to_entry`; a repeated text empties it. -/
def queryEntries : List (String × QueryData) → List QueryData → List (String × QueryData)
  | d, [] => d
  | d, q :: rest =>
    if q.query ∈ OrdDict.keys d then [] else queryEntries (OrdDict.set d q.query q) rest

/-- `query_to_entry`. -/
def queryToEntry (data : List QueryData) (n : Nat) : List (String × QueryData) :=
  if idIndexed data n then [] else queryEntries [] data

/-- What `_run_optimization_sampling` returns. -/
structure SamplingIndex where
  samplingById : List (Nat × QueryData)
  idIndexed : Bool
  queryToEntry : List (String × QueryData)

/-- The indices of the accumulated state, for `n` queries. -/
def samplingIndex (data : List QueryData) (n : Nat) : SamplingIndex :=
  ⟨samplingById data, idIndexed data n, queryToEntry data n⟩

/-- `query_data`. -/
def queryData (index : SamplingIndex) (i : Nat) (query : String) : Except Fault QueryData :=
  if index.idIndexed then
    match OrdDict.get? index.samplingById i with
    | some q => .ok q
    | none => .error (.raised (.runtimeError ("Missing sampling data for query id " ++ i.repr)))
  else
    match OrdDict.get? index.queryToEntry query with
    | some q => .ok q
    | none =>
      .error (.raised (.runtimeError ("Missing sampling data for query at index " ++ i.repr)))

/-! ## Outcomes -/

/-- The keys of `outcome_counts`. -/
inductive OutcomeCategory where
  | invalidPatch
  | planDeserializationError
  | planExecutionError
  | executionOutputMismatch
  | serverSideExecutionError
  | llmFailure
  | emptyPatch
  | successfulExecution
deriving DecidableEq

/-- In the order of the source. -/
def outcomeCategories : List OutcomeCategory :=
  [.invalidPatch, .planDeserializationError, .planExecutionError, .executionOutputMismatch,
    .serverSideExecutionError, .llmFailure, .emptyPatch, .successfulExecution]

/-- `outcome_counts`. -/
abbrev OutcomeCounts := OutcomeCategory → Nat

/-- `outcome_counts[c] += 1`. -/
def OutcomeCounts.bump (counts : OutcomeCounts) (c : OutcomeCategory) : OutcomeCounts :=
  fun d => if d = c then counts d + 1 else counts d

/-- The lower case of a character: two that are not ASCII have a letter of ASCII in theirs. -/
def lowerChar (c : Char) : List Char :=
  if c = '\u0130' then ['i', '\u0307'] else if c = '\u212A' then ['k'] else [c.toLower]

/-- `str.lower`. -/
def lower (s : String) : String := String.ofList (s.toList.flatMap lowerChar)

/-- The texts of an LLM failure. -/
def llmTokens : List String := ["litellm", "openai", "connection error"]

/-- `error_types`. -/
def errorTypes : List (String × OutcomeCategory) :=
  [("failed to apply patches to plan:", .invalidPatch),
    ("failed to convert from succinct json: failed to deserialize plan from json:",
      .planDeserializationError),
    ("result set mismatch:", .executionOutputMismatch),
    ("expected results to have at least one row, instead got 0.", .executionOutputMismatch),
    ("execution error: error executing query:", .planExecutionError)]

/-- `msg`. -/
def outcomeMessage (p : PlanInfo) : String := lower (p.errorMessage.getD "")

/-- `any(tok in msg for tok in ...)`. -/
def isLlmFailure (msg : String) : Bool := llmTokens.any fun tok => contains tok msg

/-- The first of `error_types` whose pattern is in the message. -/
def errorType? (msg : String) : Option OutcomeCategory :=
  (errorTypes.find? fun e => contains e.1 msg).map (·.2)

/-- The counts after an invalid sample. -/
def countError (counts : OutcomeCounts) (msg : String) : OutcomeCounts :=
  let (counts, matched) :=
    if isLlmFailure msg then (counts.bump .llmFailure, true) else (counts, false)
  let (counts, matched) := match errorType? msg with
    | some label => (counts.bump label, true)
    | none => (counts, matched)
  if matched then counts else counts.bump .serverSideExecutionError

/-- The counts after a sample. -/
def countOutcome (counts : OutcomeCounts) (p : PlanInfo) : OutcomeCounts :=
  if p.isValid = true ∧ p.sampledPatches = some [] then counts.bump .emptyPatch
  else if p.isValid then counts.bump .successfulExecution
  else countError counts (outcomeMessage p)

/-! ## Ranking -/

/-- `x or {}`. -/
def orEmpty (v : Json) : Json := if v.truthy then v else .obj []

/-- `get_metric_value`. -/
def metricValue (metric : String) (stats : Json) : Except Fault (Option ℚ) :=
  (Sampling.getMetricValue stats metric).mapError .raised

/-- `base_evaluation`. -/
def baseEvaluation (plans : List PlanInfo) : Json :=
  ((plans.find? fun p => p.sampleId = none).map (·.evaluationStats)).getD .null

/-- `candidates`. -/
def candidates (plans : List PlanInfo) : List PlanInfo := plans.filter fun p => p.sampleId ≠ none

/-- An entry of `ranked_candidates`. -/
structure Candidate where
  patchOps : List Json
  evaluationStats : Json
  metricValue : Option ℚ

/-- `valid_candidates` with their metrics, sorted. -/
def validCandidates (metric : String) (plans : List PlanInfo) :
    Except Fault (List (ℚ × PlanInfo)) := do
  let keyed ← ((candidates plans).filter (·.isValid)).mapM fun p => do
    let value ← metricValue metric p.evaluationStats
    return (value, p)
  let numeric := keyed.filterMap fun p => p.1.map (·, p.2)
  return numeric.insertionSort fun a b => a.1 ≤ b.1

/-- A valid candidate with its patches. -/
def candidateOf (metric : String) (plans : List PlanInfo) (p : PlanInfo) : Except Fault Candidate := do
  let evalStats := orEmpty p.evaluationStats
  let patchOps ← Sampling.getUpstreamPatches p plans false
  let value ← metricValue metric evalStats
  return ⟨patchOps, evalStats, value⟩

/-- `improvement_x` of a candidate. -/
def improvement (baseMetric patchMetric : Option ℚ) : Option ℚ :=
  match baseMetric, patchMetric with
  | some base, some patch => if 0 < patch then some (base / patch) else none
  | _, _ => none

/-- An entry of `metadata`. -/
structure QueryMetadata where
  improvementX : List (Option ℚ)
  base : Json
  patch : List (Option Json)

/-- The entries of the result for a query. -/
def rankQuery (metric : String) (topKPatches : Int) (q : QueryData) :
    Except Fault (PatchedPlan × QueryMetadata) := do
  let base := baseEvaluation q.sampledPlans
  let valid ← validCandidates metric q.sampledPlans
  let baseMetric ← metricValue metric base
  let ranked ← valid.mapM fun p => candidateOf metric q.sampledPlans p.2
  let ranked := (⟨[], orEmpty base, baseMetric⟩ :: ranked).insertionSort fun a b =>
    Sampling.keyLe a.metricValue b.metricValue
  let chosen := Sampling.takeSlice ranked topKPatches
  let missing := topKPatches.toNat - chosen.length
  return (
    { basePlan := some q.plan
      patch := chosen.map (fun c => some c.patchOps) ++ List.replicate missing none },
    { improvementX := chosen.map (fun c => improvement baseMetric c.metricValue) ++
        List.replicate missing none
      base := orEmpty base
      patch := chosen.map (fun c => some c.evaluationStats) ++ List.replicate missing none })

/-! ## All queries -/

/-- What `_process_sampling_results` returns. -/
structure SamplingResults where
  optimizationOutcome : List PatchedPlan
  metadata : List QueryMetadata
  improvementValues : List ℚ
  outcomeCounts : OutcomeCounts
  totalOutcomes : Nat

/-- One query. -/
def processQuery (index : SamplingIndex) (metric : String) (topKPatches : Int)
    (acc : SamplingResults) (p : String × Nat) : Except Fault SamplingResults := do
  let q ← queryData index p.2 p.1
  let samples := candidates q.sampledPlans
  let ranked ← rankQuery metric topKPatches q
  return {
    optimizationOutcome := acc.optimizationOutcome ++ [ranked.1]
    metadata := acc.metadata ++ [ranked.2]
    improvementValues := acc.improvementValues ++ ranked.2.improvementX.filterMap id
    outcomeCounts := samples.foldl countOutcome acc.outcomeCounts
    totalOutcomes := acc.totalOutcomes + samples.length }

/-- `_process_sampling_results`. -/
def processSamplingResults (queriesList : List String) (index : SamplingIndex)
    (optimizationMetric : String) (topKPatches : Int) : Except Fault SamplingResults :=
  queriesList.zipIdx.foldlM (processQuery index optimizationMetric topKPatches)
    ⟨[], [], [], fun _ => 0, 0⟩

/-- `outcome_rates` of the summary. -/
def outcomeRate (r : SamplingResults) (c : OutcomeCategory) : ℚ :=
  if r.totalOutcomes = 0 then 0 else r.outcomeCounts c / r.totalOutcomes

/-! ## Query by query -/

/-- What is returned for a query. -/
structure QueryResult where
  queryData : QueryData
  plan : PatchedPlan
  metadata : QueryMetadata

def queryResult (index : SamplingIndex) (metric : String) (topKPatches : Int) (p : String × Nat) :
    Except Fault QueryResult := do
  let q ← queryData index p.2 p.1
  let ranked ← rankQuery metric topKPatches q
  return ⟨q, ranked.1, ranked.2⟩

/-- The results with those of another query. -/
def SamplingResults.add (acc : SamplingResults) (r : QueryResult) : SamplingResults where
  optimizationOutcome := acc.optimizationOutcome ++ [r.plan]
  metadata := acc.metadata ++ [r.metadata]
  improvementValues := acc.improvementValues ++ r.metadata.improvementX.filterMap id
  outcomeCounts := (candidates r.queryData.sampledPlans).foldl countOutcome acc.outcomeCounts
  totalOutcomes := acc.totalOutcomes + (candidates r.queryData.sampledPlans).length

/-- All samples that are counted. -/
def allCandidates (results : List QueryResult) : List PlanInfo :=
  results.flatMap fun r => candidates r.queryData.sampledPlans

variable {index : SamplingIndex} {metric : String} {topKPatches : Int}

theorem processQuery_eq (acc : SamplingResults) (p : String × Nat) :
    processQuery index metric topKPatches acc p = do
      let r ← queryResult index metric topKPatches p
      return acc.add r := by
  unfold processQuery queryResult
  cases queryData index p.2 p.1 with
  | error e => rfl
  | ok q =>
    simp only [Except.ok_bind]
    cases rankQuery metric topKPatches q <;> rfl

/-- What the results of some queries come to. -/
theorem foldl_add : ∀ (results : List QueryResult) (acc : SamplingResults),
    results.foldl SamplingResults.add acc =
      { optimizationOutcome := acc.optimizationOutcome ++ results.map (·.plan)
        metadata := acc.metadata ++ results.map (·.metadata)
        improvementValues := acc.improvementValues ++
          results.flatMap fun r => r.metadata.improvementX.filterMap id
        outcomeCounts := (allCandidates results).foldl countOutcome acc.outcomeCounts
        totalOutcomes := acc.totalOutcomes + (allCandidates results).length }
  | [], acc => by simp [allCandidates]
  | r :: results, acc => by
    rw [List.foldl_cons, foldl_add results]
    simp [SamplingResults.add, allCandidates, Nat.add_assoc]

/-- **The loop over the queries** returns what each query has, or fails where one does. -/
theorem processSamplingResults_eq_ok {queriesList : List String} {out : SamplingResults} :
    processSamplingResults queriesList index metric topKPatches = .ok out ↔
      ∃ results, queriesList.zipIdx.mapM (queryResult index metric topKPatches) = .ok results ∧
        out = results.foldl SamplingResults.add ⟨[], [], [], fun _ => 0, 0⟩ := by
  have hloop : processSamplingResults queriesList index metric topKPatches =
      (queriesList.zipIdx.mapM (queryResult index metric topKPatches)).map
        (·.foldl SamplingResults.add ⟨[], [], [], fun _ => 0, 0⟩) := by
    rw [← Except.foldlM_eq_mapM, processSamplingResults]
    exact congrArg (List.foldlM · _ _) (funext fun acc => funext (processQuery_eq acc))
  rw [hloop]
  cases queriesList.zipIdx.mapM (queryResult index metric topKPatches) with
  | error e => simp [Except.map]
  | ok results => simp [Except.map, eq_comm]

end DbPlanBench.Optimize
