import DbPlanBench.Optimize.Results
import Mathlib.Algebra.Order.Field.Basic
import Mathlib.Algebra.Order.Ring.Rat

/-!
# The outcomes of the samples

`_process_sampling_results` counts each sample of a query by how it came out. The
texts of an LLM failure are looked for first, then those of the other errors, and
the second search runs whether or not the first one found something. A message that
has both is counted twice.

* `outcomeLabels` — the categories a sample is counted in.
* `countSum_foldl` — what the counts come to: the samples, and those counted twice again.
* `outcomes_once_iff` — every sample is counted once exactly if no message has both.
-/

namespace DbPlanBench.Optimize

open Sampling (PlanInfo QueryData originalPlan)

/-! ## One sample -/

/-- The categories of an error message. -/
def errorLabels (msg : String) : List OutcomeCategory :=
  match isLlmFailure msg, errorType? msg with
  | true, some label => [.llmFailure, label]
  | true, none => [.llmFailure]
  | false, some label => [label]
  | false, none => [.serverSideExecutionError]

/-- The categories a sample is counted in. -/
def outcomeLabels (p : PlanInfo) : List OutcomeCategory :=
  if p.isValid then
    [if p.sampledPatches = some [] then .emptyPatch else .successfulExecution]
  else errorLabels (outcomeMessage p)

theorem countError_eq (counts : OutcomeCounts) (msg : String) :
    countError counts msg = (errorLabels msg).foldl OutcomeCounts.bump counts := by
  unfold countError errorLabels
  cases isLlmFailure msg with
  | true => cases errorType? msg <;> rfl
  | false => cases errorType? msg <;> rfl

/-- **A sample adds one to each of its categories**, and to no other. -/
theorem countOutcome_eq (counts : OutcomeCounts) (p : PlanInfo) :
    countOutcome counts p = (outcomeLabels p).foldl OutcomeCounts.bump counts := by
  unfold countOutcome outcomeLabels
  cases hvalid : p.isValid with
  | true =>
    by_cases hempty : p.sampledPatches = some []
    · simp [hempty]
    · simp [hempty]
  | false =>
    simp only [Bool.false_eq_true, false_and, if_false]
    exact countError_eq counts _

/-- An invalid sample whose message has a text of an LLM failure and that of another error. -/
def countedTwice (p : PlanInfo) : Bool :=
  !p.isValid && isLlmFailure (outcomeMessage p) && (errorType? (outcomeMessage p)).isSome

theorem length_outcomeLabels (p : PlanInfo) :
    (outcomeLabels p).length = if countedTwice p then 2 else 1 := by
  unfold outcomeLabels countedTwice errorLabels
  cases p.isValid with
  | true => rfl
  | false =>
    cases isLlmFailure (outcomeMessage p) with
    | true => cases errorType? (outcomeMessage p) <;> rfl
    | false => cases errorType? (outcomeMessage p) <;> rfl

/-- A sample counts in one category only. -/
def CountedOnce (p : PlanInfo) : Prop :=
  ∃ c, ∀ counts, countOutcome counts p = counts.bump c

/-! ## All samples -/

/-- The sum of the counts. -/
def countSum (counts : OutcomeCounts) : Nat := (outcomeCategories.map counts).sum

/-- Every category is there once. -/
theorem countSum_bump (counts : OutcomeCounts) (c : OutcomeCategory) :
    countSum (counts.bump c) = countSum counts + 1 := by
  cases c <;> simp [countSum, outcomeCategories, OutcomeCounts.bump] <;> omega

theorem countSum_foldl_bump : ∀ (labels : List OutcomeCategory) (counts : OutcomeCounts),
    countSum (labels.foldl OutcomeCounts.bump counts) = countSum counts + labels.length
  | [], _ => rfl
  | c :: labels, counts => by
    rw [List.foldl_cons, countSum_foldl_bump labels, countSum_bump, List.length_cons]
    omega

theorem countSum_countOutcome (counts : OutcomeCounts) (p : PlanInfo) :
    countSum (countOutcome counts p) = countSum counts + if countedTwice p then 2 else 1 := by
  rw [countOutcome_eq, countSum_foldl_bump, length_outcomeLabels]

/-- **What the counts come to.** -/
theorem countSum_foldl : ∀ (l : List PlanInfo) (counts : OutcomeCounts),
    countSum (l.foldl countOutcome counts) = countSum counts + l.length + l.countP countedTwice
  | [], _ => rfl
  | p :: l, counts => by
    rw [List.foldl_cons, countSum_foldl l, countSum_countOutcome, List.length_cons,
      List.countP_cons]
    split <;> omega

/-- The two ways to be counted once. -/
theorem countedOnce_iff (p : PlanInfo) : CountedOnce p ↔ countedTwice p = false := by
  have hsum := countSum_countOutcome (fun _ => 0) p
  constructor
  · intro h
    obtain ⟨c, hc⟩ := h
    rw [hc, countSum_bump] at hsum
    cases htwice : countedTwice p with
    | false => rfl
    | true =>
      rw [htwice, if_pos rfl] at hsum
      omega
  · intro htwice
    have hlength := length_outcomeLabels p
    rw [htwice] at hlength
    obtain ⟨c, hc⟩ := List.length_eq_one_iff.mp hlength
    exact ⟨c, fun counts => by rw [countOutcome_eq, hc]; rfl⟩

/-! ## A result -/

/-- A common divisor. -/
theorem sum_map_div (f : OutcomeCategory → Nat) (n : ℚ) : ∀ l : List OutcomeCategory,
    (l.map fun c => (f c : ℚ) / n).sum = ((l.map f).sum : ℚ) / n
  | [] => by simp
  | c :: l => by
    rw [List.map_cons, List.sum_cons, sum_map_div f n l, List.map_cons, List.sum_cons,
      Nat.cast_add, add_div]

/-- The rates add up to the sum of the counts over the number of samples. -/
theorem sum_outcomeRate {out : SamplingResults} (h : 0 < out.totalOutcomes) :
    (outcomeCategories.map (outcomeRate out)).sum =
      (countSum out.outcomeCounts : ℚ) / out.totalOutcomes := by
  have hrate : outcomeRate out = fun c => (out.outcomeCounts c : ℚ) / out.totalOutcomes :=
    funext fun c => if_neg (by omega)
  rw [hrate, sum_map_div, countSum]

/-- They add up to one when each sample is counted once. -/
theorem sum_outcomeRate_eq_one {out : SamplingResults} (h : 0 < out.totalOutcomes) :
    (outcomeCategories.map (outcomeRate out)).sum = 1 ↔
      countSum out.outcomeCounts = out.totalOutcomes := by
  have hne : (out.totalOutcomes : ℚ) ≠ 0 := by exact_mod_cast Nat.pos_iff_ne_zero.mp h
  rw [sum_outcomeRate h, div_eq_one_iff_eq hne]
  exact Nat.cast_inj

variable {queriesList : List String} {index : SamplingIndex} {metric : String} {topKPatches : Int}

/-- The samples that are counted are those of the queries of the list. -/
theorem mem_allCandidates {results : List QueryResult}
    (h : queriesList.zipIdx.mapM (queryResult index metric topKPatches) = .ok results)
    (p : PlanInfo) :
    p ∈ allCandidates results ↔ ∃ i query q, queriesList[i]? = some query ∧
      queryData index i query = .ok q ∧ p ∈ candidates q.sampledPlans := by
  -- the result for a query has its data
  have hdata : ∀ {a : String × Nat} {r : QueryResult},
      queryResult index metric topKPatches a = .ok r →
        queryData index a.2 a.1 = .ok r.queryData := by
    intro a r hr
    obtain ⟨q, hq, hr⟩ := Except.bind_eq_ok.mp hr
    obtain ⟨ranked, _, hr⟩ := Except.bind_eq_ok.mp hr
    injection (show Except.ok _ = Except.ok r from hr) with hr
    exact hr ▸ hq
  constructor
  · intro hp
    obtain ⟨r, hr, hp⟩ := List.mem_flatMap.mp hp
    obtain ⟨a, ha, hresult⟩ := Except.mem_of_mapM h hr
    exact ⟨a.2, a.1, r.queryData, List.mem_zipIdx_iff_getElem?.mp ha, hdata hresult, hp⟩
  · intro h
    obtain ⟨i, query, q, hi, hq, hp⟩ := h
    obtain ⟨r, hr, hresult⟩ :=
      Except.ok_of_mapM h (query, i) (List.mem_zipIdx_iff_getElem?.mpr hi)
    have hq' := hdata hresult
    rw [hq] at hq'
    injection hq' with hq'
    exact List.mem_flatMap.mpr ⟨r, hr, hq' ▸ hp⟩

/-- **The categories partition the samples exactly if no message is of both kinds.** -/
theorem outcomes_once_iff {out : SamplingResults}
    (h : processSamplingResults queriesList index metric topKPatches = .ok out) :
    ((∀ i query q p, queriesList[i]? = some query → queryData index i query = .ok q →
          p ∈ candidates q.sampledPlans → CountedOnce p) ∧
        countSum out.outcomeCounts = out.totalOutcomes ∧
        (0 < out.totalOutcomes → (outcomeCategories.map (outcomeRate out)).sum = 1)) ↔
      ∀ i query q p, queriesList[i]? = some query → queryData index i query = .ok q →
        p ∈ candidates q.sampledPlans → p.isValid = false →
          ¬ (isLlmFailure (outcomeMessage p) = true ∧
            ∃ label, errorType? (outcomeMessage p) = some label) := by
  obtain ⟨results, hresults, rfl⟩ := processSamplingResults_eq_ok.mp h
  have htwice : ∀ p : PlanInfo, countedTwice p = false ↔ (p.isValid = false →
      ¬ (isLlmFailure (outcomeMessage p) = true ∧
        ∃ label, errorType? (outcomeMessage p) = some label)) := by
    intro p
    rw [← Option.isSome_iff_exists, countedTwice]
    cases p.isValid <;> cases isLlmFailure (outcomeMessage p) <;> simp
  constructor
  · rintro ⟨honce, _⟩ i query q p hi hq hp
    exact (htwice p).mp ((countedOnce_iff p).mp (honce i query q p hi hq hp))
  · intro hnot
    have hall : (allCandidates results).countP countedTwice = 0 := by
      refine List.countP_eq_zero.mpr fun p hp => ?_
      obtain ⟨i, query, q, hi, hq, hp⟩ := (mem_allCandidates hresults p).mp hp
      exact Bool.eq_false_iff.mp ((htwice p).mpr (hnot i query q p hi hq hp))
    have hsum : countSum (results.foldl SamplingResults.add ⟨[], [], [], fun _ => 0, 0⟩).outcomeCounts
        = (results.foldl SamplingResults.add ⟨[], [], [], fun _ => 0, 0⟩).totalOutcomes := by
      rw [foldl_add]
      show countSum ((allCandidates results).foldl countOutcome _) = _
      rw [countSum_foldl, hall]
      simp [countSum, outcomeCategories]
    refine ⟨fun i query q p hi hq hp => ?_, hsum, fun hpos => ?_⟩
    · exact (countedOnce_iff p).mpr ((htwice p).mpr (hnot i query q p hi hq hp))
    · exact (sum_outcomeRate_eq_one hpos).mpr hsum

/-- A query whose only sample failed with an error message. -/
def failedQuery (message : String) : QueryData where
  id := 0
  query := "select * from t"
  plan := .null
  complexity := .int 0
  rowCount := .int 1
  model := "gpt-5"
  sampledPlans := [originalPlan .null,
    { originalPlan .null with sampleId := some 1, isValid := false, errorMessage := some message }]

/-- The results for that query alone. -/
def failedResults (message : String) : Except Sampling.Fault SamplingResults :=
  processSamplingResults ["select * from t"] (samplingIndex [failedQuery message] 1)
    "execution_time" 1

/-- A result set mismatch is counted once. -/
theorem outcomes_once_mismatch : ∃ out, failedResults "Result set mismatch: row 1" = .ok out ∧
    countSum out.outcomeCounts = out.totalOutcomes := by
  have hresult : (failedResults "Result set mismatch: row 1").toOption.isSome = true := by
    decide +kernel
  cases hout : failedResults "Result set mismatch: row 1" with
  | error e =>
    rw [hout] at hresult
    exact absurd hresult (by simp [Except.toOption])
  | ok out =>
    have hdata : queryData (samplingIndex [failedQuery "Result set mismatch: row 1"] 1) 0
        "select * from t" = .ok (failedQuery "Result set mismatch: row 1") := by decide +kernel
    refine ⟨out, rfl, ((outcomes_once_iff hout).mpr fun i query q p hi hq hp _ => ?_).2.1⟩
    cases i with
    | succ i => exact absurd hi (by simp)
    | zero =>
      injection hi with hi
      rw [← hi, hdata] at hq
      injection hq with hq
      subst hq
      have hfalse : ∀ p ∈ candidates (failedQuery "Result set mismatch: row 1").sampledPlans,
          isLlmFailure (outcomeMessage p) = false := by decide +kernel
      exact fun h => absurd h.1 (by rw [hfalse p hp]; decide)

/-- A failed connection while the query was executed is counted twice, and the rates add up to 2. -/
theorem failedConnection_twice :
    (failedResults "Execution error: Error executing query: Connection error").toOption.map
      (fun out => (out.totalOutcomes, countSum out.outcomeCounts,
        (outcomeCategories.map (outcomeRate out)).sum)) = some (1, 2, 2) := by
  decide +kernel

end DbPlanBench.Optimize
