import DbPlanBench.Lib.Quantile
import DbPlanBench.Optimize.Verdict
import Mathlib.Algebra.BigOperators.Group.List.Basic
import Mathlib.Data.Rat.Floor

/-!
# Statistics of a metric

A plan is evaluated several times at once, and the values that a metric had in the runs are
summarised. They are collected as the runs complete, and sorted before they are
summarised: sums and sorted lists do not depend on the order. The percentiles are
interpolated between the entries of the sorted list, at increasing ranks.

Values are exact numbers, where `None` is a value that is missing; the standard deviation is
given by its square. `evaluatePlanNRuns_reported` connects these results with those of
`evaluatePlanNRuns`, whose values are JSON.

* `computeMetricStats_perm` — the order of the values does not matter.
* `computeMetricStats_ordered` — minimum, percentiles, mean and maximum.
* `evaluateRuns_reported` — the result, for every order in which the runs complete.
-/

namespace DbPlanBench.Optimize

/-! ## The source -/

/-- `sorted_vals[i]`. -/
def sortedAt (sortedVals : List ℚ) (i : Nat) : Except PyErr ℚ :=
  match sortedVals[i]? with
  | some v => .ok v
  | none => .error .indexError

/-- `_percentile`; none is `nan`. -/
def percentile (sortedVals : List ℚ) (p : ℚ) : Except PyErr (Option ℚ) :=
  if sortedVals = [] then .ok none
  else if sortedVals.length = 1 then some <$> sortedAt sortedVals 0
  else if p ≤ 0 then some <$> sortedAt sortedVals 0
  else if 1 ≤ p then some <$> sortedAt sortedVals (sortedVals.length - 1)
  else
    let rank := p * (sortedVals.length - 1 : Nat)
    let low := ⌊rank⌋₊
    let high := min (low + 1) (sortedVals.length - 1)
    if low = high then some <$> sortedAt sortedVals low
    else do
      let weight := rank - low
      return some ((← sortedAt sortedVals low) * (1 - weight) + (← sortedAt sortedVals high) * weight)

/-- The statistics of a metric; the standard deviation is the square root of `variance`. -/
structure MetricStats where
  min : ℚ
  p10 : Option ℚ
  p25 : Option ℚ
  p50 : Option ℚ
  p75 : Option ℚ
  p90 : Option ℚ
  max : ℚ
  mean : ℚ
  variance : ℚ
deriving DecidableEq

/-- `compute_metric_stats`; none when all values are missing. -/
def computeMetricStats (values : List (Option ℚ)) : Except PyErr (Option MetricStats) :=
  let values := values.reduceOption
  if values = [] then .ok none
  else do
    let valuesSorted := values.insertionSort (· ≤ ·)
    let meanValue := values.sum / values.length
    let variance : ℚ := if 1 < values.length then
        (values.map fun t => (t - meanValue) ^ 2).sum / values.length
      else 0
    return some {
      min := ← sortedAt valuesSorted 0
      p10 := ← percentile valuesSorted (10 / 100)
      p25 := ← percentile valuesSorted (25 / 100)
      p50 := ← percentile valuesSorted (50 / 100)
      p75 := ← percentile valuesSorted (75 / 100)
      p90 := ← percentile valuesSorted (90 / 100)
      max := ← sortedAt valuesSorted (valuesSorted.length - 1)
      mean := meanValue
      variance }

/-- The metrics of a run. -/
abbrev Metrics := List (String × Option ℚ)

/-- An entry of `benchmark_stats`: `all_runs`, and the statistics. -/
structure MetricReport where
  allRuns : List (Option ℚ)
  stats : Option MetricStats
deriving DecidableEq

/-- The result of `evaluate_plan_n_runs`. -/
structure Evaluation where
  nRuns : Nat
  benchmarkStats : List (String × MetricReport)
  error : Option String
deriving DecidableEq

/-- The values of each metric, as the runs complete. -/
def collectMetrics (successes : List Metrics) : List (String × List (Option ℚ)) :=
  successes.flatten.foldl (fun d p => OrdDict.push d p.1 p.2) []

/-- The errors of some runs. -/
def errorsOf {α : Type} (outcomes : List (Except String α)) : List String :=
  outcomes.filterMap fun
    | .error err => some err
    | .ok _ => none

/-- The collecting of `evaluate_plan_n_runs`, for these outcomes one after the other. -/
def reportRuns (outcomes : List (Except String Metrics)) : Except PyErr Evaluation :=
  let successes := outcomes.filterMap Except.toOption
  if successes = [] then
    .ok ⟨0, [], some ((bestError (errorsOf outcomes)).getD
      "Failed to evaluate plan: All evaluation attempts failed!")⟩
  else do
    let stats ← (collectMetrics successes).mapM fun p =>
      return (p.1, (⟨p.2, ← computeMetricStats p.2⟩ : MetricReport))
    return ⟨successes.length, stats, none⟩

/-- `evaluate_plan_n_runs`, from the outcomes of the runs and the order in which they complete. -/
def evaluateRuns (order : Slots.Order) (outcomes : List (Except String Metrics)) :
    Except PyErr Evaluation := reportRuns (Slots.reorder order outcomes)

/-! ## Sorted values -/

section

open Quantile (interpolate entry)

theorem sortedAt_eq {sortedVals : List ℚ} {i : Nat} (h : i < sortedVals.length) :
    sortedAt sortedVals i = .ok (entry sortedVals i) := by
  rw [sortedAt, List.getElem?_eq_getElem h, Quantile.entry_eq_getElem h]

/-- **A percentile is an interpolated entry**; no index is out of range. -/
theorem percentile_eq {sortedVals : List ℚ} (hne : sortedVals ≠ []) {p : ℚ} (h0 : 0 ≤ p)
    (h1 : p ≤ 1) : percentile sortedVals p =
      .ok (some (interpolate (entry sortedVals) (p * (sortedVals.length - 1 : Nat)))) := by
  have hpos := List.length_pos_iff.mpr hne
  have hat : ∀ i < sortedVals.length, (some <$> sortedAt sortedVals i : Except PyErr (Option ℚ)) =
      .ok (some (interpolate (entry sortedVals) (i : Nat))) := by
    intro i hi
    rw [sortedAt_eq hi, Quantile.interpolate_natCast]
    rfl
  unfold percentile
  rw [if_neg hne]
  split
  next hone =>
    rw [hat 0 hpos, hone, Nat.sub_self, Nat.cast_zero, mul_zero]
  next hone =>
    split
    next hp =>
      rw [hat 0 hpos, le_antisymm hp h0, zero_mul, Nat.cast_zero]
    next hp =>
      split
      next hp1 => rw [hat _ (by omega), le_antisymm h1 hp1, one_mul]
      next hp1 =>
        -- the rank is before the last entry, and so is its integral part
        have hlast : (0 : ℚ) < (sortedVals.length - 1 : Nat) := by
          exact_mod_cast (by omega : 0 < sortedVals.length - 1)
        have hrank : p * (sortedVals.length - 1 : Nat) < (sortedVals.length - 1 : Nat) := by
          have := mul_lt_mul_of_pos_right (lt_of_not_ge hp1) hlast
          rwa [one_mul] at this
        have hlow : ⌊p * (sortedVals.length - 1 : Nat)⌋₊ < sortedVals.length - 1 :=
          (Nat.floor_lt (mul_nonneg h0 (le_of_lt hlast))).mpr hrank
        dsimp only
        rw [Nat.min_eq_left (by omega), if_neg (by omega), sortedAt_eq (by omega),
          sortedAt_eq (by omega)]
        rfl

example : percentile [10, 20, 30, 40, 50] (25 / 100) = .ok (some 20) := by decide +kernel

/-- The statistics of some values, none of them missing. -/
def summary (values : List ℚ) : MetricStats :=
  let sorted := values.insertionSort (· ≤ ·)
  let quantile (p : ℚ) := interpolate (entry sorted) (p * (sorted.length - 1 : Nat))
  { min := entry sorted 0
    p10 := some (quantile (10 / 100))
    p25 := some (quantile (25 / 100))
    p50 := some (quantile (50 / 100))
    p75 := some (quantile (75 / 100))
    p90 := some (quantile (90 / 100))
    max := entry sorted (sorted.length - 1)
    mean := values.sum / values.length
    variance := if 1 < values.length then
        (values.map fun t => (t - values.sum / values.length) ^ 2).sum / values.length
      else 0 }

/-- The statistics of a metric. -/
def statistics (values : List (Option ℚ)) : Option MetricStats :=
  if values.reduceOption = [] then none else some (summary values.reduceOption)

theorem computeMetricStats_eq (values : List (Option ℚ)) :
    computeMetricStats values = .ok (statistics values) := by
  unfold computeMetricStats statistics
  dsimp only
  split
  next => rfl
  next hne =>
    have hlen : 0 < (values.reduceOption.insertionSort (· ≤ ·)).length := by
      rw [List.length_insertionSort]
      exact List.length_pos_iff.mpr hne
    have hsorted := List.length_pos_iff.mp hlen
    rw [sortedAt_eq hlen, sortedAt_eq (by omega), percentile_eq hsorted (by norm_num) (by norm_num),
      percentile_eq hsorted (by norm_num) (by norm_num),
      percentile_eq hsorted (by norm_num) (by norm_num),
      percentile_eq hsorted (by norm_num) (by norm_num),
      percentile_eq hsorted (by norm_num) (by norm_num)]
    rfl

/-- **The order of the values does not matter.** -/
theorem statistics_perm {values values' : List (Option ℚ)} (h : values.Perm values') :
    statistics values = statistics values' := by
  have hred : values.reduceOption.Perm values'.reduceOption := h.filterMap id
  have hsorted : values.reduceOption.insertionSort (· ≤ ·) =
      values'.reduceOption.insertionSort (· ≤ ·) := by
    refine List.Perm.eq_of_pairwise' (r := (· ≤ ·)) (List.pairwise_insertionSort _ _)
      (List.pairwise_insertionSort _ _) ?_
    exact (List.perm_insertionSort _ _).trans (hred.trans (List.perm_insertionSort _ _).symm)
  have hnil : values.reduceOption = [] ↔ values'.reduceOption = [] := by
    rw [← List.length_eq_zero_iff, hred.length_eq, List.length_eq_zero_iff]
  have hmap := fun m : ℚ => (hred.map fun t => (t - m) ^ 2).sum_eq
  have hsummary : summary values.reduceOption = summary values'.reduceOption := by
    rw [summary, summary, hsorted, hred.sum_eq, hred.length_eq, hmap]
  rw [statistics, statistics, if_congr hnil rfl (congrArg some hsummary)]

/-- From the minimum to the maximum, with the mean between them. -/
structure MetricStats.Ordered (s : MetricStats) : Prop where
  percentiles : ∃ p10 p25 p50 p75 p90, s.p10 = some p10 ∧ s.p25 = some p25 ∧ s.p50 = some p50 ∧
    s.p75 = some p75 ∧ s.p90 = some p90 ∧ s.min ≤ p10 ∧ p10 ≤ p25 ∧ p25 ≤ p50 ∧ p50 ≤ p75 ∧
    p75 ≤ p90 ∧ p90 ≤ s.max
  mean : s.min ≤ s.mean ∧ s.mean ≤ s.max

/-- **The statistics are ordered.** -/
theorem summary_ordered {values : List ℚ} (hne : values ≠ []) : (summary values).Ordered := by
  have hsorted := List.pairwise_insertionSort (r := (· ≤ ·)) values
  have hmono : ∀ p q : ℚ, 0 ≤ p → p ≤ q →
      interpolate (entry (values.insertionSort (· ≤ ·)))
          (p * ((values.insertionSort (· ≤ ·)).length - 1 : Nat)) ≤
        interpolate (entry (values.insertionSort (· ≤ ·)))
          (q * ((values.insertionSort (· ≤ ·)).length - 1 : Nat)) := fun p q hp hpq =>
    Quantile.interpolate_mono (Quantile.entry_mono hsorted) (mul_nonneg hp (Nat.cast_nonneg _))
      (mul_le_mul_of_nonneg_right hpq (Nat.cast_nonneg _))
  have hfirst := Quantile.interpolate_natCast (K := ℚ) (entry (values.insertionSort (· ≤ ·))) 0
  have hlast := Quantile.interpolate_natCast (K := ℚ) (entry (values.insertionSort (· ≤ ·)))
    ((values.insertionSort (· ≤ ·)).length - 1)
  have hmin := hmono 0 (10 / 100) (le_refl _) (by norm_num)
  have hmax := hmono (90 / 100) 1 (by norm_num) (by norm_num)
  rw [zero_mul, ← Nat.cast_zero, hfirst] at hmin
  rw [one_mul, hlast] at hmax
  refine ⟨⟨_, _, _, _, _, rfl, rfl, rfl, rfl, rfl, hmin, hmono _ _ (by norm_num) (by norm_num),
    hmono _ _ (by norm_num) (by norm_num), hmono _ _ (by norm_num) (by norm_num),
    hmono _ _ (by norm_num) (by norm_num), hmax⟩, ?_⟩
  have hperm := List.perm_insertionSort (· ≤ ·) values
  have hmean := Quantile.mean_between hsorted fun h => hne (List.perm_nil.mp (h ▸ hperm.symm))
  rw [hperm.sum_eq, hperm.length_eq] at hmean
  exact ⟨hmean.1, by rw [summary]; dsimp only; rw [hperm.length_eq]; exact hmean.2⟩

end

/-! ## The report -/

/-- The values that a metric had in the runs with a result. -/
def metricValues (outcomes : List (Except String Metrics)) (name : String) : List (Option ℚ) :=
  ((outcomes.filterMap Except.toOption).flatten.filter (·.1 = name)).map Prod.snd

/-- What is reported about some runs. -/
structure Reported (outcomes : List (Except String Metrics)) (report : Evaluation) : Prop where
  nRuns : report.nRuns = (outcomes.filterMap Except.toOption).length
  metrics : ∀ name, name ∈ OrdDict.keys report.benchmarkStats ↔ metricValues outcomes name ≠ []
  allRuns : ∀ name m, OrdDict.get? report.benchmarkStats name = some m →
    m.allRuns.Perm (metricValues outcomes name)
  stats : ∀ name m, OrdDict.get? report.benchmarkStats name = some m →
    computeMetricStats (metricValues outcomes name) = .ok m.stats
  missing : ∀ name m, OrdDict.get? report.benchmarkStats name = some m →
    (m.stats = none ↔ ∀ v ∈ metricValues outcomes name, v = none)
  ordered : ∀ name m s, OrdDict.get? report.benchmarkStats name = some m → m.stats = some s → s.Ordered
  error : report.nRuns = 0 → ∃ e, report.error = some e ∧ .error e ∈ outcomes ∧
    ∀ e', .error e' ∈ outcomes → rankError e' ≤ rankError e
  noError : report.nRuns ≠ 0 → report.error = none

theorem bestError_cons_cons (b x : String) (l : List String) : bestError (b :: x :: l) =
    bestError ((if rankError b < rankError x then x else b) :: l) := by
  rw [bestError, bestError, List.foldl_cons, List.foldl_cons, List.foldl_cons]
  dsimp only
  split <;> rfl

/-- The first error of the largest rank has the largest rank. -/
theorem bestError_cons : ∀ (l : List String) (b : String), ∃ e ∈ b :: l,
    bestError (b :: l) = some e ∧ ∀ e' ∈ b :: l, rankError e' ≤ rankError e
  | [], b => ⟨b, List.mem_singleton_self b, rfl, fun e' h => List.mem_singleton.mp h ▸ le_refl _⟩
  | x :: l, b => by
    rw [bestError_cons_cons]
    by_cases hlt : rankError b < rankError x
    · rw [if_pos hlt]
      obtain ⟨e, he, hbest, hrank⟩ := bestError_cons l x
      have hx := hrank x (List.mem_cons_self ..)
      exact ⟨e, List.mem_cons_of_mem _ he, hbest,
        List.forall_mem_cons.mpr ⟨(le_of_lt hlt).trans hx, hrank⟩⟩
    · rw [if_neg hlt]
      obtain ⟨e, he, hbest, hrank⟩ := bestError_cons l b
      have hb := hrank b (List.mem_cons_self ..)
      refine ⟨e, ?_, hbest, List.forall_mem_cons.mpr ⟨hb, List.forall_mem_cons.mpr
        ⟨(le_of_not_gt hlt).trans hb, fun e' he' => hrank e' (List.mem_cons_of_mem _ he')⟩⟩⟩
      rcases List.mem_cons.mp he with rfl | he
      · exact List.mem_cons_self ..
      · exact List.mem_cons_of_mem _ (List.mem_cons_of_mem _ he)

theorem bestError_spec {errors : List String} (hne : errors ≠ []) :
    ∃ e ∈ errors, bestError errors = some e ∧ ∀ e' ∈ errors, rankError e' ≤ rankError e := by
  cases errors with
  | nil => exact absurd rfl hne
  | cons b l => exact bestError_cons l b

theorem mem_errorsOf {α : Type} {outcomes : List (Except String α)} {e : String} :
    e ∈ errorsOf outcomes ↔ .error e ∈ outcomes := by
  rw [errorsOf, List.mem_filterMap]
  constructor
  · intro h
    obtain ⟨o, ho, he⟩ := h
    cases o with
    | ok r => exact absurd he (by simp)
    | error e' =>
      injection he with he
      exact he ▸ ho
  · exact fun h => ⟨_, h, rfl⟩

section

variable {outcomes : List (Except String Metrics)}

theorem metricValues_perm {outcomes' : List (Except String Metrics)} (h : outcomes'.Perm outcomes)
    (name : String) : (metricValues outcomes' name).Perm (metricValues outcomes name) :=
  ((h.filterMap _).flatten.filter _).map _

theorem collectMetrics_eq_group (successes : List Metrics) :
    collectMetrics successes = OrdDict.group (successes.flatten.map Prod.swap) := by
  rw [collectMetrics, OrdDict.group, List.foldl_map]
  rfl

/-- A metric is collected when it has values. -/
theorem get?_collectMetrics (outcomes : List (Except String Metrics)) (name : String) :
    OrdDict.get? (collectMetrics (outcomes.filterMap Except.toOption)) name =
      if metricValues outcomes name = [] then none else some (metricValues outcomes name) := by
  have hvalues : (((outcomes.filterMap Except.toOption).flatten.map Prod.swap).filter
      (·.2 = name)).map Prod.fst = metricValues outcomes name := by
    rw [List.filter_map, List.map_map]
    rfl
  rw [collectMetrics_eq_group, OrdDict.get?_group_eq, hvalues]

theorem reduceOption_eq_nil {values : List (Option ℚ)} :
    values.reduceOption = [] ↔ ∀ v ∈ values, v = none := by
  show values.filterMap id = [] ↔ _
  rw [List.filterMap_eq_nil_iff]
  rfl

/-- **What is reported, and that it is.** -/
theorem reportRuns_reported (hne : outcomes ≠ []) :
    ∃ report, reportRuns outcomes = .ok report ∧ Reported outcomes report := by
  unfold reportRuns
  dsimp only
  split
  next hnone =>
    have hvalues : ∀ name, metricValues outcomes name = [] := by
      intro name
      rw [metricValues, hnone]
      rfl
    have herrors : errorsOf outcomes ≠ [] := by
      obtain ⟨o, ho⟩ := List.exists_mem_of_ne_nil _ hne
      cases o with
      | ok r =>
        have hr : r ∈ outcomes.filterMap Except.toOption := List.mem_filterMap.mpr ⟨_, ho, rfl⟩
        exact absurd (hnone ▸ hr) List.not_mem_nil
      | error e => exact List.ne_nil_of_mem (mem_errorsOf.mpr ho)
    obtain ⟨e, he, hbest, hrank⟩ := bestError_spec herrors
    refine ⟨_, rfl, by rw [hnone]; rfl, fun name => ?_, fun name m h => absurd h (by simp),
      fun name m h => absurd h (by simp), fun name m h => absurd h (by simp),
      fun name m s h => absurd h (by simp), fun _ => ?_, fun h => absurd rfl h⟩
    · rw [hvalues]
      exact iff_of_false List.not_mem_nil (not_not_intro rfl)
    · exact ⟨e, by rw [hbest]; rfl, mem_errorsOf.mp he,
        fun e' he' => hrank e' (mem_errorsOf.mpr he')⟩
  next hsome =>
    have hstats : ∀ p ∈ collectMetrics (outcomes.filterMap Except.toOption),
        (do return (p.1, (⟨p.2, ← computeMetricStats p.2⟩ : MetricReport)) : Except PyErr _) =
          .ok (p.1, ⟨p.2, statistics p.2⟩) := by
      intro p _
      rw [computeMetricStats_eq]
      rfl
    rw [Except.mapM_ok hstats]
    -- a metric is reported with its values and their statistics
    have hget : ∀ name, OrdDict.get? ((collectMetrics (outcomes.filterMap Except.toOption)).map
        fun p => (p.1, (⟨p.2, statistics p.2⟩ : MetricReport))) name =
          if metricValues outcomes name = [] then none
          else some ⟨metricValues outcomes name, statistics (metricValues outcomes name)⟩ := by
      intro name
      rw [OrdDict.get?_map_snd fun vs => (⟨vs, statistics vs⟩ : MetricReport), get?_collectMetrics]
      split
      next => rfl
      next => rfl
    have hentry : ∀ name m, OrdDict.get? ((collectMetrics (outcomes.filterMap Except.toOption)).map
        fun p => (p.1, (⟨p.2, statistics p.2⟩ : MetricReport))) name = some m →
          metricValues outcomes name ≠ [] ∧
            m = ⟨metricValues outcomes name, statistics (metricValues outcomes name)⟩ := by
      intro name m h
      rw [hget] at h
      split at h
      next => exact absurd h (by simp)
      next hvalues => exact ⟨hvalues, (Option.some.inj h).symm⟩
    refine ⟨_, rfl, rfl, fun name => ?_, fun name m h => ?_, fun name m h => ?_, fun name m h => ?_,
      fun name m s h hs => ?_, fun hzero => ?_, fun _ => rfl⟩
    · rw [← OrdDict.get?_isSome, hget]
      split
      next hvalues => simp [hvalues]
      next hvalues => simp [hvalues]
    · rw [(hentry name m h).2]
    · rw [(hentry name m h).2, computeMetricStats_eq]
    · rw [(hentry name m h).2, statistics, ← reduceOption_eq_nil]
      split
      next hnil => exact iff_of_true rfl hnil
      next hnil => exact iff_of_false (by simp) hnil
    · rw [(hentry name m h).2] at hs
      unfold statistics at hs
      split at hs
      next => exact absurd hs (by simp)
      next hnil => exact Option.some.inj hs ▸ summary_ordered hnil
    · exact absurd (List.length_eq_zero_iff.mp hzero) hsome

/-- A report does not depend on the order of the runs. -/
theorem Reported.of_perm {outcomes' : List (Except String Metrics)} (h : outcomes'.Perm outcomes)
    {report : Evaluation} (hr : Reported outcomes' report) : Reported outcomes report := by
  have hvalues := metricValues_perm h
  have hnil : ∀ name, metricValues outcomes' name = [] ↔ metricValues outcomes name = [] := by
    intro name
    rw [← List.length_eq_zero_iff, (hvalues name).length_eq, List.length_eq_zero_iff]
  refine ⟨hr.nRuns.trans (h.filterMap _).length_eq, fun name => ?_, fun name m hm => ?_,
    fun name m hm => ?_, fun name m hm => ?_, hr.ordered, fun hzero => ?_, hr.noError⟩
  · rw [hr.metrics]
    exact not_congr (hnil name)
  · exact (hr.allRuns name m hm).trans (hvalues name)
  · rw [← hr.stats name m hm, computeMetricStats_eq, computeMetricStats_eq,
      statistics_perm (hvalues name)]
  · rw [hr.missing name m hm]
    exact forall_congr' fun v => imp_congr_left (hvalues name).mem_iff
  · obtain ⟨e, he, hmem, hrank⟩ := hr.error hzero
    exact ⟨e, he, h.mem_iff.mp hmem, fun e' he' => hrank e' (h.mem_iff.mpr he')⟩

end

/-! ## The results of the program -/

/-- The metrics of a result, where `null` is `None`. -/
def readMetrics (r : Kwargs) : Metrics := r.map fun p => (p.1, p.2.number?)

/-- The result of the program says what the report says. -/
structure Reads (env : Env) (fields : Kwargs) (report : Evaluation) : Prop where
  nRuns : OrdDict.get? fields "n_runs" = some (.int report.nRuns)
  error : OrdDict.get? fields "error" = report.error.map Json.str
  benchmarkStats : ∃ stats : List (String × List Json),
    OrdDict.get? fields "benchmark_stats" = some (.obj (stats.map fun p =>
      (p.1, .obj (("all_runs", .arr p.2) :: env.computeMetricStats p.2)))) ∧
    stats.map (fun p => (p.1, p.2.map Json.number?)) =
      report.benchmarkStats.map fun p => (p.1, p.2.allRuns)

section

variable {env : Env}

theorem toOption_map {α β : Type} (f : α → β) (o : Except String α) :
    (o.map f).toOption = o.toOption.map f := by
  cases o <;> rfl

theorem errorsOf_map {α β : Type} (f : α → β) (outcomes : List (Except String α)) :
    errorsOf (outcomes.map fun o => o.map f) = errorsOf outcomes := by
  rw [errorsOf, errorsOf, List.filterMap_map]
  refine List.filterMap_congr fun o _ => ?_
  cases o <;> rfl

/-- Metrics are collected from the results as they are read. -/
theorem collectMetrics_read : ∀ (l : List (String × Json)) (d : List (String × List Json)),
    (readMetrics l).foldl (fun d p => OrdDict.push d p.1 p.2)
        (d.map fun p => (p.1, p.2.map Json.number?)) =
      (l.foldl (fun d p => OrdDict.push d p.1 p.2) d).map fun p => (p.1, p.2.map Json.number?)
  | [], _ => rfl
  | p :: l, d => by
    have ih := collectMetrics_read l (OrdDict.push d p.1 p.2)
    rw [OrdDict.map_push] at ih
    exact ih

theorem flatten_map_readMetrics (successes : List Kwargs) :
    (successes.map readMetrics).flatten = readMetrics successes.flatten := by
  rw [readMetrics, List.map_flatten]
  rfl

/-- **Aggregating reads as reporting.** -/
theorem reads_aggregate (env : Env) (outcomes : List (Except String Kwargs)) :
    ∃ report, reportRuns (outcomes.map fun o => o.map readMetrics) = .ok report ∧
      Reads env (aggregate env outcomes) report := by
  have hsuccesses : (outcomes.map fun o => o.map readMetrics).filterMap Except.toOption =
      (outcomes.filterMap Except.toOption).map readMetrics := by
    rw [List.filterMap_map, List.map_filterMap]
    exact List.filterMap_congr fun o _ => toOption_map readMetrics o
  have hnil : (outcomes.filterMap Except.toOption).map readMetrics = [] ↔
      outcomes.filterMap Except.toOption = [] := List.map_eq_nil_iff
  unfold reportRuns
  dsimp only
  rw [hsuccesses]
  by_cases hnone : outcomes.filterMap Except.toOption = []
  · rw [if_pos (hnil.mpr hnone), errorsOf_map]
    refine ⟨_, rfl, ?_⟩
    unfold aggregate
    dsimp only
    rw [if_pos hnone]
    refine ⟨rfl, ?_, [], rfl, rfl⟩
    rw [OrdDict.get?, if_neg (by decide), OrdDict.get?, if_neg (by decide), OrdDict.get?, if_pos rfl]
    refine congrArg (fun errors => some (Json.str ((bestError errors).getD
      "Failed to evaluate plan: All evaluation attempts failed!")))
      (List.filterMap_congr fun o _ => ?_)
    cases o <;> rfl
  · rw [if_neg (mt hnil.mp hnone)]
    have hstats : ∀ p ∈ collectMetrics ((outcomes.filterMap Except.toOption).map readMetrics),
        (do return (p.1, (⟨p.2, ← computeMetricStats p.2⟩ : MetricReport)) : Except PyErr _) =
          .ok (p.1, ⟨p.2, statistics p.2⟩) := by
      intro p _
      rw [computeMetricStats_eq]
      rfl
    rw [Except.mapM_ok hstats]
    refine ⟨_, rfl, ?_⟩
    unfold aggregate
    dsimp only
    rw [if_neg hnone]
    refine ⟨by rw [List.length_map]; rfl, ?_, _, rfl, ?_⟩
    · rw [OrdDict.get?, if_neg (by decide), OrdDict.get?, if_neg (by decide)]
      rfl
    have hread := collectMetrics_read (outcomes.filterMap Except.toOption).flatten []
    rw [List.map_map]
    rw [← hread, collectMetrics, flatten_map_readMetrics]
    exact (List.map_id _).symm

/-- The result of one run. -/
def evaluationRun (env : Env) (site : Site) (plan : Json) (dataFolder : String) (args : Kwargs)
    (i : Nat) : Except PyErr Kwargs :=
  let execLocal := kwarg args "exec_local" (.bool false)
  let runnerKwargs := match kwarg args "runner_kwargs" .null with
    | .null => .obj []
    | v => v
  let run : Submits Kwargs := do
    let args ← Logged.lift (callKwargs ["operation", "input_str", "data_folder"]
      [("runner_kwargs", runnerKwargs), ("exec_local", execLocal)]
      (without ["max_eval_workers", "runner_kwargs", "exec_local"] args))
    submitRunOperation env site i .evaluate plan dataFolder args
  run.result

/-- What the runs found, in the order they were submitted. -/
def evaluationRuns (env : Env) (site : Site) (plan : Json) (dataFolder : String) (nRuns : Int)
    (args : Kwargs) : List (Except String Metrics) :=
  (List.range nRuns.toNat).map fun i =>
    (evaluationOutcome env (evaluationRun env site plan dataFolder args i)).map readMetrics

/-- **What the program returns is what its runs found.** It reads as the report on them, in the
order they complete. -/
theorem evaluatePlanNRuns_reported {site : Site} {plan : Json} {dataFolder : String} {nRuns : Int}
    {args fields : Kwargs}
    (h : (evaluatePlanNRuns env site plan dataFolder nRuns args).result = .ok fields) :
    1 ≤ nRuns ∧ ∃ report,
      evaluateRuns (env.arrival site) (evaluationRuns env site plan dataFolder nRuns args) =
        .ok report ∧
      Reads env fields report ∧ Reported (evaluationRuns env site plan dataFolder nRuns args) report := by
  unfold evaluatePlanNRuns at h
  dsimp only at h
  split at h
  next => exact absurd h (by simp [Logged.lift])
  next hruns =>
    split at h
    next => exact absurd h (by simp [Logged.lift])
    next workers _ =>
      obtain ⟨_, _, h⟩ := Logged.result_bind.mp h
      obtain ⟨outcomes, houtcomes, h⟩ := Logged.result_bind.mp h
      injection h with h
      rw [Logged.result_forEach_attempt] at houtcomes
      -- each run has the outcome of its own submission
      have hown : outcomes.map (fun o => (evaluationOutcome env o).map readMetrics) =
          evaluationRuns env site plan dataFolder nRuns args := by
        rw [← Except.ok.inj houtcomes, List.map_map]
        rfl
      obtain ⟨report, hreport, hreads⟩ := reads_aggregate env
        ((completed env site outcomes).map (evaluationOutcome env))
      have hne : evaluationRuns env site plan dataFolder nRuns args ≠ [] := by
        rw [evaluationRuns, Ne, List.map_eq_nil_iff, List.range_eq_nil]
        omega
      have hrun : evaluateRuns (env.arrival site) (evaluationRuns env site plan dataFolder nRuns args) =
          .ok report := by
        rw [evaluateRuns, ← hown, Slots.reorder_map]
        rw [List.map_map] at hreport
        exact hreport
      have hperm := Slots.reorder_perm (env.arrival site)
        (evaluationRuns env site plan dataFolder nRuns args)
      obtain ⟨report', hreport', hr⟩ :=
        reportRuns_reported fun hnil => hne (List.perm_nil.mp (hnil ▸ hperm.symm))
      obtain rfl : report = report' := Except.ok.inj (hrun.symm.trans hreport')
      exact ⟨by omega, report, hrun, h ▸ hreads, hr.of_perm hperm⟩

end

/-- The second of the runs fails. -/
def secondFails : Env := { baselineLast with
  answer := fun _ _ i => if i = 1 then .error "timeout" else .ok [("time", .int i)] }

/-- Of three runs two are reported, with the values that they had. -/
theorem evaluatePlanNRuns_reported_secondFails : ∃ fields report,
    (evaluatePlanNRuns secondFails (.query 0) (.obj []) "/data" 3 []).result = .ok fields ∧
      OrdDict.get? fields "n_runs" = some (.int 2) ∧ Reads secondFails fields report ∧
      Reported [.ok [("time", some 0)],
        .error "Failed to evaluate plan: Exception during evaluation process!",
        .ok [("time", some 2)]] report := by
  have hok : (evaluatePlanNRuns secondFails (.query 0) (.obj []) "/data" 3 []).result.toOption.any
      (fun fields => OrdDict.get? fields "n_runs" = some (.int 2)) = true := by decide +kernel
  cases h : (evaluatePlanNRuns secondFails (.query 0) (.obj []) "/data" 3 []).result with
  | error e => simp [h, Except.toOption] at hok
  | ok fields =>
    obtain ⟨_, report, _, hreads, hr⟩ := evaluatePlanNRuns_reported h
    rw [h] at hok
    exact ⟨fields, report, rfl, by simpa [Except.toOption] using hok, hreads, hr⟩

/-- **The report does not depend on the order in which the runs complete**, and its statistics are
ordered. -/
theorem evaluateRuns_reported (outcomes : List (Except String Metrics)) (hne : outcomes ≠ [])
    (order : Slots.Order) :
    ∃ report, evaluateRuns order outcomes = .ok report ∧ Reported outcomes report ∧
      ∀ order' report', evaluateRuns order' outcomes = .ok report' →
        report'.nRuns = report.nRuns ∧ ∀ name,
          (OrdDict.get? report'.benchmarkStats name).map (·.stats) =
            (OrdDict.get? report.benchmarkStats name).map (·.stats) := by
  have hreported : ∀ order : Slots.Order,
      ∃ report, evaluateRuns order outcomes = .ok report ∧ Reported outcomes report := by
    intro order
    have hperm := Slots.reorder_perm order outcomes
    obtain ⟨report, hreport, hr⟩ := reportRuns_reported fun h => hne (List.perm_nil.mp (h ▸ hperm.symm))
    exact ⟨report, hreport, hr.of_perm hperm⟩
  obtain ⟨report, hreport, hr⟩ := hreported order
  refine ⟨report, hreport, hr, fun order' report' h => ?_⟩
  obtain ⟨report'', hreport'', hr'⟩ := hreported order'
  obtain rfl : report'' = report' := Except.ok.inj (hreport''.symm.trans h)
  refine ⟨hr'.nRuns.trans hr.nRuns.symm, fun name => ?_⟩
  have hsame : name ∈ OrdDict.keys report''.benchmarkStats ↔ name ∈ OrdDict.keys report.benchmarkStats :=
    (hr'.metrics name).trans (hr.metrics name).symm
  cases hm' : OrdDict.get? report''.benchmarkStats name with
  | none =>
    have hm := OrdDict.get?_eq_none.mpr (mt hsame.mpr (OrdDict.get?_eq_none.mp hm'))
    rw [hm]
  | some m' =>
    obtain ⟨m, hm⟩ := OrdDict.get?_isSome.mpr (hsame.mp (OrdDict.get?_isSome.mp ⟨m', hm'⟩))
    have hstats := (hr'.stats name m' hm').symm.trans (hr.stats name m hm)
    rw [hm, Option.map_some, Option.map_some, Except.ok.inj hstats]

/-- Three runs that complete in the reverse order: one fails, and one has no value for a metric that
the other has. -/
theorem threeRuns_reported :
    ∃ report, evaluateRuns (fun _ => Fin.revPerm) [.ok [("output_rows", some 3), ("time", none)],
        .error "Failed to evaluate plan: timeout", .ok [("time", some 2)]] = .ok report ∧
      Reported [.ok [("output_rows", some 3), ("time", none)],
        .error "Failed to evaluate plan: timeout", .ok [("time", some 2)]] report :=
  let ⟨report, hreport, hr, _⟩ := evaluateRuns_reported _ (List.cons_ne_nil _ _) _
  ⟨report, hreport, hr⟩

end DbPlanBench.Optimize
