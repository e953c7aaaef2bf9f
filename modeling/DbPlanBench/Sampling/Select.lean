import DbPlanBench.Sampling.State

/-!
# Choosing base plans

`get_base_plans_for_sampling` picks the entries of a query's tree that a step
starts from: by position in the tree, by validity and by a metric. With each goes
the chain of patches from the root to it, which skips invalid entries, and the
evaluation of the nearest valid entry on that way. Both walks follow
`parent_sample_id` until the root and have no bound of their own; here they stop
after more steps than the tree has entries, when an entry has been met twice.

* `exists_basePlanOf` — what is picked is an entry, with its two walks.
-/

namespace DbPlanBench

/-- Python's truth value. -/
def Json.truthy : Json → Bool
  | .null => false
  | .bool b => b
  | .int n => decide (n ≠ 0)
  | .float x => decide (x.mag ≠ 0)
  | .str s => decide (s ≠ "")
  | .arr xs => ! xs.isEmpty
  | .obj kvs => ! kvs.isEmpty

namespace Sampling

/-- How a step fails: an exception of the code, one of `jsonpatch` with its text, or a walk that
does not end. -/
inductive Fault where
  | raised (e : PyErr)
  | patchError (text : String)
  | diverges
deriving DecidableEq

inductive StartingSelector where
  | original
  | soFar
  | ofLast
  | ofLeafs
deriving DecidableEq

inductive FinalSelector where
  | all
  | best1
  | bestN
deriving DecidableEq

/-- `SamplingStrategy`, with the two keyword arguments it is asked for. -/
structure SamplingStrategy where
  startingSelector : StartingSelector
  finalSelector : FinalSelector
  fromValidOnly : Bool
  optimizationMetric : Option String
  bestN : Option Int

/-- `ORIGINAL_STRATEGY`. -/
def originalStrategy : SamplingStrategy := ⟨.original, .all, false, none, none⟩

/-- A base plan of a step. -/
structure BasePlan where
  parentSampleId : Option Nat
  upstreamPatches : List Json
  upstreamEvaluationStats : Json

/-! ## Walking to the root -/

/-- `sampleid2sampleidx`. -/
def sampleid2sampleidx (plans : List PlanInfo) : List (Option Nat × Nat) :=
  plans.zipIdx.foldl (fun d p => OrdDict.set d p.1.sampleId p.2) []

/-- `query_data["sampled_plans"][sampleid2sampleidx[id]]`. -/
def entryAt (plans : List PlanInfo) (id : Option Nat) : Except Fault PlanInfo :=
  match OrdDict.get? (sampleid2sampleidx plans) id with
  | none => .error (.raised .keyError)
  | some idx =>
    match plans[idx]? with
    | none => .error (.raised .indexError)
    | some p => .ok p

/-- The patches of the valid entries from an entry up to the root, the entry first. -/
def patchStack (plans : List PlanInfo) :
    Nat → PlanInfo → Bool → Except Fault (List (Option (List Json)))
  | 0, _, _ => .error .diverges
  | fuel + 1, planInfo, mustApplyCurrentPatches =>
    match planInfo.sampleId with
    | none => .ok []
    | some _ => do
      let parent ← entryAt plans planInfo.parentSampleId
      let stack ← patchStack plans fuel parent false
      return if mustApplyCurrentPatches || planInfo.isValid then planInfo.sampledPatches :: stack
        else stack

/-- `for patch in patches`, where `None` is not iterable. -/
def iterPatches : Option (List Json) → Except Fault (List Json)
  | some patches => .ok patches
  | none => .error (.raised .typeError)

/-- `get_upstream_patches`. -/
def getUpstreamPatches (planInfo : PlanInfo) (plans : List PlanInfo)
    (mustApplyCurrentPatches : Bool) : Except Fault (List Json) := do
  let stack ← patchStack plans (plans.length + 1) planInfo mustApplyCurrentPatches
  let upstream ← stack.reverse.mapM iterPatches
  return upstream.flatten

/-- The walk of `get_upstream_evaluation_stats`. -/
def evaluationStatsWalk (plans : List PlanInfo) : Nat → PlanInfo → Except Fault Json
  | 0, _ => .error .diverges
  | fuel + 1, planInfo =>
    match planInfo.sampleId with
    | none =>
      if planInfo.isValid then .ok planInfo.evaluationStats
      else .error (.raised (.runtimeError "Root plan must be valid!"))
    | some _ =>
      if planInfo.isValid then .ok planInfo.evaluationStats
      else do
        let parent ← entryAt plans planInfo.parentSampleId
        evaluationStatsWalk plans fuel parent

/-- `get_upstream_evaluation_stats`. -/
def getUpstreamEvaluationStats (planInfo : PlanInfo) (plans : List PlanInfo) : Except Fault Json :=
  evaluationStatsWalk plans (plans.length + 1) planInfo

/-! ## Ranking -/

/-- `current[part]` along a dotted path. -/
def descend : Json → List String → Option Json
  | current, [] => some current
  | .obj fields, part :: parts => (OrdDict.get? fields part).bind fun v => descend v parts
  | _, _ :: _ => none

/-- `metric_path.split(".")`. -/
def splitPath (metricPath : String) : List String :=
  (metricPath.toList.splitOn '.').map String.ofList

/-- `get_metric_value`. -/
def getMetricValue (stats : Json) (metricPath : String) : Except PyErr (Option ℚ) :=
  if ! stats.truthy then .ok none
  else if '.' ∈ metricPath.toList then
    let current := match stats with
      | .obj fields => (OrdDict.get? fields "benchmark_stats").getD stats
      | _ => stats
    .ok ((descend current (splitPath metricPath)).bind Json.number?)
  else match stats with
    | .obj fields => .ok ((OrdDict.get? fields metricPath).bind Json.number?)
    | _ => .error .attributeError

/-- `key_fn`: no metric and the metric zero both rank last. -/
def metricKey (metric : String) (p : PlanInfo) : Except PyErr (Option ℚ) := do
  let value ← if p.evaluationStats = .null then .ok none else getMetricValue p.evaluationStats metric
  return value.filter (· ≠ 0)

/-- Ranks in order, `none` being infinity. -/
def keyLe : Option ℚ → Option ℚ → Bool
  | some a, some b => decide (a ≤ b)
  | none, some _ => false
  | _, none => true

/-- `l[:n]`. -/
def takeSlice {α : Type} (l : List α) (n : Int) : List α :=
  if 0 ≤ n then l.take n.toNat else l.take (l.length - (-n).toNat)

/-- `get_best_plan_infos`. -/
def getBestPlanInfos (optimizationMetric : Option String) (planInfos : List PlanInfo) (n : Int) :
    Except PyErr (List PlanInfo) :=
  match optimizationMetric with
  | none => .error (.valueError "optimization_metric must be provided to determine best plans!")
  | some metric =>
    match planInfos.mapM (metricKey metric) with
    | .error _ => .error (.runtimeError "Failed to determine best plan")
    | .ok keys =>
      .ok (takeSlice (((keys.zip planInfos).insertionSort fun a b => keyLe a.1 b.1).map Prod.snd) n)

/-! ## Selecting -/

/-- The entries the starting selector leaves. -/
def startingPlans (selector : StartingSelector) (plans : List PlanInfo) : List PlanInfo :=
  match selector with
  | .ofLast => plans.filter (·.isLast)
  | .ofLeafs => plans.filter (·.isLeaf)
  | _ => plans

/-- The entries `from_valid_only` leaves. -/
def validPlans (fromValidOnly : Bool) (base : List PlanInfo) : List PlanInfo :=
  if fromValidOnly then base.filter (·.isValid) else base

/-- The entries the final selector leaves. -/
def finalPlans (strategy : SamplingStrategy) (base : List PlanInfo) : Except PyErr (List PlanInfo) :=
  match strategy.finalSelector with
  | .all => .ok base
  | .best1 => getBestPlanInfos strategy.optimizationMetric base 1
  | .bestN =>
    match strategy.bestN with
    | none => .error (.valueError "best_n must be provided for BEST_N_* sampling!")
    | some n => getBestPlanInfos strategy.optimizationMetric base n

/-- An entry as a base plan. -/
def basePlanOf (plans : List PlanInfo) (p : PlanInfo) : Except Fault BasePlan := do
  let upstreamPatches ← getUpstreamPatches p plans false
  let upstreamEvaluationStats ← getUpstreamEvaluationStats p plans
  return { parentSampleId := p.sampleId, upstreamPatches, upstreamEvaluationStats }

/-- `get_base_plans_for_sampling`. -/
def getBasePlansForSampling (plans : List PlanInfo) (strategy : SamplingStrategy) :
    Except Fault (List BasePlan) :=
  match strategy.startingSelector with
  | .original => do
    let root ← entryAt plans none
    return [{
      parentSampleId := none
      upstreamPatches := []
      upstreamEvaluationStats := root.evaluationStats }]
  | _ =>
    match finalPlans strategy (validPlans strategy.fromValidOnly
      (startingPlans strategy.startingSelector plans)) with
    | .error e => .error (.raised e)
    | .ok base => base.mapM (basePlanOf plans)

/-! ## What is selected -/

/-- With distinct ids an entry is found under its id. -/
theorem entryAt_eq {plans : List PlanInfo} (hd : (plans.map (·.sampleId)).Nodup) {p : PlanInfo}
    (hp : p ∈ plans) : entryAt plans p.sampleId = .ok p := by
  obtain ⟨i, hi⟩ := List.getElem?_of_mem hp
  have hkeys : plans.zipIdx.map (fun q => q.1.sampleId) = plans.map (·.sampleId) := by
    nth_rewrite 2 [← List.zipIdx_map_fst 0 plans]
    rw [List.map_map]
    rfl
  have he := OrdDict.foldl_set_fresh (fun q : PlanInfo × Nat => q.1.sampleId) Prod.snd plans.zipIdx []
    (by rw [hkeys]; exact hd) fun _ _ => List.not_mem_nil
  rw [List.nil_append] at he
  have hget : OrdDict.get? (sampleid2sampleidx plans) p.sampleId = some i := by
    rw [sampleid2sampleidx, he]
    refine OrdDict.get?_of_mem ?_ (List.mem_map.mpr ⟨(p, i), List.mem_zipIdx_iff_getElem?.mpr hi, rfl⟩)
    rw [OrdDict.keys, List.map_map]
    exact hkeys ▸ hd
  rw [entryAt, hget]
  simp only [hi]

theorem takeSlice_subset {α : Type} {l : List α} {n : Int} {x : α} (h : x ∈ takeSlice l n) :
    x ∈ l := by
  unfold takeSlice at h
  split at h
  next => exact List.mem_of_mem_take h
  next => exact List.mem_of_mem_take h

theorem getBestPlanInfos_subset {metric : Option String} {base best : List PlanInfo} {n : Int}
    (h : getBestPlanInfos metric base n = .ok best) : ∀ p ∈ best, p ∈ base := by
  intro p hp
  unfold getBestPlanInfos at h
  split at h
  next => exact absurd h (by simp)
  next =>
    split at h
    next => exact absurd h (by simp)
    next keys _ =>
      injection h with h
      rw [← h] at hp
      obtain ⟨q, hq, rfl⟩ := List.mem_map.mp (takeSlice_subset hp)
      exact (List.of_mem_zip ((List.mem_insertionSort _).mp hq)).2

theorem startingPlans_subset {selector : StartingSelector} {plans : List PlanInfo} {p : PlanInfo}
    (h : p ∈ startingPlans selector plans) : p ∈ plans := by
  unfold startingPlans at h
  split at h
  next => exact List.mem_of_mem_filter h
  next => exact List.mem_of_mem_filter h
  next => exact h

theorem validPlans_subset {fromValidOnly : Bool} {base : List PlanInfo} {p : PlanInfo}
    (h : p ∈ validPlans fromValidOnly base) : p ∈ base := by
  unfold validPlans at h
  split at h
  next => exact List.mem_of_mem_filter h
  next => exact h

theorem finalPlans_subset {strategy : SamplingStrategy} {base final : List PlanInfo}
    (h : finalPlans strategy base = .ok final) : ∀ p ∈ final, p ∈ base := by
  intro p hp
  unfold finalPlans at h
  split at h
  next =>
    injection h with h
    exact h ▸ hp
  next => exact getBestPlanInfos_subset h p hp
  next =>
    split at h
    next => exact absurd h (by simp)
    next => exact getBestPlanInfos_subset h p hp

/-- **What is selected is an entry, with its two walks**, whatever the strategy. -/
theorem exists_basePlanOf {plans : List PlanInfo} {strategy : SamplingStrategy}
    (hroot : ∃ r ∈ plans, r.sampleId = none ∧ r.isValid = true ∧ entryAt plans none = .ok r)
    {bases : List BasePlan} (h : getBasePlansForSampling plans strategy = .ok bases) :
    ∀ b ∈ bases, ∃ p ∈ plans, basePlanOf plans p = .ok b := by
  intro b hb
  unfold getBasePlansForSampling at h
  split at h
  next =>
    -- `original`: the two values written out in the source are what the walks give at the root
    obtain ⟨r, hr, hid, hvalid, hentry⟩ := hroot
    rw [hentry, Except.ok_bind] at h
    injection h with h
    rw [← h] at hb
    rw [List.mem_singleton.mp hb]
    refine ⟨r, hr, ?_⟩
    have hpatches : getUpstreamPatches r plans false = .ok [] := by
      rw [getUpstreamPatches, patchStack]
      simp only [hid]
      rfl
    have hstats : getUpstreamEvaluationStats r plans = .ok r.evaluationStats := by
      rw [getUpstreamEvaluationStats, evaluationStatsWalk]
      simp only [hid, hvalid, if_true]
    rw [basePlanOf, hpatches, Except.ok_bind, hstats, hid]
    rfl
  next =>
    split at h
    next => exact absurd h (by simp)
    next base hbase =>
      -- the other strategies walk from the entries they keep
      obtain ⟨p, hp, hbp⟩ := Except.mem_of_mapM h hb
      exact ⟨p, startingPlans_subset (validPlans_subset (finalPlans_subset hbase p hp)), hbp⟩

end Sampling

end DbPlanBench
