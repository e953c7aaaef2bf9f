import DbPlanBench.Sampling.Orchestrator

/-!
# How a sampling run fails

A run can fail on missing files, on patches that do not apply and on trees that are
none. A `ValueError` is for strategies that lack an argument of their selector;
those that `run_sampling_steps` selects are complete, so it raises none.
-/

namespace DbPlanBench.Sampling

/-- Not a `ValueError`. -/
def Fault.NotValueError : Fault → Prop
  | .raised (.valueError _) => False
  | _ => True

/-- The arguments that the final selector needs are there. -/
def SamplingStrategy.Complete (strategy : SamplingStrategy) : Prop :=
  match strategy.finalSelector with
  | .all => True
  | .best1 => strategy.optimizationMetric.isSome = true
  | .bestN => strategy.optimizationMetric.isSome = true ∧ strategy.bestN.isSome = true

theorem selectStrategy_complete (strategy : Strategy) (stepIdx nSamplesPerStep : Nat)
    (optimizationMetric : String) :
    (selectStrategy strategy stepIdx nSamplesPerStep optimizationMetric).1.Complete := by
  unfold selectStrategy
  cases strategy with
  | bolEvol => rfl
  | bestOf => trivial
  | pstEvol =>
    dsimp only
    split
    next => trivial
    next => trivial

section

variable {plans : List PlanInfo}

theorem entryAt_failsIn (id : Option Nat) : (entryAt plans id).FailsIn Fault.NotValueError := by
  unfold entryAt
  split
  next => exact .error trivial
  next =>
    split
    next => exact .error trivial
    next => exact .ok _

theorem patchStack_failsIn : ∀ (fuel : Nat) (p : PlanInfo) (must : Bool),
    (patchStack plans fuel p must).FailsIn Fault.NotValueError
  | 0, _, _ => .error trivial
  | fuel + 1, p, must => by
    unfold patchStack
    split
    next => exact .ok _
    next =>
      refine (entryAt_failsIn _).bind fun parent _ => ?_
      exact (patchStack_failsIn fuel parent false).bind fun stack _ => .ok _

theorem getUpstreamPatches_failsIn (p : PlanInfo) (must : Bool) :
    (getUpstreamPatches p plans must).FailsIn Fault.NotValueError := by
  refine (patchStack_failsIn _ p must).bind fun stack _ => ?_
  refine (Except.FailsIn.mapM fun patches _ => ?_).bind fun upstream _ => .ok _
  cases patches with
  | none => exact .error trivial
  | some patches => exact .ok patches

theorem evaluationStatsWalk_failsIn : ∀ (fuel : Nat) (p : PlanInfo),
    (evaluationStatsWalk plans fuel p).FailsIn Fault.NotValueError
  | 0, _ => .error trivial
  | fuel + 1, p => by
    unfold evaluationStatsWalk
    split
    next =>
      split
      next => exact .ok _
      next => exact .error trivial
    next =>
      split
      next => exact .ok _
      next => exact (entryAt_failsIn _).bind fun parent _ => evaluationStatsWalk_failsIn fuel parent

theorem getBestPlanInfos_failsIn {metric : Option String} (hmetric : metric.isSome = true)
    (base : List PlanInfo) (n : Int) :
    (getBestPlanInfos metric base n).FailsIn fun e => Fault.NotValueError (.raised e) := by
  unfold getBestPlanInfos
  split
  next => exact absurd hmetric (by simp)
  next =>
    split
    next => exact .error trivial
    next => exact .ok _

theorem finalPlans_failsIn {strategy : SamplingStrategy} (hs : strategy.Complete)
    (base : List PlanInfo) :
    (finalPlans strategy base).FailsIn fun e => Fault.NotValueError (.raised e) := by
  unfold SamplingStrategy.Complete at hs
  unfold finalPlans
  cases he : strategy.finalSelector with
  | all => exact .ok base
  | best1 =>
    rw [he] at hs
    exact getBestPlanInfos_failsIn hs base 1
  | bestN =>
    rw [he] at hs
    cases hn : strategy.bestN with
    | none => exact absurd hs.2 (by simp [hn])
    | some n => exact getBestPlanInfos_failsIn hs.1 base n

theorem getBasePlansForSampling_failsIn {strategy : SamplingStrategy} (hs : strategy.Complete) :
    (getBasePlansForSampling plans strategy).FailsIn Fault.NotValueError := by
  unfold getBasePlansForSampling
  split
  next => exact (entryAt_failsIn none).bind fun root _ => .ok _
  next =>
    split
    next e he => exact .error (finalPlans_failsIn hs _ e he)
    next base _ =>
      refine .mapM fun p _ => ?_
      refine (getUpstreamPatches_failsIn p false).bind fun patches _ => ?_
      exact (evaluationStatsWalk_failsIn _ p).bind fun stats _ => .ok _

end

/-- **Sampling with a complete strategy raises no `ValueError`.** -/
theorem samplePlansFromFile_failsIn (patch : JsonPatch) {strategy : SamplingStrategy}
    (hs : strategy.Complete) (model : String) (generate : Answers) (queries : List QueryData) :
    (samplePlansFromFile patch strategy model generate queries).FailsIn Fault.NotValueError := by
  refine (Except.FailsIn.mapM fun q _ => ?_).bind fun selected _ => ?_
  · exact (getBasePlansForSampling_failsIn hs).bind fun bases _ => .ok _
  · refine (Except.FailsIn.mapM fun p _ => ?_).bind fun batch _ => .ok _
    unfold batchItem
    split
    next => exact .ok _
    next => exact .error trivial

theorem accumulateSamples_failsIn (sampled : List SampledQuery) (final : List QueryData) :
    (accumulateSamples sampled final).FailsIn fun e => Fault.NotValueError (.raised e) := by
  refine (Except.FailsIn.foldlM (fun c q => ?_) sampled _).bind fun c _ => .ok _
  unfold collect
  split
  next => exact .error trivial
  next => exact .ok _

/-! ## Runs -/

section

variable (p : Params)

theorem mergeFile_failsIn (w : Write) (k : Nat) (dir : SamplingDir) :
    (mergeFile w k dir).result.FailsIn Fault.NotValueError := by
  unfold mergeFile
  split
  next evaluated final _ _ =>
    split
    next => exact .ok _
    next e he => exact .error (accumulateSamples_failsIn evaluated final e he)
  next => exact .error trivial

theorem runSamplingStep_failsIn (k nSamples : Nat) {strategy : SamplingStrategy}
    (hs : strategy.Complete) (dir : SamplingDir) :
    (runSamplingStep p k nSamples strategy dir).result.FailsIn Fault.NotValueError := by
  refine Traced.failsIn_andThen ?_ fun s _ => Traced.failsIn_andThen ?_ fun t _ =>
    mergeFile_failsIn _ k t
  · -- sampling: only a missing accumulated state, or what the answers themselves raise
    unfold sampleFile
    split
    next => exact .ok _
    next =>
      split
      next => exact .error trivial
      next final _ =>
        split
        next => exact .ok _
        next e he => exact .error (samplePlansFromFile_failsIn p.patch hs p.model _ final e he)
  · -- evaluation: only a missing sample file
    unfold evaluateFile
    split
    next => exact .ok _
    next =>
      split
      next => exact .error trivial
      next => exact .ok _

theorem startRun_failsIn (dir : SamplingDir) :
    (startRun p dir).result.FailsIn Fault.NotValueError := by
  unfold startRun
  split
  next => exact .ok _
  next =>
    split
    next =>
      refine Traced.failsIn_andThen (.ok _) fun s _ => Traced.failsIn_forEach (fun k t => ?_) _ s
      unfold rebuildStep
      split
      next => exact .error trivial
      next => exact mergeFile_failsIn _ k t
    next => exact .ok _

theorem topUp_failsIn (maxCompleted : Nat) (dir : SamplingDir) :
    (topUp p maxCompleted dir).result.FailsIn Fault.NotValueError := by
  unfold topUp
  split
  next =>
    split
    next =>
      split
      next => exact runSamplingStep_failsIn p _ _ (show originalStrategy.Complete from trivial) dir
      next => exact .ok _
    next => exact .ok _
  next => exact .ok _

/-- **`run_sampling_steps` raises no `ValueError`.** -/
theorem runSamplingSteps_failsIn (dir : SamplingDir) :
    (runSamplingSteps p dir).result.FailsIn Fault.NotValueError := by
  refine Traced.failsIn_andThen (startRun_failsIn p dir) fun s _ =>
    Traced.failsIn_andThen ?_ fun t _ => topUp_failsIn p _ t
  unfold loopSteps
  split
  next =>
    exact Traced.failsIn_forEach
      (fun k t => runSamplingStep_failsIn p k _ (selectStrategy_complete _ k _ _) t) _ s
  next => exact .ok _

end

end DbPlanBench.Sampling
