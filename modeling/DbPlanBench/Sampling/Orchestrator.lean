import DbPlanBench.Lib.Traced
import DbPlanBench.Sampling.Invariant

/-!
# The sampling loop and its files

`run_sampling_steps` keeps its state in files: the prepared dataset, the accumulated
state, and for each step the samples before and after their evaluation. What has
been done is read off these files: a step counts as completed when its evaluated
file is there. A run is modelled with every file it writes, one write at a time, so
that it can be stopped between two of them.

A language model's answer depends on the step, on the position of the question and
on the question; so does the engine's. Log output and the number of workers are left
out, and so are file names: a step directory is its number.
-/

namespace DbPlanBench.Sampling

/-- The files of a sampling directory. -/
structure SamplingDir where
  base : List QueryData
  final : Option (List QueryData)
  sampled : List (Nat × List SampledQuery)
  evaluated : List (Nat × List SampledQuery)
deriving DecidableEq

/-- A directory with the prepared dataset only. -/
def newDir (base : List QueryData) : SamplingDir := ⟨base, none, [], []⟩

/-- `strategy`. -/
inductive Strategy where
  | bolEvol
  | pstEvol
  | bestOf
deriving DecidableEq

/-- The arguments of `run_sampling_steps`, and the answers it gets. A thread pool needs a worker,
so there is at least one sample for each step. -/
structure Params where
  strategy : Strategy
  nSteps : Int
  nSamplesPerStep : Nat
  samplesPos : 0 < nSamplesPerStep
  optimizationMetric : String
  model : String
  resume : Bool
  patch : JsonPatch
  llm : Nat → Nat → String → Json → Nat → GenerationResult
  engine : Nat → Engine

/-- A write of a run: the accumulated state rebuilt from the first `k` steps, or a file of step
`k`, or the accumulated state with step `k`. -/
inductive Write where
  | rebuilt (k : Nat)
  | sampled (k : Nat)
  | evaluated (k : Nat)
  | merged (k : Nat)
deriving DecidableEq

abbrev Run := Traced Fault Write SamplingDir

/-- The largest of `_list_completed_steps`, 0 if there is none. -/
def maxCompleted (dir : SamplingDir) : Nat := (OrdDict.keys dir.evaluated).foldl max 0

/-- `_select_strategy`. -/
def selectStrategy (strategy : Strategy) (stepIdx nSamplesPerStep : Nat)
    (optimizationMetric : String) : SamplingStrategy × Nat :=
  match strategy with
  | .pstEvol =>
    if stepIdx = 1 then (originalStrategy, nSamplesPerStep)
    else (⟨.ofLast, .all, false, none, none⟩, 1)
  | .bolEvol => (⟨.ofLast, .best1, false, some optimizationMetric, none⟩, nSamplesPerStep)
  | .bestOf => (originalStrategy, nSamplesPerStep)

/-- `accumulate_samples` on the files of a step. -/
def mergeFile (w : Write) (k : Nat) (dir : SamplingDir) : Run :=
  match OrdDict.get? dir.evaluated k, dir.final with
  | some evaluated, some final =>
    match accumulateSamples evaluated final with
    | .ok final' => .write w { dir with final := some final' }
    | .error e => .fail (.raised e)
  | _, _ => .fail (.raised (.runtimeError "No such file or directory"))

/-- `final_sampling_path.write_text(base_sampling_path.read_text())`. -/
def resetFinal (dir : SamplingDir) : Run := .write (.rebuilt 0) { dir with final := some dir.base }

/-- One round of the rebuild. -/
def rebuildStep (k : Nat) (dir : SamplingDir) : Run :=
  match OrdDict.get? dir.evaluated k with
  | none => .fail (.raised (.runtimeError "Missing evaluated_sampled_plans.json"))
  | some _ => mergeFile (.rebuilt k) k dir

/-- The accumulated state from the first `limit` steps. -/
def rebuild (limit : Nat) (dir : SamplingDir) : Run :=
  (resetFinal dir).andThen (Traced.forEach rebuildStep (List.range' 1 limit))

/-- The answers a step gets to `nSamples` questions about each base plan. -/
def answersOf (p : Params) (k nSamples : Nat) : Answers := fun i query plan =>
  (List.range nSamples).map (p.llm k i query plan)

/-- The sampling half of `_run_step`. -/
def sampleFile (p : Params) (k nSamples : Nat) (strategy : SamplingStrategy) (dir : SamplingDir) :
    Run :=
  if p.resume = true ∧ k ∈ OrdDict.keys dir.sampled then .done dir
  else match dir.final with
    | none => .fail (.raised (.runtimeError "No such file or directory"))
    | some final =>
      match samplePlansFromFile p.patch strategy p.model (answersOf p k nSamples) final with
      | .ok sampled => .write (.sampled k) { dir with sampled := OrdDict.set dir.sampled k sampled }
      | .error e => .fail e

/-- The evaluating half of `_run_step`. -/
def evaluateFile (p : Params) (k : Nat) (dir : SamplingDir) : Run :=
  if p.resume = true ∧ k ∈ OrdDict.keys dir.evaluated then .done dir
  else match OrdDict.get? dir.sampled k with
    | none => .fail (.raised (.runtimeError "No such file or directory"))
    | some sampled =>
      .write (.evaluated k)
        { dir with
          evaluated := OrdDict.set dir.evaluated k
            (evaluateSampledPlans p.patch (p.engine k) sampled) }

/-- `_run_step`. -/
def runSamplingStep (p : Params) (k nSamples : Nat) (strategy : SamplingStrategy)
    (dir : SamplingDir) : Run :=
  (sampleFile p k nSamples strategy dir).andThen fun dir =>
    (evaluateFile p k dir).andThen (mergeFile (.merged k) k)

/-- A step of the main loop. -/
def loopStep (p : Params) (k : Nat) (dir : SamplingDir) : Run :=
  let selected := selectStrategy p.strategy k p.nSamplesPerStep p.optimizationMetric
  runSamplingStep p k selected.2 selected.1 dir

/-- The number of samples of the first query. -/
def currentSamples (q : QueryData) : Nat := q.sampledPlans.countP (·.sampleId ≠ none)

/-- The samples that `best_of` is short of when it is resumed. -/
def topUp (p : Params) (maxCompleted : Nat) (dir : SamplingDir) : Run :=
  if p.strategy = .bestOf ∧ p.resume = true ∧ p.nSteps = 1 then
    match dir.final with
    | some (q :: _) =>
      if currentSamples q < p.nSamplesPerStep then
        runSamplingStep p (if 1 ≤ maxCompleted then maxCompleted + 1 else 1)
          (p.nSamplesPerStep - currentSamples q) originalStrategy dir
      else .done dir
    | _ => .done dir
  else .done dir

/-- `rebuild_limit`. -/
def rebuildLimit (p : Params) (maxCompleted : Nat) : Nat :=
  if 0 ≤ p.nSteps then min maxCompleted p.nSteps.toNat else maxCompleted

/-- What happens to the accumulated state before the first step. -/
def startRun (p : Params) (dir : SamplingDir) : Run :=
  if p.resume = false then resetFinal dir
  else if dir.final = none ∨ p.nSteps < maxCompleted dir then
    rebuild (rebuildLimit p (maxCompleted dir)) dir
  else .done dir

/-- The steps that are left. -/
def loopSteps (p : Params) (limit : Nat) (dir : SamplingDir) : Run :=
  if 0 < p.nSteps ∧ limit < p.nSteps then
    Traced.forEach (loopStep p) (List.range' (limit + 1) (p.nSteps.toNat - limit)) dir
  else .done dir

/-- `run_sampling_steps`. -/
def runSamplingSteps (p : Params) (dir : SamplingDir) : Run :=
  (startRun p dir).andThen fun dir' =>
    (loopSteps p (rebuildLimit p (maxCompleted dir)) dir').andThen (topUp p (maxCompleted dir))

/-! ## What the parts of a step do -/

section

variable {p : Params} {k nSamples : Nat} {strategy : SamplingStrategy} {dir t : SamplingDir}

theorem mergeFile_result {w : Write} (h : (mergeFile w k dir).result = .ok t) :
    ∃ evaluated final final', OrdDict.get? dir.evaluated k = some evaluated ∧
      dir.final = some final ∧ accumulateSamples evaluated final = .ok final' ∧
      t = { dir with final := some final' } ∧ mergeFile w k dir = .write w t := by
  unfold mergeFile at h ⊢
  split at h
  next evaluated final he hf =>
    split at h
    next final' ha =>
      injection (show Except.ok _ = Except.ok t from h) with h
      exact ⟨evaluated, final, final', he, hf, ha, h.symm, congrArg (Traced.write w) h⟩
    next => exact absurd h (by simp [Traced.fail])
  next => exact absurd h (by simp [Traced.fail])

/-- Stored samples are used as they are. -/
theorem sampleFile_of_stored (hr : p.resume = true) (hk : k ∈ OrdDict.keys dir.sampled) :
    sampleFile p k nSamples strategy dir = .done dir := if_pos ⟨hr, hk⟩

theorem sampleFile_result (h : (sampleFile p k nSamples strategy dir).result = .ok t) :
    (p.resume = true ∧ k ∈ OrdDict.keys dir.sampled ∧ t = dir) ∨
      ∃ final sampled, dir.final = some final ∧
        samplePlansFromFile p.patch strategy p.model (answersOf p k nSamples) final = .ok sampled ∧
        t = { dir with sampled := OrdDict.set dir.sampled k sampled } ∧
        sampleFile p k nSamples strategy dir = .write (.sampled k) t := by
  unfold sampleFile at h ⊢
  split at h
  next hc =>
    injection (show Except.ok dir = Except.ok t from h) with h
    exact Or.inl ⟨hc.1, hc.2, h.symm⟩
  next hc =>
    rw [if_neg hc]
    split at h
    next => exact absurd h (by simp [Traced.fail])
    next final hfinal =>
      split at h
      next sampled hsample =>
        injection (show Except.ok _ = Except.ok t from h) with h
        refine Or.inr ⟨final, sampled, hfinal, hsample, h.symm, ?_⟩
        rw [← h, hfinal]
      next => exact absurd h (by simp [Traced.fail])

theorem evaluateFile_result (hk : k ∉ OrdDict.keys dir.evaluated)
    (h : (evaluateFile p k dir).result = .ok t) :
    ∃ sampled, OrdDict.get? dir.sampled k = some sampled ∧
      t = { dir with
        evaluated := OrdDict.set dir.evaluated k
          (evaluateSampledPlans p.patch (p.engine k) sampled) } ∧
      evaluateFile p k dir = .write (.evaluated k) t := by
  unfold evaluateFile at h ⊢
  rw [if_neg fun hc => hk hc.2] at h ⊢
  split at h
  next => exact absurd h (by simp [Traced.fail])
  next sampled hsampled =>
    injection (show Except.ok _ = Except.ok t from h) with h
    exact ⟨sampled, hsampled, h.symm, congrArg (Traced.write (Write.evaluated k)) h⟩

/-- **A step that is not completed** evaluates its samples, stored or new, and merges them. -/
theorem runSamplingStep_result (hk : k ∉ OrdDict.keys dir.evaluated)
    (h : (runSamplingStep p k nSamples strategy dir).result = .ok t) :
    ∃ s sampled final final', (sampleFile p k nSamples strategy dir).result = .ok s ∧
      OrdDict.get? s.sampled k = some sampled ∧ s.final = some final ∧
      accumulateSamples (evaluateSampledPlans p.patch (p.engine k) sampled) final = .ok final' ∧
      t = { s with
        final := some final'
        evaluated := OrdDict.set s.evaluated k
          (evaluateSampledPlans p.patch (p.engine k) sampled) } ∧
      (runSamplingStep p k nSamples strategy dir).writes =
        (sampleFile p k nSamples strategy dir).writes ++ [(.evaluated k, { s with
          evaluated := OrdDict.set s.evaluated k
            (evaluateSampledPlans p.patch (p.engine k) sampled) }), (.merged k, t)] := by
  obtain ⟨s, hs, h⟩ := Traced.result_andThen.mp h
  obtain ⟨s', hs', h⟩ := Traced.result_andThen.mp h
  have hk' : k ∉ OrdDict.keys s.evaluated := by
    rcases sampleFile_result hs with ⟨_, _, rfl⟩ | ⟨_, _, _, _, rfl, _⟩
    · exact hk
    · exact hk
  obtain ⟨sampled, hsampled, rfl, heval⟩ := evaluateFile_result hk' hs'
  obtain ⟨evaluated, final, final', hget, hfinal, hacc, rfl, hmerge⟩ := mergeFile_result h
  rw [OrdDict.get?_set_self] at hget
  injection hget with hget
  subst hget
  refine ⟨s, sampled, final, final', hs, hsampled, hfinal, hacc, rfl, ?_⟩
  rw [runSamplingStep, Traced.writes_andThen_of_ok hs, Traced.writes_andThen_of_ok hs', heval,
    hmerge]
  rfl

end

end DbPlanBench.Sampling
