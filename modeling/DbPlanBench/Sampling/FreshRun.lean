import DbPlanBench.Sampling.Resume

/-!
# Starting over

A call with `resume=False` resets the accumulated state to the prepared dataset and
should then run every step. But where the steps start is computed from the completed
steps on disk before the flag is looked at, and the default run directory is named
by the minute and may be there already: evaluated files that another call left are
taken for steps of this one, which skips them without merging them.

* `startOver_eq` — what such a call does, for any files it finds.
* `everyStep_iff` — it runs every step exactly when there are none to run, or no
  completed step is found.
-/

namespace DbPlanBench.Sampling

/-- The writes of `n` steps that start from the prepared dataset. -/
def everyWrite (n : Nat) : List Write :=
  .rebuilt 0 :: (List.range' 1 n).flatMap fun k => [.sampled k, .evaluated k, .merged k]

/-- The samples in the file that a write of evaluated samples leaves. -/
def evaluatedBy : Write × SamplingDir → Option (List SampledQuery)
  | (.evaluated k, dir) => OrdDict.get? dir.evaluated k
  | _ => none

/-- The evaluated samples of the steps that a run takes, in their order. -/
def generated (r : Run) : List (List SampledQuery) := r.writes.filterMap evaluatedBy

/-- The steps of a run, merged into the dataset one after the other. -/
def mergeAll (base : List QueryData) (steps : List (List SampledQuery)) :
    Except PyErr (List QueryData) :=
  steps.foldlM (fun final evaluated => accumulateSamples evaluated final) base

/-- The call samples, evaluates and merges each of its steps, and ends with their merge. -/
structure RunsEveryStep (p : Params) (dir t : SamplingDir) : Prop where
  writes : (runSamplingSteps p dir).writes.map Prod.fst = everyWrite p.nSteps.toNat
  final : ∃ final, t.final = some final ∧
    mergeAll dir.base (generated (runSamplingSteps p dir)) = .ok final

section

variable {p : Params} {dir t : SamplingDir}

/-- **A call that starts over** runs the steps after those it finds completed. -/
theorem startOver_eq (hr : p.resume = false) (dir : SamplingDir) :
    runSamplingSteps p dir = (resetFinal dir).andThen (Traced.forEach (loopStep p)
      (List.range' (rebuildLimit p (maxCompleted dir) + 1)
        (p.nSteps.toNat - rebuildLimit p (maxCompleted dir)))) := by
  have htop : ∀ s, topUp p (maxCompleted dir) s = .done s := fun s =>
    if_neg fun h => by simp [hr] at h
  rw [runSamplingSteps, startRun, if_pos hr]
  refine Traced.andThen_congr fun s _ => ?_
  rw [funext htop, Traced.andThen_done, loopSteps]
  split
  next => rfl
  next h =>
    -- the guard and the bounds of the loop say the same
    have hzero : p.nSteps.toNat - rebuildLimit p (maxCompleted dir) = 0 := by omega
    rw [hzero]
    rfl

/-- Without resuming, stored evaluations are not used. -/
theorem evaluateFile_anew (hr : p.resume = false) {k : Nat} {sampled : List SampledQuery}
    (hget : OrdDict.get? dir.sampled k = some sampled) :
    evaluateFile p k dir = .write (.evaluated k) { dir with
      evaluated := OrdDict.set dir.evaluated k
        (evaluateSampledPlans p.patch (p.engine k) sampled) } := by
  rw [evaluateFile, if_neg fun h => by simp [hr] at h, hget]

/-- **A step is sampled, evaluated and merged anew**, whatever files are there. -/
theorem loopStep_anew (hr : p.resume = false) {k : Nat}
    (h : (loopStep p k dir).result = .ok t) :
    ∃ s s' evaluated final final',
      (loopStep p k dir).writes = [(.sampled k, s), (.evaluated k, s'), (.merged k, t)] ∧
        OrdDict.get? s'.evaluated k = some evaluated ∧ dir.final = some final ∧
        t.final = some final' ∧ accumulateSamples evaluated final = .ok final' := by
  obtain ⟨s, hs, h⟩ := Traced.result_andThen.mp h
  obtain ⟨s', hs', h⟩ := Traced.result_andThen.mp h
  obtain ⟨hc, _⟩ | ⟨final, sampled, hfinal, _, hse, hsample⟩ := sampleFile_result hs
  · exact absurd hc (by simp [hr])
  have hsampled : OrdDict.get? s.sampled k = some sampled := by
    rw [hse, OrdDict.get?_set_self]
  have heval := evaluateFile_anew hr hsampled
  rw [heval] at hs'
  injection hs' with hs'
  obtain ⟨evaluated, final0, final', hget, hfinal0, hacc, ht, hmerge⟩ := mergeFile_result h
  have hwrites : (loopStep p k dir).writes =
      [(.sampled k, s), (.evaluated k, s'), (.merged k, t)] := by
    rw [loopStep, runSamplingStep, Traced.writes_andThen_of_ok hs, hsample,
      Traced.writes_andThen_of_ok (s := s') (by rw [heval, ← hs']; rfl), heval, hmerge, hs']
    rfl
  have hfinal0 : final0 = final := by
    rw [← hs', hse, hfinal] at hfinal0
    exact (Option.some.inj hfinal0).symm
  exact ⟨s, s', evaluated, final, final', hwrites, hget, hfinal, by rw [ht], hfinal0 ▸ hacc⟩

/-- The steps from `a` on, each anew: what they write, and what they merge into the accumulated
state. -/
theorem forEach_anew (hr : p.resume = false) : ∀ (n a : Nat) (dir t : SamplingDir)
    (final : List QueryData), dir.final = some final →
      (Traced.forEach (loopStep p) (List.range' a n) dir).result = .ok t →
    (Traced.forEach (loopStep p) (List.range' a n) dir).writes.map Prod.fst =
        (List.range' a n).flatMap (fun k => [.sampled k, .evaluated k, .merged k]) ∧
      ∃ final', t.final = some final' ∧
        mergeAll final (generated (Traced.forEach (loopStep p) (List.range' a n) dir)) = .ok final'
  | 0, a, dir, t, final, hfinal, h => by
    injection (show Except.ok dir = Except.ok t from h) with h
    exact ⟨rfl, final, h ▸ hfinal, rfl⟩
  | n + 1, a, dir, t, final, hfinal, h => by
    rw [List.range'_succ] at h ⊢
    obtain ⟨s, hs, h⟩ := Traced.result_andThen.mp h
    obtain ⟨s1, s2, evaluated, final0, final1, hwrites, hget, hfinal0, hsfinal, hacc⟩ :=
      loopStep_anew hr hs
    obtain ⟨hrest, final', ht, hmerge⟩ := forEach_anew hr n (a + 1) s t final1 hsfinal h
    have hsplit : (Traced.forEach (loopStep p) (a :: List.range' (a + 1) n) dir).writes =
        (loopStep p a dir).writes ++
          (Traced.forEach (loopStep p) (List.range' (a + 1) n) s).writes :=
      Traced.writes_andThen_of_ok hs
    refine ⟨?_, final', ht, ?_⟩
    · rw [hsplit, List.map_append, hrest, hwrites]
      rfl
    · -- the step's own samples come first, and are merged into the state it found
      have hgenerated : generated (Traced.forEach (loopStep p) (a :: List.range' (a + 1) n) dir) =
          evaluated :: generated (Traced.forEach (loopStep p) (List.range' (a + 1) n) s) := by
        have hone : evaluatedBy (.evaluated a, s2) = some evaluated := hget
        rw [generated, hsplit, List.filterMap_append, hwrites, List.filterMap_cons_none rfl,
          List.filterMap_cons_some hone, List.filterMap_cons_none rfl]
        rfl
      have he : final0 = final := Option.some.inj (hfinal0.symm.trans hfinal)
      rw [hgenerated, mergeAll, List.foldlM_cons, ← he, hacc]
      exact hmerge

/-- The first step is sampled only if no step is found completed. -/
theorem sampled_one_mem {n m : Nat} (h : Write.sampled 1 ∈
    Write.rebuilt 0 :: (List.range' (m + 1) n).flatMap fun k =>
      [.sampled k, .evaluated k, .merged k]) : m = 0 := by
  rcases List.mem_cons.mp h with h | h
  · exact absurd h (by simp)
  · obtain ⟨k, hk, h⟩ := List.mem_flatMap.mp h
    have hone : 1 = k := by simpa using h
    have hle := (List.mem_range'_1.mp hk).1
    omega

/-- **A call without resuming runs every step exactly when there is none to run or none is found
completed.** -/
theorem everyStep_iff (p : Params) (dir t : SamplingDir) (hr : p.resume = false)
    (h : (runSamplingSteps p dir).result = .ok t) :
    RunsEveryStep p dir t ↔ p.nSteps ≤ 0 ∨ maxCompleted dir = 0 := by
  have hrun := startOver_eq hr dir
  rw [hrun] at h
  obtain ⟨s, hs, h⟩ := Traced.result_andThen.mp h
  injection (show Except.ok { dir with final := some dir.base } = Except.ok s from hs) with hs'
  obtain ⟨hwrites, final, ht, hmerge⟩ := forEach_anew hr _ _ s t dir.base (by rw [← hs']) h
  have hall : (runSamplingSteps p dir).writes.map Prod.fst =
      Write.rebuilt 0 :: (List.range' (rebuildLimit p (maxCompleted dir) + 1)
        (p.nSteps.toNat - rebuildLimit p (maxCompleted dir))).flatMap
          fun k => [.sampled k, .evaluated k, .merged k] := by
    rw [hrun, Traced.writes_andThen_of_ok hs, List.map_append, hwrites]
    rfl
  constructor
  · intro hevery
    rcases Int.lt_or_le 0 p.nSteps with hn | hn
    · -- the first step is among those to run, so it is not skipped
      have hmem : Write.sampled 1 ∈ (runSamplingSteps p dir).writes.map Prod.fst := by
        rw [hevery.writes]
        refine List.mem_cons_of_mem _ (List.mem_flatMap.mpr ⟨1, ?_, List.mem_cons_self ..⟩)
        exact List.mem_range'_1.mpr ⟨Nat.le_refl 1, by omega⟩
      rw [hall] at hmem
      have hzero := sampled_one_mem hmem
      rw [rebuildLimit, if_pos (Int.le_of_lt hn)] at hzero
      omega
    · exact Or.inl hn
  · intro hc
    have hgenerated : generated (runSamplingSteps p dir) =
        generated (Traced.forEach (loopStep p) (List.range'
          (rebuildLimit p (maxCompleted dir) + 1)
          (p.nSteps.toNat - rebuildLimit p (maxCompleted dir))) s) := by
      rw [hrun, generated, Traced.writes_andThen_of_ok hs, List.filterMap_append]
      rfl
    refine ⟨?_, final, ht, hgenerated ▸ hmerge⟩
    rw [hall, everyWrite]
    rcases Int.lt_or_le 0 p.nSteps with hn | hn
    · have hlimit : rebuildLimit p (maxCompleted dir) = 0 := by
        rw [rebuildLimit, hc.resolve_left (by omega), if_pos (Int.le_of_lt hn), Nat.zero_min]
      rw [hlimit, Nat.sub_zero]
    · have hzero : p.nSteps.toNat = 0 := by omega
      simp only [hzero, Nat.zero_sub, List.range'_zero]

end

/-- A call for one step in a new directory. -/
theorem everyStep_scan :
    RunsEveryStep (scanCall 1 false) (newDir scanStart)
        (dirAfter [scanCall 1 false] (newDir scanStart)) ↔
      (scanCall 1 false).nSteps ≤ 0 ∨ maxCompleted (newDir scanStart) = 0 :=
  everyStep_iff (scanCall 1 false) (newDir scanStart) _ rfl (by decide +kernel)

/-- What a call for one step leaves. -/
def sameMinute : SamplingDir := dirAfter [scanCall 1 false] (newDir scanStart)

/-- **A second call in the same directory starts over and runs no step**: it returns with the
prepared dataset as its outcome. -/
theorem startOver_skips_step :
    (runSamplingSteps (scanCall 1 false) sameMinute).result =
        .ok { sameMinute with final := some scanStart } ∧
      ¬ RunsEveryStep (scanCall 1 false) sameMinute { sameMinute with final := some scanStart } ∧
      (runSamplingSteps (scanCall 1 false) sameMinute).writes.map Prod.fst = [.rebuilt 0] := by
  refine ⟨by decide +kernel, fun h => ?_, by decide +kernel⟩
  exact absurd h.writes (by decide +kernel)

end DbPlanBench.Sampling
