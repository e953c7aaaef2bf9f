import DbPlanBench.Sampling.Orchestrator

/-!
# Resuming with another number of steps

After a call with `n` steps the accumulated state should be the prepared dataset
with the samples of steps 1 to `n`, each merged once and in order (`replay`). A call
for fewer steps than are completed rebuilds it so. A later call for at least as many
leaves it as it is and merges the new steps only: what the earlier call left out
stays out (`resume_keeps_short_state`).

* `rebuild_result`, `healthy_loopSteps` — what the two halves of a call do.
* `call_healthy` — what one call keeps, if the state was not left short.
* `resume_replays` — what a sequence of such calls keeps.
-/

namespace DbPlanBench.Sampling

/-- One step's samples merged into the accumulated state. -/
def replayStep (dir : SamplingDir) (final : List QueryData) (k : Nat) :
    Except Fault (List QueryData) :=
  match OrdDict.get? dir.evaluated k with
  | none => .error (.raised (.runtimeError "Missing evaluated_sampled_plans.json"))
  | some evaluated =>
    match accumulateSamples evaluated final with
    | .ok final' => .ok final'
    | .error e => .error (.raised e)

/-- The prepared dataset with the samples of steps 1 to `n`. -/
def replay (dir : SamplingDir) (n : Nat) : Except Fault (List QueryData) :=
  (List.range' 1 n).foldlM (replayStep dir) dir.base

theorem replay_succ (dir : SamplingDir) (n : Nat) :
    replay dir (n + 1) = replay dir n >>= fun final => replayStep dir final (n + 1) := by
  rw [replay, List.range'_concat, List.foldlM_append, Nat.one_mul, Nat.add_comm 1 n]
  refine congrArg _ (funext fun final => ?_)
  rw [List.foldlM_cons]
  cases replayStep dir final (n + 1) with
  | ok _ => rfl
  | error _ => rfl

/-- A replay reads the dataset and the evaluated files of its steps. -/
theorem replay_congr {dir dir' : SamplingDir} {n : Nat} (hbase : dir'.base = dir.base)
    (h : ∀ k ≤ n, OrdDict.get? dir'.evaluated k = OrdDict.get? dir.evaluated k) :
    replay dir' n = replay dir n := by
  induction n with
  | zero => exact congrArg Except.ok hbase
  | succ n ih =>
    rw [replay_succ, replay_succ, ih fun k hk => h k (Nat.le_succ_of_le hk)]
    refine congrArg _ (funext fun final => ?_)
    rw [replayStep, replayStep, h (n + 1) (Nat.le_refl _)]

/-- The file of the next step extends a replay. -/
theorem replay_completed {dir dir' : SamplingDir} {n : Nat} {evaluated : List SampledQuery}
    {final final' : List QueryData} (hreplay : replay dir n = .ok final)
    (hacc : accumulateSamples evaluated final = .ok final') (hbase : dir'.base = dir.base)
    (hevaluated : dir'.evaluated = OrdDict.set dir.evaluated (n + 1) evaluated) :
    replay dir' (n + 1) = .ok final' := by
  have hbefore : replay dir' n = replay dir n := replay_congr hbase fun k hk => by
    rw [hevaluated, OrdDict.get?_set_ne _ _ (by omega)]
  rw [replay_succ, hbefore, hreplay, Except.ok_bind, replayStep, hevaluated, OrdDict.get?_set_self]
  simp only [hacc]

/-- Steps 1 to `m` are completed, and nothing is there of later ones. -/
structure Completed (dir : SamplingDir) (m : Nat) : Prop where
  evaluated : ∀ k, k ∈ OrdDict.keys dir.evaluated ↔ 1 ≤ k ∧ k ≤ m
  sampled : ∀ k ∈ OrdDict.keys dir.sampled, k ≤ m

theorem completed_newDir (base : List QueryData) : Completed (newDir base) 0 where
  evaluated k := iff_of_false List.not_mem_nil (by omega)
  sampled k h := absurd h List.not_mem_nil

theorem Completed.maxCompleted {dir : SamplingDir} {m : Nat} (h : Completed dir m) :
    maxCompleted dir = m := by
  have hmax := le_foldl_max (OrdDict.keys dir.evaluated) 0
  have hle : ∀ (l : List Nat) (a : Nat), a ≤ m → (∀ k ∈ l, k ≤ m) → l.foldl max a ≤ m := by
    intro l
    induction l with
    | nil => exact fun a ha _ => ha
    | cons k l ih =>
      intro a ha hl
      exact ih (max a k) (Nat.max_le.mpr ⟨ha, hl k (List.mem_cons_self ..)⟩)
        fun j hj => hl j (List.mem_cons_of_mem _ hj)
  refine Nat.le_antisymm (hle _ 0 (Nat.zero_le m) fun k hk => ((h.evaluated k).mp hk).2) ?_
  rcases Nat.eq_zero_or_pos m with rfl | hm
  · exact Nat.zero_le _
  · exact hmax.2 m ((h.evaluated m).mpr ⟨hm, Nat.le_refl m⟩)

/-! ## The parts of a call -/

/-- **A rebuild replays its steps.** -/
theorem rebuild_result {limit : Nat} {dir t : SamplingDir}
    (h : (rebuild limit dir).result = .ok t) :
    ∃ final, t = { dir with final := some final } ∧ replay dir limit = .ok final := by
  obtain ⟨s, hs, h⟩ := Traced.result_andThen.mp h
  injection (show Except.ok { dir with final := some dir.base } = Except.ok s from hs) with hs
  subst hs
  -- invariant: after `j` files the accumulated state is the replay of `j` steps
  have hloop := Traced.forEach_range'_result (f := rebuildStep) (P := fun k s => ∃ j final,
    k = 1 + j ∧ s = { dir with final := some final } ∧ replay dir j = .ok final)
    (fun k s t hP hstep => ?_) limit 1 _ t ⟨0, dir.base, rfl, rfl, rfl⟩ h
  · obtain ⟨j, final, hj, ht, hreplay⟩ := hloop
    have hj : j = limit := by omega
    exact ⟨final, ht, hj ▸ hreplay⟩
  · obtain ⟨j, final, rfl, rfl, hreplay⟩ := hP
    unfold rebuildStep at hstep
    split at hstep
    next => exact absurd hstep (by simp [Traced.fail])
    next =>
      obtain ⟨evaluated, final0, final', hget, hfinal, hacc, rfl, _⟩ := mergeFile_result hstep
      injection hfinal with hfinal
      subst hfinal
      refine ⟨j + 1, final', by omega, rfl, ?_⟩
      rw [replay_succ, hreplay, Except.ok_bind, replayStep, Nat.add_comm j 1, hget]
      simp only [hacc]

/-- The accumulated state is that of the first `n` of `m` completed steps. -/
structure Healthy (base : List QueryData) (dir : SamplingDir) (m n : Nat) : Prop where
  base : dir.base = base
  completed : Completed dir m
  final : ∃ final, dir.final = some final ∧ replay dir n = .ok final

theorem healthy_loopStep {p : Params} {base : List QueryData} {k : Nat} {dir t : SamplingDir}
    (hd : Healthy base dir k k) (h : (loopStep p (k + 1) dir).result = .ok t) :
    Healthy base t (k + 1) (k + 1) := by
  have hs : k + 1 ∉ OrdDict.keys dir.sampled := fun hm =>
    absurd (hd.completed.sampled _ hm) (by omega)
  have he : k + 1 ∉ OrdDict.keys dir.evaluated := fun hm =>
    absurd ((hd.completed.evaluated _).mp hm).2 (by omega)
  obtain ⟨s, sampled, final, final', hsample, hget, hfinal, hacc, rfl, _⟩ :=
    runSamplingStep_result he h
  obtain ⟨_, hmem, _⟩ | ⟨_, new, _, _, rfl, _⟩ := sampleFile_result hsample
  · exact absurd hmem hs
  refine ⟨hd.base, ⟨fun j => ?_, fun j hj => ?_⟩, final', rfl, ?_⟩
  · rw [OrdDict.mem_keys_set, hd.completed.evaluated]
    omega
  · rcases OrdDict.mem_keys_set.mp hj with hj | hj
    · exact Nat.le_of_eq hj
    · exact Nat.le_succ_of_le (hd.completed.sampled j hj)
  · obtain ⟨final0, hfinal0, hreplay⟩ := hd.final
    have he0 : final0 = final := Option.some.inj (hfinal0.symm.trans hfinal)
    exact replay_completed (hreplay.trans (congrArg _ he0)) hacc rfl rfl

/-- The steps after the completed ones extend a state that has them all. -/
theorem healthy_loopSteps {p : Params} {base : List QueryData} {m : Nat} {dir t : SamplingDir}
    (hd : Healthy base dir m m) (hm : m ≤ p.nSteps) (h : (loopSteps p m dir).result = .ok t) :
    Healthy base t p.nSteps.toNat p.nSteps.toNat := by
  unfold loopSteps at h
  split at h
  next =>
    have hloop := Traced.forEach_range'_result (f := loopStep p) (P := fun k s => ∃ j,
      k = j + 1 ∧ Healthy base s j j) (fun k s t hP hstep => ?_) (p.nSteps.toNat - m) (m + 1) dir t
      ⟨m, rfl, hd⟩ h
    · obtain ⟨j, hj, ht⟩ := hloop
      have hj : j = p.nSteps.toNat := by omega
      exact hj ▸ ht
    · obtain ⟨j, rfl, hs⟩ := hP
      exact ⟨j + 1, rfl, healthy_loopStep hs hstep⟩
  next =>
    have he : m = p.nSteps.toNat := by omega
    injection (show Except.ok dir = Except.ok t from h) with h
    exact he ▸ h ▸ hd

/-! ## A call, and sequences of calls -/

theorem topUp_of_ne {p : Params} (hp : p.strategy ≠ .bestOf) (m : Nat) (dir : SamplingDir) :
    topUp p m dir = .done dir := if_neg fun h => hp h.1

/-- A call that starts over in an empty directory. -/
theorem first_call_healthy {p : Params} {base : List QueryData} {t : SamplingDir}
    (hp : p.strategy ≠ .bestOf) (hr : p.resume = false) (hn : 0 ≤ p.nSteps)
    (h : (runSamplingSteps p (newDir base)).result = .ok t) :
    Healthy base t p.nSteps.toNat p.nSteps.toNat := by
  obtain ⟨s, hs, h⟩ := Traced.result_andThen.mp h
  obtain ⟨s', hs', h⟩ := Traced.result_andThen.mp h
  rw [topUp_of_ne hp] at h
  injection (show Except.ok s' = Except.ok t from h) with h
  subst h
  rw [startRun, if_pos hr] at hs
  injection (show Except.ok { newDir base with final := some base } = Except.ok s from hs) with hs
  subst hs
  have hmax : maxCompleted (newDir base) = 0 := (completed_newDir base).maxCompleted
  have hlimit : rebuildLimit p (maxCompleted (newDir base)) = 0 := by
    rw [rebuildLimit, hmax, if_pos hn, Nat.zero_min]
  rw [hlimit] at hs'
  refine healthy_loopSteps (m := 0) ⟨rfl, ?_, base, rfl, rfl⟩ hn hs'
  exact ⟨(completed_newDir base).evaluated, (completed_newDir base).sampled⟩

/-- **A resumed call keeps the state healthy**, if it rebuilds it or finds it complete. -/
theorem call_healthy {p : Params} {base : List QueryData} {m n : Nat} {dir t : SamplingDir}
    (hd : Healthy base dir m n) (hp : p.strategy ≠ .bestOf) (hr : p.resume = true)
    (hn : 0 ≤ p.nSteps) (hsafe : p.nSteps < m ∨ n = m)
    (h : (runSamplingSteps p dir).result = .ok t) :
    Healthy base t (max m p.nSteps.toNat) p.nSteps.toNat := by
  obtain ⟨s, hs, h⟩ := Traced.result_andThen.mp h
  obtain ⟨s', hs', h⟩ := Traced.result_andThen.mp h
  rw [topUp_of_ne hp] at h
  injection (show Except.ok s' = Except.ok t from h) with h
  subst h
  have hmax := hd.completed.maxCompleted
  obtain ⟨final, hfinal, hreplay⟩ := hd.final
  rw [startRun, if_neg (by rw [hr]; decide), hmax, hfinal] at hs
  rw [rebuildLimit, if_pos hn, hmax] at hs'
  by_cases hlt : p.nSteps < m
  · -- fewer steps than are completed: rebuilt, and no step is left
    rw [if_pos (Or.inr hlt), rebuildLimit, if_pos hn, Nat.min_eq_right (by omega)] at hs
    obtain ⟨final', rfl, hreplay'⟩ := rebuild_result hs
    rw [Nat.min_eq_right (by omega), loopSteps, if_neg (by omega)] at hs'
    injection (show Except.ok _ = Except.ok s' from hs') with hs'
    subst hs'
    rw [Nat.max_eq_left (by omega)]
    refine ⟨hd.base, ⟨hd.completed.evaluated, hd.completed.sampled⟩, final', rfl, ?_⟩
    exact (replay_congr rfl fun _ _ => rfl).trans hreplay'
  · -- the state is left alone, which is right when it has all completed steps
    have hnm := hsafe.resolve_left hlt
    subst hnm
    rw [if_neg fun hc => hc.elim (by simp) hlt] at hs
    injection (show Except.ok dir = Except.ok s from hs) with hs
    subst hs
    rw [Nat.min_eq_left (by omega)] at hs'
    rw [Nat.max_eq_right (by omega)]
    exact healthy_loopSteps hd (by omega) hs'

/-- The calls on one directory, each running to completion. -/
def runCalls (calls : List Params) (dir : SamplingDir) : Except Fault SamplingDir :=
  calls.foldlM (fun dir p => (runSamplingSteps p dir).result) dir

/-- Every call asks for fewer steps than the most that were asked for before, or follows a call
that asked for that many. -/
def NeverResumesShort (most last : Nat) : List Params → Prop
  | [] => True
  | p :: ps => (p.nSteps < most ∨ last = most) ∧
      NeverResumesShort (max most p.nSteps.toNat) p.nSteps.toNat ps

/-- The number of steps the last call asked for. -/
def lastSteps (first : Params) (later : List Params) : Nat :=
  ((first :: later).getLast (List.cons_ne_nil first later)).nSteps.toNat

theorem calls_healthy {base : List QueryData} : ∀ {later : List Params} {p : Params} {most : Nat}
    {dir t : SamplingDir}, Healthy base dir most p.nSteps.toNat →
      (∀ p ∈ later, p.resume = true ∧ 0 ≤ p.nSteps ∧ p.strategy ≠ .bestOf) →
      NeverResumesShort most p.nSteps.toNat later → runCalls later dir = .ok t →
      ∃ m, Healthy base t m (lastSteps p later)
  | [], p, most, dir, t, hd, _, _, h => by
    injection (show Except.ok dir = Except.ok t from h) with h
    exact ⟨most, h ▸ hd⟩
  | q :: later, p, most, dir, t, hd, hlater, hsafe, h => by
    rw [runCalls, List.foldlM_cons] at h
    obtain ⟨s, hs, h⟩ := Except.bind_eq_ok.mp h
    have hrest := fun r hr => hlater r (List.mem_cons_of_mem q hr)
    obtain ⟨hresume, hsteps, hstrategy⟩ := hlater q (List.mem_cons_self ..)
    have hq := call_healthy hd hstrategy hresume hsteps hsafe.1 hs
    obtain ⟨m, ht⟩ := calls_healthy hq hrest hsafe.2 h
    exact ⟨m, by rwa [lastSteps, List.getLast_cons (List.cons_ne_nil _ _)]⟩

/-- **After every call the accumulated state is that of the steps it asked for**, if no call resumes
a state that was left short. -/
theorem resume_replays (base : List QueryData) (first : Params) (later : List Params)
    (hfirst : first.resume = false) (hlater : ∀ p ∈ later, p.resume = true)
    (hsteps : ∀ p ∈ first :: later, 0 ≤ p.nSteps)
    (hstrategy : ∀ p ∈ first :: later, p.strategy ≠ .bestOf)
    (hsafe : NeverResumesShort first.nSteps.toNat first.nSteps.toNat later) (dir : SamplingDir)
    (h : runCalls (first :: later) (newDir base) = .ok dir) :
    ∃ final, dir.final = some final ∧ replay dir (lastSteps first later) = .ok final := by
  rw [runCalls, List.foldlM_cons] at h
  obtain ⟨s, hs, h⟩ := Except.bind_eq_ok.mp h
  have hhealthy := first_call_healthy (hstrategy first (List.mem_cons_self ..)) hfirst
    (hsteps first (List.mem_cons_self ..)) hs
  obtain ⟨m, hd⟩ := calls_healthy hhealthy (fun p hp => ⟨hlater p hp,
    hsteps p (List.mem_cons_of_mem _ hp), hstrategy p (List.mem_cons_of_mem _ hp)⟩) hsafe h
  exact hd.final

/-! ## Calls on one query -/

/-- One sample for each step; the model answers with a patch, and the engine accepts it. -/
def scanCall (nSteps : Int) (resume : Bool) : Params where
  strategy := .pstEvol
  nSteps := nSteps
  nSamplesPerStep := 1
  samplesPos := Nat.one_pos
  optimizationMetric := "execution_time"
  model := "gpt-5"
  resume := resume
  patch := replacePatch
  llm := fun _ _ _ _ _ => ⟨noResponse, none,
    some [.obj [("op", .str "replace"), ("path", .str "/0"), ("value", .int 7)]]⟩
  engine := fun _ => firstStep.engine

/-- The directory after some calls, the one before them if a call fails. -/
def dirAfter (calls : List Params) (dir : SamplingDir) : SamplingDir :=
  (runCalls calls dir).toOption.getD dir

/-- Growing from one step to two, shrinking back to one. -/
def growAndShrink : SamplingDir :=
  dirAfter [scanCall 1 false, scanCall 2 true, scanCall 1 true] (newDir scanStart)

/-- One step, none, and one again. -/
def shrinkAndGrow : SamplingDir :=
  dirAfter [scanCall 1 false, scanCall 0 true, scanCall 1 true] (newDir scanStart)

theorem resume_replays_scan : ∃ final, growAndShrink.final = some final ∧
    replay growAndShrink 1 = .ok final :=
  resume_replays scanStart (scanCall 1 false) [scanCall 2 true, scanCall 1 true] rfl
    (by simp [scanCall]) (by simp [scanCall]) (by simp [scanCall])
    (by simp [NeverResumesShort, scanCall]) growAndShrink (by decide +kernel)

/-- **After the last call, for one step, the accumulated state is still that of no step.** -/
theorem resume_keeps_short_state :
    runCalls [scanCall 1 false, scanCall 0 true, scanCall 1 true] (newDir scanStart) =
        .ok shrinkAndGrow ∧
      shrinkAndGrow.final = some scanStart ∧ replay shrinkAndGrow 1 ≠ .ok scanStart := by
  decide +kernel

end DbPlanBench.Sampling
