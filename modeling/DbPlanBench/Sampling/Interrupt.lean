import DbPlanBench.Sampling.Counts
import DbPlanBench.Sampling.Resume

/-!
# Stopping and resuming

A run of `run_sampling_steps` that is stopped between two of its writes is resumed
by a call with the same arguments. What is left to do is read off the files: the
accumulated state, and which steps have an evaluated file. After any write but that
of an evaluated file the resumed call ends in the directory the run would have ended
in (`resume_after_stop`). After that of an evaluated file the step counts as
completed though its samples are not merged (`stop_before_merge_loses_step`).

* `Session` — the directories that calls lead to, stopped or not.
* `session_inv` — what is there of them before the first step is completed.
* `stop_result` — one stop, `resume_after_stop` — any number of them.
-/

namespace DbPlanBench.Sampling

/-- The call for `nSteps` steps, resumed or not. -/
def Params.call (p : Params) (nSteps : Int) (resume : Bool) : Params := { p with nSteps, resume }

/-- The directories that calls with the arguments `p` lead to, for any numbers of steps, each call
completed or stopped after one of its writes. Only the first starts over, in a new directory. -/
inductive Session (p : Params) (base : List QueryData) : SamplingDir → Prop where
  | new : Session p base (newDir base)
  | completed {dir t : SamplingDir} {nSteps : Int} {resume : Bool} (h : Session p base dir)
      (hresume : resume = true ∨ dir = newDir base)
      (hrun : (runSamplingSteps (p.call nSteps resume) dir).result = .ok t) : Session p base t
  | stopped {dir s : SamplingDir} {nSteps : Int} {resume : Bool} {w : Write}
      (h : Session p base dir) (hresume : resume = true ∨ dir = newDir base)
      (hstop : (w, s) ∈ (runSamplingSteps (p.call nSteps resume) dir).writes) : Session p base s

/-- A stop between two writes, the first not that of an evaluated file: the next write after that
is the merge. -/
def SafeStop (r : Run) (s : SamplingDir) : Prop :=
  ∃ w, (w, s) ∈ r.writes.dropLast ∧ ∀ k, w ≠ .evaluated k

/-- The run `r` is stopped, and so are any number of calls `p` that resume it. -/
inductive Interrupted (p : Params) (r : Run) : SamplingDir → Prop where
  | stop {s : SamplingDir} (hstop : SafeStop r s) : Interrupted p r s
  | again {s s' : SamplingDir} (h : Interrupted p r s)
      (hstop : SafeStop (runSamplingSteps p s) s') : Interrupted p r s'

/-! ## The completed steps -/

theorem maxCompleted_set {dir dir' : SamplingDir} {k : Nat} {evaluated : List SampledQuery}
    (hk : maxCompleted dir < k) (h : dir'.evaluated = OrdDict.set dir.evaluated k evaluated) :
    maxCompleted dir' = k := by
  have hmem : k ∉ OrdDict.keys dir.evaluated := fun hmem =>
    absurd ((le_foldl_max (OrdDict.keys dir.evaluated) 0).2 k hmem) (Nat.not_le_of_lt hk)
  rw [maxCompleted, h, OrdDict.set_of_not_mem _ hmem, OrdDict.keys_append, List.foldl_append]
  exact Nat.max_eq_right (Nat.le_of_lt hk)

theorem not_mem_of_maxCompleted_lt {dir : SamplingDir} {k : Nat} (hk : maxCompleted dir < k) :
    k ∉ OrdDict.keys dir.evaluated := fun hmem =>
  absurd ((le_foldl_max (OrdDict.keys dir.evaluated) 0).2 k hmem) (Nat.not_le_of_lt hk)

/-- A step is completed, and the accumulated state is there. -/
def Started (dir : SamplingDir) : Prop :=
  (∃ k ∈ OrdDict.keys dir.evaluated, 0 < k) ∧ dir.final ≠ none

theorem Started.maxCompleted_pos {dir : SamplingDir} (h : Started dir) : 0 < maxCompleted dir := by
  obtain ⟨⟨k, hk, hpos⟩, _⟩ := h
  exact Nat.lt_of_lt_of_le hpos ((le_foldl_max (OrdDict.keys dir.evaluated) 0).2 k hk)

/-- Nothing is completed: only the dataset is there, or also the accumulated state, which is the
dataset, or also the samples of the first step. -/
inductive Fresh (p : Params) (base : List QueryData) : SamplingDir → Prop where
  | new : Fresh p base (newDir base)
  | reset : Fresh p base { newDir base with final := some base }
  | sampled {sampled : List SampledQuery}
      (h : samplePlansFromFile p.patch
          (selectStrategy p.strategy 1 p.nSamplesPerStep p.optimizationMetric).1 p.model
          (answersOf p 1 (selectStrategy p.strategy 1 p.nSamplesPerStep p.optimizationMetric).2)
          base = .ok sampled) :
      Fresh p base { newDir base with final := some base, sampled := [(1, sampled)] }

section

variable {p : Params} {base : List QueryData} {dir s t : SamplingDir} {k nSamples : Nat}
  {strategy : SamplingStrategy}

theorem Fresh.maxCompleted (h : Fresh p base dir) : maxCompleted dir = 0 := by
  cases h <;> rfl

theorem Fresh.rebuildLimit {q : Params} (h : Fresh p base dir) :
    rebuildLimit q (Sampling.maxCompleted dir) = 0 := by
  rw [Sampling.rebuildLimit, h.maxCompleted]
  split
  next => exact Nat.zero_min _
  next => rfl

theorem Fresh.final_eq {final : List QueryData} (h : Fresh p base dir)
    (hfinal : dir.final = some final) : final = base := by
  cases h with
  | new => exact absurd hfinal (by simp [newDir])
  | reset => exact (Option.some.inj hfinal).symm
  | sampled _ => exact (Option.some.inj hfinal).symm

/-- The stored samples are those of the dataset. -/
theorem Fresh.stored {sampled : List SampledQuery} (h : Fresh p base dir)
    (hget : OrdDict.get? dir.sampled 1 = some sampled) :
    samplePlansFromFile p.patch
      (selectStrategy p.strategy 1 p.nSamplesPerStep p.optimizationMetric).1 p.model
      (answersOf p 1 (selectStrategy p.strategy 1 p.nSamplesPerStep p.optimizationMetric).2)
      base = .ok sampled := by
  cases h with
  | new => exact absurd hget (by simp [newDir])
  | reset => exact absurd hget (by simp [newDir])
  | sampled h =>
    injection (show some _ = some sampled from hget) with hget
    exact hget ▸ h

theorem Fresh.resetFinal (h : Fresh p base dir) :
    Fresh p base { dir with final := some dir.base } := by
  cases h with
  | new => exact .reset
  | reset => exact .reset
  | sampled h => exact .sampled h

/-! ## What calls keep -/

theorem mergeFile_all {w : Write} (h : ∃ j ∈ OrdDict.keys dir.evaluated, 0 < j) :
    (mergeFile w k dir).All Started := by
  unfold mergeFile
  split
  next =>
    split
    next => exact .write ⟨h, by simp⟩
    next => exact .fail _
  next => exact .fail _

theorem rebuild_all (limit : Nat) (h : ∃ j ∈ OrdDict.keys dir.evaluated, 0 < j) :
    (rebuild limit dir).All Started := by
  have hreset : (resetFinal dir).All Started := .write ⟨h, by simp⟩
  refine hreset.andThen fun s hs => .forEach (fun j _ s hs => ?_) (hreset.result s hs)
  unfold rebuildStep
  split
  next => exact .fail _
  next => exact mergeFile_all hs.1

/-- The rest of a step once it has samples. -/
theorem evaluateFile_merge_all (hk : 0 < k) :
    ((evaluateFile p k dir).andThen (mergeFile (.merged k) k)).All fun t =>
      Started t ∨ t.final = dir.final ∧ ∃ j ∈ OrdDict.keys t.evaluated, 0 < j := by
  have hevaluate : (evaluateFile p k dir).All fun t =>
      t.final = dir.final ∧ ∃ j ∈ OrdDict.keys t.evaluated, 0 < j := by
    unfold evaluateFile
    split
    next hc => exact .done ⟨rfl, k, hc.2, hk⟩
    next =>
      split
      next => exact .fail _
      next => exact .write ⟨rfl, k, OrdDict.mem_keys_set.mpr (Or.inl rfl), hk⟩
  refine (hevaluate.mono fun t ht => Or.inr ht).andThen fun s hs => ?_
  exact (mergeFile_all (hevaluate.result s hs).2).mono fun t ht => Or.inl ht

/-- A step keeps a started directory started. -/
theorem runSamplingStep_all (hk : 0 < k) (h : Started dir) :
    (runSamplingStep p k nSamples strategy dir).All Started := by
  have hsample : (sampleFile p k nSamples strategy dir).All Started := by
    unfold sampleFile
    split
    next => exact .done h
    next =>
      split
      next => exact .fail _
      next =>
        split
        next => exact .write h
        next => exact .fail _
  refine hsample.andThen fun s hs => (evaluateFile_merge_all hk).mono fun t ht => ?_
  rcases ht with ht | ⟨hfinal, hcompleted⟩
  · exact ht
  · exact ⟨hcompleted, hfinal ▸ (hsample.result s hs).2⟩

/-- The first step in a fresh directory whose accumulated state is there. -/
theorem loopStep_fresh_all (h : Fresh p base dir) (hfinal : dir.final ≠ none) :
    (loopStep p 1 dir).All fun t => Fresh p base t ∨ Started t := by
  -- up to the evaluation nothing but the sample file changes, so the directory stays fresh
  have hsample : (sampleFile p 1 (selectStrategy p.strategy 1 p.nSamplesPerStep
      p.optimizationMetric).2 (selectStrategy p.strategy 1 p.nSamplesPerStep
      p.optimizationMetric).1 dir).All fun t => Fresh p base t ∧ t.final ≠ none := by
    unfold sampleFile
    split
    next => exact .done ⟨h, hfinal⟩
    next =>
      cases h with
      | new => exact .fail _
      | reset =>
        simp only
        split
        next hsampled => exact .write ⟨.sampled hsampled, by simp⟩
        next => exact .fail _
      | sampled _ =>
        simp only
        split
        next hsampled => exact .write ⟨.sampled hsampled, by simp⟩
        next => exact .fail _
  refine (hsample.mono fun t ht => Or.inl ht.1).andThen fun s hs => ?_
  refine (evaluateFile_merge_all Nat.one_pos).mono fun t ht => Or.inr ?_
  -- after the evaluation the step is on record, merged or not
  rcases ht with ht | ⟨ht, hcompleted⟩
  · exact ht
  · exact ⟨hcompleted, ht ▸ (hsample.result s hs).2⟩

theorem startRun_all (h : Started dir) : (startRun p dir).All Started := by
  unfold startRun
  split
  next => exact .write ⟨h.1, by simp⟩
  next =>
    split
    next => exact rebuild_all _ h.1
    next => exact .done h

theorem startRun_fresh_all (h : Fresh p base dir) :
    (startRun p dir).All fun t => Fresh p base t ∧ t.final ≠ none := by
  have hreset : (resetFinal dir).All fun t => Fresh p base t ∧ t.final ≠ none :=
    .write ⟨h.resetFinal, by simp⟩
  unfold startRun
  split
  next => exact hreset
  next =>
    split
    next =>
      rw [h.rebuildLimit]
      exact hreset.andThen fun s hs => .done (hreset.result s hs)
    next hc => exact .done ⟨h, fun hf => hc (Or.inl hf)⟩

theorem loopSteps_all (limit : Nat) (h : Started dir) : (loopSteps p limit dir).All Started := by
  unfold loopSteps
  split
  next =>
    refine .forEach (fun k hk s hs => runSamplingStep_all ?_ hs) h
    obtain ⟨i, _, rfl⟩ := List.mem_range'.mp hk
    omega
  next => exact .done h

theorem topUp_all (m : Nat) (h : Started dir) : (topUp p m dir).All Started := by
  unfold topUp
  split
  next =>
    split
    next =>
      split
      next =>
        refine runSamplingStep_all ?_ h
        split <;> omega
      next => exact .done h
    next => exact .done h
  next => exact .done h

/-- The loop of a fresh directory, and what follows it. -/
theorem loopSteps_topUp_fresh_all (h : Fresh p base dir) (hfinal : dir.final ≠ none) (m : Nat) :
    ((loopSteps p 0 dir).andThen (topUp p m)).All fun t => Fresh p base t ∨ Started t := by
  by_cases hn : 0 < p.nSteps
  · obtain ⟨n, hsteps⟩ : ∃ n, p.nSteps.toNat - 0 = n + 1 := ⟨p.nSteps.toNat - 1, by omega⟩
    -- only step 1 meets a fresh directory; it leaves a started one
    have hfirst := loopStep_fresh_all h hfinal
    have hstarted : ∀ s, (loopStep p 1 dir).result = .ok s → Started s := by
      intro s hs
      obtain ⟨_, _, _, _, _, _, _, _, rfl, _⟩ :=
        runSamplingStep_result (not_mem_of_maxCompleted_lt (h.maxCompleted ▸ Nat.one_pos)) hs
      exact ⟨⟨1, OrdDict.mem_keys_set.mpr (Or.inl rfl), Nat.one_pos⟩, by simp⟩
    rw [loopSteps, if_pos ⟨hn, hn⟩, hsteps, List.range'_succ]
    -- the later steps keep it started
    have hrest : ∀ s, (loopStep p 1 dir).result = .ok s →
        (Traced.forEach (loopStep p) (List.range' (0 + 1 + 1) n) s).All Started := by
      refine fun s hs => .forEach (fun k hk s hs => runSamplingStep_all ?_ hs) (hstarted s hs)
      obtain ⟨i, _, rfl⟩ := List.mem_range'.mp hk
      omega
    refine (hfirst.andThen fun s hs => (hrest s hs).mono fun t ht => Or.inr ht).andThen
      fun s hs => ?_
    obtain ⟨s', hs', hs⟩ := Traced.result_andThen.mp hs
    exact (topUp_all m ((hrest s' hs').result s hs)).mono fun t ht => Or.inr ht
  · -- no step at all: the top-up needs `n_steps = 1`, so nothing is written
    have htop : topUp p m dir = .done dir := if_neg fun hc => hn (by omega)
    rw [loopSteps, if_neg fun hc => hn hc.1, Traced.done_andThen, htop]
    exact .done (Or.inl h)

/-- **A call keeps its directory fresh or starts it.** -/
theorem runSamplingSteps_all (h : Fresh p base dir ∨ Started dir) :
    (runSamplingSteps p dir).All fun t => Fresh p base t ∨ Started t := by
  rcases h with h | h
  · have hstart := startRun_fresh_all h
    refine (hstart.mono fun t ht => Or.inl ht.1).andThen fun s hs => ?_
    obtain ⟨hfresh, hfinal⟩ := hstart.result s hs
    rw [h.rebuildLimit]
    exact loopSteps_topUp_fresh_all hfresh hfinal _
  · refine ((startRun_all h).andThen fun s hs => ?_).mono fun t ht => Or.inr ht
    have hs := (startRun_all h).result s hs
    exact (loopSteps_all _ hs).andThen fun s' hs' => topUp_all _ ((loopSteps_all _ hs).result s' hs')

theorem fresh_call {nSteps : Int} {resume : Bool} :
    Fresh (p.call nSteps resume) base dir ↔ Fresh p base dir := by
  constructor
  · intro h
    rcases h with _ | _ | h
    · exact .new
    · exact .reset
    · exact .sampled h
  · intro h
    rcases h with _ | _ | h
    · exact .new
    · exact .reset
    · exact .sampled h

theorem call_all (nSteps : Int) (resume : Bool) (h : Fresh p base dir ∨ Started dir) :
    (runSamplingSteps (p.call nSteps resume) dir).All fun t => Fresh p base t ∨ Started t :=
  (runSamplingSteps_all (h.imp_left fresh_call.mpr)).mono fun _ ht => ht.imp_left fresh_call.mp

/-- **Every directory of a session is fresh or started**, by induction on the calls. -/
theorem session_inv (h : Session p base dir) : Fresh p base dir ∨ Started dir := by
  induction h with
  | new => exact Or.inl .new
  | completed _ _ hrun ih => exact (call_all _ _ ih).result _ hrun
  | stopped _ _ hstop ih => exact (call_all _ _ ih).writes _ hstop

end

/-! ## What `best_of` is short of -/

section

variable {p : Params} {curated : CuratedDataset} {name : String} {dir s t : SamplingDir}
  {k nSamples : Nat} {strategy : SamplingStrategy} {w : Write}

/-- The first step of a fresh directory merges into the dataset, with stored samples or new. -/
theorem loopStep_fresh_result {base : List QueryData} (h : Fresh p base dir)
    (ht : (loopStep p 1 dir).result = .ok t) : ∃ sampled final,
      samplePlansFromFile p.patch
        (selectStrategy p.strategy 1 p.nSamplesPerStep p.optimizationMetric).1 p.model
        (answersOf p 1 (selectStrategy p.strategy 1 p.nSamplesPerStep p.optimizationMetric).2)
        base = .ok sampled ∧
      accumulateSamples (evaluateSampledPlans p.patch (p.engine 1) sampled) base = .ok final ∧
      t.final = some final := by
  obtain ⟨s, sampled, final, final', hs, hget, hfinal, hacc, rfl, _⟩ :=
    runSamplingStep_result (not_mem_of_maxCompleted_lt (h.maxCompleted ▸ Nat.one_pos)) ht
  rcases sampleFile_result hs with ⟨_, _, rfl⟩ | ⟨base', new, hbase', hnew, rfl, _⟩
  · exact ⟨sampled, final', h.stored hget, h.final_eq hfinal ▸ hacc, rfl⟩
  · rw [OrdDict.get?_set_self] at hget
    injection hget with hget
    subst hget
    exact ⟨new, final', h.final_eq hbase' ▸ hnew, h.final_eq hfinal ▸ hacc, rfl⟩

/-- After the first step `best_of` has all the samples it was asked for. -/
theorem topUp_of_fresh (h : Fresh p (prepareSampling curated name) dir) (hn : 0 < p.nSteps)
    (ht : (loopSteps p 0 dir).result = .ok t) (m : Nat) : topUp p m t = .done t := by
  unfold topUp
  split
  next hc =>
    obtain ⟨hstrategy, _, hone⟩ := hc
    rw [loopSteps, if_pos ⟨hn, hn⟩, hone] at ht
    obtain ⟨s, hs, ht⟩ := Traced.result_andThen.mp ht
    injection (show Except.ok s = Except.ok t from ht) with ht
    subst ht
    obtain ⟨sampled, final, hsampled, hacc, hfinal⟩ := loopStep_fresh_result h hs
    rw [hstrategy] at hsampled
    -- every query starts with the original alone, and step 1 gives each of them all it lacks
    have hprepare := hasEach_prepare curated name
    have hgives := givesEach_sample (length_answersOf p 1 _) hsampled
    rw [hprepare.ids] at hgives
    have heach := hasEach_accumulate curated.distinct hprepare (givesEach_evaluate hgives) hacc
    rw [hfinal]
    split
    next q rest hq =>
      injection hq with hq
      subst hq
      rw [if_neg]
      -- the missing number is the requested one minus itself
      rw [heach.count q (List.mem_cons_self ..), Nat.zero_add]
      exact Nat.lt_irrefl _
    next => rfl
  next => rfl

/-! ## One stop -/

/-- Rebuilding changes the accumulated state only. -/
theorem rebuild_final (limit : Nat) (dir : SamplingDir) :
    (rebuild limit dir).All fun s => ∃ final, s = { dir with final := some final } := by
  have hreset : (resetFinal dir).All fun s => ∃ final, s = { dir with final := some final } :=
    .write ⟨dir.base, rfl⟩
  refine hreset.andThen fun s hs => .forEach (fun j _ s hs => ?_) (hreset.result s hs)
  unfold rebuildStep mergeFile
  obtain ⟨final, rfl⟩ := hs
  split
  next => exact .fail _
  next =>
    split
    next =>
      split
      next => exact .write ⟨_, rfl⟩
      next => exact .fail _
    next => exact .fail _

theorem startRun_final (dir : SamplingDir) :
    (startRun p dir).All fun s => ∃ final, s = { dir with final := some final } := by
  unfold startRun
  split
  next => exact .write ⟨dir.base, rfl⟩
  next =>
    split
    next => exact rebuild_final _ dir
    next hc =>
      obtain ⟨final, hfinal⟩ := Option.ne_none_iff_exists'.mp fun hf => hc (Or.inl hf)
      exact .done ⟨final, by rw [← hfinal]⟩

/-- A complete accumulated state is left alone. -/
theorem startRun_done (hr : p.resume = true) (hfinal : dir.final ≠ none)
    (hm : (maxCompleted dir : Int) ≤ p.nSteps) : startRun p dir = .done dir := by
  rw [startRun, if_neg (by rw [hr]; decide), if_neg]
  exact fun hc => hc.elim hfinal fun hlt => absurd hm (by omega)

/-- A state with more steps is rebuilt, whatever it is. -/
theorem startRun_rebuild (hr : p.resume = true) (hlt : p.nSteps < maxCompleted dir) :
    startRun p dir = rebuild (rebuildLimit p (maxCompleted dir)) dir := by
  rw [startRun, if_neg (by rw [hr]; decide), if_pos (Or.inr hlt)]

/-- After a stop before the first step the resumed call starts as the run did. -/
theorem startRun_stop (hr : p.resume = true) (hdir : dir.final = none → maxCompleted dir = 0)
    (h : (startRun p dir).result = .ok t) (hs : (w, s) ∈ (startRun p dir).writes) :
    maxCompleted s = maxCompleted dir ∧ (startRun p s).result = .ok t := by
  obtain ⟨final, hfinal⟩ := (startRun_final dir).writes _ hs
  have hfinal : s = { dir with final := some final } := hfinal
  subst hfinal
  refine ⟨rfl, ?_⟩
  have hmax : maxCompleted { dir with final := some final } = maxCompleted dir := rfl
  -- the start writes the accumulated state and nothing else; whether the resumed call writes it
  -- again depends on how many steps are on record
  by_cases hlt : p.nSteps < maxCompleted dir
  · have hagain : startRun p { dir with final := some final } =
        rebuild (rebuildLimit p (maxCompleted dir)) dir := startRun_rebuild hr hlt
    rwa [hagain, ← startRun_rebuild hr hlt]
  · rw [startRun_done hr (by simp) (by rw [hmax]; omega)]
    rw [startRun, if_neg (by rw [hr]; decide)] at h hs
    split at h
    next hc =>
      -- the state was missing: then no step was complete and the rebuild stops at the base
      have hnone := hc.resolve_right hlt
      have hlimit : rebuildLimit p (maxCompleted dir) = 0 := by
        rw [rebuildLimit, hdir hnone, if_pos (by rw [hdir hnone] at hlt; omega), Nat.zero_min]
      rw [if_pos hc, hlimit] at hs
      rw [hlimit] at h
      injection (show Except.ok { dir with final := some dir.base } = Except.ok t from h) with h
      have hmem : (w, { dir with final := some final }) ∈
          [(Write.rebuilt 0, { dir with final := some dir.base })] := hs
      exact congrArg Except.ok ((Prod.mk.inj (List.mem_singleton.mp hmem)).2.trans h)
    next hc =>
      rw [if_neg hc] at hs
      exact absurd hs List.not_mem_nil

/-- A stop within a step is a stop after its samples are stored, before their evaluation, or after
the merge. -/
theorem runSamplingStep_stop (hr : p.resume = true) (hk : k ∉ OrdDict.keys dir.evaluated)
    (h : (runSamplingStep p k nSamples strategy dir).result = .ok t)
    (hs : (w, s) ∈ (runSamplingStep p k nSamples strategy dir).writes) (hw : w ≠ .evaluated k) :
    (w, s) = (.merged k, t) ∨ (∃ sampled, s = { dir with sampled := sampled }) ∧
      (runSamplingStep p k nSamples strategy s).result = .ok t := by
  obtain ⟨s', _, _, _, hs', _, _, _, _, hwrites⟩ := runSamplingStep_result hk h
  rw [hwrites] at hs
  -- the writes of a step: the samples, if they were not there, then the evaluation and the merge
  rcases List.mem_append.mp hs with hs | hs
  · right
    rcases sampleFile_result hs' with ⟨hres, hmem, _⟩ | ⟨_, new, _, _, hnew, hwrite⟩
    · rw [sampleFile_of_stored hres hmem] at hs
      exact absurd hs List.not_mem_nil
    · rw [hwrite] at hs
      have he : s = s' := (Prod.mk.inj (List.mem_singleton.mp hs)).2
      subst he
      have hmem : k ∈ OrdDict.keys s.sampled := by
        rw [hnew]
        exact OrdDict.mem_keys_set.mpr (Or.inl rfl)
      refine ⟨⟨_, hnew⟩, ?_⟩
      rw [runSamplingStep, sampleFile_of_stored hr hmem, Traced.done_andThen]
      rwa [runSamplingStep, Traced.result_andThen_of_ok hs'] at h
  · rcases List.mem_cons.mp hs with hs | hs
    · exact absurd (Prod.mk.inj hs).1 hw
    · exact Or.inl (List.mem_singleton.mp hs)

theorem loopSteps_succ {m : Nat} (hm : (m : Int) < p.nSteps) :
    loopSteps p m dir = (loopStep p (m + 1) dir).andThen (loopSteps p (m + 1)) := by
  obtain ⟨n, hn⟩ : ∃ n, p.nSteps.toNat - m = n + 1 := ⟨p.nSteps.toNat - m - 1, by omega⟩
  rw [loopSteps, if_pos ⟨by omega, hm⟩, hn, List.range'_succ]
  refine Traced.andThen_congr fun t _ => ?_
  rw [loopSteps]
  split
  next =>
    rw [show p.nSteps.toNat - (m + 1) = n by omega]
  next =>
    rw [show n = 0 by omega]
    rfl

theorem rebuildLimit_of_le {m : Nat} (hm : (m : Int) ≤ p.nSteps) : rebuildLimit p m = m := by
  rw [rebuildLimit, if_pos (by omega), Nat.min_eq_left (by omega)]

theorem loopSteps_rebuildLimit {m : Nat} (hm : p.nSteps ≤ m) :
    loopSteps p (rebuildLimit p m) dir = .done dir := by
  refine if_neg fun hc => ?_
  rw [rebuildLimit, if_pos (by omega), Nat.min_eq_right (by omega)] at hc
  omega

theorem loopSteps_of_le {m : Nat} (hm : p.nSteps ≤ m) : loopSteps p m dir = .done dir :=
  if_neg fun hc => absurd hc.2 (by omega)

/-- What a step of the loop leaves. -/
theorem loopStep_result (hk : maxCompleted dir < k) (h : (loopStep p k dir).result = .ok t) :
    maxCompleted t = k ∧ t.final ≠ none := by
  obtain ⟨s, _, _, _, hs, _, _, _, rfl, _⟩ :=
    runSamplingStep_result (not_mem_of_maxCompleted_lt hk) h
  have hmax : maxCompleted s = maxCompleted dir := by
    rcases sampleFile_result hs with ⟨_, _, rfl⟩ | ⟨_, _, _, _, rfl, _⟩
    · rfl
    · rfl
  exact ⟨maxCompleted_set (hmax ▸ hk) rfl, by simp⟩

/-- **After a stop in the loop the rest of it leads where the whole did.** -/
theorem loopSteps_stop (hr : p.resume = true) {m : Nat} (hm : maxCompleted dir = m)
    (hfinal : dir.final ≠ none) (h : (loopSteps p m dir).result = .ok t)
    (hs : (w, s) ∈ (loopSteps p m dir).writes) (hw : ∀ j, w ≠ .evaluated j) :
    s.final ≠ none ∧ (maxCompleted s : Int) ≤ p.nSteps ∧
      (loopSteps p (maxCompleted s) s).result = .ok t := by
  -- by induction on the number of steps that are left
  induction hn : p.nSteps.toNat - m generalizing m dir with
  | zero =>
    rw [loopSteps_of_le (by omega)] at hs
    exact absurd hs List.not_mem_nil
  | succ n ih =>
    have hlt : (m : Int) < p.nSteps := by omega
    rw [loopSteps_succ hlt] at h hs
    obtain ⟨s1, hs1, h⟩ := Traced.result_andThen.mp h
    obtain ⟨hmax1, hfinal1⟩ := loopStep_result (hm ▸ Nat.lt_succ_self m) hs1
    rcases Traced.mem_writes_andThen.mp hs with hs | ⟨s1', hs1', hs⟩
    · have hk : m + 1 ∉ OrdDict.keys dir.evaluated :=
        not_mem_of_maxCompleted_lt (hm ▸ Nat.lt_succ_self m)
      rcases runSamplingStep_stop hr hk hs1 hs (hw _) with he | ⟨⟨sampled, rfl⟩, hstep⟩
      · obtain ⟨_, rfl⟩ := Prod.mk.inj he
        exact ⟨hfinal1, by omega, hmax1.symm ▸ h⟩
      · have hmax : maxCompleted { dir with sampled := sampled } = m := hm
        refine ⟨hfinal, by omega, ?_⟩
        rw [hmax, loopSteps_succ hlt]
        exact Traced.result_andThen.mpr ⟨s1, hstep, h⟩
    · injection hs1.symm.trans hs1' with he
      subst he
      exact ih hmax1 hfinal1 h hs (by omega)

/-- Rebuilding does not read the samples of a step before their evaluation. -/
theorem rebuild_sampled (limit : Nat) (sampled : List (Nat × List SampledQuery))
    (h : (rebuild limit dir).result = .ok t) :
    (rebuild limit { dir with sampled := sampled }).result = .ok { t with sampled := sampled } := by
  obtain ⟨s, hs, h⟩ := Traced.result_andThen.mp h
  injection (show Except.ok { dir with final := some dir.base } = Except.ok s from hs) with hs
  subst hs
  refine Traced.forEach_result_map (g := fun s => { s with sampled := sampled })
    (fun k s t hstep => ?_) (List.range' 1 limit) _ t h
  unfold rebuildStep at hstep ⊢
  split at hstep
  next => exact absurd hstep (by simp [Traced.fail])
  next hget =>
    obtain ⟨evaluated, final, final', hget, hfinal, hacc, rfl, _⟩ := mergeFile_result hstep
    simp only [hget, mergeFile, hfinal, hacc]
    rfl

/-- A call that starts with a stored sample starts as it did without. -/
theorem startRun_sampled (hr : p.resume = true) (sampled : List (Nat × List SampledQuery))
    (h : (startRun p dir).result = .ok t) :
    (startRun p { t with sampled := sampled }).result = .ok { t with sampled := sampled } := by
  obtain ⟨final, hfinal⟩ := (startRun_final dir).result t h
  have hmax : maxCompleted { t with sampled := sampled } = maxCompleted dir := by rw [hfinal]; rfl
  by_cases hlt : p.nSteps < maxCompleted dir
  · rw [startRun_rebuild hr hlt] at h
    rw [startRun_rebuild hr (by rw [hmax]; exact hlt), hmax]
    have hreset := rebuild_sampled _ sampled h
    subst hfinal
    exact hreset
  · rw [startRun_done hr (by rw [hfinal]; simp) (by rw [hmax]; omega)]
    rfl

/-- With a completed step `best_of` adds a step or nothing, which the accumulated state decides. -/
theorem topUp_cases {m : Nat} (hm : p.nSteps ≤ m) (dir : SamplingDir) : topUp p m dir = .done dir ∨
    p.nSteps = 1 ∧ ∃ extra, ∀ s, s.final = dir.final →
      topUp p m s = runSamplingStep p (m + 1) extra originalStrategy s := by
  by_cases hc : p.strategy = .bestOf ∧ p.resume = true ∧ p.nSteps = 1
  · cases hfinal : dir.final with
    | none => exact Or.inl (by simp [topUp, hfinal])
    | some queries =>
      cases queries with
      | nil => exact Or.inl (by simp [topUp, hfinal])
      | cons q rest =>
        by_cases hshort : currentSamples q < p.nSamplesPerStep
        · refine Or.inr ⟨hc.2.2, p.nSamplesPerStep - currentSamples q, fun s hs => ?_⟩
          rw [topUp, if_pos hc, hs]
          simp only [if_pos hshort, if_pos (show 1 ≤ m by omega)]
        · exact Or.inl (by simp [topUp, hfinal, hshort])
  · exact Or.inl (if_neg hc)

/-- The write before the last two of a step is that of its samples. -/
theorem runSamplingStep_stop_early (hr : p.resume = true) (hk : k ∉ OrdDict.keys dir.evaluated)
    (h : (runSamplingStep p k nSamples strategy dir).result = .ok t)
    (hs : (w, s) ∈ (runSamplingStep p k nSamples strategy dir).writes.dropLast)
    (hw : w ≠ .evaluated k) : (∃ sampled, s = { dir with sampled := sampled }) ∧
      (runSamplingStep p k nSamples strategy s).result = .ok t := by
  refine (runSamplingStep_stop hr hk h (List.dropLast_subset _ hs) hw).resolve_left fun he => ?_
  obtain ⟨s', _, _, _, hs', _, _, _, _, hwrites⟩ := runSamplingStep_result hk h
  rw [hwrites, List.dropLast_append_of_ne_nil (by simp)] at hs
  rcases List.mem_append.mp hs with hs | hs
  · rcases sampleFile_result hs' with ⟨hres, hmem, _⟩ | ⟨_, _, _, _, _, hwrite⟩
    · rw [sampleFile_of_stored hres hmem] at hs
      exact absurd hs List.not_mem_nil
    · rw [hwrite] at hs
      have he' := (Prod.mk.inj (he.symm.trans (List.mem_singleton.mp hs))).1
      exact absurd he' (by simp)
  · exact absurd (Prod.mk.inj (List.mem_singleton.mp hs)).1 hw

/-- **One stop**: the resumed call ends in the directory the run ends in. -/
theorem stop_result (hr : p.resume = true)
    (hdir : Fresh p (prepareSampling curated name) dir ∨ Started dir)
    (h : (runSamplingSteps p dir).result = .ok t) (hstop : SafeStop (runSamplingSteps p dir) s) :
    (runSamplingSteps p s).result = .ok t := by
  obtain ⟨w, hs, hw⟩ := hstop
  obtain ⟨d, hd, h⟩ := Traced.result_andThen.mp h
  obtain ⟨final, hfinal⟩ := (startRun_final dir).result d hd
  have hmax : maxCompleted d = maxCompleted dir := by rw [hfinal]; rfl
  have hsome : d.final ≠ none := by rw [hfinal]; simp
  rcases Traced.mem_dropLast_andThen hs with hs | ⟨d', hd', hs⟩
  · -- before the first step
    have hnone : dir.final = none → maxCompleted dir = 0 := fun hnone =>
      hdir.elim (fun hf => hf.maxCompleted) fun hs => absurd hnone hs.2
    obtain ⟨hmax', hstart⟩ := startRun_stop hr hnone hd hs
    rw [runSamplingSteps, Traced.result_andThen_of_ok hstart, hmax']
    exact h
  injection hd.symm.trans hd' with he
  subst he
  obtain ⟨e, he, h⟩ := Traced.result_andThen.mp h
  have hs : (w, s) ∈ (loopSteps p (rebuildLimit p (maxCompleted dir)) d).writes ∨
      (w, s) ∈ (topUp p (maxCompleted dir) e).writes.dropLast := by
    refine (Traced.mem_dropLast_andThen hs).imp_right fun ⟨e', he', hs⟩ => ?_
    injection he.symm.trans he' with he
    exact he ▸ hs
  -- with a step of the loop left the top-up does nothing, in a fresh directory and in a started
  -- one
  have hdone : (maxCompleted dir : Int) < p.nSteps → ∀ m, topUp p m e = .done e := by
    intro hlt m
    rcases hdir with hf | hs
    · rw [hf.rebuildLimit] at he
      exact topUp_of_fresh ((startRun_fresh_all hf).result d hd).1 (by omega) he m
    · have hpos := hs.maxCompleted_pos
      exact if_neg fun hc => by omega
  by_cases hlt : (maxCompleted dir : Int) < p.nSteps
  · rw [hdone hlt] at h hs
    rw [rebuildLimit_of_le (Int.le_of_lt hlt)] at he hs
    rcases hs with hs | hs
    · -- the stop is within the loop, so the resumed call does the rest of it
      obtain ⟨hfin, hle, hrest⟩ := loopSteps_stop hr hmax hsome he hs hw
      rw [runSamplingSteps, startRun_done hr hfin hle, Traced.done_andThen, rebuildLimit_of_le hle,
        Traced.result_andThen_of_ok hrest, hdone hlt]
      exact h
    · exact absurd hs List.not_mem_nil
  · -- no step of the loop is left
    have hle : p.nSteps ≤ maxCompleted dir := by omega
    rw [loopSteps_rebuildLimit hle] at he hs
    injection (show Except.ok d = Except.ok e from he) with he
    subst he
    have hs := hs.resolve_left List.not_mem_nil
    -- the stop can only be within the extra step of the top-up
    rcases topUp_cases hle d with hnone | ⟨_, extra, hextra⟩
    · rw [hnone] at hs
      exact absurd hs List.not_mem_nil
    · rw [hextra d rfl] at h hs
      have hk : maxCompleted dir + 1 ∉ OrdDict.keys d.evaluated :=
        not_mem_of_maxCompleted_lt (by omega)
      obtain ⟨⟨sampled, hsampled⟩, hstep⟩ := runSamplingStep_stop_early hr hk h hs (hw _)
      have hstart := startRun_sampled hr sampled hd
      rw [← hsampled] at hstart
      have hmax' : maxCompleted s = maxCompleted dir := by rw [hsampled]; exact hmax
      rw [runSamplingSteps, Traced.result_andThen_of_ok hstart, hmax', loopSteps_rebuildLimit hle,
        Traced.done_andThen, hextra s (by rw [hsampled])]
      exact hstep

/-! ## Any number of stops -/

/-- A step of which nothing is stored is run in the same way by a call that starts over. -/
theorem loopStep_call {nSteps : Int} (hsampled : k ∉ OrdDict.keys dir.sampled)
    (hevaluated : k ∉ OrdDict.keys dir.evaluated) :
    loopStep (p.call nSteps false) k dir = loopStep (p.call nSteps true) k dir := by
  let selected := selectStrategy p.strategy k p.nSamplesPerStep p.optimizationMetric
  have hsample : sampleFile (p.call nSteps false) k selected.2 selected.1 dir =
      sampleFile (p.call nSteps true) k selected.2 selected.1 dir := by
    rw [sampleFile, sampleFile, if_neg fun hc => hsampled hc.2, if_neg fun hc => hsampled hc.2]
    rfl
  show (sampleFile (p.call nSteps false) k selected.2 selected.1 dir).andThen _ =
    (sampleFile (p.call nSteps true) k selected.2 selected.1 dir).andThen _
  rw [hsample]
  refine Traced.andThen_congr fun t ht => ?_
  have hk : k ∉ OrdDict.keys t.evaluated := by
    rcases sampleFile_result ht with ⟨_, _, rfl⟩ | ⟨_, _, _, _, rfl, _⟩
    · exact hevaluated
    · exact hevaluated
  rw [evaluateFile, evaluateFile, if_neg fun hc => hk hc.2, if_neg fun hc => hk hc.2]
  rfl

/-- **In a new directory** it makes no difference whether the call starts over. -/
theorem runSamplingSteps_newDir (p : Params) (nSteps : Int) (curated : CuratedDataset)
    (name : String) :
    runSamplingSteps (p.call nSteps false) (newDir (prepareSampling curated name)) =
      runSamplingSteps (p.call nSteps true) (newDir (prepareSampling curated name)) := by
  let base := prepareSampling curated name
  have hmax : maxCompleted (newDir base) = 0 := rfl
  -- both calls start by writing the base as the accumulated state
  have hlimit : ∀ resume, rebuildLimit (p.call nSteps resume) 0 = 0 := fun resume => by
    rw [rebuildLimit]
    split
    next => exact Nat.zero_min _
    next => rfl
  have hstart : startRun (p.call nSteps true) (newDir base) = resetFinal (newDir base) := by
    rw [startRun, if_neg (by simp [Params.call]),
      if_pos (Or.inl (show (newDir base).final = none from rfl)),
      hmax, hlimit]
    exact Traced.andThen_done _
  have hnew := completed_newDir base
  -- `resume` only matters for files already there; before step `k` there are none for it
  have hloop : loopSteps (p.call nSteps false) 0 { newDir base with final := some base } =
      loopSteps (p.call nSteps true) 0 { newDir base with final := some base } := by
    unfold loopSteps
    refine if_congr Iff.rfl ?_ rfl
    refine Traced.forEach_range'_congr (P := fun k s => ∃ j, k = j + 1 ∧ Healthy base s j j)
      ?_ ?_ _ 1 _ ⟨0, rfl, rfl, ⟨hnew.evaluated, hnew.sampled⟩, base, rfl, rfl⟩
    · rintro k s t ⟨j, rfl, hs⟩ ht
      exact ⟨j + 1, rfl, healthy_loopStep hs ht⟩
    · rintro k s ⟨j, rfl, hs⟩
      exact loopStep_call (fun hm => absurd (hs.completed.sampled _ hm) (by omega))
        fun hm => absurd ((hs.completed.evaluated _).mp hm).2 (by omega)
  rw [runSamplingSteps, runSamplingSteps, hstart, hmax, hlimit, hlimit]
  show (resetFinal (newDir base)).andThen _ = _
  refine Traced.andThen_congr fun s hs => ?_
  injection (show Except.ok { newDir base with final := some base } = Except.ok s from hs) with hs
  subst hs
  rw [hloop]
  refine Traced.andThen_congr fun t ht => ?_
  -- the top-up of the resumed call finds nothing missing
  have htop : topUp (p.call nSteps true) 0 t = .done t := by
    by_cases hn : 0 < nSteps
    · exact topUp_of_fresh (fresh_call.mpr .reset) hn ht 0
    · exact if_neg fun hc => hn (by rw [show nSteps = 1 from hc.2.2]; decide)
  rw [htop]
  exact if_neg fun hc => absurd hc.2.1 (by simp [Params.call])

end

/-- **A run that is stopped, any number of times, ends where it would have ended**, for all
arguments and all directories of earlier calls, if no stop falls between the write of a step's
evaluated file and the merge. -/
theorem resume_after_stop (curated : CuratedDataset) (name : String) (p : Params) (nSteps : Int)
    (resume : Bool) (dir t s : SamplingDir)
    (hdir : Session p (prepareSampling curated name) dir)
    (hresume : resume = true ∨ dir = newDir (prepareSampling curated name))
    (hrun : (runSamplingSteps (p.call nSteps resume) dir).result = .ok t)
    (hstop : Interrupted (p.call nSteps true) (runSamplingSteps (p.call nSteps resume) dir) s) :
    (runSamplingSteps (p.call nSteps true) s).result = .ok t := by
  have hsame : runSamplingSteps (p.call nSteps resume) dir =
      runSamplingSteps (p.call nSteps true) dir := by
    cases resume with
    | true => rfl
    | false =>
      rw [hresume.resolve_left (by decide)]
      exact runSamplingSteps_newDir p nSteps curated name
  rw [hsame] at hrun hstop
  have hinv : ∀ {d}, Session p (prepareSampling curated name) d →
      Fresh (p.call nSteps true) (prepareSampling curated name) d ∨ Started d :=
    fun hd => (session_inv hd).imp_left fresh_call.mpr
  -- by induction on the stops, each of which leaves a directory of the session
  have hall : (runSamplingSteps (p.call nSteps true) s).result = .ok t ∧
      Session p (prepareSampling curated name) s := by
    induction hstop with
    | stop hstop =>
      obtain ⟨w, hw, _⟩ := id hstop
      exact ⟨stop_result rfl (hinv hdir) hrun hstop,
        .stopped hdir (Or.inl rfl) (List.dropLast_subset _ hw)⟩
    | again _ hstop ih =>
      obtain ⟨w, hw, _⟩ := id hstop
      exact ⟨stop_result rfl (hinv ih.2) ih.1 hstop,
        .stopped ih.2 (Or.inl rfl) (List.dropLast_subset _ hw)⟩
  exact hall.1

/-! ## Stops of a run on one query -/

/-- The directory after the given number of writes. -/
def stoppedAfter (n : Nat) (p : Params) (dir : SamplingDir) : SamplingDir :=
  (((runSamplingSteps p dir).writes[n - 1]?).map Prod.snd).getD dir

/-- Two steps, stopped after the merge of the first. -/
def firstStop : SamplingDir := stoppedAfter 4 (scanCall 2 false) (newDir scanStart)

/-- Then stopped again, after the samples of the second. -/
def secondStop : SamplingDir := stoppedAfter 1 (scanCall 2 true) firstStop

theorem resume_after_stop_scan : (runSamplingSteps (scanCall 2 true) secondStop).result =
    .ok (dirAfter [scanCall 2 false] (newDir scanStart)) :=
  resume_after_stop scanDataset "gpt-5" (scanCall 2 false) 2 false (newDir scanStart)
    (dirAfter [scanCall 2 false] (newDir scanStart)) secondStop .new (Or.inr rfl)
    (by decide +kernel)
    (.again (.stop ⟨.merged 1, (show (Write.merged 1, firstStop) ∈ _ by decide +kernel), by simp⟩)
      ⟨.sampled 2, (show (Write.sampled 2, secondStop) ∈ _ by decide +kernel), by simp⟩)

/-- One step, stopped after the write of its evaluated file. -/
def stopBeforeMerge : SamplingDir := stoppedAfter 3 (scanCall 1 false) (newDir scanStart)

/-- **The step counts as completed, and its samples are lost**: the resumed run ends with the
prepared dataset, the run that was not stopped does not. -/
theorem stop_before_merge_loses_step :
    (Write.evaluated 1, stopBeforeMerge) ∈
        (runSamplingSteps (scanCall 1 false) (newDir scanStart)).writes.dropLast ∧
      (dirAfter [scanCall 1 true] stopBeforeMerge).final = some scanStart ∧
      runCalls [scanCall 1 true] stopBeforeMerge = .ok (dirAfter [scanCall 1 true] stopBeforeMerge) ∧
      runCalls [scanCall 1 false] (newDir scanStart) =
        .ok (dirAfter [scanCall 1 false] (newDir scanStart)) ∧
      (dirAfter [scanCall 1 false] (newDir scanStart)).final ≠ some scanStart := by
  decide +kernel

end DbPlanBench.Sampling
