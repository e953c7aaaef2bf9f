import DbPlanBench.Sampling.Interrupt

/-!
# Topping up `best_of`

A resumed `best_of` run that finds fewer samples than it is asked for adds a step
with the rest. That step has a number above the one step such a run has, so for the
next run it is a completed step too many: it rebuilds the accumulated state from step
1 alone and, when short of samples, adds another one.

* `originalStep_result` — what the new step does.
* `call_topped` — what one resumed run does to what earlier runs left.
* `topUp_converges_iff` — which of the promises of a top-up hold, over any number of
  runs.
-/

namespace DbPlanBench.Sampling

/-! ## A step from the original plans -/

section

variable {p : Params} {ids : List Nat} {dir t : SamplingDir} {k nSamples : Nat}

/-- **A new step from the original plans** gives every query its samples and merges them. -/
theorem originalStep_result (hsampled : k ∉ OrdDict.keys dir.sampled)
    (hevaluated : k ∉ OrdDict.keys dir.evaluated) {final : List QueryData}
    (hfinal : dir.final = some final)
    (h : (runSamplingStep p k nSamples originalStrategy dir).result = .ok t) :
    ∃ sampled e final', GivesEach (final.map (·.id)) nSamples e ∧
      accumulateSamples e final = .ok final' ∧
      t = { dir with
        final := some final'
        sampled := OrdDict.set dir.sampled k sampled
        evaluated := OrdDict.set dir.evaluated k e } := by
  obtain ⟨s, sampled, final0, final', hs, hget, hfinal0, hacc, rfl, _⟩ :=
    runSamplingStep_result hevaluated h
  -- no file of this step is there, so it samples
  rcases sampleFile_result hs with ⟨_, hmem, _⟩ | ⟨final1, new, hfinal1, hnew, rfl, _⟩
  · exact absurd hmem hsampled
  have h0 : final = final0 := Option.some.inj (hfinal.symm.trans hfinal0)
  have h1 : final = final1 := Option.some.inj (hfinal.symm.trans hfinal1)
  subst h0 h1
  rw [OrdDict.get?_set_self] at hget
  injection hget with hget
  subst hget
  exact ⟨new, _, final', givesEach_evaluate (givesEach_sample (length_answersOf p k nSamples) hnew),
    hacc, rfl⟩

end

/-! ## What the runs leave -/

/-- The ids of the queries. -/
def CuratedDataset.ids (curated : CuratedDataset) : List Nat := curated.entries.map (·.id)

/-- A run for `target` samples is short of some, when the first run took `first`. -/
def TopsUp (curated : CuratedDataset) (first target : Nat) : Prop :=
  curated.entries ≠ [] ∧ first < target

/-- What is in the directory after a run for `target` samples: `m` completed steps, the first with
`first` samples for every query. The accumulated state has step 1, and the last step if the run
added it. -/
structure Topped (curated : CuratedDataset) (name : String) (first target : Nat)
    (dir : SamplingDir) (m : Nat) : Prop where
  base : dir.base = prepareSampling curated name
  completed : Completed dir m
  pos : 1 ≤ m
  empty : curated.entries = [] → m = 1
  gives : ∀ k, 1 ≤ k → k ≤ m → ∃ e n, OrdDict.get? dir.evaluated k = some e ∧
    GivesEach curated.ids n e ∧ 0 < n ∧ (k = 1 → n = first)
  notTopped : ¬ TopsUp curated first target →
    ∃ one, replay dir 1 = .ok one ∧ dir.final = some one
  topped : TopsUp curated first target → ∃ one e final, replay dir 1 = .ok one ∧
    OrdDict.get? dir.evaluated m = some e ∧ GivesEach curated.ids (target - first) e ∧
    accumulateSamples e one = .ok final ∧ dir.final = some final ∧ 2 ≤ m

section

variable {curated : CuratedDataset} {name : String} {first target : Nat} {dir t : SamplingDir}
  {m : Nat} {p : Params}

theorem TopsUp.ids_ne (h : TopsUp curated first target) : curated.ids ≠ [] := by
  intro hids
  exact h.1 (List.map_eq_nil_iff.mp hids)

/-- A replay of the steps has at least one sample more for each of them after the first. -/
theorem Topped.replay_hasEach (h : Topped curated name first target dir m) {j : Nat}
    (hj : j + 1 ≤ m) : ∃ final c, replay dir (j + 1) = .ok final ∧
      HasEach curated.ids c final ∧ first + j ≤ c ∧ (j = 0 → c = first) := by
  have hnd : curated.ids.Nodup := curated.distinct
  have hmerge : ∀ {e final n c}, GivesEach curated.ids n e → HasEach curated.ids c final →
      ∃ final', accumulateSamples e final = .ok final' ∧ HasEach curated.ids (c + n) final' := by
    intro e final n c he hf
    have hacc := accumulateSamples_eq (hf.ids ▸ hnd) (he.ids ▸ hnd) fun q hq =>
      hf.ids ▸ he.ids ▸ List.mem_map_of_mem hq
    exact ⟨_, hacc, hasEach_accumulate hnd hf he hacc⟩
  -- one more replayed step: its file gives every query the same number of samples
  have hstep : ∀ {k final c}, 1 ≤ k + 1 → k + 1 ≤ m → replay dir k = .ok final →
      HasEach curated.ids c final → ∃ final' n, replay dir (k + 1) = .ok final' ∧
        HasEach curated.ids (c + n) final' ∧ 0 < n ∧ (k + 1 = 1 → n = first) := by
    intro k final c hpos hk hreplay hf
    obtain ⟨e, n, hget, hgives, hn, hone⟩ := h.gives (k + 1) hpos hk
    obtain ⟨final', hacc, hf'⟩ := hmerge hgives hf
    refine ⟨final', n, ?_, hf', hn, hone⟩
    rw [replay_succ, hreplay, Except.ok_bind, replayStep, hget]
    simp only [hacc]
  induction j with
  | zero =>
    have hbase : replay dir 0 = .ok (prepareSampling curated name) := congrArg Except.ok h.base
    obtain ⟨final, n, hreplay, hf, _, hone⟩ :=
      hstep (Nat.le_refl 1) hj hbase (hasEach_prepare curated name)
    refine ⟨final, 0 + n, hreplay, hf, ?_, fun _ => ?_⟩
    · rw [hone rfl, Nat.zero_add, Nat.add_zero]
    · rw [hone rfl, Nat.zero_add]
  | succ j ih =>
    obtain ⟨final, c, hreplay, hf, hc, _⟩ := ih (by omega)
    obtain ⟨final', n, hreplay', hf', hn, _⟩ := hstep (by omega) hj hreplay hf
    exact ⟨final', c + n, hreplay', hf', by omega, fun h0 => absurd h0 (by omega)⟩

/-- The replay of step 1. -/
theorem Topped.replay_one (h : Topped curated name first target dir m) :
    ∃ one, replay dir 1 = .ok one ∧ HasEach curated.ids first one := by
  obtain ⟨one, c, hreplay, hf, _, hc⟩ := h.replay_hasEach (j := 0) h.pos
  exact ⟨one, hreplay, hc rfl ▸ hf⟩

/-- **Every query has the samples of the first run, or those the last one was asked for.** -/
theorem Topped.final_hasEach (h : Topped curated name first target dir m) :
    ∃ final, dir.final = some final ∧ HasEach curated.ids (max first target) final := by
  obtain ⟨one, hreplay, hone⟩ := h.replay_one
  by_cases htop : TopsUp curated first target
  · obtain ⟨one', e, final, hreplay', _, hgives, hacc, hfinal, _⟩ := h.topped htop
    injection hreplay.symm.trans hreplay' with he
    subst he
    have hmerged := hasEach_accumulate curated.distinct hone hgives hacc
    have hmax : first + (target - first) = max first target := by
      have := htop.2
      omega
    exact ⟨final, hfinal, hmax ▸ hmerged⟩
  · obtain ⟨one', hreplay', hfinal⟩ := h.notTopped htop
    injection hreplay.symm.trans hreplay' with he
    subst he
    refine ⟨one, hfinal, hone.ids, fun q hq => ?_⟩
    have hle : target ≤ first := by
      by_contra hlt
      refine htop ⟨fun hempty => ?_, Nat.not_le.mp hlt⟩
      -- there is no query
      have hmem : q.id ∈ curated.ids := hone.ids ▸ List.mem_map_of_mem hq
      rw [CuratedDataset.ids, hempty] at hmem
      exact absurd hmem List.not_mem_nil
    rw [hone.count q hq]
    omega

/-! ## A resumed run -/

/-- What a resumed run starts from: the accumulated state is that of step 1. -/
theorem Topped.startRun_result (h : Topped curated name first target dir m)
    (hr : p.resume = true) (hn : p.nSteps = 1) {s : SamplingDir}
    (hs : (startRun p dir).result = .ok s) :
    ∃ one, replay dir 1 = .ok one ∧ s = { dir with final := some one } := by
  have hmax := h.completed.maxCompleted
  obtain ⟨final, hfinal, _⟩ := h.final_hasEach
  rcases Nat.lt_or_ge 1 m with hm | hm
  · rw [startRun_rebuild hr (by rw [hmax, hn]; omega), rebuildLimit, hn, hmax] at hs
    have hlimit : min m (1 : Int).toNat = 1 := Nat.min_eq_right (by show 1 ≤ m; omega)
    rw [if_pos (by decide), hlimit] at hs
    obtain ⟨one, hone, hreplay⟩ := rebuild_result hs
    exact ⟨one, hreplay, hone⟩
  · -- only step 1 is completed, so no earlier run has topped up
    have hnot : ¬ TopsUp curated first target := by
      intro htop
      obtain ⟨_, _, _, _, _, _, _, _, h2⟩ := h.topped htop
      omega
    obtain ⟨one, hreplay, hone⟩ := h.notTopped hnot
    rw [startRun_done hr (by rw [hone]; simp) (by rw [hmax, hn]; omega)] at hs
    injection (show Except.ok dir = Except.ok s from hs) with hs
    exact ⟨one, hreplay, by rw [← hs, ← hone]⟩

/-- What `best_of` tops up, when every query has as many samples as the first. -/
theorem topUp_of_hasEach {c : Nat} {final : List QueryData}
    (hp : p.strategy = .bestOf ∧ p.nSteps = 1) (hr : p.resume = true) (hm : 1 ≤ m)
    (hfinal : dir.final = some final) (hf : HasEach curated.ids c final) :
    (¬ TopsUp curated c p.nSamplesPerStep → topUp p m dir = .done dir) ∧
      (TopsUp curated c p.nSamplesPerStep → topUp p m dir =
        runSamplingStep p (m + 1) (p.nSamplesPerStep - c) originalStrategy dir) := by
  have hids := hf.ids
  rw [topUp, if_pos ⟨hp.1, hr, hp.2⟩, hfinal]
  -- `current_samples` reads the first query; without queries there is nothing to add
  cases final with
  | nil =>
    refine ⟨fun _ => rfl, fun htop => absurd ?_ htop.ids_ne⟩
    exact hids.symm
  | cons q rest =>
    have hcount := hf.count q (List.mem_cons_self ..)
    have hne : curated.entries ≠ [] := by
      intro hempty
      rw [CuratedDataset.ids, hempty] at hids
      exact absurd hids (by simp)
    constructor
    · intro hnot
      have hle : ¬ currentSamples q < p.nSamplesPerStep := fun hlt => hnot ⟨hne, hcount ▸ hlt⟩
      simp only [if_neg hle]
    · intro htop
      simp only [hcount, if_pos htop.2, if_pos hm]

/-- **A resumed run adds a step if it is short of samples**, to the state of step 1 in any case. A
run that is not short finds everything done when it is repeated. -/
theorem call_topped (h : Topped curated name first target dir m)
    (hp : p.strategy = .bestOf ∧ p.nSteps = 1) (hr : p.resume = true)
    (hrun : (runSamplingSteps p dir).result = .ok t) :
    (¬ TopsUp curated first p.nSamplesPerStep →
      Topped curated name first p.nSamplesPerStep t m ∧ (runSamplingSteps p t).result = .ok t) ∧
    (TopsUp curated first p.nSamplesPerStep →
      Topped curated name first p.nSamplesPerStep t (m + 1)) := by
  have hmax := h.completed.maxCompleted
  have hle : p.nSteps ≤ m := by have := h.pos; rw [hp.2]; omega
  obtain ⟨s, hs, htop⟩ := Traced.result_andThen.mp hrun
  rw [hmax, loopSteps_rebuildLimit hle, Traced.done_andThen] at htop
  -- `n_steps` is 1, so the start cuts the accumulated state down to step 1
  obtain ⟨one, hreplay, hsone⟩ := h.startRun_result hr hp.2 hs
  obtain ⟨one', hreplay', hone⟩ := h.replay_one
  injection hreplay.symm.trans hreplay' with he
  subst he
  obtain ⟨hnot, hyes⟩ := topUp_of_hasEach hp hr h.pos (congrArg SamplingDir.final hsone) hone
  constructor
  · intro hc
    rw [hnot hc] at htop
    injection (show Except.ok s = Except.ok t from htop) with hst
    subst hst
    refine ⟨?_, ?_⟩
    · subst hsone
      exact {
        base := h.base
        completed := ⟨h.completed.evaluated, h.completed.sampled⟩
        pos := h.pos
        empty := h.empty
        gives := h.gives
        notTopped := fun _ => ⟨one, hreplay, rfl⟩
        topped := fun ht => absurd ht hc }
    · -- the state of step 1 is rebuilt, or was there
      have hagain : (startRun p s).result = .ok s := startRun_sampled hr s.sampled hs
      have hmax' : maxCompleted s = m := by rw [hsone]; exact hmax
      rw [runSamplingSteps, Traced.result_andThen_of_ok hagain, hmax', loopSteps_rebuildLimit hle,
        Traced.done_andThen, hnot hc]
      rfl
  · intro hc
    rw [hyes hc] at htop
    -- the extra step has a number of its own, above all that are on record
    have hsampled : m + 1 ∉ OrdDict.keys s.sampled := fun hmem => by
      rw [hsone] at hmem
      exact absurd (h.completed.sampled _ hmem) (by omega)
    have hevaluated : m + 1 ∉ OrdDict.keys s.evaluated := fun hmem => by
      rw [hsone] at hmem
      exact absurd ((h.completed.evaluated _).mp hmem).2 (by omega)
    obtain ⟨new, e, final, hgives, hacc, rfl⟩ :=
      originalStep_result hsampled hevaluated (congrArg SamplingDir.final hsone) htop
    rw [hone.ids] at hgives
    subst hsone
    have hpos := h.pos
    have hlt := hc.2
    refine {
      base := h.base
      completed := ⟨fun j => ?_, fun j hj => ?_⟩
      pos := by omega
      empty := fun hempty => absurd hempty hc.1
      gives := fun k hk hkm => ?_
      notTopped := fun hnc => absurd hc hnc
      topped := fun _ => ?_ }
    · rw [OrdDict.mem_keys_set, h.completed.evaluated]
      omega
    · rcases OrdDict.mem_keys_set.mp hj with hj | hj
      · exact Nat.le_of_eq hj
      · exact Nat.le_succ_of_le (h.completed.sampled j hj)
    · by_cases hkm' : k = m + 1
      · subst hkm'
        refine ⟨e, _, OrdDict.get?_set_self .., hgives, by omega, fun h1 => absurd h1 (by omega)⟩
      · obtain ⟨e', n, hget, hrest⟩ := h.gives k hk (by omega)
        refine ⟨e', n, ?_, hrest⟩
        rw [OrdDict.get?_set_ne _ _ hkm']
        exact hget
    · refine ⟨one, e, final, ?_, OrdDict.get?_set_self .., hgives, hacc, rfl, by omega⟩
      rw [← hreplay]
      refine replay_congr rfl fun k hk => ?_
      exact OrdDict.get?_set_ne _ _ (by omega)

/-- The first run takes one step from the prepared dataset. -/
theorem first_topped (hp : p.strategy = .bestOf ∧ p.nSteps = 1) (hr : p.resume = false)
    (hrun : (runSamplingSteps p (newDir (prepareSampling curated name))).result = .ok t) :
    Topped curated name p.nSamplesPerStep p.nSamplesPerStep t 1 := by
  have hprepare := hasEach_prepare curated name
  obtain ⟨s, hs, hrun⟩ := Traced.result_andThen.mp hrun
  obtain ⟨d, hd, htop⟩ := Traced.result_andThen.mp hrun
  rw [topUp, if_neg fun hc => absurd hc.2.1 (by rw [hr]; decide)] at htop
  injection (show Except.ok d = Except.ok t from htop) with hdt
  subst hdt
  rw [startRun, if_pos hr] at hs
  injection (show Except.ok { newDir (prepareSampling curated name) with
    final := some (prepareSampling curated name) } = Except.ok s from hs) with hs
  subst hs
  have hlimit : rebuildLimit p (maxCompleted (newDir (prepareSampling curated name))) = 0 := by
    rw [(completed_newDir _).maxCompleted, rebuildLimit, if_pos (by omega), Nat.zero_min]
  rw [hlimit, loopSteps_succ (by omega)] at hd
  obtain ⟨d', hstep, hd⟩ := Traced.result_andThen.mp hd
  rw [loopSteps_of_le (by omega)] at hd
  injection (show Except.ok d' = Except.ok d from hd) with hdd
  subst hdd
  rw [loopStep, hp.1] at hstep
  obtain ⟨new, e, final, hgives, hacc, rfl⟩ :=
    originalStep_result List.not_mem_nil List.not_mem_nil rfl hstep
  rw [hprepare.ids] at hgives
  -- what the first run leaves: step 1 alone, with as many samples as requested
  refine {
    base := rfl
    completed := ⟨fun j => ?_, fun j hj => ?_⟩
    pos := Nat.le_refl 1
    empty := fun _ => rfl
    gives := fun k hk hkm => ?_
    notTopped := fun _ => ⟨final, ?_, rfl⟩
    topped := fun hc => absurd hc.2 (Nat.lt_irrefl _) }
  · rw [OrdDict.mem_keys_set]
    have hnil : j ∉ OrdDict.keys (newDir (prepareSampling curated name)).evaluated :=
      List.not_mem_nil
    simp only [hnil, or_false]
    omega
  · rcases OrdDict.mem_keys_set.mp hj with hj | hj
    · exact Nat.le_of_eq hj
    · exact absurd hj List.not_mem_nil
  · have hk1 : k = 1 := by omega
    subst hk1
    exact ⟨e, _, OrdDict.get?_set_self .., hgives, p.samplesPos, fun _ => rfl⟩
  · have hbase : replay (newDir (prepareSampling curated name)) 0 =
        .ok (prepareSampling curated name) := rfl
    exact replay_completed hbase hacc rfl rfl

/-! ## Any number of runs -/

/-- The target of the last run. -/
def lastTarget (first : Params) (later : List Params) : Nat :=
  ((first :: later).getLast (List.cons_ne_nil first later)).nSamplesPerStep

/-- **What runs leave**, by induction on the resumed ones. -/
theorem calls_topped {later : List Params} {last : Params}
    (hlater : ∀ q ∈ later, q.strategy = .bestOf ∧ q.nSteps = 1 ∧ q.resume = true)
    (h : Topped curated name first last.nSamplesPerStep dir m)
    (hrun : runCalls later dir = .ok t) :
    ∃ m', Topped curated name first (lastTarget last later) t m' ∧ m ≤ m' ∧
      (m' = m ↔ ∀ q ∈ later, ¬ TopsUp curated first q.nSamplesPerStep) := by
  induction later generalizing last dir m with
  | nil =>
    injection (show Except.ok dir = Except.ok t from hrun) with hrun
    exact ⟨m, hrun ▸ h, Nat.le_refl m, iff_of_true rfl fun _ hq => absurd hq List.not_mem_nil⟩
  | cons q later ih =>
    rw [runCalls, List.foldlM_cons] at hrun
    obtain ⟨s, hs, hrun⟩ := Except.bind_eq_ok.mp hrun
    obtain ⟨hbest, hone, hresume⟩ := hlater q (List.mem_cons_self ..)
    obtain ⟨hnot, hyes⟩ := call_topped h ⟨hbest, hone⟩ hresume hs
    have hrest := fun r hr => hlater r (List.mem_cons_of_mem q hr)
    have hlast : lastTarget last (q :: later) = lastTarget q later := by
      rw [lastTarget, List.getLast_cons (List.cons_ne_nil _ _)]
      rfl
    rw [hlast]
    -- a call that adds a step makes `m` grow for good
    by_cases htop : TopsUp curated first q.nSamplesPerStep
    · obtain ⟨m', hm', hle, _⟩ := ih hrest (hyes htop) hrun
      refine ⟨m', hm', by omega, iff_of_false (by omega) fun hall => ?_⟩
      exact hall q (List.mem_cons_self ..) htop
    · obtain ⟨m', hm', hle, hiff⟩ := ih hrest (hnot htop).1 hrun
      refine ⟨m', hm', hle, hiff.trans ?_⟩
      rw [List.forall_mem_cons]
      exact (and_iff_right htop).symm

/-! ## What a run promises -/

/-- The number of samples a query has, 0 if there is no accumulated state. -/
def samplesIn (dir : SamplingDir) (id : Nat) : Nat :=
  (((dir.final.getD []).find? fun q => q.id = id).map currentSamples).getD 0

/-- Every query has as many samples as the run was asked for, or as it had before if these are
more. -/
def HasTarget (p : Params) (before after : SamplingDir) : Prop :=
  ∃ final, after.final = some final ∧
    ∀ q ∈ final, currentSamples q = max p.nSamplesPerStep (samplesIn before q.id)

/-- The samples of every completed step are in the accumulated state once. -/
def AllMerged (dir : SamplingDir) : Prop :=
  ∃ final, dir.final = some final ∧ replay dir (maxCompleted dir) = .ok final

/-- The run changes nothing. -/
def Repeatable (p : Params) (dir : SamplingDir) : Prop := (runSamplingSteps p dir).result = .ok dir

/-- What is promised of a resumed run. -/
structure Converged (p : Params) (before after : SamplingDir) : Prop where
  target : HasTarget p before after
  merged : AllMerged after
  repeatable : Repeatable p after

theorem samplesIn_eq {c : Nat} {final : List QueryData} (hfinal : dir.final = some final)
    (hf : HasEach curated.ids c final) {id : Nat} (hid : id ∈ curated.ids) :
    samplesIn dir id = c := by
  rw [← hf.ids] at hid
  obtain ⟨q, hq, _, hfind⟩ := exists_find?_id QueryData.id hid
  rw [samplesIn, hfinal, Option.getD_some, hfind]
  exact hf.count q hq

/-- With a query there is only one number of samples for each. -/
theorem HasEach.count_eq {ids : List Nat} {c c' : Nat} {final : List QueryData}
    (h : HasEach ids c final) (h' : HasEach ids c' final) (hids : ids ≠ []) : c = c' := by
  cases final with
  | nil => exact absurd h.ids.symm hids
  | cons q rest =>
    exact (h.count q (List.mem_cons_self ..)).symm.trans (h'.count q (List.mem_cons_self ..))

theorem Topped.hasTarget_iff {last m' : Nat} (h : Topped curated name first last dir m)
    (ht : Topped curated name first p.nSamplesPerStep t m') : HasTarget p dir t ↔
      (curated.entries = [] ∨ last ≤ max first p.nSamplesPerStep) := by
  obtain ⟨before, hbefore, hbeach⟩ := h.final_hasEach
  obtain ⟨after, hafter, haeach⟩ := ht.final_hasEach
  have hmem : ∀ q ∈ after, samplesIn dir q.id = max first last := fun q hq =>
    samplesIn_eq hbefore hbeach (haeach.ids ▸ List.mem_map_of_mem hq)
  constructor
  · intro h
    obtain ⟨final, hfinal, hcount⟩ := h
    injection hafter.symm.trans hfinal with he
    subst he
    -- all queries count alike, so the first one decides
    cases after with
    | nil => exact Or.inl (List.map_eq_nil_iff.mp haeach.ids.symm)
    | cons q rest =>
      have hq := hcount q (List.mem_cons_self ..)
      rw [hmem q (List.mem_cons_self ..), haeach.count q (List.mem_cons_self ..)] at hq
      omega
  · intro hcond
    refine ⟨after, hafter, fun q hq => ?_⟩
    rw [hmem q hq, haeach.count q hq]
    rcases hcond with hempty | hle
    · have hids : q.id ∈ curated.ids := haeach.ids ▸ List.mem_map_of_mem hq
      rw [CuratedDataset.ids, hempty] at hids
      exact absurd hids List.not_mem_nil
    · omega

/-- **The accumulated state has all completed steps** only if there are no others than step 1 and
the one the run itself added. -/
theorem Topped.allMerged_iff (h : Topped curated name first target dir m) : AllMerged dir ↔
    (TopsUp curated first target → m = 2) ∧ (¬ TopsUp curated first target → m = 1) := by
  have hmax := h.completed.maxCompleted
  have hpos := h.pos
  obtain ⟨final, hfinal, heach⟩ := h.final_hasEach
  have hall : AllMerged dir ↔ replay dir m = .ok final := by
    rw [AllMerged, hmax, hfinal]
    constructor
    · intro h
      obtain ⟨_, ⟨⟩, hreplay⟩ := h
      exact hreplay
    · exact fun hreplay => ⟨final, rfl, hreplay⟩
  rw [hall]
  constructor
  · intro hreplay
    refine ⟨fun htop => ?_, fun htop => ?_⟩
    · obtain ⟨_, e, _, _, hget, hgives, _, _, h2⟩ := h.topped htop
      obtain ⟨j, rfl⟩ : ∃ j, m = j + 2 := ⟨m - 2, by omega⟩
      obtain ⟨final1, c, hreplay1, hf1, hc, _⟩ := h.replay_hasEach (j := j) (by omega)
      rw [replay_succ, hreplay1, Except.ok_bind, replayStep, hget] at hreplay
      simp only at hreplay
      split at hreplay
      next final' hacc =>
        injection hreplay with he
        subst he
        -- the steps before the last one have no more samples than step 1
        have hcount := heach.count_eq (hasEach_accumulate curated.distinct hf1 hgives hacc)
          htop.ids_ne
        have hlt := htop.2
        omega
      next => exact absurd hreplay (by simp)
    · by_cases hempty : curated.entries = []
      · exact h.empty hempty
      · obtain ⟨j, rfl⟩ : ∃ j, m = j + 1 := ⟨m - 1, by omega⟩
        obtain ⟨final', c, hreplay', hf, hc, _⟩ := h.replay_hasEach (j := j) (by omega)
        injection hreplay.symm.trans hreplay' with he
        subst he
        have hids : curated.ids ≠ [] := fun hids => hempty (List.map_eq_nil_iff.mp hids)
        have hcount := heach.count_eq hf hids
        have hle : target ≤ first := Nat.not_lt.mp fun hlt => htop ⟨hempty, hlt⟩
        omega
  · intro h
    obtain ⟨hyes, hnot⟩ := h
    by_cases htop : TopsUp curated first target
    · obtain ⟨one, e, final', hone, hget, _, hacc, hfinal', _⟩ := h.topped htop
      injection hfinal.symm.trans hfinal' with he
      subst he
      have hm := hyes htop
      subst hm
      rw [replay_succ, hone, Except.ok_bind, replayStep, hget]
      simp only [hacc]
    · obtain ⟨one, hone, hfinal'⟩ := h.notTopped htop
      rw [hnot htop, hone]
      exact congrArg Except.ok (Option.some.inj (hfinal'.symm.trans hfinal))

/-- **What becomes of `best_of` runs on one directory**: the first has what it promises. Every query
has the samples of the first run or those the last was asked for. A resumed run keeps all promises
exactly if neither it nor an earlier one had to top up: it drops the steps that earlier ones added,
and so it does again with its own when it is repeated. -/
theorem topUp_converges_iff (curated : CuratedDataset) (name : String) (first : Params)
    (earlier : List Params) (p : Params) (before after : SamplingDir)
    (hfirst : first.strategy = .bestOf ∧ first.nSteps = 1 ∧ first.resume = false)
    (hlater : ∀ q ∈ earlier ++ [p], q.strategy = .bestOf ∧ q.nSteps = 1 ∧ q.resume = true)
    (hbefore : runCalls (first :: earlier) (newDir (prepareSampling curated name)) = .ok before)
    (hrun : (runSamplingSteps p before).result = .ok after) :
    (∃ start, (runSamplingSteps first (newDir (prepareSampling curated name))).result = .ok start ∧
      HasTarget first (newDir (prepareSampling curated name)) start ∧ AllMerged start) ∧
    (Converged p before after ↔ ∀ q ∈ earlier ++ [p],
      ¬ TopsUp curated first.nSamplesPerStep q.nSamplesPerStep) ∧
    (HasTarget p before after ↔ curated.entries = [] ∨
      lastTarget first earlier ≤ max first.nSamplesPerStep p.nSamplesPerStep) ∧
    (AllMerged after ↔ ∀ q ∈ earlier,
      ¬ TopsUp curated first.nSamplesPerStep q.nSamplesPerStep) ∧
    (Repeatable p after ↔ ¬ TopsUp curated first.nSamplesPerStep p.nSamplesPerStep) := by
  obtain ⟨hfbest, hfone, hfresume⟩ := hfirst
  obtain ⟨hbest, hone, hresume⟩ := hlater p (List.mem_append_right _ (List.mem_singleton.mpr rfl))
  rw [runCalls, List.foldlM_cons] at hbefore
  obtain ⟨start, hstart, hbefore⟩ := Except.bind_eq_ok.mp hbefore
  have htstart := first_topped ⟨hfbest, hfone⟩ hfresume hstart
  have hself : ¬ TopsUp curated first.nSamplesPerStep first.nSamplesPerStep :=
    fun htop => Nat.lt_irrefl _ htop.2
  obtain ⟨m, hm, _, hm1⟩ := calls_topped
    (fun q hq => hlater q (List.mem_append_left _ hq)) htstart hbefore
  obtain ⟨hnot, hyes⟩ := call_topped hm ⟨hbest, hone⟩ hresume hrun
  have htarget : HasTarget p before after ↔ curated.entries = [] ∨
      lastTarget first earlier ≤ max first.nSamplesPerStep p.nSamplesPerStep := by
    by_cases htop : TopsUp curated first.nSamplesPerStep p.nSamplesPerStep
    · exact hm.hasTarget_iff (hyes htop)
    · exact hm.hasTarget_iff (hnot htop).1
  have hmerged : AllMerged after ↔ ∀ q ∈ earlier,
      ¬ TopsUp curated first.nSamplesPerStep q.nSamplesPerStep := by
    rw [← hm1]
    by_cases htop : TopsUp curated first.nSamplesPerStep p.nSamplesPerStep
    · rw [(hyes htop).allMerged_iff]
      simp only [htop, forall_const, not_true_eq_false, false_implies, and_true]
      omega
    · rw [(hnot htop).1.allMerged_iff]
      simp only [htop, not_false_eq_true, forall_const, false_implies, true_and]
  have hrepeat : Repeatable p after ↔
      ¬ TopsUp curated first.nSamplesPerStep p.nSamplesPerStep := by
    refine ⟨fun hagain htop => ?_, fun htop => (hnot htop).2⟩
    -- the repeated run adds one more step
    have hnext := (call_topped (hyes htop) ⟨hbest, hone⟩ hresume hagain).2 htop
    have hsteps := (hyes htop).completed.maxCompleted.symm.trans hnext.completed.maxCompleted
    omega
  refine ⟨⟨start, hstart, ?_, ?_⟩, ?_, htarget, hmerged, hrepeat⟩
  · obtain ⟨final, hfinal, heach⟩ := htstart.final_hasEach
    refine ⟨final, hfinal, fun q hq => ?_⟩
    rw [heach.count q hq, Nat.max_self]
    exact (Nat.max_zero _).symm
  · exact htstart.allMerged_iff.mpr ⟨fun htop => absurd htop hself, fun _ => rfl⟩
  · rw [List.forall_mem_append, List.forall_mem_singleton, ← hmerged, ← hrepeat]
    constructor
    · intro h
      exact ⟨h.merged, h.repeatable⟩
    · intro h
      refine ⟨?_, h.1, h.2⟩
      rw [htarget]
      by_cases hempty : curated.entries = []
      · exact Or.inl hempty
      · -- the run before was the first, or asked for no more samples than it
        right
        have hall := hmerged.mp h.1
        have hmem := List.getLast_mem (List.cons_ne_nil first earlier)
        have hle : lastTarget first earlier ≤ first.nSamplesPerStep := by
          rcases List.mem_cons.mp hmem with hlast | hlast
          · rw [lastTarget, hlast]
          · exact Nat.not_lt.mp fun hlt => hall _ hlast ⟨hempty, hlt⟩
        omega

end

/-! ## Runs on one query -/

/-- The model's answer in step `k`. -/
def stepPatch (k : Nat) : Json :=
  .obj [("op", .str "replace"), ("path", .str "/0"), ("value", .int k)]

/-- A `best_of` run; the model's answers tell the steps apart. -/
def bestOfCall (nSamples : Nat) (hpos : 0 < nSamples) (resume : Bool) : Params where
  strategy := .bestOf
  nSteps := 1
  nSamplesPerStep := nSamples
  samplesPos := hpos
  optimizationMetric := "execution_time"
  model := "gpt-5"
  resume := resume
  patch := replacePatch
  llm := fun k _ _ _ _ => ⟨noResponse, none, some [stepPatch k]⟩
  engine := fun _ => firstStep.engine

/-- Two samples; a run for one and a run for two find everything done. -/
def enoughSamples : SamplingDir :=
  dirAfter [bestOfCall 2 (by decide) false, bestOfCall 1 (by decide) true] (newDir scanStart)

theorem topUp_converges_enough :
    Converged (bestOfCall 2 (by decide) true) enoughSamples enoughSamples :=
  (topUp_converges_iff scanDataset "gpt-5" (bestOfCall 2 (by decide) false)
    [bestOfCall 1 (by decide) true] (bestOfCall 2 (by decide) true) enoughSamples enoughSamples
    ⟨rfl, rfl, rfl⟩ (by simp [bestOfCall]) (by decide +kernel) (by decide +kernel)).2.1.mpr
    (by simp [bestOfCall, TopsUp])

/-- One sample. -/
def oneSample : SamplingDir := dirAfter [bestOfCall 1 (by decide) false] (newDir scanStart)

/-- Topped up to two. -/
def toppedUp : SamplingDir := dirAfter [bestOfCall 2 (by decide) true] oneSample

/-- Asked for two again. -/
def toppedUpTwice : SamplingDir := dirAfter [bestOfCall 2 (by decide) true] toppedUp

/-- Asked for one after that for two. -/
def cutShort : SamplingDir := dirAfter [bestOfCall 1 (by decide) true] toppedUp

/-- The patches of the entries of every query. -/
def patchesIn (dir : SamplingDir) : List (List (Option (List Json))) :=
  (dir.final.getD []).map fun q => q.sampledPlans.map (·.sampledPatches)

/-- **A topped-up state does not last**: the same run again replaces the sample of step 2 by one of
step 3, and a run for one sample leaves one of the two. -/
theorem topped_up_is_dropped :
    (runCalls [bestOfCall 1 (by decide) false] (newDir scanStart) = .ok oneSample ∧
      runCalls [bestOfCall 2 (by decide) true] oneSample = .ok toppedUp ∧
      patchesIn toppedUp = [[some [], some [stepPatch 1], some [stepPatch 2]]]) ∧
    (runCalls [bestOfCall 2 (by decide) true] toppedUp = .ok toppedUpTwice ∧
      patchesIn toppedUpTwice = [[some [], some [stepPatch 1], some [stepPatch 3]]] ∧
      ¬ Converged (bestOfCall 2 (by decide) true) oneSample toppedUp) ∧
    (runCalls [bestOfCall 1 (by decide) true] toppedUp = .ok cutShort ∧
      patchesIn cutShort = [[some [], some [stepPatch 1]]] ∧
      ¬ HasTarget (bestOfCall 1 (by decide) true) toppedUp cutShort) := by
  refine ⟨by decide +kernel, ⟨by decide +kernel, by decide +kernel, fun h => ?_⟩,
    by decide +kernel, by decide +kernel, fun h => ?_⟩
  · have hagain : (runSamplingSteps (bestOfCall 2 (by decide) true) toppedUp).result ≠
        .ok toppedUp := by decide +kernel
    exact hagain h.repeatable
  · obtain ⟨final, hfinal, hcount⟩ := h
    have hshort : ∀ q ∈ cutShort.final.getD [],
        currentSamples q = 1 ∧ samplesIn toppedUp q.id = 2 := by decide +kernel
    have hlen : (cutShort.final.getD []).length = 1 := by decide +kernel
    rw [hfinal, Option.getD_some] at hshort hlen
    obtain ⟨q, rfl⟩ := List.length_eq_one_iff.mp hlen
    have hq := hcount q (List.mem_singleton.mpr rfl)
    obtain ⟨hone, htwo⟩ := hshort q (List.mem_singleton.mpr rfl)
    rw [hone, htwo] at hq
    exact absurd hq (by decide)

end DbPlanBench.Sampling
