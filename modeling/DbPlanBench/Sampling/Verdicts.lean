import DbPlanBench.Sampling.Harvest

/-!
# Every sample gets its own verdict

The verdict of a sample depends on the sample, on the plan of its query and on the
backend's answers for it. Every run of the evaluation ends, and writes this verdict to
every sample, whatever the order in which samples are submitted and complete.

* `verdictOf` — the verdict of a sample.
* `EvalInv` — at any time a sample is decided, still to come, under way or noted, and
  only one of these; what is noted is its verdict.
* `evalInv_of_step` — a turn and a wait keep this; `exists_step` — there always is one.
* `writeBack_eq` — when both loops have ended, all verdicts are written.
-/

namespace DbPlanBench.Sampling

/-! ## The verdict of a sample -/

/-- What the result of a call is noted as. -/
def futureVerdict (backend : Backend) (call : Call) : Verdict :=
  match validateEvaluatePlanWrapper backend call with
  | .ok planResult => planResult
  | .error exc => invalidVerdict (some ("Failed to get evaluation result: " ++ exc))

/-- What becomes of a sample. -/
def Prepared.verdict (backend : Backend) (pos : Nat × Nat) (originalPlan : Json) :
    Prepared → Verdict
  | .invalid errorMessage => invalidVerdict errorMessage
  | .result v => v
  | .failed errorMessage => invalidVerdict (some errorMessage)
  | .submit plan => futureVerdict backend ⟨pos, plan, originalPlan⟩

/-- The verdict of a sample of a query. -/
def verdictOf (patch : JsonPatch) (backend : Backend) (pos : Nat × Nat) (q : SampledQuery)
    (s : SampledPlan) : Verdict := (prepare patch q.plan s).verdict backend pos q.plan

section

variable {patch : JsonPatch} {backend : Backend} {pos : Nat × Nat} {q : SampledQuery}
  {s : SampledPlan}

theorem update_futureVerdict (plan originalPlan : Json) :
    s.update (futureVerdict backend ⟨pos, plan, originalPlan⟩) =
      validateEvaluatePlan backend.engine pos plan originalPlan s := by
  unfold futureVerdict validateEvaluatePlanWrapper validateEvaluatePlan
  have hengine : backend.engine.validate pos plan originalPlan =
    backend.validate pos plan originalPlan := rfl
  rw [hengine]
  cases backend.validate pos plan originalPlan with
  | error exc => rfl
  | ok validationError =>
    cases validationError with
    | some validationError => rfl
    | none =>
      simp only [Except.ok_bind, Backend.engine]
      cases backend.evaluate pos plan with
      | error exc => rfl
      | ok r =>
        simp only
        cases r.failure? <;> rfl

/-- **The verdict is what an evaluation of the sample by itself says.** -/
theorem update_verdictOf : s.update (verdictOf patch backend pos q s) =
    evaluatePlan patch backend.engine pos q.plan s := by
  unfold verdictOf prepare evaluatePlan
  split
  next => rfl
  next =>
    cases s.sampledPatches with
    | none => rfl
    | some patches =>
      cases patches with
      | nil => rfl
      | cons p patches =>
        cases happly : applyPatchesToPlan patch q.plan (s.upstreamPatches ++ p :: patches) with
        | error exc =>
          simp only [happly]
          rfl
        | ok plan =>
          simp only [happly]
          exact update_futureVerdict plan q.plan

end

/-! ## The positions -/

section

variable {sampled : List SampledQuery}

theorem mem_positions {pos : Nat × Nat} :
    pos ∈ positions sampled ↔ ∃ q s, SampleAt sampled pos q s := by
  obtain ⟨i, j⟩ := pos
  constructor
  · intro h
    obtain ⟨⟨q, i'⟩, hq, hmem⟩ := List.mem_flatMap.mp h
    obtain ⟨j', hj', he⟩ := List.mem_map.mp hmem
    injection he with hi hj
    subst hi hj
    exact ⟨q, _, List.mem_zipIdx_iff_getElem?.mp hq,
      List.getElem?_eq_getElem (List.mem_range.mp hj')⟩
  · intro h
    obtain ⟨q, s, hq, hs⟩ := h
    refine List.mem_flatMap.mpr ⟨(q, i), List.mem_zipIdx_iff_getElem?.mpr hq, ?_⟩
    exact List.mem_map.mpr ⟨j, List.mem_range.mpr (List.getElem?_eq_some_iff.mp hs).1, rfl⟩

theorem positions_nodup : (positions sampled).Nodup := by
  refine List.nodup_flatMap.mpr ⟨fun q _ => ?_, ?_⟩
  · exact List.nodup_range.map fun _ _ h => congrArg Prod.snd h
  · have hidx : (sampled.zipIdx.map Prod.snd).Nodup := by
      rw [List.zipIdx_map_snd]
      exact List.nodup_range'
    refine (List.pairwise_map.mp hidx).imp fun {q q'} hne => ?_
    intro pos hpos hpos'
    obtain ⟨_, _, rfl⟩ := List.mem_map.mp hpos
    obtain ⟨_, _, he⟩ := List.mem_map.mp hpos'
    exact hne (congrArg Prod.fst he).symm

/-- An order has every position once. -/
theorem Shuffled.perm {order : List (Nat × Nat)} (h : Shuffled sampled order) :
    order.Perm (positions sampled) := by
  obtain ⟨queries, blocks, hqueries, hblocks, rfl⟩ := h
  refine List.Perm.trans ?_ (hqueries.flatMap_right _)
  rw [List.flatMap_def]
  refine List.Perm.flatten_congr (List.Forall₂.flip ?_)
  rw [List.forall₂_map_left_iff]
  exact hblocks

end

/-! ## Writing verdicts -/

section

variable {sampled : List SampledQuery}

/-- The samples at some positions have their verdicts. -/
def decideAt (patch : JsonPatch) (backend : Backend) (decided : List (Nat × Nat))
    (sampled : List SampledQuery) : List SampledQuery :=
  mapSamples (fun pos q s => if pos ∈ decided then s.update (verdictOf patch backend pos q s) else s)
    sampled

variable {patch : JsonPatch} {backend : Backend}

theorem decideAt_nil : decideAt patch backend [] sampled = sampled := by
  refine Eq.trans (mapSamples_congr fun pos q s _ => ?_) mapSamples_id
  exact if_neg List.not_mem_nil

/-- Once all positions are decided the file is evaluated. -/
theorem decideAt_all {decided : List (Nat × Nat)} (h : ∀ pos ∈ positions sampled, pos ∈ decided) :
    decideAt patch backend decided sampled =
      evaluateSampledPlans patch backend.engine sampled := by
  rw [evaluateSampledPlans_eq_mapSamples]
  refine mapSamples_congr fun pos q s hat => ?_
  rw [if_pos (h pos (mem_positions.mpr ⟨q, s, hat⟩)), update_verdictOf]

/-- Which position was decided first does not matter. -/
theorem decideAt_congr {decided decided' : List (Nat × Nat)}
    (h : ∀ pos, pos ∈ decided ↔ pos ∈ decided') :
    decideAt patch backend decided sampled = decideAt patch backend decided' sampled :=
  mapSamples_congr fun pos _ _ _ => if_congr (h pos) rfl rfl

/-- **Writing its verdict decides a position**, also a second time. -/
theorem updateSample_decideAt {pos : Nat × Nat} {v : Verdict} (decided : List (Nat × Nat))
    (hv : ∀ q s, SampleAt sampled pos q s → v = verdictOf patch backend pos q s) :
    updateSample (decideAt patch backend decided sampled) pos (·.update v) =
      decideAt patch backend (pos :: decided) sampled := by
  rw [decideAt, updateSample_mapSamples]
  refine mapSamples_congr fun pos' q s hat => ?_
  by_cases hpos : pos' = pos
  · subst hpos
    rw [if_pos rfl, if_pos (List.mem_cons_self ..), hv q s hat]
    split <;> rfl
  · rw [if_neg hpos]
    exact if_congr (by simp [hpos]) rfl rfl

/-- All writes of a loop. -/
theorem foldl_updateSample {γ : Type} (key : γ → Nat × Nat) (val : γ → Verdict) :
    ∀ (writes : List γ) (decided : List (Nat × Nat)),
      (∀ w ∈ writes, ∀ q s, SampleAt sampled (key w) q s →
        val w = verdictOf patch backend (key w) q s) →
      writes.foldl (fun data w => updateSample data (key w) (·.update (val w)))
          (decideAt patch backend decided sampled) =
        decideAt patch backend (decided ++ writes.map key) sampled
  | [], decided, _ => by rw [List.map_nil, List.append_nil]; rfl
  | w :: writes, decided, h => by
    rw [List.foldl_cons, updateSample_decideAt decided (h w (List.mem_cons_self ..)),
      foldl_updateSample key val writes _ fun w' hw' => h w' (List.mem_cons_of_mem _ hw')]
    refine decideAt_congr fun pos => ?_
    simp only [List.cons_append, List.mem_cons, List.mem_append, List.map_cons]
    tauto

end

/-! ## The invariant -/

/-- Where the samples are. `live` are the futures that are not harvested yet, and `skipped` the
invalid samples that the loop has passed. -/
def accounted (skipped : List (Nat × Nat)) (live : List Future) (st : EvalState) :
    List (Nat × Nat) :=
  skipped ++ st.todo ++ live.map (·.call.asked) ++ OrdDict.keys st.planResults ++
    OrdDict.keys st.errors

/-- Every sample is in one place, and what is noted is its verdict. -/
structure EvalInv (patch : JsonPatch) (backend : Backend) (sampled : List SampledQuery)
    (skipped : List (Nat × Nat)) (live : List Future) (st : EvalState) : Prop where
  data : st.sampledData = decideAt patch backend skipped sampled
  accounted : (accounted skipped live st).Perm (positions sampled)
  results : ∀ r ∈ st.planResults, ∀ q s, SampleAt sampled r.1 q s →
    r.2 = verdictOf patch backend r.1 q s
  errors : ∀ e ∈ st.errors, ∀ q s, SampleAt sampled e.1 q s →
    invalidVerdict (some e.2) = verdictOf patch backend e.1 q s
  calls : ∀ f ∈ live, ∀ q s, SampleAt sampled f.call.asked q s →
    futureVerdict backend f.call = verdictOf patch backend f.call.asked q s
  found : ∀ f ∈ live, OrdDict.get? st.futureToMetadata f.id = some f.call.asked
  fresh : ∀ f ∈ live, f.id < st.submitted
  distinct : (live.map (·.id)).Nodup

variable {patch : JsonPatch} {backend : Backend} {maxWorkers : Int} {sampled : List SampledQuery}
  {skipped : List (Nat × Nat)} {live : List Future} {st st' : EvalState}

/-- At the start all samples are still to come. -/
theorem evalInv_start {order : List (Nat × Nat)} (h : Shuffled sampled order) :
    EvalInv patch backend sampled [] [] ⟨sampled, order, [], [], [], [], 0⟩ where
  data := decideAt_nil.symm
  accounted := by
    show ([] ++ order ++ [] ++ [] ++ []).Perm _
    simpa using h.perm
  results _ h := absurd h List.not_mem_nil
  errors _ h := absurd h List.not_mem_nil
  calls _ h := absurd h List.not_mem_nil
  found _ h := absurd h List.not_mem_nil
  fresh _ h := absurd h List.not_mem_nil
  distinct := List.nodup_nil

/-- No sample is in two places. -/
theorem EvalInv.nodup (h : EvalInv patch backend sampled skipped live st) :
    (Sampling.accounted skipped live st).Nodup := h.accounted.nodup_iff.mpr positions_nodup

/-- A position that is still to come is in no other place. -/
theorem EvalInv.not_mem (h : EvalInv patch backend sampled skipped live st) {pos : Nat × Nat}
    {todo : List (Nat × Nat)} (htodo : st.todo = pos :: todo) :
    pos ∉ skipped ∧ pos ∉ OrdDict.keys st.planResults ∧ pos ∉ OrdDict.keys st.errors := by
  have hone := List.nodup_iff_count_le_one.mp h.nodup pos
  simp only [Sampling.accounted, htodo, List.count_append, List.count_cons_self] at hone
  simp only [← List.count_eq_zero]
  omega

/-- So is one that is under way. -/
theorem EvalInv.not_mem_live {f : Future}
    (h : EvalInv patch backend sampled skipped (f :: live) st) :
    f.call.asked ∉ OrdDict.keys st.planResults ∧ f.call.asked ∉ OrdDict.keys st.errors := by
  have hone := List.nodup_iff_count_le_one.mp h.nodup f.call.asked
  simp only [Sampling.accounted, List.map_cons, List.count_append, List.count_cons_self] at hone
  simp only [← List.count_eq_zero]
  omega

theorem SampleAt.unique {pos : Nat × Nat} {q q' : SampledQuery} {s s' : SampledPlan}
    (h : SampleAt sampled pos q s) (h' : SampleAt sampled pos q' s') : q = q' ∧ s = s' := by
  have hq : q = q' := Option.some.inj (h.1.symm.trans h'.1)
  subst hq
  exact ⟨rfl, Option.some.inj (h.2.symm.trans h'.2)⟩

/-- A sample that is still to come is as it was. -/
theorem EvalInv.sampleAt (h : EvalInv patch backend sampled skipped live st) {pos : Nat × Nat}
    {todo : List (Nat × Nat)} (htodo : st.todo = pos :: todo) {originalPlan : Json}
    {s : SampledPlan} (hat : planAt st.sampledData pos = some (originalPlan, s)) :
    ∃ q, SampleAt sampled pos q s ∧ originalPlan = q.plan := by
  rw [h.data] at hat
  obtain ⟨q, s, hsample, rfl, rfl⟩ := planAt_mapSamples.mp hat
  rw [if_neg (h.not_mem htodo).1]
  exact ⟨q, hsample, rfl⟩

/-- What the loop makes of a sample is its verdict. -/
theorem EvalInv.verdict_eq (h : EvalInv patch backend sampled skipped live st) {pos : Nat × Nat}
    {todo : List (Nat × Nat)} (htodo : st.todo = pos :: todo) {originalPlan : Json}
    {s : SampledPlan} (hat : planAt st.sampledData pos = some (originalPlan, s))
    {prepared : Prepared} (hprepare : prepare patch originalPlan s = prepared) :
    ∀ q s, SampleAt sampled pos q s →
      prepared.verdict backend pos originalPlan = verdictOf patch backend pos q s := by
  intro q' s' hat'
  obtain ⟨q, hsample, rfl⟩ := h.sampleAt htodo hat
  obtain ⟨rfl, rfl⟩ := hsample.unique hat'
  rw [← hprepare, verdictOf]

/-- The order of the futures does not matter. -/
theorem EvalInv.perm {live' : List Future} (hperm : live.Perm live')
    (h : EvalInv patch backend sampled skipped live st) :
    EvalInv patch backend sampled skipped live' st where
  data := h.data
  accounted := by
    refine List.Perm.trans ?_ h.accounted
    exact ((hperm.symm.map _).append_left _).append_right _ |>.append_right _
  results := h.results
  errors := h.errors
  calls f hf := h.calls f (hperm.mem_iff.mpr hf)
  found f hf := h.found f (hperm.mem_iff.mpr hf)
  fresh f hf := h.fresh f (hperm.mem_iff.mpr hf)
  distinct := (hperm.map _).nodup_iff.mp h.distinct

/-! ## Turns of the loop -/

/-- An invalid sample is decided. -/
theorem evalInv_invalid (h : EvalInv patch backend sampled skipped live st) {pos : Nat × Nat}
    {todo : List (Nat × Nat)} (htodo : st.todo = pos :: todo) {originalPlan : Json}
    {s : SampledPlan} (hat : planAt st.sampledData pos = some (originalPlan, s))
    {errorMessage : Option String} (hprepare : prepare patch originalPlan s = .invalid errorMessage) :
    EvalInv patch backend sampled (pos :: skipped) live { st with
      sampledData := updateSample st.sampledData pos (·.update (invalidVerdict errorMessage))
      todo := todo } where
  data := by
    rw [h.data]
    exact updateSample_decideAt skipped (h.verdict_eq htodo hat hprepare)
  accounted := by
    refine List.Perm.trans (List.perm_iff_count.mpr fun a => ?_) h.accounted
    simp only [Sampling.accounted, htodo, List.count_append, List.count_cons]
    omega
  results := h.results
  errors := h.errors
  calls := h.calls
  found := h.found
  fresh := h.fresh
  distinct := h.distinct

/-- A result is noted. -/
theorem evalInv_result (h : EvalInv patch backend sampled skipped live st) {pos : Nat × Nat}
    {todo : List (Nat × Nat)} (htodo : st.todo = pos :: todo) {originalPlan : Json}
    {s : SampledPlan} (hat : planAt st.sampledData pos = some (originalPlan, s)) {v : Verdict}
    (hprepare : prepare patch originalPlan s = .result v) :
    EvalInv patch backend sampled skipped live { st with
      planResults := OrdDict.set st.planResults pos v
      todo := todo } where
  data := h.data
  accounted := by
    refine List.Perm.trans (List.perm_iff_count.mpr fun a => ?_) h.accounted
    simp only [Sampling.accounted, htodo, OrdDict.set_of_not_mem v (h.not_mem htodo).2.1,
      OrdDict.keys_append, OrdDict.keys_cons, OrdDict.keys_nil, List.count_append, List.count_cons,
      List.count_nil]
    omega
  results r hr := by
    rcases OrdDict.mem_set hr with rfl | hr
    · exact h.verdict_eq htodo hat hprepare
    · exact h.results r hr
  errors := h.errors
  calls := h.calls
  found := h.found
  fresh := h.fresh
  distinct := h.distinct

/-- A failure is noted. -/
theorem evalInv_failed (h : EvalInv patch backend sampled skipped live st) {pos : Nat × Nat}
    {todo : List (Nat × Nat)} (htodo : st.todo = pos :: todo) {originalPlan : Json}
    {s : SampledPlan} (hat : planAt st.sampledData pos = some (originalPlan, s))
    {errorMessage : String} (hprepare : prepare patch originalPlan s = .failed errorMessage) :
    EvalInv patch backend sampled skipped live { st with
      errors := OrdDict.set st.errors pos errorMessage
      todo := todo } where
  data := h.data
  accounted := by
    refine List.Perm.trans (List.perm_iff_count.mpr fun a => ?_) h.accounted
    simp only [Sampling.accounted, htodo, OrdDict.set_of_not_mem errorMessage (h.not_mem htodo).2.2,
      OrdDict.keys_append, OrdDict.keys_cons, OrdDict.keys_nil, List.count_append, List.count_cons,
      List.count_nil]
    omega
  results := h.results
  errors e he := by
    rcases OrdDict.mem_set he with rfl | he
    · exact h.verdict_eq htodo hat hprepare
    · exact h.errors e he
  calls := h.calls
  found := h.found
  fresh := h.fresh
  distinct := h.distinct

/-- A plan is under way, as the call with the next number. -/
theorem evalInv_submit (h : EvalInv patch backend sampled skipped live st) {pos : Nat × Nat}
    {todo : List (Nat × Nat)} (htodo : st.todo = pos :: todo) {originalPlan : Json}
    {s : SampledPlan} (hat : planAt st.sampledData pos = some (originalPlan, s)) {plan : Json}
    (hprepare : prepare patch originalPlan s = .submit plan) (inflight : List Future) :
    EvalInv patch backend sampled skipped (live ++ [⟨st.submitted, pos, plan, originalPlan⟩]) { st with
      inflight := inflight
      futureToMetadata := OrdDict.set st.futureToMetadata st.submitted pos
      submitted := st.submitted + 1
      todo := todo } where
  data := h.data
  accounted := by
    refine List.Perm.trans (List.perm_iff_count.mpr fun a => ?_) h.accounted
    simp only [Sampling.accounted, htodo, List.map_append, List.map_cons, List.map_nil,
      List.count_append, List.count_cons, List.count_nil]
    omega
  results := h.results
  errors := h.errors
  calls f hf := by
    rcases List.mem_append.mp hf with hf | hf
    · exact h.calls f hf
    · rw [List.mem_singleton.mp hf]
      exact h.verdict_eq htodo hat hprepare
  found f hf := by
    rcases List.mem_append.mp hf with hf | hf
    · rw [OrdDict.get?_set_ne _ _ (Nat.ne_of_lt (h.fresh f hf))]
      exact h.found f hf
    · rw [List.mem_singleton.mp hf]
      exact OrdDict.get?_set_self ..
  fresh f hf := by
    rcases List.mem_append.mp hf with hf | hf
    · exact Nat.lt_succ_of_lt (h.fresh f hf)
    · rw [List.mem_singleton.mp hf]
      exact Nat.lt_succ_self _
  distinct := by
    rw [List.map_append]
    refine List.nodup_append.mpr ⟨h.distinct, List.nodup_singleton _, fun a ha b hb he => ?_⟩
    obtain ⟨f, hf, rfl⟩ := List.mem_map.mp ha
    rw [List.mem_singleton.mp hb] at he
    exact absurd (h.fresh f hf) (by simp [he])

/-! ## Waits -/

/-- **A future is harvested for the sample it was submitted for.** -/
theorem harvestOne_inv {f : Future} (h : EvalInv patch backend sampled skipped (f :: live) st) :
    ∃ st', harvestOne backend st f = some st' ∧ EvalInv patch backend sampled skipped live st' ∧
      st'.todo = st.todo ∧ st'.inflight = st.inflight := by
  have hverdict := h.calls f (List.mem_cons_self ..)
  obtain ⟨hresults, herrors⟩ := h.not_mem_live
  have hcalls := fun f' hf' => h.calls f' (List.mem_cons_of_mem f hf')
  have hfresh := fun f' hf' => h.fresh f' (List.mem_cons_of_mem f hf')
  obtain ⟨hother, hdistinct⟩ := List.nodup_cons.mp h.distinct
  -- the others are found where they were
  have hfound : ∀ f' ∈ live, OrdDict.get? (OrdDict.erase st.futureToMetadata f.id) f'.id =
      some f'.call.asked := by
    intro f' hf'
    have hne : f'.id ≠ f.id := fun he => hother (List.mem_map.mpr ⟨f', hf', he⟩)
    rw [OrdDict.get?_erase_ne _ hne]
    exact h.found f' (List.mem_cons_of_mem f hf')
  unfold harvestOne
  rw [h.found f (List.mem_cons_self ..)]
  unfold futureVerdict at hverdict
  cases hcall : validateEvaluatePlanWrapper backend f.call with
  | ok planResult =>
    simp only [hcall] at hverdict
    refine ⟨_, rfl, ⟨h.data, ?_, fun r hr => ?_, h.errors, hcalls, hfound, hfresh, hdistinct⟩,
      rfl, rfl⟩
    · refine List.Perm.trans (List.perm_iff_count.mpr fun a => ?_) h.accounted
      simp only [Sampling.accounted, List.map_cons, OrdDict.set_of_not_mem planResult hresults,
        OrdDict.keys_append, OrdDict.keys_cons, OrdDict.keys_nil, List.count_append,
        List.count_cons, List.count_nil]
      omega
    · rcases OrdDict.mem_set hr with rfl | hr
      · exact hverdict
      · exact h.results r hr
  | error exc =>
    simp only [hcall] at hverdict
    refine ⟨_, rfl, ⟨h.data, ?_, h.results, fun e he => ?_, hcalls, hfound, hfresh, hdistinct⟩,
      rfl, rfl⟩
    · refine List.Perm.trans (List.perm_iff_count.mpr fun a => ?_) h.accounted
      simp only [Sampling.accounted, List.map_cons, OrdDict.set_of_not_mem _ herrors,
        OrdDict.keys_append, OrdDict.keys_cons, OrdDict.keys_nil, List.count_append,
        List.count_cons, List.count_nil]
      omega
    · rcases OrdDict.mem_set he with rfl | he
      · exact hverdict
      · exact h.errors e he

/-- A harvest succeeds for whatever is done, in any order. -/
theorem harvest_inv : ∀ {done : List Future} {st : EvalState},
    EvalInv patch backend sampled skipped (done ++ live) st →
      ∃ st', harvest backend done st = some st' ∧ EvalInv patch backend sampled skipped live st' ∧
        st'.todo = st.todo ∧ st'.inflight = st.inflight
  | [], st, h => ⟨st, rfl, h, rfl, rfl⟩
  | f :: done, st, h => by
    obtain ⟨st', hone, h', htodo, hinflight⟩ := harvestOne_inv h
    obtain ⟨st'', hrest, h'', htodo', hinflight'⟩ := harvest_inv h'
    refine ⟨st'', ?_, h'', htodo'.trans htodo, hinflight'.trans hinflight⟩
    rw [harvest, List.foldlM_cons, hone]
    exact hrest

/-- The variables of the invariant without the set of futures, which it is told separately. -/
theorem EvalInv.setInflight (h : EvalInv patch backend sampled skipped live st)
    (inflight : List Future) :
    EvalInv patch backend sampled skipped live { st with inflight := inflight } :=
  ⟨h.data, h.accounted, h.results, h.errors, h.calls, h.found, h.fresh, h.distinct⟩

/-- What a wait leads to: a harvest of what is done, and nothing else. -/
theorem exists_harvest (h : EvalInv patch backend sampled skipped st.inflight st)
    {done inflight : List Future} (hdone : st.inflight.Perm (done ++ inflight)) :
    ∃ st', harvest backend done { st with inflight := inflight } = some st' ∧
      EvalInv patch backend sampled skipped st'.inflight st' ∧
      st'.todo = st.todo ∧ st'.inflight = inflight := by
  obtain ⟨st', hharvest, h', htodo, hinflight⟩ :=
    harvest_inv ((h.perm hdone).setInflight inflight)
  exact ⟨st', hharvest, hinflight ▸ h', htodo, hinflight⟩

/-! ## Runs -/

/-- How many turns and futures there still can be. -/
def EvalState.remaining (st : EvalState) : Nat := 2 * st.todo.length + st.inflight.length

/-- **One step keeps the invariant**, and there is less to do after it. -/
theorem evalInv_of_step (h : EvalInv patch backend sampled skipped st.inflight st)
    (hstep : EvalStep patch backend maxWorkers st st') :
    (∃ skipped', EvalInv patch backend sampled skipped' st'.inflight st') ∧
      st'.remaining < st.remaining := by
  cases hstep with
  | invalid htodo hat hprepare =>
    refine ⟨⟨_, evalInv_invalid h htodo hat hprepare⟩, ?_⟩
    simp only [EvalState.remaining, htodo, List.length_cons]
    omega
  | result htodo hat hprepare =>
    refine ⟨⟨_, evalInv_result h htodo hat hprepare⟩, ?_⟩
    simp only [EvalState.remaining, htodo, List.length_cons]
    omega
  | failed htodo hat hprepare =>
    refine ⟨⟨_, evalInv_failed h htodo hat hprepare⟩, ?_⟩
    simp only [EvalState.remaining, htodo, List.length_cons]
    omega
  | submit htodo hat hprepare hroom =>
    refine ⟨⟨_, evalInv_submit h htodo hat hprepare _⟩, ?_⟩
    simp only [EvalState.remaining, htodo, List.length_cons, List.length_append, List.length_nil]
    omega
  | wait hblocked hdone hsome hharvest =>
    obtain ⟨st'', hharvest', h', htodo, hinflight⟩ := exists_harvest h hdone
    rw [hharvest] at hharvest'
    injection hharvest' with he
    subst he
    refine ⟨⟨_, h'⟩, ?_⟩
    have hlength := hdone.length_eq
    have hpos := List.length_pos_of_ne_nil hsome
    rw [List.length_append] at hlength
    simp only [EvalState.remaining, htodo, hinflight]
    omega

/-- **The loops never get stuck**: there is a next step until they have ended. -/
theorem exists_step (h : EvalInv patch backend sampled skipped st.inflight st)
    (hmore : ¬ st.Finished) : ∃ st', EvalStep patch backend maxWorkers st st' := by
  -- a wait for everything that is under way
  have hwait : Blocked patch maxWorkers st → st.inflight ≠ [] →
      ∃ st', EvalStep patch backend maxWorkers st st' := by
    intro hblocked hsome
    have hall : st.inflight.Perm (st.inflight ++ []) := by simp
    obtain ⟨st', hharvest, _⟩ := exists_harvest h hall
    exact ⟨st', .wait hblocked hall hsome hharvest⟩
  cases htodo : st.todo with
  | nil =>
    have hsome : st.inflight ≠ [] := fun hnil => hmore ⟨htodo, hnil⟩
    refine hwait ?_ hsome
    rw [Blocked, htodo]
    exact hsome
  | cons pos todo =>
    have hpos : pos ∈ positions sampled := by
      refine h.accounted.mem_iff.mp ?_
      simp [accounted, htodo]
    obtain ⟨q, s, hsample⟩ := mem_positions.mp hpos
    have hat : planAt st.sampledData pos = some (q.plan, s) := by
      rw [h.data, decideAt, planAt_mapSamples]
      exact ⟨q, s, hsample, rfl, (if_neg (h.not_mem htodo).1).symm⟩
    cases hprepare : prepare patch q.plan s with
    | invalid errorMessage => exact ⟨_, .invalid htodo hat hprepare⟩
    | result v => exact ⟨_, .result htodo hat hprepare⟩
    | failed errorMessage => exact ⟨_, .failed htodo hat hprepare⟩
    | submit plan =>
      by_cases hroom : st.inflight.length < maxInflight maxWorkers
      · exact ⟨_, .submit htodo hat hprepare hroom⟩
      · have hfull : maxInflight maxWorkers ≤ st.inflight.length := Nat.le_of_not_lt hroom
        have hone : 1 ≤ maxInflight maxWorkers := by
          unfold maxInflight
          omega
        refine hwait ?_ (List.ne_nil_of_length_pos (by omega))
        rw [Blocked, htodo]
        exact ⟨q.plan, s, plan, hat, hprepare, hfull⟩

/-- What holds after every step of a run. -/
theorem evalInv_of_reach {n : Nat} (h : EvalReach patch backend maxWorkers sampled n st) :
    (∃ skipped, EvalInv patch backend sampled skipped st.inflight st) ∧
      n + st.remaining ≤ 2 * (positions sampled).length := by
  induction h with
  | start _ horder =>
    refine ⟨⟨[], evalInv_start horder⟩, ?_⟩
    simp [EvalState.remaining, horder.perm.length_eq]
  | step _ hstep ih =>
    obtain ⟨⟨skipped, hinv⟩, hle⟩ := ih
    obtain ⟨hinv', hlt⟩ := evalInv_of_step hinv hstep
    exact ⟨hinv', by omega⟩

/-- **When both loops have ended, every sample is given its verdict**, results and errors being
of different samples. -/
theorem writeBack_eq (h : EvalInv patch backend sampled skipped st.inflight st)
    (hfinished : st.Finished) :
    writeBack st = evaluateSampledPlans patch backend.engine sampled ∧
      (OrdDict.keys st.planResults ++ OrdDict.keys st.errors).Nodup := by
  have hplaces := h.accounted
  have hnodup := h.nodup
  rw [accounted, hfinished.1, hfinished.2] at hplaces hnodup
  simp only [List.map_nil, List.append_nil, List.append_assoc] at hplaces hnodup
  refine ⟨?_, (List.nodup_append.mp hnodup).2.1⟩
  rw [writeBack, h.data, foldl_updateSample Prod.fst Prod.snd _ _ h.results,
    foldl_updateSample Prod.fst (fun e => invalidVerdict (some e.2)) _ _ h.errors]
  refine decideAt_all fun pos hpos => ?_
  rw [List.append_assoc]
  exact hplaces.mem_iff.mpr hpos

/-! ## Verdicts -/

/-- What the verdict of a sample is: `s'` is `s` after the evaluation. -/
structure OwnVerdict (patch : JsonPatch) (backend : Backend) (pos : Nat × Nat) (originalPlan : Json)
    (s s' : SampledPlan) : Prop where
  rest : s' = s.update ⟨s'.isValid, s'.errorMessage, s'.evaluationStats⟩
  invalid : s.isValid = false →
    s'.isValid = false ∧ s'.errorMessage = s.errorMessage ∧ s'.evaluationStats = .null
  empty : s.isValid = true → s.sampledPatches = some [] →
    s'.isValid = true ∧ s'.errorMessage = none ∧ s'.evaluationStats = s.upstreamEvaluationStats
  patched : s.isValid = true → s.sampledPatches ≠ some [] → (s'.isValid = true ↔
    ∃ patches plan r, s.sampledPatches = some patches ∧
      applyPatchesToPlan patch originalPlan (s.upstreamPatches ++ patches) = .ok plan ∧
      backend.validate pos plan originalPlan = .ok none ∧
      backend.evaluate pos plan = .ok r ∧ r.failure? = none)
  measured : s.isValid = true → ∀ patches plan r, s.sampledPatches = some patches → patches ≠ [] →
    applyPatchesToPlan patch originalPlan (s.upstreamPatches ++ patches) = .ok plan →
    backend.validate pos plan originalPlan = .ok none → backend.evaluate pos plan = .ok r →
    r.failure? = none → s'.errorMessage = none ∧ s'.evaluationStats = r.stats

section

variable {pos : Nat × Nat} {originalPlan : Json} {s : SampledPlan}

/-- A plan that passes is valid, with what was measured. -/
theorem evaluatePlan_passes {patches : List Json} {plan : Json} {r : RunsResult}
    (hs : s.isValid = true) (hpatches : s.sampledPatches = some patches) (hne : patches ≠ [])
    (happly : applyPatchesToPlan patch originalPlan (s.upstreamPatches ++ patches) = .ok plan)
    (hvalidate : backend.validate pos plan originalPlan = .ok none)
    (hevaluate : backend.evaluate pos plan = .ok r) (hfailure : r.failure? = none) :
    evaluatePlan patch backend.engine pos originalPlan s = validResult s r.stats := by
  have hengine : backend.engine.evaluate pos plan = .ok r.stats := by
    simp only [Backend.engine, hevaluate, hfailure]
  have hvalidate' : backend.engine.validate pos plan originalPlan = .ok none := hvalidate
  obtain ⟨p, patches, rfl⟩ := List.exists_cons_of_ne_nil hne
  rw [evaluatePlan, if_neg (by simp [hs])]
  simp only [hpatches, happly, validateEvaluatePlan, hvalidate', hengine]

/-- And only such a plan is, among those with patches. -/
theorem evaluatePlan_passed (hne : s.sampledPatches ≠ some [])
    (h : (evaluatePlan patch backend.engine pos originalPlan s).isValid = true) :
    ∃ patches plan r, s.sampledPatches = some patches ∧
      applyPatchesToPlan patch originalPlan (s.upstreamPatches ++ patches) = .ok plan ∧
      backend.validate pos plan originalPlan = .ok none ∧
      backend.evaluate pos plan = .ok r ∧ r.failure? = none := by
  obtain ⟨patches, hpatches, h⟩ := evaluatePlan_valid h
  have hsome : patches ≠ [] := by
    rintro rfl
    exact hne hpatches
  rw [if_neg hsome] at h
  obtain ⟨plan, happly, hvalidate, hengine⟩ := h
  simp only [Backend.engine] at hengine
  cases hevaluate : backend.evaluate pos plan with
  | error exc =>
    rw [hevaluate] at hengine
    exact absurd hengine (by simp)
  | ok r =>
    refine ⟨patches, plan, r, hpatches, happly, hvalidate, hevaluate, ?_⟩
    cases hfailure : r.failure? with
    | none => rfl
    | some error =>
      simp only [hevaluate, hfailure] at hengine
      exact absurd hengine (by simp)

theorem ownVerdict_evaluatePlan : OwnVerdict patch backend pos originalPlan s
    (evaluatePlan patch backend.engine pos originalPlan s) where
  rest := evaluatePlan_cases (fun r => r = s.update ⟨r.isValid, r.errorMessage, r.evaluationStats⟩)
    (fun _ => rfl) fun _ => rfl
  invalid hs := by
    rw [evaluatePlan, if_pos hs]
    exact ⟨rfl, rfl, rfl⟩
  empty hs hempty := by
    rw [evaluatePlan, if_neg (by simp [hs])]
    simp only [hempty]
    exact ⟨rfl, rfl, rfl⟩
  patched hs hne := by
    constructor
    · exact evaluatePlan_passed hne
    · intro h
      obtain ⟨patches, plan, r, hpatches, happly, hvalidate, hevaluate, hfailure⟩ := h
      rw [evaluatePlan_passes hs hpatches (fun hnil => hne (hnil ▸ hpatches)) happly hvalidate
        hevaluate hfailure]
      rfl
  measured hs patches plan r hpatches hne happly hvalidate hevaluate hfailure := by
    rw [evaluatePlan_passes hs hpatches hne happly hvalidate hevaluate hfailure]
    exact ⟨rfl, rfl⟩

/-- Only the backend's answers for the sample matter. -/
theorem evaluatePlan_congr {backend' : Backend}
    (hvalidate : ∀ plan, backend'.validate pos plan originalPlan =
      backend.validate pos plan originalPlan)
    (hevaluate : ∀ plan, backend'.evaluate pos plan = backend.evaluate pos plan) :
    evaluatePlan patch backend'.engine pos originalPlan s =
      evaluatePlan patch backend.engine pos originalPlan s := by
  simp only [evaluatePlan, validateEvaluatePlan, Backend.engine, hvalidate, hevaluate]

end

/-- **Every sample gets exactly its own verdict.** Every run of the evaluation ends, and what it
writes back are the queries and samples it was given, each sample with its verdict. -/
theorem evaluateSampledPlans_ownVerdict (patch : JsonPatch) (backend : Backend) (maxWorkers : Int)
    (sampled : List SampledQuery) :
    (∀ n st, EvalReach patch backend maxWorkers sampled n st →
      n ≤ 2 * (positions sampled).length ∧
      (¬ st.Finished → ∃ st', EvalStep patch backend maxWorkers st st') ∧
      (st.Finished → writeBack st = evaluateSampledPlans patch backend.engine sampled ∧
        (OrdDict.keys st.planResults ++ OrdDict.keys st.errors).Nodup)) ∧
    (evaluateSampledPlans patch backend.engine sampled).length = sampled.length ∧
    ∀ i q, sampled[i]? = some q →
      ∃ q', (evaluateSampledPlans patch backend.engine sampled)[i]? = some q' ∧
        q' = { q with sampledPlans := q'.sampledPlans } ∧
        q'.sampledPlans.length = q.sampledPlans.length ∧
        ∀ j s, q.sampledPlans[j]? = some s → ∃ s', q'.sampledPlans[j]? = some s' ∧
          OwnVerdict patch backend (i, j) q.plan s s' ∧
          ∀ backend' : Backend,
            (∀ plan, backend'.validate (i, j) plan q.plan = backend.validate (i, j) plan q.plan) →
            (∀ plan, backend'.evaluate (i, j) plan = backend.evaluate (i, j) plan) →
            s' = evaluatePlan patch backend'.engine (i, j) q.plan s := by
  refine ⟨fun n st hreach => ?_, by simp [evaluateSampledPlans], fun i q hq => ?_⟩
  · obtain ⟨⟨skipped, hinv⟩, hle⟩ := evalInv_of_reach hreach
    exact ⟨by omega, exists_step hinv, writeBack_eq hinv⟩
  · rw [evaluateSampledPlans_eq_mapSamples, getElem?_mapSamples, hq]
    refine ⟨_, rfl, rfl, by simp, fun j s hs => ?_⟩
    refine ⟨_, ?_, ownVerdict_evaluatePlan,
      fun backend' hvalidate hevaluate => (evaluatePlan_congr hvalidate hevaluate).symm⟩
    simp [List.getElem?_zipIdx, hs]

end DbPlanBench.Sampling
