import DbPlanBench.Optimize.Benchmark
import DbPlanBench.Optimize.Duplicates
import DbPlanBench.Optimize.ScaleFactor
import DbPlanBench.Optimize.Sound
import DbPlanBench.Sampling.Budget

/-!
# What a result rests on

`optimize_queries` goes from queries to patches in phases, and each of them passes on only what it
has looked at. A query needs a plan of the engine that was validated, a plan of the user needs
the results of the engine's plan, the plan a query starts from is measured, and patches are
validated against that plan and measured. Nothing gets to the results past one of these checks
(`optimizeQueries_grounded`).

* `EnginePlan`, `StartingPlan`, `BaseMeasured`, `ResultMeasured` — what the phases have seen.
-/

namespace DbPlanBench.Optimize

open Sampling (Fault SamplingDir QueryData CuratedEntry CuratedDataset Step Reachable Params
  runSamplingSteps newDir prepareSampling prepareEntry originalPlan)

/-! ## What the phases see -/

/-- The query was validated, with this plan. -/
def EnginePlan (env : Env) (dataset : String) (kwargs : Kwargs) (i : Nat) (query : String)
    (plan : Json) : Prop :=
  ∃ stored rowCount, ownValidation env dataset kwargs (query, i) = .ok (.valid stored rowCount) ∧
    plan = parsedPlan env stored

/-- The plan of the user for a query, if there is one. -/
def userPlan (basePlans : Option (List (Option Json))) (i : Nat) : Option Json :=
  (basePlans.bind (·[i]?)).join

/-- The plan that a query starts from: that of the engine, or one of the user with its results. -/
inductive StartingPlan (env : Env) (dataset : String) (kwargs : Kwargs) (i : Nat)
    (enginePlan : Json) : Option Json → Json → Prop
  | engine : StartingPlan env dataset kwargs i enginePlan none enginePlan
  | user {plan : Json} (same : (validateOne env (dataFolderForDataset env dataset false .null) kwargs
      ((some plan, some enginePlan), i)).result = .ok none) :
      StartingPlan env dataset kwargs i enginePlan (some plan) plan

/-- The plan was measured without an error. -/
def BaseMeasured (env : Env) (run : BenchmarkRun) (i : Nat) (plan : Json) (stats : Kwargs) : Prop :=
  runJob env run ⟨i, 0, some plan, some []⟩ = .ok stats ∧ stats ≠ [] ∧ resultError stats = none

/-- In a step, the plan with the patches had the results of the plan without, and was measured. -/
def PatchesMeasured (env : Env) (call : Except PyErr EvaluationCall) (plan : Json)
    (patches : List Json) (stats : Json) : Prop :=
  ∃ (c : EvaluationCall) (step : Nat) (pos : Nat × Nat) (patched : Json) (fields : Kwargs),
    call = .ok c ∧ Sampling.applyPatchesToPlan env.patch plan patches = .ok patched ∧
    (validateSample env (.sample step pos.1 pos.2) patched plan (c.dataFolder env) c.execLocal
      c.kwargs).result = .ok none ∧
    (evaluateSample env (.sample step pos.1 pos.2) patched (c.dataFolder env) c.nRuns c.execLocal
      c.kwargs).result = .ok fields ∧
    resultError fields = none ∧ stats = .obj fields

/-- The result of a query, whose plan is `base`, was measured. -/
structure ResultMeasured (env : Env) (call : Except PyErr EvaluationCall) (base : Json)
    (baseStats : Kwargs) (plan : PatchedPlan) (data : QueryMetadata) : Prop where
  basePlan : plan.basePlan = some base
  baseStats : data.base = .obj baseStats
  patches : ∀ (j : Nat) (ops : List Json), plan.patch[j]? = some (some ops) → ∃ stats,
    data.patch[j]? = some (some stats) ∧
      ((ops = [] ∧ stats = data.base) ∨ PatchesMeasured env call base ops stats)

/-! ## The first phase -/

section

variable {env : Env} {queries : List String} {dataset : String} {scaleFactor maxWorkers : Int}
  {kwargs : Kwargs}

/-- Without failures, every query is there once and was validated. -/
theorem enginePlan_of_validated {planned : List (Option Json) × List (Option String)}
    (h : (validateAndPlanQueries env queries dataset scaleFactor maxWorkers kwargs false
      none).result = .ok planned) (hnone : ∀ failure ∈ planned.2, failure = none) :
    planned.1.length = queries.length ∧ queries.Nodup ∧
      ∀ (i : Nat) (query : String), queries[i]? = some query → ∃ plan,
        planned.1[i]? = some (some plan) ∧ EnginePlan env dataset kwargs i query plan := by
  obtain ⟨plans, failures⟩ := planned
  obtain ⟨v, hv, rfl, rfl⟩ := validateAndPlanQueries_result h
  obtain ⟨done, hharvested, hcomplete⟩ := harvested_of_validateQueries hv
  have hpasses : ∀ (i : Nat) (query : String), queries[i]? = some query → queries.count query = 1 ∧
      ∃ stored rowCount, ownValidation env dataset kwargs (query, i) =
        .ok (.valid stored rowCount) := by
    intro i query hquery
    have hmem : (query, i) ∈ queries.zipIdx := List.mk_mem_zipIdx_iff_getElem?.mpr hquery
    have hfailure := hnone _ (List.mem_map_of_mem hmem)
    rw [Option.or_eq_none_iff] at hfailure
    obtain ⟨hdead, hstored⟩ := hfailure
    refine (hharvested.passes_iff hcomplete hquery).mp
      ⟨(getLast?_categories hharvested.categories).mp hdead, ?_⟩
    by_contra hno
    rw [if_neg hno] at hstored
    exact absurd hstored (by simp)
  refine ⟨by rw [List.length_map, List.length_zipIdx], ?_, fun i query hquery => ?_⟩
  · refine List.nodup_iff_count_le_one.mpr fun query => ?_
    by_cases hmem : query ∈ queries
    · obtain ⟨i, hi⟩ := List.getElem?_of_mem hmem
      exact (hpasses i query hi).1.le
    · rw [List.count_eq_zero_of_not_mem hmem]
      exact Nat.zero_le 1
  · obtain ⟨hone, stored, rowCount, hown⟩ := hpasses i query hquery
    refine ⟨parsedPlan env stored, ?_, stored, rowCount, hown, rfl⟩
    rw [List.getElem?_map, List.getElem?_zipIdx, hquery, Option.map_some, Option.map_some,
      Nat.zero_add, hharvested.get?_byId hcomplete hquery hone hown]

/-! ## Plans of the user -/

theorem validated_of_gather {outcomes : List (Except PyErr (Option String))}
    {failures : List (Option String)} (h : gather env outcomes = .ok failures)
    (hnone : failures.any (·.isSome) = false) : ∀ outcome ∈ outcomes, outcome = .ok none := by
  intro outcome houtcome
  obtain ⟨failure, hmem, heq⟩ := Except.ok_of_mapM (gather_eq_ok.mp h) outcome houtcome
  have hfailure : failure = none := by
    have hsome := List.any_eq_false.mp hnone failure hmem
    exact Option.not_isSome_iff_eq_none.mp hsome
  exact hfailure ▸ heq

/-- Without failures, every query starts from a plan that was looked at. -/
theorem startingPlan_of_integrated {userPlans : Option (List (Option Json))}
    {enginePlans : List (Option Json)} {integrated : Integrated}
    (h : (integrateUserBasePlans env userPlans enginePlans dataset kwargs maxWorkers false).result =
      .ok integrated) (hnone : integrated.userPlanFailures = none)
    (hlen : ∀ plans, userPlans = some plans → plans.length = enginePlans.length) :
    integrated.plans.length = enginePlans.length ∧
      ∀ (i : Nat) (enginePlan : Json), enginePlans[i]? = some (some enginePlan) → ∃ plan,
        integrated.plans[i]? = some (some plan) ∧
          StartingPlan env dataset kwargs i enginePlan (userPlan userPlans i) plan := by
  unfold integrateUserBasePlans at h
  cases userPlans with
  | none =>
    obtain rfl := Except.ok.inj h
    exact ⟨rfl, fun i enginePlan hi => ⟨enginePlan, hi, .engine⟩⟩
  | some userPlans =>
    have hlen := hlen userPlans rfl
    dsimp only at h
    rw [if_neg (by decide)] at h
    obtain ⟨_, _, hloop⟩ := Logged.result_bind.mp h
    obtain ⟨outcomes, houtcomes, hgather⟩ := Logged.result_bind.mp hloop
    obtain ⟨failures, hfailures, hlast⟩ := Logged.result_bind.mp hgather
    rw [Logged.result_forEach_attempt] at houtcomes
    obtain rfl := Except.ok.inj houtcomes
    split at hlast
    next =>
      obtain rfl := Except.ok.inj hlast
      exact absurd hnone (by simp)
    next hany =>
      obtain rfl := Except.ok.inj hlast
      have hvalid := validated_of_gather hfailures (Bool.eq_false_iff.mpr hany)
      refine ⟨by rw [List.length_zipWith, hlen, Nat.min_self], fun i enginePlan hi => ?_⟩
      have hlt := (List.getElem?_eq_some_iff.mp hi).1
      obtain ⟨user, huser⟩ : ∃ user, userPlans[i]? = some user :=
        ⟨_, List.getElem?_eq_getElem (hlen ▸ hlt)⟩
      have hjoin : userPlan (some userPlans) i = user := by
        rw [userPlan, Option.bind_some, huser, Option.join_some]
      have hplan : (userPlans.zipWith (fun user engine => user.orElse fun _ => engine)
          enginePlans)[i]? = some (user.orElse fun _ => some enginePlan) := by
        rw [List.getElem?_zipWith, huser, hi]
      rw [hjoin]
      cases user with
      | none => exact ⟨enginePlan, hplan, .engine⟩
      | some plan =>
        refine ⟨plan, hplan, .user (hvalid _ (List.mem_map_of_mem
          (List.mem_zipIdx_iff_getElem?.mpr ?_)))⟩
        rw [List.getElem?_zip_eq_some]
        exact ⟨huser, hi⟩

/-! ## Base plans -/

/-- Without failures, every query's plan was measured, and is curated with what was measured. -/
theorem baseMeasured_of_curated {nRuns : Int} {plans : List (Option Json)}
    {entries : List CuratedEntry}
    (h : (evaluateAndCurateBasePlans env queries plans dataset scaleFactor nRuns maxWorkers
      kwargs).result = .ok (.inr entries)) (hlen : plans.length = queries.length) :
    ∃ run, benchmarkSetup env dataset scaleFactor nRuns maxWorkers kwargs = .ok run ∧
      entries.length = queries.length ∧
      ∀ (i : Nat) (query : String) (plan : Json), queries[i]? = some query →
        plans[i]? = some (some plan) → ∃ stats, BaseMeasured env run i plan stats ∧
          entries[i]? = some ⟨i, query, plan, .int 0, .int 0, .obj stats⟩ := by
  unfold evaluateAndCurateBasePlans at h
  obtain ⟨args, hargs, hbenchmark⟩ := Logged.result_bind.mp h
  obtain ⟨results, hresults, hlast⟩ := Logged.result_bind.mp hbenchmark
  rw [without_callKwargs hargs, ← benchmarkPlansPooled_eq env fun _ => Equiv.refl _] at hresults
  obtain ⟨run, hrun, _⟩ := Except.bind_eq_ok.mp hresults
  obtain ⟨results', hresults', haligned⟩ := benchmarkPlansPooled_spec
    (fun _ => Equiv.refl _) (plans.map fun plan => ⟨plan, [some []]⟩) hrun
  obtain rfl := Except.ok.inj (hresults.symm.trans hresults')
  have hresultsLen : results.length = plans.length := by
    rw [haligned.length, List.length_map]
  dsimp only at hlast
  split at hlast
  next =>
    have hnever := Except.ok.inj hlast
    exact absurd hnever (by simp)
  next hany =>
    have hentries := Sum.inr.inj (Except.ok.inj hlast)
    subst hentries
    refine ⟨run, hrun, by simp [hlen, hresultsLen], fun i query plan hquery hplan => ?_⟩
    have hi := (List.getElem?_eq_some_iff.mp hplan).1
    obtain ⟨row, hrow⟩ : ∃ row, results[i]? = some row :=
      ⟨_, List.getElem?_eq_getElem (hresultsLen ▸ hi)⟩
    have hpatched : (plans.map fun plan => (⟨plan, [some []]⟩ : PatchedPlan))[i]? =
        some ⟨some plan, [some []]⟩ := by
      rw [List.getElem?_map, hplan]
      rfl
    obtain ⟨stats, hstats, hjob⟩ := haligned.entries i 0 _ row _ hpatched hrow rfl
    have hhead : row.head? = some stats := by
      rw [List.head?_eq_getElem?]
      exact hstats
    have hok : evaluationFailure row = none := by
      by_contra hfailure
      exact hany (List.any_eq_true.mpr ⟨evaluationFailure row,
        List.mem_map_of_mem (List.mem_of_getElem? hrow), Option.isSome_iff_ne_none.mpr hfailure⟩)
    rw [evaluationFailure, hhead] at hok
    dsimp only [Option.getD_some] at hok
    split at hok
    next => exact absurd hok (by simp)
    next hne =>
      refine ⟨stats, ⟨hjob, hne, hok⟩, ?_⟩
      have hzip : (queries.zip (plans.zip results))[i]? = some (query, some plan, row) := by
        rw [List.getElem?_zip_eq_some, List.getElem?_zip_eq_some]
        exact ⟨hquery, hplan, hrow⟩
      rw [List.getElem?_map, List.getElem?_zipIdx, hzip, Option.map_some, Option.map_some,
        Nat.zero_add, curatedEntry, hhead]
      rfl

end

/-! ## Sampling -/

section

variable {p : Params} {curated : CuratedDataset} {name : String} {k : Nat} {dir t : SamplingDir}

/-- The accumulated state has come from the prepared dataset by steps whose engine is the run's. -/
def SteppedBy (p : Params) (curated : CuratedDataset) (name : String) (dir : SamplingDir) : Prop :=
  ∃ log state, dir.final = some state ∧ Reachable p.patch curated name log state ∧
    List.Forall₂ Grown (prepareSampling curated name) state ∧
    ∀ r ∈ log, ∃ k, r.2.engine = p.engine k

theorem steppedBy_loopStep (hd : Sampling.Completed dir k) (h : SteppedBy p curated name dir)
    (hstep : (Sampling.loopStep p (k + 1) dir).result = .ok t) : SteppedBy p curated name t := by
  obtain ⟨log, state, hfinal, hreach, hgrown, hengines⟩ := h
  obtain ⟨evaluated, hm⟩ :=
    Sampling.merges_of_loopStep hd hfinal (Sampling.reachable_inv hreach) hstep
  refine ⟨_, _, hm.final, hreach.step hm.run, ?_, fun r hr => ?_⟩
  · exact List.forall₂_map_right_iff.mpr (hgrown.imp fun q q' h => h.trans (grown_addSamples _ q'))
  · rcases List.mem_append.mp hr with hr | hr
    · exact hengines r hr
    · rw [List.mem_singleton.mp hr]
      exact ⟨k + 1, rfl⟩

/-- **All steps of a run are its own.** -/
theorem steppedBy_of_run
    (h : (runSamplingSteps p (newDir (prepareSampling curated name))).result = .ok t) :
    SteppedBy p curated name t := by
  obtain ⟨s, hs, hrest⟩ := Traced.result_andThen.mp h
  obtain ⟨s', hs', htop⟩ := Traced.result_andThen.mp hrest
  rw [Sampling.startRun_newDir] at hs
  obtain rfl := Except.ok.inj hs
  rw [Sampling.loopSteps_newDir] at hs'
  have hstart : SteppedBy p curated name { newDir (prepareSampling curated name) with
      final := some (prepareSampling curated name) } :=
    ⟨[], _, rfl, .prepare, List.forall₂_same.mpr fun q _ => Grown.refl q,
      fun r hr => absurd hr List.not_mem_nil⟩
  have hloop := Traced.forEach_range'_result (f := Sampling.loopStep p) (P := fun k s => ∃ j,
    k = j + 1 ∧ Sampling.Budgeted p curated name j s ∧ SteppedBy p curated name s)
    (fun k s t hP hstep => ?_) p.nSteps.toNat 1 _ s'
    ⟨0, rfl, Sampling.budgeted_start p curated name, hstart⟩ hs'
  · obtain ⟨j, hj, hb, hstepped⟩ := hloop
    obtain rfl : j = p.nSteps.toNat := by omega
    rw [Sampling.topUp_of_budgeted hb] at htop
    obtain rfl := Except.ok.inj htop
    exact hstepped
  · obtain ⟨j, rfl, hb, hstepped⟩ := hP
    exact ⟨j + 1, rfl, Sampling.budgeted_loopStep hb hstep,
      steppedBy_loopStep hb.completed hstepped hstep⟩

theorem grown_prepared (p : Params) (stats : Json) : Sampling.Grown p 0 [originalPlan stats] := by
  refine ⟨Sampling.sampleTree_originalPlan stats, ?_, fun j hj hk => ?_⟩
  · rw [Nat.zero_mul]
    rfl
  · omega

/-- **A run with steps has plans with a structure**, where its first step applies patches. -/
theorem hasStructure_of_run {entries : List CuratedEntry} (hsteps : 0 < p.nSteps)
    (h : (runSamplingSteps p (newDir (entries.map (prepareEntry name)))).result = .ok t) :
    ∀ e ∈ entries, ∃ fields s, e.plan = .obj fields ∧
      OrdDict.get? fields "structure" = some s := by
  obtain ⟨s, hs, hrest⟩ := Traced.result_andThen.mp h
  obtain ⟨s', hs', _⟩ := Traced.result_andThen.mp hrest
  rw [Sampling.startRun_newDir] at hs
  obtain rfl := Except.ok.inj hs
  obtain ⟨m, hm⟩ : ∃ m, p.nSteps.toNat = m + 1 := ⟨p.nSteps.toNat - 1, by omega⟩
  rw [Sampling.loopSteps_newDir, hm, List.range'_succ] at hs'
  obtain ⟨_, hfirst, _⟩ := Traced.result_andThen.mp hs'
  obtain ⟨_, hsample, _⟩ := Traced.result_andThen.mp hfirst
  rcases Sampling.sampleFile_result hsample with ⟨_, hk, _⟩ | ⟨final, sampled, hfinal, hsampled, _⟩
  · exact absurd hk List.not_mem_nil
  obtain rfl := Option.some.inj hfinal
  intro e he
  obtain ⟨i, hi⟩ := List.getElem?_of_mem he
  have hq : (entries.map (prepareEntry name))[i]? = some (prepareEntry name e) := by
    rw [List.getElem?_map, hi]
    rfl
  obtain ⟨bases, items, hbases, hitems, _⟩ :=
    (Sampling.samplePlansFromFile_query hsampled).2 i _ hq
  -- a step without base plans would have no samples
  have hlen := (Sampling.parentLaw_of_bases (grown_prepared p e.evaluationStats) hbases).1
  cases bases with
  | nil => exact absurd hlen (Nat.ne_of_lt p.samplesPos)
  | cons base bases =>
    obtain ⟨item, _, hitem⟩ := Except.ok_of_mapM hitems (prepareEntry name e, base)
      (List.mem_cons_self ..)
    unfold Sampling.batchItem at hitem
    split at hitem
    next patched hpatched =>
      unfold Sampling.applyPatchesToPlan at hpatched
      split at hpatched
      next fields hplan =>
        split at hpatched
        next s hstructure => exact ⟨fields, s, hplan, hstructure⟩
        next => exact absurd hpatched (by simp)
      next => exact absurd hpatched (by simp)
    next => exact absurd hitem (by simp)

end

/-! ## Results -/

section

variable {env : Env} {call : Except PyErr EvaluationCall} {queries : List String}
  {entries : List CuratedEntry} {model metric : String} {state : List QueryData} {n i : Nat} {k : Int}
  {out : SamplingResults}

/-- Whatever is chosen for a query of the state was measured. -/
def ChosenMeasured (env : Env) (call : Except PyErr EvaluationCall) (metric : String)
    (state : List QueryData) : Prop :=
  ∀ q ∈ state, ∀ (n : Nat) (plan : PatchedPlan) (data : QueryMetadata) (chosen : List Contender),
    TopK metric n q plan data chosen → ∀ c ∈ chosen, ∀ ops, contenderPatches q c = .ok ops →
      (ops = [] ∧ contenderStats q c = orEmpty (baseEvaluation q.sampledPlans)) ∨
        PatchesMeasured env call q.plan ops (contenderStats q c)

/-- The entries of a curated dataset are those of the queries, at their positions. -/
def CuratedFor (queries : List String) (entries : List CuratedEntry) : Prop :=
  ∀ (i : Nat) (e : CuratedEntry), entries[i]? = some e → e.id = i ∧ queries[i]? = some e.query

/-- The samples that are found for a query have come from its own entry. -/
theorem grown_of_found (hgrown : List.Forall₂ Grown (entries.map (prepareEntry model)) state)
    (hcurated : CuratedFor queries entries) (hnodup : queries.Nodup) {query : String}
    (hquery : queries[i]? = some query) {e : CuratedEntry} (he : entries[i]? = some e)
    {q : QueryData} (hq : queryData (samplingIndex state n) i query = .ok q) :
    q ∈ state ∧ Grown (prepareEntry model e) q := by
  obtain ⟨hmem, hfound⟩ := mem_of_queryData hq
  refine ⟨hmem, ?_⟩
  obtain ⟨j, hj, hqj⟩ := List.getElem_of_mem hmem
  have hlen : j < (entries.map (prepareEntry model)).length := hgrown.length_eq ▸ hj
  have hown := List.forall₂_iff_get.mp hgrown |>.2 j hlen hj
  rw [List.get_eq_getElem, List.get_eq_getElem, List.getElem_map, hqj] at hown
  rw [List.length_map] at hlen
  obtain ⟨hid, htext⟩ := hcurated j entries[j] (List.getElem?_eq_getElem hlen)
  -- it is found under the position, or under the text, of which there is only one
  have hji : j = i := by
    rcases hfound with hi | ht
    · rw [← hi, hown.id]
      exact hid.symm
    · rw [← ht, hown.query] at hquery
      have hlt := (List.getElem?_eq_some_iff.mp htext).1
      exact (List.getElem?_inj hlt hnodup).mp (htext.trans hquery.symm)
  subst hji
  rw [List.getElem?_eq_getElem hlen] at he
  exact Option.some.inj he ▸ hown

theorem resultMeasured_of_chosen
    (hgrown : List.Forall₂ Grown (entries.map (prepareEntry model)) state)
    (hchosen : ChosenMeasured env call metric state) (hcurated : CuratedFor queries entries)
    (hnodup : queries.Nodup) (hk : 1 ≤ k)
    (hout : processSamplingResults queries (samplingIndex state n) metric k = .ok out)
    {e : CuratedEntry} (he : entries[i]? = some e) {stats : Kwargs}
    (hstats : e.evaluationStats = .obj stats) (hne : stats ≠ []) :
    ∃ plan data, out.optimizationOutcome[i]? = some plan ∧ out.metadata[i]? = some data ∧
      ResultMeasured env call e.plan stats plan data := by
  obtain ⟨_, _, hresult⟩ := queryResult_of_processSamplingResults hout
  have hquery := (hcurated i e he).2
  obtain ⟨q, plan, data, hq, hplan, hdata, hranked⟩ := hresult i e.query hquery
  obtain ⟨chosen, htop⟩ := rankQuery_topK hk hranked
  obtain ⟨hmem, hown⟩ := grown_of_found hgrown hcurated hnodup hquery he hq
  have hbase : data.base = .obj stats := by
    have hroot : ∃ r ∈ (prepareEntry model e).sampledPlans, r.sampleId = none :=
      ⟨_, List.mem_singleton.mpr rfl, rfl⟩
    rw [htop.base, hown.baseEvaluation_eq hroot]
    show orEmpty e.evaluationStats = _
    rw [hstats, orEmpty, if_pos (by simpa [Json.truthy] using hne)]
  refine ⟨plan, data, hplan, hdata, ⟨?_, hbase, fun j ops hops => ?_⟩⟩
  · rw [htop.basePlan, hown.plan]
    rfl
  · obtain ⟨c, hc, hpatches⟩ := htop.patch_iff.mp hops
    refine ⟨contenderStats q c, htop.stats_iff.mpr ⟨c, hc, rfl⟩, ?_⟩
    have hmeasured := hchosen q hmem _ _ _ _ htop c (List.mem_of_getElem? hc) ops hpatches
    rw [htop.base]
    rw [hown.plan] at hmeasured
    exact hmeasured

/-- What the engine of a step measured. -/
theorem patchesMeasured_of_measuredIn {c : EvaluationCall} {log : List (List QueryData × Step)}
    (hengines : ∀ r ∈ log, ∃ k, r.2.engine = c.engine env k) {plan stats : Json} {ops : List Json}
    (h : MeasuredIn env.patch log plan ops stats) : PatchesMeasured env (.ok c) plan ops stats := by
  obtain ⟨r, hr, pos, patched, hpatched, hvalid, hstats⟩ := h
  obtain ⟨step, hengine⟩ := hengines r hr
  rw [hengine] at hvalid hstats
  have hvalid := Except.mapError_eq_ok.mp hvalid
  dsimp only [EvaluationCall.engine] at hstats
  split at hstats
  next => exact absurd hstats (by simp)
  next fields hfields =>
    split at hstats
    next => exact absurd hstats (by simp)
    next herror =>
      injection hstats with hstats
      exact ⟨c, step, pos, patched, fields, rfl, hpatched, hvalid, hfields, herror, hstats.symm⟩

theorem chosenMeasured_of_stepped {c : EvaluationCall} {curated : CuratedDataset}
    {log : List (List QueryData × Step)} (hpatch : ∀ s, env.patch s [] = .ok s)
    (hreach : Reachable env.patch curated model log state)
    (hengines : ∀ r ∈ log, ∃ k, r.2.engine = c.engine env k) :
    ChosenMeasured env (.ok c) metric state := by
  intro q hq n plan data chosen htop contender hcontender ops hops
  rcases backed_of_chosen hpatch hreach hq htop hcontender hops with hbase | hmeasured
  · exact .inl hbase
  · exact .inr (patchesMeasured_of_measuredIn hengines hmeasured)

/-- Without samples only the base plan is there to be chosen. -/
theorem chosenMeasured_prepared :
    ChosenMeasured env call metric (entries.map (prepareEntry model)) := by
  intro q hq n plan data chosen htop c hc ops hops
  obtain ⟨e, _, rfl⟩ := List.mem_map.mp hq
  have hnone : eligible metric (prepareEntry model e) = [] :=
    List.filter_eq_nil_iff.mpr fun p hp => by
      rw [List.mem_singleton.mp hp]
      simp [originalPlan]
  have hin := htop.smallest.mem hc
  rw [contenders, hnone, List.map_nil, List.mem_singleton] at hin
  subst hin
  injection hops with hops
  exact .inl ⟨hops.symm, rfl⟩

/-- **What sampling ends with was measured**, on plans it has found a structure in if need be. -/
theorem chosenMeasured_of_sampling {req : Request} {prepared : Prepared req} {dir : SamplingDir}
    (hpatch : ∀ s, env.patch s [] = .ok s) (hcurated : CuratedFor queries entries)
    (h : (runOptimizationSampling env req prepared entries).result = .ok dir)
    (hfinal : dir.final = some state) :
    List.Forall₂ Grown (entries.map (prepareEntry req.model)) state ∧
      ChosenMeasured env (evaluationCall req.dataset req.nRuns req.maxWorkers
        prepared.evaluationKwargs) metric state := by
  unfold runOptimizationSampling at h
  dsimp only at h
  split at h
  next =>
    obtain rfl := Except.ok.inj h
    obtain rfl := Option.some.inj hfinal
    exact ⟨List.forall₂_same.mpr fun q _ => Grown.refl q, chosenMeasured_prepared⟩
  next hsteps =>
    obtain ⟨c, hc, hrun⟩ := Logged.result_bind.mp h
    have hc := Except.mapError_eq_ok.mp hc
    have hids : entries.map (·.id) = List.range entries.length := by
      refine List.ext_getElem? fun i => ?_
      rw [List.getElem?_map]
      rcases Nat.lt_or_ge i entries.length with hi | hi
      · rw [List.getElem?_eq_getElem hi, List.getElem?_range hi]
        exact congrArg some (hcurated i _ (List.getElem?_eq_getElem hi)).1
      · rw [List.getElem?_eq_none hi, List.getElem?_eq_none (by rw [List.length_range]; exact hi)]
        rfl
    let curated : CuratedDataset := ⟨entries, hids ▸ List.nodup_range,
      hasStructure_of_run (p := samplingParams env req prepared c) (by
        show 0 < req.nSteps
        omega) hrun⟩
    have hstepped : SteppedBy (samplingParams env req prepared c) curated req.model dir :=
      steppedBy_of_run hrun
    obtain ⟨log, state', hstate, hreach, hgrown, hengines⟩ := hstepped
    obtain rfl := Option.some.inj (hfinal.symm.trans hstate)
    rw [hc]
    exact ⟨hgrown, chosenMeasured_of_stepped hpatch hreach hengines⟩

end

/-! ## The whole run -/

/-- What the result of a query rests on: its plan of the engine was validated, the plan that it
starts from is that one or had its results, and was measured, and all patches were measured. -/
def Grounded (env : Env) (req : Request) (prepared : Prepared req) (run : BenchmarkRun)
    (out : SamplingResults) (i : Nat) (query : String) : Prop :=
  ∃ enginePlan base stats plan data,
    EnginePlan env req.dataset prepared.validateKwargs i query enginePlan ∧
    StartingPlan env req.dataset prepared.validateKwargs i enginePlan (userPlan req.basePlans i)
      base ∧
    BaseMeasured env run i base stats ∧
    out.optimizationOutcome[i]? = some plan ∧ out.metadata[i]? = some data ∧
    ResultMeasured env (evaluationCall req.dataset req.nRuns req.maxWorkers
      prepared.evaluationKwargs) base stats plan data

/-- `optimize_queries` on a new run, up to the results; none after an early exit. -/
def optimizationResults (env : Env) (req : Request) : Except Fault (Option SamplingResults) := do
  match ← (optimizeQueries env req).result with
  | .earlyExit _ => return none
  | .optimized dir =>
    match dir.final with
    | none => .error (.raised (.runtimeError "No such file or directory"))
    | some state => do
      let out ← processSamplingResults req.queries (samplingIndex state req.queries.length)
        req.optimizationMetric req.topKPatches
      return some out

section

variable {env : Env} {req : Request}

/-- What the phases before sampling have seen of a query, and its entry in the curated dataset. -/
def Seen (env : Env) (req : Request) (prepared : Prepared req) (run : BenchmarkRun)
    (entries : List CuratedEntry) (i : Nat) (query : String) : Prop :=
  ∃ enginePlan base stats,
    EnginePlan env req.dataset prepared.validateKwargs i query enginePlan ∧
    StartingPlan env req.dataset prepared.validateKwargs i enginePlan (userPlan req.basePlans i)
      base ∧
    BaseMeasured env run i base stats ∧
    entries[i]? = some ⟨i, query, base, .int 0, .int 0, .obj stats⟩

/-- **A run that gets to sampling** has seen every query in the phases before. -/
theorem seen_of_optimized (hvalidation : req.skipValidation = false) {dir : SamplingDir}
    (h : (optimizeQueries env req).result = .ok (.optimized dir)) :
    ∃ prepared run entries, prepare env req = .ok prepared ∧
      benchmarkSetup env req.dataset prepared.scaleFactor req.nRuns req.maxWorkers
        prepared.evaluationKwargs = .ok run ∧
      (runOptimizationSampling env req prepared entries).result = .ok dir ∧
      1 ≤ req.topKPatches ∧ req.queries.Nodup ∧ entries.length = req.queries.length ∧
      ∀ (i : Nat) (query : String), req.queries[i]? = some query →
        Seen env req prepared run entries i query := by
  obtain ⟨prepared, hprepared, hphases⟩ := Logged.result_bind.mp h
  have hprepared := Except.mapError_eq_ok.mp hprepared
  obtain ⟨pos, hparameters, _⟩ := Except.bind_eq_ok.mp hprepared
  have hchecked := parametersAccepted_of_ok hparameters
  unfold optimizePrepared at hphases
  rw [hvalidation] at hphases
  obtain ⟨planned, hplanned, hphases⟩ := Logged.result_bind.mp hphases
  have hplanned := Except.mapError_eq_ok.mp hplanned
  split at hphases
  next => exact absurd (Except.ok.inj hphases) (by simp)
  next hfailures =>
    have hnone : ∀ failure ∈ planned.2, failure = none := by
      intro failure hmem
      by_contra hsome
      exact hfailures (List.any_eq_true.mpr ⟨failure, hmem, Option.isSome_iff_ne_none.mpr hsome⟩)
    obtain ⟨hlen, hnodup, hengine⟩ := enginePlan_of_validated hplanned hnone
    obtain ⟨integrated, hintegrated, hphases⟩ := Logged.result_bind.mp hphases
    have hintegrated := Except.mapError_eq_ok.mp hintegrated
    split at hphases
    next => exact absurd (Except.ok.inj hphases) (by simp)
    next huser =>
      obtain ⟨hlen', hstart⟩ := startingPlan_of_integrated hintegrated huser fun plans hplans =>
        (hchecked.basePlans plans hplans).trans hlen.symm
      obtain ⟨curated, hcurated, hphases⟩ := Logged.result_bind.mp hphases
      have hcurated := Except.mapError_eq_ok.mp hcurated
      cases curated with
      | inl failures => exact absurd (Except.ok.inj hphases) (by simp)
      | inr entries =>
        obtain ⟨dir', hdir, hlast⟩ := Logged.result_bind.mp hphases
        have hsame := Outcome.optimized.inj (Except.ok.inj hlast)
        rw [hsame] at hdir
        obtain ⟨run, hrun, hentriesLen, hbase⟩ :=
          baseMeasured_of_curated hcurated (hlen'.trans hlen)
        refine ⟨prepared, run, entries, hprepared, hrun, hdir, hchecked.topKPatches, hnodup,
          hentriesLen, fun i query hquery => ?_⟩
        obtain ⟨enginePlan, hplan, hvalid⟩ := hengine i query hquery
        obtain ⟨base, hbasePlan, hstarting⟩ := hstart i enginePlan hplan
        obtain ⟨stats, hmeasured, hentry⟩ := hbase i query base hquery hbasePlan
        exact ⟨enginePlan, base, stats, hvalid, hstarting, hmeasured, hentry⟩

theorem curatedFor_of_seen {prepared : Prepared req} {run : BenchmarkRun}
    {entries : List CuratedEntry} (hlen : entries.length = req.queries.length)
    (h : ∀ (i : Nat) (query : String), req.queries[i]? = some query →
      Seen env req prepared run entries i query) : CuratedFor req.queries entries := by
  intro i e he
  have hi := (List.getElem?_eq_some_iff.mp he).1
  have hquery := List.getElem?_eq_getElem (hlen ▸ hi)
  obtain ⟨_, _, _, _, _, _, hentry⟩ := h i _ hquery
  obtain rfl := Option.some.inj (he.symm.trans hentry)
  exact ⟨rfl, hquery⟩

end

/-- **A run that returns results has looked at all that they rest on.** In a run with validation,
whatever the engine and the model answer, every query is there once, and its result is grounded. -/
theorem optimizeQueries_grounded (env : Env) (hpatch : ∀ s, env.patch s [] = .ok s) (req : Request)
    (hvalidation : req.skipValidation = false) {out : SamplingResults}
    (h : optimizationResults env req = .ok (some out)) :
    ∃ prepared run, prepare env req = .ok prepared ∧
      benchmarkSetup env req.dataset prepared.scaleFactor req.nRuns req.maxWorkers
        prepared.evaluationKwargs = .ok run ∧
      req.queries.Nodup ∧ out.optimizationOutcome.length = req.queries.length ∧
      ∀ (i : Nat) (query : String), req.queries[i]? = some query →
        Grounded env req prepared run out i query := by
  obtain ⟨outcome, houtcome, hresults⟩ := Except.bind_eq_ok.mp h
  cases outcome with
  | earlyExit failures => exact absurd (Except.ok.inj hresults) (by simp)
  | optimized dir =>
    dsimp only at hresults
    split at hresults
    next => exact absurd hresults (by simp)
    next state hfinal =>
      obtain ⟨out', hout, hlast⟩ := Except.bind_eq_ok.mp hresults
      obtain rfl := Option.some.inj (Except.ok.inj hlast)
      obtain ⟨prepared, run, entries, hprepared, hrun, hdir, hk, hnodup, hlen, hseen⟩ :=
        seen_of_optimized hvalidation houtcome
      have hcurated := curatedFor_of_seen hlen hseen
      obtain ⟨hgrown, hchosen⟩ := chosenMeasured_of_sampling hpatch hcurated hdir hfinal
      refine ⟨prepared, run, hprepared, hrun, hnodup,
        (queryResult_of_processSamplingResults hout).1, fun i query hquery => ?_⟩
      obtain ⟨enginePlan, base, stats, hvalid, hstarting, hmeasured, hentry⟩ := hseen i query hquery
      obtain ⟨plan, data, hplan, hdata, hresult⟩ :=
        resultMeasured_of_chosen hgrown hchosen hcurated hnodup hk hout hentry rfl hmeasured.2.1
      exact ⟨enginePlan, base, stats, plan, data, hvalid, hstarting, hmeasured, hplan, hdata,
        hresult⟩

/-- A patch makes any plan faster. -/
def fasterEnv : Env := { oneRowEnv with
  answer := fun site operation index =>
    match site, operation with
    | .sample .., .evaluate => .ok [("execution_time", .int 1)]
    | _, .evaluate => .ok [("execution_time", .int 2)]
    | _, _ => oneRowEnv.answer site operation index
  computeMetricStats := fun runs => [("min", runs.headD .null)]
  patch := fun s ops => .ok (if ops = [] then s else .obj [("0", .int 7)])
  llm := fun _ _ _ _ _ => ⟨⟨.null, .null, .null, .null, .null⟩, none, some [.int 7]⟩ }

/-- A query with a plan of the user. -/
def userQuery : Request :=
  { oneQuery 3 with basePlans := some [some (.obj [("structure", .obj [("1", .null)])])] }

/-- The patch of the user's plan is reported, and all was looked at. -/
theorem optimizeQueries_grounded_userQuery : ∃ out prepared run,
    optimizationResults fasterEnv userQuery = .ok (some out) ∧
      (out.optimizationOutcome[0]?.bind fun plan => plan.patch[0]?) = some (some [.int 7]) ∧
      Grounded fasterEnv userQuery prepared run out 0 "SELECT 1" := by
  have hreported : (optimizationResults fasterEnv userQuery).map (fun out => out.bind fun out =>
      out.optimizationOutcome[0]?.bind fun plan => plan.patch[0]?) =
        .ok (some (some [.int 7])) := by decide +kernel
  obtain ⟨found, hfound, hpatches⟩ := Except.map_eq_ok.mp hreported
  obtain ⟨out, rfl, hops⟩ := Option.bind_eq_some_iff.mp hpatches
  obtain ⟨prepared, run, _, _, _, _, hgrounded⟩ := optimizeQueries_grounded fasterEnv
    (fun _ => rfl) userQuery rfl hfound
  exact ⟨out, prepared, run, hfound, hops, hgrounded 0 "SELECT 1" rfl⟩

end DbPlanBench.Optimize
