import DbPlanBench.Optimize.TopK
import DbPlanBench.Sampling.Reported

/-!
# What a run reports

Whatever sampling steps a run takes, and whatever the model answers in them, the patches
that are reported at the end were accepted and measured by the engine, as they are
reported and with the statistics that are reported (`processSamplingResults_sound`). A
sample without patches of its own takes over the statistics of an entry above it, which may
have taken them over in turn; `backed_of_nearestValid` follows them up the tree.

Further steps only add samples, so the best patches of a longer run are no worse, rank by rank
(`processSamplingResults_improves`).
-/

namespace DbPlanBench.Optimize

open Sampling (JsonPatch Step CuratedDataset PlanInfo QueryData Chain NearestValid ChainTree
  Reachable Later SamplesInv StateInv addSamples markParent keyLe Fault)

/-! ## Patches with their statistics -/

/-- In a step of the run the engine accepted the plan with the patches, and this is what it measured. -/
def MeasuredIn (patch : JsonPatch) (log : List (List QueryData × Step)) (plan : Json)
    (patches : List Json) (stats : Json) : Prop :=
  ∃ r ∈ log, ∃ pos, Sampling.Measured patch r.2.engine pos plan patches stats

/-- No patches with the statistics of the base plan, or patches that were measured. -/
def Backed (patch : JsonPatch) (log : List (List QueryData × Step)) (q : QueryData)
    (patches : List Json) (stats : Json) : Prop :=
  (patches = [] ∧ stats = baseEvaluation q.sampledPlans) ∨
    MeasuredIn patch log q.plan patches stats

theorem baseEvaluation_eq {plans : List PlanInfo} (hd : (plans.map (·.sampleId)).Nodup)
    {p : PlanInfo} (hp : p ∈ plans) (hid : p.sampleId = none) :
    baseEvaluation plans = p.evaluationStats := by
  rw [baseEvaluation]
  cases hfind : plans.find? fun p => p.sampleId = none with
  | none =>
    rw [List.find?_eq_none] at hfind
    exact absurd hid (by simpa using hfind p hp)
  | some r =>
    have hr : r.sampleId = none := by simpa using List.find?_some hfind
    have he : r = p :=
      List.inj_on_of_nodup_map hd (List.mem_of_find?_eq_some hfind) hp (hr.trans hid.symm)
    rw [he]
    rfl

section

variable {patch : JsonPatch} {curated : CuratedDataset} {model : String}
  {log : List (List QueryData × Step)} {state : List QueryData}

/-- **The chain of an entry is backed by the statistics of its nearest valid entry**, by induction
along the chain. -/
theorem backed_of_nearestValid (h : StateInv curated log state) (hs : SamplesInv patch log state)
    {q : QueryData} (hq : q ∈ state) {p : PlanInfo} {ps : List Json}
    (hc : Chain q.sampledPlans p ps) : p ∈ q.sampledPlans → ∀ a,
      NearestValid q.sampledPlans p a → Backed patch log q ps a.evaluationStats := by
  have ht := (h.trees q hq).tree
  induction hc with
  | root hid =>
    intro hp a ha
    cases ha with
    | here => exact Or.inl ⟨rfl, (baseEvaluation_eq ht.wf.nodup hp hid).symm⟩
    | up hid' => exact absurd hid hid'
  | @valid p parent upstream patches hid hvalid hparentMem hparent hup hpatches ih =>
    intro hp a ha
    have hap : a = p := by
      cases ha with
      | here => rfl
      | up _ hinvalid => exact absurd hvalid (by rw [hinvalid]; decide)
    subst hap
    obtain ⟨i, hi⟩ := List.getElem?_of_mem hp
    obtain ⟨step, e, own, hinv⟩ := hs q hq i a hi hid hvalid
    have hchain : e.upstreamPatches ++ own = upstream ++ patches :=
      Chain.unique ht hp hinv.chain (.valid hid hvalid hparentMem hparent hup hpatches)
    by_cases hnil : own = []
    · -- nothing of its own: the statistics and the chain are those of the entry above
      obtain ⟨r, hr, a', hra, hnear, hstats, hchain'⟩ := hinv.inherited hnil
      have hrp : r = parent :=
        List.inj_on_of_nodup_map ht.wf.nodup hr hparentMem (hra.trans hparent.symm)
      subst hrp
      have hsame := Chain.unique ht (hnear.mem hr) hchain' (hnear.chain ht.wf.nodup hup)
      rw [← hchain, hsame, hstats]
      exact ih hr a' hnear
    · obtain ⟨pos, hmeasured⟩ := hinv.measured hnil
      obtain ⟨before, _, hlog, _⟩ := hinv.record
      exact Or.inr ⟨(before, step), hlog, pos, hchain ▸ hmeasured⟩
  | invalid hid hinvalid hparentMem hparent hup ih =>
    intro hp a ha
    cases ha with
    | here hvalid => exact absurd hvalid (by rw [hinvalid]; decide)
    | up _ _ hmem hparent' hnear =>
      have he := List.inj_on_of_nodup_map ht.wf.nodup hmem hparentMem (hparent'.trans hparent.symm)
      exact ih hparentMem a (he ▸ hnear)

/-- **What a valid sample is reported with is backed.** -/
theorem backed_of_valid (hpatch : ∀ s, patch s [] = .ok s)
    (h : Reachable patch curated model log state) {q : QueryData} (hq : q ∈ state) {p : PlanInfo}
    (hp : p ∈ q.sampledPlans) (hvalid : p.isValid = true) {ps : List Json}
    (hps : Sampling.getUpstreamPatches p q.sampledPlans false = .ok ps) :
    Backed patch log q ps p.evaluationStats := by
  have hinv := Sampling.reachable_inv h
  have ht := (hinv.trees q hq).tree
  obtain ⟨ps', hc⟩ := ht.exists_chain p hp
  have he := Sampling.getUpstreamPatches_eq ht hp hc
  rw [hps] at he
  injection he with he
  exact he ▸ backed_of_nearestValid hinv (Sampling.samplesInv_of_reachable hpatch h) hq hc hp p
    (.here hvalid)

end

/-! ## The samples of a query -/

section

variable {data : List QueryData} {n i : Nat} {query : String} {q : QueryData}

theorem mem_samplingById {id : Nat} (h : OrdDict.get? (samplingById data) id = some q) :
    q ∈ data ∧ q.id = id := by
  have hfold : ∀ (l : List QueryData) (d : List (Nat × QueryData)),
      OrdDict.get? (l.foldl (fun d q => OrdDict.set d q.id q) d) id = some q →
        (q ∈ l ∧ q.id = id) ∨ OrdDict.get? d id = some q := by
    intro l
    induction l with
    | nil => exact fun d hd => Or.inr hd
    | cons x l ih =>
      intro d hd
      rcases ih _ hd with ⟨hmem, hid⟩ | hd
      · exact Or.inl ⟨List.mem_cons_of_mem _ hmem, hid⟩
      · rw [OrdDict.get?_set] at hd
        by_cases hx : x.id = id
        · rw [if_pos hx] at hd
          injection hd with hd
          exact Or.inl ⟨hd ▸ List.mem_cons_self .., hd ▸ hx⟩
        · rw [if_neg hx] at hd
          exact Or.inr hd
  rcases hfold data [] h with h | h
  · exact h
  · exact absurd h (by simp)

theorem mem_queryEntries : ∀ (l : List QueryData) (d : List (String × QueryData)),
    OrdDict.get? (queryEntries d l) query = some q →
      (q ∈ l ∧ q.query = query) ∨ OrdDict.get? d query = some q := by
  intro l
  induction l with
  | nil => exact fun d hd => Or.inr hd
  | cons x l ih =>
    intro d hd
    rw [queryEntries] at hd
    split at hd
    next => exact absurd hd (by simp)
    next =>
      rcases ih _ hd with ⟨hmem, hid⟩ | hd
      · exact Or.inl ⟨List.mem_cons_of_mem _ hmem, hid⟩
      · rw [OrdDict.get?_set] at hd
        by_cases hx : x.query = query
        · rw [if_pos hx] at hd
          injection hd with hd
          exact Or.inl ⟨hd ▸ List.mem_cons_self .., hd ▸ hx⟩
        · rw [if_neg hx] at hd
          exact Or.inr hd

/-- Where the samples of a query are looked up. -/
theorem get?_of_queryData (h : queryData (samplingIndex data n) i query = .ok q) :
    (idIndexed data n = true → OrdDict.get? (samplingById data) i = some q) ∧
      (idIndexed data n = false → OrdDict.get? (queryToEntry data n) query = some q) := by
  rw [queryData] at h
  split at h
  next hyes =>
    have hyes : idIndexed data n = true := hyes
    refine ⟨fun _ => ?_, fun hno => absurd hyes (by rw [hno]; exact Bool.false_ne_true)⟩
    split at h
    next q' hq' =>
      injection h with h
      exact h ▸ hq'
    next => exact absurd h (by simp)
  next hno =>
    refine ⟨fun hyes => absurd hyes hno, fun _ => ?_⟩
    split at h
    next q' hq' =>
      injection h with h
      exact h ▸ hq'
    next => exact absurd h (by simp)

/-- The samples that are found for a query are those of a query with its id, or with its text. -/
theorem mem_of_queryData (h : queryData (samplingIndex data n) i query = .ok q) :
    q ∈ data ∧ (q.id = i ∨ q.query = query) := by
  obtain ⟨hfound, hother⟩ := get?_of_queryData h
  cases hyes : idIndexed data n with
  | true =>
    obtain ⟨hmem, hid⟩ := mem_samplingById (hfound hyes)
    exact ⟨hmem, Or.inl hid⟩
  | false =>
    have hget := hother hyes
    rw [queryToEntry, if_neg (by rw [hyes]; exact Bool.false_ne_true)] at hget
    rcases mem_queryEntries data [] hget with ⟨hmem, hid⟩ | hno
    · exact ⟨hmem, Or.inr hid⟩
    · exact absurd hno (by simp)

end

/-! ## What is reported -/

section

variable {metric : String} {k : Int} {queriesList : List String} {index : SamplingIndex}
  {out : SamplingResults}

/-- The entries of the result for a query. -/
theorem queryResult_of_processSamplingResults
    (h : processSamplingResults queriesList index metric k = .ok out) :
    out.optimizationOutcome.length = queriesList.length ∧
      out.metadata.length = queriesList.length ∧
      ∀ (i : Nat) (query : String), queriesList[i]? = some query → ∃ q plan data,
        queryData index i query = .ok q ∧ out.optimizationOutcome[i]? = some plan ∧
          out.metadata[i]? = some data ∧ rankQuery metric k q = .ok (plan, data) := by
  obtain ⟨results, hresults, rfl⟩ := processSamplingResults_eq_ok.mp h
  have hlen := (Except.mapM_eq_ok.mp hresults).length_eq
  rw [List.length_zipIdx] at hlen
  simp only [foldl_add, List.nil_append, List.length_map]
  refine ⟨hlen.symm, hlen.symm, fun i query hquery => ?_⟩
  have hi : queriesList.zipIdx[i]? = some (query, i) := by
    rw [List.getElem?_zipIdx, hquery, Nat.zero_add]
    rfl
  obtain ⟨r, hr, hresult⟩ := Except.getElem?_of_mapM hresults hi
  obtain ⟨q, hq, hresult⟩ := Except.bind_eq_ok.mp hresult
  obtain ⟨⟨plan, data⟩, hranked, hresult⟩ := Except.bind_eq_ok.mp hresult
  injection (show Except.ok _ = Except.ok r from hresult) with hresult
  subst hresult
  exact ⟨q, plan, data, hq, by rw [List.getElem?_map, hr]; rfl, by rw [List.getElem?_map, hr]; rfl,
    hranked⟩

/-- Behind the entries there is only padding. -/
theorem getElem?_padded {α : Type} {l : List α} {m j : Nat} {a : α} :
    (l.map some ++ List.replicate m none)[j]? = some (some a) ↔ l[j]? = some a := by
  rcases Nat.lt_or_ge j l.length with hj | hj
  · rw [List.getElem?_append_left (by rw [List.length_map]; exact hj), List.getElem?_map]
    cases l[j]? with
    | none => simp
    | some b => simp
  · rw [List.getElem?_append_right (by rw [List.length_map]; exact hj), List.getElem?_eq_none hj]
    constructor
    · intro h
      obtain ⟨_, hnone⟩ := List.getElem?_eq_some_iff.mp h
      rw [List.getElem_replicate] at hnone
      exact absurd hnone (by simp)
    · intro h
      exact absurd h (by simp)

variable {n j : Nat} {q : QueryData} {plan : PatchedPlan} {data : QueryMetadata}
  {chosen : List Contender}

/-- Patches and statistics at a rank are those of the contender that was chosen for it. -/
theorem TopK.patch_iff (h : TopK metric n q plan data chosen) {ops : List Json} :
    plan.patch[j]? = some (some ops) ↔ ∃ c, chosen[j]? = some c ∧ contenderPatches q c = .ok ops := by
  obtain ⟨patches, hpatches, hplan⟩ := h.patches
  rw [hplan, getElem?_padded]
  constructor
  · intro hops
    have hlen := (Except.mapM_eq_ok.mp hpatches).length_eq
    have hj := (List.getElem?_eq_some_iff.mp hops).1
    have hc := List.getElem?_eq_getElem (hlen ▸ hj)
    obtain ⟨ops', hops', hpatch⟩ := Except.getElem?_of_mapM hpatches hc
    rw [hops] at hops'
    injection hops' with hops'
    exact ⟨_, hc, hops' ▸ hpatch⟩
  · intro h
    obtain ⟨c, hc, hops⟩ := h
    obtain ⟨ops', hops', hpatch⟩ := Except.getElem?_of_mapM hpatches hc
    rw [hops] at hpatch
    injection hpatch with hpatch
    rw [hops', hpatch]

theorem TopK.stats_iff (h : TopK metric n q plan data chosen) {stats : Json} :
    data.patch[j]? = some (some stats) ↔ ∃ c, chosen[j]? = some c ∧ stats = contenderStats q c := by
  rw [h.stats]
  have hmap : chosen.map (fun c => some (contenderStats q c)) =
      (chosen.map (contenderStats q)).map some := by
    rw [List.map_map]
    rfl
  rw [hmap, getElem?_padded, List.getElem?_map, Option.map_eq_some_iff]
  exact exists_congr fun c => and_congr_right fun _ => eq_comm

theorem TopK.improvementX_eq (h : TopK metric n q plan data chosen) {c : Contender}
    (hc : chosen[j]? = some c) : data.improvementX[j]? =
      some (improvement (contenderMetric metric q none) (contenderMetric metric q c)) := by
  have hj := (List.getElem?_eq_some_iff.mp hc).1
  rw [h.improvements, List.getElem?_append_left (by rw [List.length_map]; exact hj),
    List.getElem?_map, hc]
  rfl

end

/-- **What is chosen for a rank is backed.** -/
theorem backed_of_chosen {patch : JsonPatch} (hpatch : ∀ s, patch s [] = .ok s)
    {curated : CuratedDataset} {model : String} {log : List (List QueryData × Step)}
    {state : List QueryData} (h : Reachable patch curated model log state) {q : QueryData}
    (hq : q ∈ state) {metric : String} {n : Nat} {plan : PatchedPlan} {data : QueryMetadata}
    {chosen : List Contender} (htop : TopK metric n q plan data chosen) {c : Contender}
    (hc : c ∈ chosen) {ops : List Json} (hops : contenderPatches q c = .ok ops) :
    (ops = [] ∧ contenderStats q c = orEmpty (baseEvaluation q.sampledPlans)) ∨
      MeasuredIn patch log q.plan ops (contenderStats q c) := by
  cases c with
  | none =>
    injection hops with hops
    exact Or.inl ⟨hops.symm, rfl⟩
  | some p =>
    have hp : p ∈ eligible metric q := by
      have hin := htop.smallest.mem hc
      obtain ⟨p', hp', he⟩ := List.mem_map.mp ((List.mem_cons.mp hin).resolve_left (by simp))
      injection he with he
      exact he ▸ hp'
    obtain ⟨hp, hkeep⟩ := List.mem_filter.mp hp
    have hkeep : p.sampleId ≠ none ∧ p.isValid = true ∧
        (numericMetric metric p.evaluationStats).isSome = true := of_decide_eq_true hkeep
    rcases backed_of_valid hpatch h hq hp hkeep.2.1 hops with ⟨hnil, hbase⟩ | hmeasured
    · refine Or.inl ⟨hnil, ?_⟩
      rw [← hbase, orEmpty_of_metric hkeep.2.2]
      rfl
    · exact Or.inr hmeasured

/-- **Every reported patch was measured.** In whatever state the steps of a run end, what is
reported for a query at a rank is the base plan with its statistics, or patches that the engine
accepted in a step of the run, applied together to the query's plan, with the statistics that it
measured there; and the improvement is that of these statistics over those of the base plan. -/
theorem processSamplingResults_sound (patch : JsonPatch) (hpatch : ∀ s, patch s [] = .ok s)
    (curated : CuratedDataset) (model : String) (log : List (List QueryData × Step))
    (state : List QueryData) (h : Reachable patch curated model log state)
    (queriesList : List String) (n : Nat) (metric : String) {k : Int} (hk : 1 ≤ k)
    {out : SamplingResults}
    (hout : processSamplingResults queriesList (samplingIndex state n) metric k = .ok out) :
    ∀ (i : Nat) (plan : PatchedPlan), out.optimizationOutcome[i]? = some plan →
      ∃ query data, queriesList[i]? = some query ∧
      out.metadata[i]? = some data ∧ ∃ q ∈ state, (q.id = i ∨ q.query = query) ∧
        plan.basePlan = some q.plan ∧
        ∀ (j : Nat) (ops : List Json), plan.patch[j]? = some (some ops) → ∃ stats,
          data.patch[j]? = some (some stats) ∧
          data.improvementX[j]? =
            some (improvement (numericMetric metric data.base) (numericMetric metric stats)) ∧
          ((ops = [] ∧ stats = data.base) ∨ MeasuredIn patch log q.plan ops stats) := by
  intro i plan hplan
  obtain ⟨hlen, _, hresult⟩ := queryResult_of_processSamplingResults hout
  have hi := (List.getElem?_eq_some_iff.mp hplan).1
  obtain ⟨query, hquery⟩ : ∃ query, queriesList[i]? = some query :=
    ⟨_, List.getElem?_eq_getElem (hlen ▸ hi)⟩
  obtain ⟨q, plan', data, hq, hplan', hdata, hranked⟩ := hresult i query hquery
  rw [hplan] at hplan'
  injection hplan' with hplan'
  subst hplan'
  obtain ⟨chosen, htop⟩ := rankQuery_topK hk hranked
  obtain ⟨hmem, hfound⟩ := mem_of_queryData hq
  refine ⟨query, data, hquery, hdata, q, hmem, hfound, htop.basePlan, fun j ops hops => ?_⟩
  obtain ⟨c, hc, hpatches⟩ := htop.patch_iff.mp hops
  refine ⟨contenderStats q c, htop.stats_iff.mpr ⟨c, hc, rfl⟩, ?_, ?_⟩
  · rw [htop.improvementX_eq hc, htop.base]
    rfl
  · rw [htop.base]
    exact backed_of_chosen hpatch h hmem htop (List.mem_of_getElem? hc) hpatches

/-- What the two steps of the scan report for its only query. -/
def scanResults (state : List QueryData) : Except Fault SamplingResults :=
  processSamplingResults ["select * from t"] (samplingIndex state 1) "execution_time" 2

theorem exists_scanResults {state : List QueryData}
    (h : (scanResults state).toOption.isSome = true) : ∃ out, scanResults state = .ok out := by
  cases he : scanResults state with
  | ok out => exact ⟨out, rfl⟩
  | error e =>
    rw [he] at h
    exact absurd h (by simp [Except.toOption])

/-- The best patch of the scan, of three with the same metric. -/
theorem processSamplingResults_sound_scan : ∃ out plan query data,
    scanResults Sampling.scanSecond = .ok out ∧ out.optimizationOutcome[0]? = some plan ∧
      ["select * from t"][0]? = some query ∧ out.metadata[0]? = some data ∧
      ∃ q ∈ Sampling.scanSecond, ∃ ops stats, plan.patch[0]? = some (some ops) ∧
        data.patch[0]? = some (some stats) ∧
        MeasuredIn Sampling.replacePatch Sampling.scanLog q.plan ops stats := by
  obtain ⟨out, hout⟩ := @exists_scanResults Sampling.scanSecond (by decide +kernel)
  -- it is a patch, so it is not the base plan
  have hpatch : (scanResults Sampling.scanSecond).toOption.bind (fun out =>
      out.optimizationOutcome[0]?.bind fun plan => plan.patch[0]?) = some (some
        [.obj [("op", .str "replace"), ("path", .str "/0"), ("value", .int 7)]]) := by
    decide +kernel
  rw [hout] at hpatch
  obtain ⟨plan, hplan, hops⟩ := Option.bind_eq_some_iff.mp
    (show out.optimizationOutcome[0]?.bind (fun plan => plan.patch[0]?) = _ from hpatch)
  obtain ⟨query, data, hquery, hdata, q, hq, _, _, hall⟩ := processSamplingResults_sound
    Sampling.replacePatch (fun _ => rfl) Sampling.scanDataset "gpt-5" Sampling.scanLog
    Sampling.scanSecond Sampling.scan_reachable ["select * from t"] 1 "execution_time" (k := 2)
    (by decide) hout 0 plan hplan
  obtain ⟨stats, hstats, _, hbacked⟩ := hall 0 _ hops
  exact ⟨out, plan, query, data, hout, hplan, hquery, hdata, q, hq, _, stats, hops, hstats,
    hbacked.resolve_left fun h => absurd h.1 (by simp)⟩

/-! ## Longer runs -/

/-- An entry but for its flags. -/
def unflagged (p : PlanInfo) : PlanInfo := { p with isLast := false, isLeaf := false }

/-- The query, perhaps with further samples. -/
structure Grown (q q' : QueryData) : Prop where
  id : q'.id = q.id
  query : q'.query = q.query
  plan : q'.plan = q.plan
  plans : q.sampledPlans.map unflagged <+: q'.sampledPlans.map unflagged

theorem Grown.refl (q : QueryData) : Grown q q := ⟨rfl, rfl, rfl, List.prefix_refl _⟩

theorem Grown.trans {q q' q'' : QueryData} (h : Grown q q') (h' : Grown q' q'') : Grown q q'' :=
  ⟨h'.id.trans h.id, h'.query.trans h.query, h'.plan.trans h.plan, h.plans.trans h'.plans⟩

theorem grown_addSamples (samples : List Sampling.SampledPlan) (q : QueryData) :
    Grown q (addSamples samples q) := by
  refine ⟨rfl, rfl, rfl, ?_⟩
  show _ <+: (q.sampledPlans.map (markParent samples) ++ _).map unflagged
  rw [List.map_append, List.map_map]
  exact List.prefix_append _ _

section

variable {patch : JsonPatch} {curated : CuratedDataset} {model : String}
  {log : List (List QueryData × Step)} {state state' : List QueryData}

/-- **Later on, every query has the samples it had.** -/
theorem grown_of_later (hr : Reachable patch curated model log state)
    (h : Later patch state state') :
    (∃ log', Reachable patch curated model log' state') ∧ List.Forall₂ Grown state state' := by
  induction h with
  | refl => exact ⟨⟨log, hr⟩, List.forall₂_same.mpr fun q _ => Grown.refl q⟩
  | step _ hstep ih =>
    obtain ⟨⟨log', hr'⟩, hgrown⟩ := ih
    have hinv := Sampling.reachable_inv hr'
    obtain ⟨evaluated, _, rfl, _⟩ := Sampling.runStep_eq hinv.ids
      (fun q hq => (hinv.trees q hq).tree.exists_root) hstep
    refine ⟨⟨_, hr'.step hstep⟩, List.forall₂_map_right_iff.mpr ?_⟩
    exact hgrown.imp fun q q' hqq' => hqq'.trans (grown_addSamples _ q')

end

section

variable {metric : String} {q q' : QueryData}

/-- The metrics that compete. -/
def contenderMetrics (metric : String) (q : QueryData) : List (Option ℚ) :=
  (contenders metric q).map (contenderMetric metric q)

theorem Grown.baseEvaluation_eq (h : Grown q q') (hroot : ∃ r ∈ q.sampledPlans, r.sampleId = none) :
    baseEvaluation q'.sampledPlans = baseEvaluation q.sampledPlans := by
  have hfind : ∀ plans : List PlanInfo, baseEvaluation plans =
      (((plans.map unflagged).find? fun p => p.sampleId = none).map (·.evaluationStats)).getD .null := by
    intro plans
    rw [baseEvaluation, List.find?_map, Option.map_map]
    rfl
  obtain ⟨rest, hrest⟩ := h.plans
  rw [hfind, hfind, ← hrest, List.find?_append]
  obtain ⟨r, hr, hid⟩ := hroot
  have hsome : ((q.sampledPlans.map unflagged).find? fun p => p.sampleId = none).isSome := by
    rw [List.find?_isSome]
    exact ⟨unflagged r, List.mem_map_of_mem hr, decide_eq_true hid⟩
  obtain ⟨p, hp⟩ := Option.isSome_iff_exists.mp hsome
  rw [hp]
  rfl

/-- **What competed before still competes.** -/
theorem Grown.contenderMetrics (h : Grown q q') (hroot : ∃ r ∈ q.sampledPlans, r.sampleId = none) :
    (Optimize.contenderMetrics metric q).Sublist (Optimize.contenderMetrics metric q') := by
  have hsplit : ∀ q : QueryData, Optimize.contenderMetrics metric q =
      contenderMetric metric q none :: ((q.sampledPlans.map unflagged).filter fun p =>
        p.sampleId ≠ none ∧ p.isValid = true ∧
          (numericMetric metric p.evaluationStats).isSome = true).map
            fun p => numericMetric metric p.evaluationStats := by
    intro q
    rw [Optimize.contenderMetrics, contenders, List.map_cons, List.map_map, List.filter_map,
      List.map_map]
    rfl
  have hbase : contenderMetric metric q' none = contenderMetric metric q none := by
    rw [contenderMetric, contenderMetric, contenderStats, contenderStats, h.baseEvaluation_eq hroot]
  rw [hsplit, hsplit, hbase]
  exact ((h.plans.sublist.filter _).map _).cons_cons _

end

/-! ### The same query in a longer run -/

section

variable {data data' : List QueryData} {n : Nat}

theorem related_samplingById (h : List.Forall₂ Grown data data') :
    OrdDict.Related Grown (samplingById data) (samplingById data') := by
  have hfold : ∀ {d e : List (Nat × QueryData)}, OrdDict.Related Grown d e →
      OrdDict.Related Grown (data.foldl (fun d q => OrdDict.set d q.id q) d)
        (data'.foldl (fun d q => OrdDict.set d q.id q) e) := by
    induction h with
    | nil => exact fun hd => hd
    | @cons q q' _ _ hq _ ih =>
      intro d e hd
      rw [List.foldl_cons, List.foldl_cons, hq.id]
      exact ih (hd.set q.id hq)
  exact hfold .nil

theorem related_queryEntries (h : List.Forall₂ Grown data data') :
    ∀ {d e : List (String × QueryData)}, OrdDict.Related Grown d e →
      OrdDict.Related Grown (queryEntries d data) (queryEntries e data') := by
  induction h with
  | nil => exact fun hd => hd
  | @cons q q' _ _ hq _ ih =>
    intro d e hd
    rw [queryEntries, queryEntries, hq.query, hd.keys]
    split
    next => exact .nil
    next => exact ih (hd.set q.query hq)

/-- **The samples that are found for a query have grown.** -/
theorem grown_of_queryData (h : List.Forall₂ Grown data data') {i : Nat} {query : String}
    {q q' : QueryData} (hq : queryData (samplingIndex data n) i query = .ok q)
    (hq' : queryData (samplingIndex data' n) i query = .ok q') : Grown q q' := by
  have hids := related_samplingById h
  have hindexed : idIndexed data n = idIndexed data' n := by
    rw [idIndexed, idIndexed, hids.keys]
  have hentries : OrdDict.Related Grown (queryToEntry data n) (queryToEntry data' n) := by
    rw [queryToEntry, queryToEntry, hindexed]
    split
    next => exact .nil
    next => exact related_queryEntries h .nil
  obtain ⟨hfound, hother⟩ := get?_of_queryData hq
  obtain ⟨hfound', hother'⟩ := get?_of_queryData hq'
  -- both runs look the query up in the same index
  cases hyes : idIndexed data n with
  | true => exact hids.rel (hfound hyes) (hfound' (hindexed ▸ hyes))
  | false => exact hentries.rel (hother hyes) (hother' (hindexed ▸ hyes))

end

/-- **More steps never make a result worse.** If a run goes on, the metric that is reported for a
query at a rank is afterwards at most what it was, and the base plan is reported as before. -/
theorem processSamplingResults_improves (patch : JsonPatch) (curated : CuratedDataset)
    (model : String) (log : List (List QueryData × Step)) (state state' : List QueryData)
    (h : Reachable patch curated model log state) (hlater : Later patch state state')
    (queriesList : List String) (n : Nat) (metric : String) {k : Int} (hk : 1 ≤ k)
    {out out' : SamplingResults}
    (hout : processSamplingResults queriesList (samplingIndex state n) metric k = .ok out)
    (hout' : processSamplingResults queriesList (samplingIndex state' n) metric k = .ok out') :
    ∀ (i : Nat) (data : QueryMetadata), out.metadata[i]? = some data →
      ∃ data', out'.metadata[i]? = some data' ∧ data'.base = data.base ∧
        ∀ (j : Nat) (stats : Json), data.patch[j]? = some (some stats) → ∃ stats',
          data'.patch[j]? = some (some stats') ∧
          keyLe (numericMetric metric stats') (numericMetric metric stats) = true := by
  intro i data hdata
  obtain ⟨_, hlen, hresult⟩ := queryResult_of_processSamplingResults hout
  obtain ⟨_, _, hresult'⟩ := queryResult_of_processSamplingResults hout'
  have hi := (List.getElem?_eq_some_iff.mp hdata).1
  obtain ⟨query, hquery⟩ : ∃ query, queriesList[i]? = some query :=
    ⟨_, List.getElem?_eq_getElem (hlen ▸ hi)⟩
  obtain ⟨q, plan, data₀, hq, _, hdata₀, hranked⟩ := hresult i query hquery
  obtain ⟨q', plan', data', hq', _, hdata', hranked'⟩ := hresult' i query hquery
  rw [hdata] at hdata₀
  injection hdata₀ with hdata₀
  subst hdata₀
  obtain ⟨chosen, htop⟩ := rankQuery_topK hk hranked
  obtain ⟨chosen', htop'⟩ := rankQuery_topK hk hranked'
  have hgrown := grown_of_queryData (grown_of_later h hlater).2 hq hq'
  have hroot : ∃ r ∈ q.sampledPlans, r.sampleId = none := by
    obtain ⟨r, hr, hid, _⟩ :=
      ((Sampling.reachable_inv h).trees q (mem_of_queryData hq).1).tree.exists_root
    exact ⟨r, hr, hid⟩
  refine ⟨data', hdata', by rw [htop.base, htop'.base, hgrown.baseEvaluation_eq hroot],
    fun j stats hstats => ?_⟩
  obtain ⟨c, hc, rfl⟩ := htop.stats_iff.mp hstats
  -- rank by rank, the smallest metrics of more contenders are no larger
  have htotal : Std.Total fun a b : Option ℚ => keyLe a b = true := ⟨keyLe_total⟩
  have htrans : IsTrans (Option ℚ) fun a b => keyLe a b = true := ⟨fun _ _ _ => keyLe_trans⟩
  have hsmallest := htop.smallest.map (s := fun a b : Option ℚ => keyLe a b = true)
    (contenderMetric metric q) fun _ _ h => h
  have hsmallest' := htop'.smallest.map (s := fun a b : Option ℚ => keyLe a b = true)
    (contenderMetric metric q') fun _ _ h => h
  obtain ⟨hj, hcj⟩ := List.getElem?_eq_some_iff.mp hc
  obtain ⟨hj', hle⟩ := hsmallest.getElem_le_of_subperm hsmallest'
    (hgrown.contenderMetrics hroot).subperm (j := j) (by rw [List.length_map]; exact hj)
  rw [List.length_map] at hj'
  rw [List.getElem_map, List.getElem_map, hcj] at hle
  exact ⟨_, htop'.stats_iff.mpr ⟨_, List.getElem?_eq_getElem hj', rfl⟩, hle⟩

/-- After its second step the scan is reported as no slower than after the first. -/
theorem processSamplingResults_improves_scan : ∃ out out' data data',
    scanResults Sampling.scanFirst = .ok out ∧ scanResults Sampling.scanSecond = .ok out' ∧
      out.metadata[0]? = some data ∧ out'.metadata[0]? = some data' ∧ data'.base = data.base ∧
      ∃ stats stats', data.patch[0]? = some (some stats) ∧ data'.patch[0]? = some (some stats') ∧
        keyLe (numericMetric "execution_time" stats') (numericMetric "execution_time" stats) =
          true := by
  obtain ⟨out, hout⟩ := @exists_scanResults Sampling.scanFirst (by decide +kernel)
  obtain ⟨out', hout'⟩ := @exists_scanResults Sampling.scanSecond (by decide +kernel)
  have hfirst : Sampling.runStep Sampling.replacePatch Sampling.scanStart Sampling.firstStep =
      .ok Sampling.scanFirst := by decide +kernel
  have hsecond : Sampling.runStep Sampling.replacePatch Sampling.scanFirst Sampling.secondStep =
      .ok Sampling.scanSecond := by decide +kernel
  have hstats : (scanResults Sampling.scanFirst).toOption.bind (fun out =>
      out.metadata[0]?.bind fun data => data.patch[0]?) = some (some
        (.obj [("execution_time", .int 90)])) := by decide +kernel
  rw [hout] at hstats
  obtain ⟨data, hdata, hstats⟩ := Option.bind_eq_some_iff.mp
    (show out.metadata[0]?.bind (fun data => data.patch[0]?) = _ from hstats)
  obtain ⟨data', hdata', hbase, hall⟩ := processSamplingResults_improves Sampling.replacePatch
    Sampling.scanDataset "gpt-5" _ Sampling.scanFirst Sampling.scanSecond
    (Reachable.prepare.step hfirst) (Later.refl.step hsecond) ["select * from t"] 1 "execution_time"
    (k := 2) (by decide) hout hout' 0 data hdata
  obtain ⟨stats', hstats', hle⟩ := hall 0 _ hstats
  exact ⟨out, out', data, data', hout, hout', hdata, hdata', hbase, _, stats', hstats, hstats', hle⟩

end DbPlanBench.Optimize
