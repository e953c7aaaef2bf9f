import DbPlanBench.Sampling.Invariant

/-!
# What was measured is what is reported

A valid sample was validated and timed with the patches stored when its base plan
was selected, followed by its own. What is reported later is the chain that
`get_upstream_patches` collects in the tree at that time, which has grown since. The
two lists are the same (`measuredChain_eq_reportedChain`): entries keep their parent,
their validity and their patches, so chains never change (`Chain.addSamples`).

Applying patches is assumed of `jsonpatch` only to succeed for an empty list.
-/

namespace DbPlanBench.Sampling

/-! ## Chains in a growing tree -/

section

variable {q : QueryData} {samples : List SampledPlan}

theorem markParent_mem {p : PlanInfo} (hp : p ∈ q.sampledPlans) :
    markParent samples p ∈ (addSamples samples q).sampledPlans :=
  List.mem_append_left _ (List.mem_map_of_mem hp)

/-- A chain stays when entries are added. -/
theorem Chain.addSamples {p : PlanInfo} {ps : List Json} (h : Chain q.sampledPlans p ps) :
    Chain (addSamples samples q).sampledPlans (markParent samples p) ps := by
  induction h with
  | root hid => exact .root hid
  | valid hid hvalid hq hparent _ hpatches ih =>
    exact .valid hid hvalid (markParent_mem hq) hparent ih hpatches
  | invalid hid hvalid hq hparent _ ih => exact .invalid hid hvalid (markParent_mem hq) hparent ih

theorem NearestValid.addSamples {p a : PlanInfo} (h : NearestValid q.sampledPlans p a) :
    NearestValid (addSamples samples q).sampledPlans (markParent samples p) (markParent samples a) := by
  induction h with
  | here hvalid => exact .here hvalid
  | up hid hvalid hq hparent _ ih => exact .up hid hvalid (markParent_mem hq) hparent ih

/-- An old entry stays where it is. -/
theorem getElem?_addSamples_old {i : Nat} {p : PlanInfo} (h : q.sampledPlans[i]? = some p) :
    (Sampling.addSamples samples q).sampledPlans[i]? = some (markParent samples p) := by
  have hlt := (List.getElem?_eq_some_iff.mp h).1
  show (q.sampledPlans.map _ ++ _)[i]? = _
  rw [List.getElem?_append_left (by rwa [List.length_map]), List.getElem?_map, h]
  rfl

/-- An entry after a merge is an old one or the entry of a sample. -/
theorem getElem?_addSamples_cases {i : Nat} {p : PlanInfo}
    (h : (Sampling.addSamples samples q).sampledPlans[i]? = some p) :
    (∃ p', q.sampledPlans[i]? = some p' ∧ p = markParent samples p') ∨
      ∃ s, q.sampledPlans.length ≤ i ∧ samples[i - q.sampledPlans.length]? = some s ∧
        ∃ n, p = finalizedPlan n s := by
  have hmap : (q.sampledPlans.map (markParent samples)).length = q.sampledPlans.length :=
    List.length_map ..
  rcases Nat.lt_or_ge i q.sampledPlans.length with hi | hi
  · left
    have h : (q.sampledPlans.map (markParent samples))[i]? = some p := by
      rw [← h]
      exact (List.getElem?_append_left (hmap.symm ▸ hi)).symm
    rw [List.getElem?_map] at h
    obtain ⟨p', hp', rfl⟩ := Option.map_eq_some_iff.mp h
    exact ⟨p', hp', rfl⟩
  · right
    have h : (finalizedPlans (newSampleId q.sampledPlans) samples)[i - q.sampledPlans.length]? =
        some p := by
      rw [← h, ← hmap]
      exact (List.getElem?_append_right (hmap.symm ▸ hi)).symm
    rw [getElem?_finalizedPlans] at h
    obtain ⟨s, hs, rfl⟩ := Option.map_eq_some_iff.mp h
    exact ⟨s, hi, hs, _, rfl⟩

end

/-- The chain of an entry is unique. -/
theorem Chain.unique {plans : List PlanInfo} (h : ChainTree plans) {p : PlanInfo} (hp : p ∈ plans)
    {ps ps' : List Json} (hc : Chain plans p ps) (hc' : Chain plans p ps') : ps = ps' := by
  have he := getUpstreamPatches_eq h hp hc
  rw [getUpstreamPatches_eq h hp hc'] at he
  injection he with he
  exact he.symm

/-! ## Records -/

/-- `e` is the record, in the files of the step that took it, of the sample that a query has at
position `i`. -/
def RecordOf (patch : JsonPatch) (log : List (List QueryData × Step)) (id i : Nat) (step : Step)
    (e : SampledPlan) : Prop :=
  ∃ before evaluated, (before, step) ∈ log ∧ stepFile patch step before = .ok evaluated ∧
    treeSize before id ≤ i ∧ (samplesOf evaluated id)[i - treeSize before id]? = some e

/-- Patches that can be applied to a plan. -/
def Applies (patch : JsonPatch) (plan : Json) (patches : List Json) : Prop :=
  ∃ patched, applyPatchesToPlan patch plan patches = .ok patched

/-- What holds of a valid sample `p` at position `i`, with its record and its own patches. -/
structure SampleInv (patch : JsonPatch) (log : List (List QueryData × Step)) (q : QueryData)
    (i : Nat) (p : PlanInfo) (step : Step) (e : SampledPlan) (patches : List Json) : Prop where
  record : RecordOf patch log q.id i step e
  own : e.sampledPatches = some patches
  chain : Chain q.sampledPlans p (e.upstreamPatches ++ patches)
  applies : Applies patch q.plan (e.upstreamPatches ++ patches)
  inherited : patches = [] → ∃ r ∈ q.sampledPlans, ∃ a, r.sampleId = p.parentSampleId ∧
    NearestValid q.sampledPlans r a ∧ p.evaluationStats = a.evaluationStats ∧
    Chain q.sampledPlans a (e.upstreamPatches ++ patches)
  measured : patches ≠ [] → ∃ pos, Measured patch step.engine pos q.plan
    (e.upstreamPatches ++ patches) p.evaluationStats

/-- Every valid sample has its record. -/
def SamplesInv (patch : JsonPatch) (log : List (List QueryData × Step)) (state : List QueryData) :
    Prop :=
  ∀ q ∈ state, ∀ (i : Nat) (p : PlanInfo), q.sampledPlans[i]? = some p → p.sampleId ≠ none →
    p.isValid = true → ∃ step e patches, SampleInv patch log q i p step e patches

section

variable {patch : JsonPatch} {curated : CuratedDataset} {model : String}
  {log : List (List QueryData × Step)} {state : List QueryData}

/-- No patches apply to any plan of the dataset. -/
theorem StateInv.applies_nil (hpatch : ∀ s, patch s [] = .ok s) (h : StateInv curated log state)
    {q : QueryData} (hq : q ∈ state) : Applies patch q.plan [] := by
  have hmem : (q.id, q.plan) ∈ curated.entries.map fun e => (e.id, e.plan) :=
    h.queries ▸ List.mem_map.mpr ⟨q, hq, rfl⟩
  obtain ⟨entry, hentry, he⟩ := List.mem_map.mp hmem
  injection he with _ hplan
  obtain ⟨fields, s, hfields, hs⟩ := curated.hasStructure entry hentry
  refine ⟨.obj (OrdDict.set fields "structure" s), ?_⟩
  rw [← hplan, hfields, applyPatchesToPlan]
  simp only [hs, hpatch, Except.ok_bind]
  rfl

/-- **The chain of every entry applies**: it is that of a valid sample, or empty. -/
theorem chain_applies (hpatch : ∀ s, patch s [] = .ok s) (h : StateInv curated log state)
    (hs : SamplesInv patch log state) {q : QueryData} (hq : q ∈ state) {p : PlanInfo}
    (hp : p ∈ q.sampledPlans) {ps : List Json} (hc : Chain q.sampledPlans p ps) :
    Applies patch q.plan ps := by
  have ht := (h.trees q hq).tree
  obtain ⟨a, ha⟩ := ht.exists_nearestValid p hp
  have hca := ha.chain ht.wf.nodup hc
  by_cases hid : a.sampleId = none
  · cases hca with
    | root => exact h.applies_nil hpatch hq
    | valid hid' => exact absurd hid hid'
    | invalid hid' => exact absurd hid hid'
  · obtain ⟨i, hi⟩ := List.getElem?_of_mem (ha.mem hp)
    obtain ⟨step, e, patches, hinv⟩ := hs q hq i a hi hid ha.valid
    exact Chain.unique ht (ha.mem hp) hinv.chain hca ▸ hinv.applies

/-- An old sample keeps what it had. -/
theorem SampleInv.addSamples {q : QueryData} {i : Nat} {p : PlanInfo} {step : Step}
    {e : SampledPlan} {patches : List Json} (h : SampleInv patch log q i p step e patches)
    (samples : List SampledPlan) (r : List QueryData × Step) :
    SampleInv patch (log ++ [r]) (addSamples samples q) i (markParent samples p) step e patches where
  record := by
    obtain ⟨before, evaluated, hmem, hrest⟩ := h.record
    exact ⟨before, evaluated, List.mem_append_left _ hmem, hrest⟩
  own := h.own
  chain := h.chain.addSamples
  applies := h.applies
  inherited hnil := by
    obtain ⟨r, hr, a, hparent, ha, hstats, hchain⟩ := h.inherited hnil
    exact ⟨_, markParent_mem hr, _, hparent, ha.addSamples, hstats, hchain.addSamples⟩
  measured := h.measured

/-- A new valid sample was measured with the chain of its base plan and its own patches. -/
theorem sampleInv_new (hpatch : ∀ s, patch s [] = .ok s) (h : StateInv curated log state)
    (hs : SamplesInv patch log state) {q : QueryData} (hq : q ∈ state) {step : Step}
    {evaluated : List SampledQuery} (hfile : stepFile patch step state = .ok evaluated) {i n : Nat}
    {s : SampledPlan} (hi : q.sampledPlans.length ≤ i)
    (hsi : (samplesOf evaluated q.id)[i - q.sampledPlans.length]? = some s)
    (hsample : SampleOf patch step q s) (hvalid : s.isValid = true) :
    ∃ patches, SampleInv patch (log ++ [(state, step)]) (addSamples (samplesOf evaluated q.id) q) i
      (finalizedPlan n s) step s patches := by
  have ht := (h.trees q hq).tree
  -- the file of this step, at the position where the entry comes to stand, is its record
  have hrecord : RecordOf patch (log ++ [(state, step)]) q.id i step s := by
    have hsize := treeSize_eq h.ids hq
    exact ⟨state, evaluated, List.mem_append_right _ (List.mem_singleton_self _), hfile,
      hsize.symm ▸ hi, hsize.symm ▸ hsi⟩
  obtain ⟨p, hp, base, hbase, pos, result, rfl⟩ := hsample
  obtain ⟨hparent, hchain, a, ha, hstats⟩ := basePlanOf_eq ht hp hbase
  obtain ⟨patches, hown, hmeasured⟩ := evaluatePlan_valid hvalid
  refine ⟨patches, hrecord, by rw [evaluatePlan_sampledPatches, hown], ?_, ?_, fun hnil => ?_,
    fun hne => ?_⟩
  · -- the chain: the entry hangs below its base plan, whose chain the merge keeps
    refine .valid (q := markParent _ p) (by simp [finalizedPlan]) hvalid (markParent_mem hp) ?_ ?_ ?_
    · show p.sampleId = (evaluatePlan ..).parentSampleId
      rw [evaluatePlan_parentSampleId]
      exact hparent.symm
    · rw [evaluatePlan_upstreamPatches]
      exact hchain.addSamples
    · show (evaluatePlan ..).sampledPatches = _
      rw [evaluatePlan_sampledPatches, hown]
  · rw [evaluatePlan_upstreamPatches]
    -- without patches of its own it was not measured, and its chain is the base's
    by_cases hnil : patches = []
    · rw [hnil, List.append_nil]
      exact chain_applies hpatch h hs hq hp hchain
    · rw [if_neg hnil] at hmeasured
      obtain ⟨patched, happly, _⟩ := hmeasured
      exact ⟨patched, happly⟩
  · -- no patches: the statistics come from the nearest valid entry above
    rw [if_pos hnil] at hmeasured
    refine ⟨markParent _ p, markParent_mem hp, markParent _ a, ?_, ha.addSamples, ?_, ?_⟩
    · show p.sampleId = (evaluatePlan ..).parentSampleId
      rw [evaluatePlan_parentSampleId]
      exact hparent.symm
    · exact hmeasured.trans hstats
    · rw [evaluatePlan_upstreamPatches, hnil, List.append_nil]
      exact (ha.chain ht.wf.nodup hchain).addSamples
  · -- patches: the measurement itself
    rw [if_neg hne] at hmeasured
    rw [evaluatePlan_upstreamPatches]
    exact ⟨pos, hmeasured⟩

/-- **A step keeps the records of all valid samples.** -/
theorem samplesInv_step (hpatch : ∀ s, patch s [] = .ok s) (h : StateInv curated log state)
    (hs : SamplesInv patch log state) {step : Step} {state' : List QueryData}
    (hstep : runStep patch state step = .ok state') :
    SamplesInv patch (log ++ [(state, step)]) state' := by
  obtain ⟨evaluated, hfile, rfl, hsamples⟩ := runStep_eq h.ids
    (fun q hq => (h.trees q hq).tree.exists_root) hstep
  intro q' hq' i p hp hid hvalid
  obtain ⟨q, hq, rfl⟩ := List.mem_map.mp hq'
  rcases getElem?_addSamples_cases hp with ⟨p', hp', rfl⟩ | ⟨s, hi, hsi, n, rfl⟩
  · obtain ⟨step', e, patches, hinv⟩ := hs q hq i p' hp' hid hvalid
    exact ⟨step', e, patches, hinv.addSamples _ _⟩
  · obtain ⟨patches, hinv⟩ := sampleInv_new hpatch h hs hq hfile hi hsi
      (hsamples q hq s (List.mem_of_getElem? hsi)) hvalid
    exact ⟨step, s, patches, hinv⟩

theorem samplesInv_of_reachable (hpatch : ∀ s, patch s [] = .ok s)
    (h : Reachable patch curated model log state) : SamplesInv patch log state := by
  induction h with
  | prepare =>
    intro q hq i p hp hid
    obtain ⟨entry, _, rfl⟩ := List.mem_map.mp hq
    have hmem : p ∈ [originalPlan entry.evaluationStats] := List.mem_of_getElem? hp
    rw [List.mem_singleton.mp hmem] at hid
    exact absurd rfl hid
  | step h hstep ih => exact samplesInv_step hpatch (reachable_inv h) ih hstep

end

/-! ## Later trees -/

/-- `state'` is reached from `state` by further steps. -/
inductive Later (patch : JsonPatch) (state : List QueryData) : List QueryData → Prop where
  | refl : Later patch state state
  | step {state' state'' : List QueryData} {step : Step} (h : Later patch state state')
      (hstep : runStep patch state' step = .ok state'') : Later patch state state''

/-- Entries stay at their positions in later trees, with their ids and chains. -/
theorem Later.chains {patch : JsonPatch} {curated : CuratedDataset} {model : String}
    {log : List (List QueryData × Step)} {state state' : List QueryData}
    (hr : Reachable patch curated model log state) (h : Later patch state state') :
    ∃ log', Reachable patch curated model log' state' ∧
      ∀ q ∈ state, ∃ q' ∈ state', q'.id = q.id ∧ ∀ (i : Nat) (p : PlanInfo),
        q.sampledPlans[i]? = some p → ∃ p', q'.sampledPlans[i]? = some p' ∧
          p'.sampleId = p.sampleId ∧
          ∀ ps, Chain q.sampledPlans p ps → Chain q'.sampledPlans p' ps := by
  induction h with
  | refl =>
    exact ⟨log, hr, fun q hq => ⟨q, hq, rfl, fun i p hp => ⟨p, hp, rfl, fun _ hc => hc⟩⟩⟩
  | @step mid final step _ hstep ih =>
    obtain ⟨log', hr', ih⟩ := ih
    have hinv := reachable_inv hr'
    obtain ⟨evaluated, _, hfinal, _⟩ := runStep_eq hinv.ids
      (fun q hq => (hinv.trees q hq).tree.exists_root) hstep
    refine ⟨log' ++ [(mid, step)], hr'.step hstep, fun q hq => ?_⟩
    obtain ⟨q', hq', hid, hkeep⟩ := ih q hq
    -- a step appends to the tree and marks parents: old entries keep place, id and chain
    refine ⟨addSamples (samplesOf evaluated q'.id) q',
      hfinal ▸ List.mem_map_of_mem (f := fun q => addSamples (samplesOf evaluated q.id) q) hq', hid,
      fun i p hp => ?_⟩
    obtain ⟨p', hp', hpid, hchain⟩ := hkeep i p hp
    exact ⟨markParent _ p', getElem?_addSamples_old hp', hpid, fun ps hc => (hchain ps hc).addSamples⟩

/-- **The chain a valid sample was measured with is the chain reported for it**, now and later, it
applies to the query's plan, and the sample's statistics are those of the plan it gives. The
chains of all base plans apply. -/
theorem measuredChain_eq_reportedChain (patch : JsonPatch) (hpatch : ∀ s, patch s [] = .ok s)
    (curated : CuratedDataset) (model : String) (log : List (List QueryData × Step))
    (state : List QueryData) (h : Reachable patch curated model log state) :
    (∀ q ∈ state, ∀ (i : Nat) (p : PlanInfo), q.sampledPlans[i]? = some p → p.sampleId ≠ none →
      p.isValid = true → ∃ step e patches,
        RecordOf patch log q.id i step e ∧ e.sampledPatches = some patches ∧
        (∀ state', Later patch state state' → ∃ q' ∈ state', q'.id = q.id ∧
          ∃ p', q'.sampledPlans[i]? = some p' ∧ p'.sampleId = p.sampleId ∧
            getUpstreamPatches p' q'.sampledPlans false = .ok (e.upstreamPatches ++ patches)) ∧
        Applies patch q.plan (e.upstreamPatches ++ patches) ∧
        ((∃ pos, Measured patch step.engine pos q.plan (e.upstreamPatches ++ patches)
            p.evaluationStats) ∨
          patches = [] ∧ ∃ r ∈ q.sampledPlans, ∃ a, r.sampleId = p.parentSampleId ∧
            NearestValid q.sampledPlans r a ∧ p.evaluationStats = a.evaluationStats ∧
            getUpstreamPatches a q.sampledPlans false = .ok (e.upstreamPatches ++ patches))) ∧
    ∀ q ∈ state, ∀ strategy bases, getBasePlansForSampling q.sampledPlans strategy = .ok bases →
      ∀ base ∈ bases, Applies patch q.plan base.upstreamPatches := by
  have hinv := reachable_inv h
  have hsamples := samplesInv_of_reachable hpatch h
  constructor
  · intro q hq i p hp hid hvalid
    have ht := (hinv.trees q hq).tree
    obtain ⟨step, e, patches, hs⟩ := hsamples q hq i p hp hid hvalid
    refine ⟨step, e, patches, hs.record, hs.own, fun state' hlater => ?_, hs.applies, ?_⟩
    · -- reported later: the entry and its chain are still there, and the walk finds the chain
      obtain ⟨log', hr', hkeep⟩ := hlater.chains h
      obtain ⟨q', hq', hqid, hentries⟩ := hkeep q hq
      obtain ⟨p', hp', hpid, hchain⟩ := hentries i p hp
      have ht' := ((reachable_inv hr').trees q' hq').tree
      exact ⟨q', hq', hqid, p', hp', hpid,
        getUpstreamPatches_eq ht' (List.mem_of_getElem? hp') (hchain _ hs.chain)⟩
    · by_cases hnil : patches = []
      · obtain ⟨r, hr, a, hparent, ha, hstats, hchain⟩ := hs.inherited hnil
        exact Or.inr ⟨hnil, r, hr, a, hparent, ha, hstats,
          getUpstreamPatches_eq ht (ha.mem hr) hchain⟩
      · exact Or.inl (hs.measured hnil)
  · intro q hq strategy bases hbases base hbase
    have ht := (hinv.trees q hq).tree
    -- what a strategy offers is an entry with its chain
    obtain ⟨p, hp, hb⟩ := exists_basePlanOf ht.exists_root hbases base hbase
    exact chain_applies hpatch hinv hsamples hq hp (basePlanOf_eq ht hp hb).2.1

/-- The samples of the two steps, four of which have no patches of their own. -/
theorem measuredChain_eq_reportedChain_scan :
    (∀ q ∈ scanSecond, ∀ (i : Nat) (p : PlanInfo), q.sampledPlans[i]? = some p →
      p.sampleId ≠ none → p.isValid = true → ∃ step e patches,
        RecordOf replacePatch scanLog q.id i step e ∧ e.sampledPatches = some patches ∧
        (∀ state', Later replacePatch scanSecond state' → ∃ q' ∈ state', q'.id = q.id ∧
          ∃ p', q'.sampledPlans[i]? = some p' ∧ p'.sampleId = p.sampleId ∧
            getUpstreamPatches p' q'.sampledPlans false = .ok (e.upstreamPatches ++ patches)) ∧
        Applies replacePatch q.plan (e.upstreamPatches ++ patches) ∧
        ((∃ pos, Measured replacePatch step.engine pos q.plan (e.upstreamPatches ++ patches)
            p.evaluationStats) ∨
          patches = [] ∧ ∃ r ∈ q.sampledPlans, ∃ a, r.sampleId = p.parentSampleId ∧
            NearestValid q.sampledPlans r a ∧ p.evaluationStats = a.evaluationStats ∧
            getUpstreamPatches a q.sampledPlans false = .ok (e.upstreamPatches ++ patches))) ∧
    ∀ q ∈ scanSecond, ∀ strategy bases,
      getBasePlansForSampling q.sampledPlans strategy = .ok bases →
        ∀ base ∈ bases, Applies replacePatch q.plan base.upstreamPatches :=
  measuredChain_eq_reportedChain replacePatch (fun _ => rfl) scanDataset "gpt-5" scanLog scanSecond
    scan_reachable

end DbPlanBench.Sampling
