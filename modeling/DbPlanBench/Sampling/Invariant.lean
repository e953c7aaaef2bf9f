import DbPlanBench.Sampling.Chain

/-!
# The invariant of the sample trees

In every state that sampling steps reach from a prepared dataset, each query's tree
is well formed: distinct ids, the root first, parents before their children and with
smaller ids, `is_leaf` on the entries without children, `is_last` on those of the
last step that added any (`sampleTree_of_reachable`).

* `SampleTree` — the invariant, for a tree whose last samples start at `start`.
* `sampleTree_addSamples` — what one merge preserves.
* `reachable_inv` — what a run preserves, by induction on its steps.
-/

namespace DbPlanBench.Sampling

/-- A tree of samples whose last samples start at position `start`. -/
structure SampleTree (plans : List PlanInfo) (start : Nat) : Prop where
  tree : ChainTree plans
  smaller : ∀ p ∈ plans, ∀ n m, p.sampleId = some n → p.parentSampleId = some m → m < n
  leaf : ∀ p ∈ plans, p.isLeaf = true ↔
    ∀ c ∈ plans, c.sampleId ≠ none → c.parentSampleId ≠ p.sampleId
  last : ∀ (i : Nat) (p : PlanInfo), plans[i]? = some p → (p.isLast = true ↔ start ≤ i)

/-! ## New entries -/

theorem le_foldl_max : ∀ (l : List Nat) (a : Nat), a ≤ l.foldl max a ∧ ∀ x ∈ l, x ≤ l.foldl max a
  | [], a => ⟨Nat.le_refl a, fun _ h => absurd h List.not_mem_nil⟩
  | y :: l, a => by
    obtain ⟨ha, hl⟩ := le_foldl_max l (max a y)
    refine ⟨Nat.le_trans (Nat.le_max_left a y) ha, fun x hx => ?_⟩
    rcases List.mem_cons.mp hx with rfl | hx
    · exact Nat.le_trans (Nat.le_max_right a x) ha
    · exact hl x hx

/-- A new id is above all ids of the tree. -/
theorem lt_newSampleId {plans : List PlanInfo} {p : PlanInfo} (hp : p ∈ plans) {n : Nat}
    (hn : p.sampleId = some n) : n < newSampleId plans := by
  have hmem : n ∈ plans.map fun p => p.sampleId.getD 0 :=
    List.mem_map.mpr ⟨p, hp, by rw [hn]; rfl⟩
  exact Nat.lt_succ_of_le ((le_foldl_max _ 0).2 n hmem)

theorem getElem?_finalizedPlans (start : Nat) (samples : List SampledPlan) (k : Nat) :
    (finalizedPlans start samples)[k]? = samples[k]?.map (finalizedPlan (start + k)) := by
  rw [finalizedPlans, List.getElem?_map, List.getElem?_zipIdx, Option.map_map]
  rfl

theorem mem_finalizedPlans {start : Nat} {samples : List SampledPlan} {p : PlanInfo}
    (hp : p ∈ finalizedPlans start samples) :
    ∃ n s, start ≤ n ∧ s ∈ samples ∧ p = finalizedPlan n s := by
  obtain ⟨k, hk⟩ := List.getElem?_of_mem hp
  rw [getElem?_finalizedPlans] at hk
  obtain ⟨s, hs, rfl⟩ := Option.map_eq_some_iff.mp hk
  exact ⟨start + k, s, Nat.le_add_right .., List.mem_of_getElem? hs, rfl⟩

theorem sampleId_finalizedPlans (start : Nat) (samples : List SampledPlan) :
    (finalizedPlans start samples).map (·.sampleId) =
      (List.range' start samples.length).map some := by
  rw [finalizedPlans, List.map_map, ← List.zipIdx_map_snd, List.map_map]
  rfl

@[simp] theorem length_finalizedPlans (start : Nat) (samples : List SampledPlan) :
    (finalizedPlans start samples).length = samples.length := by
  rw [finalizedPlans, List.length_map, List.length_zipIdx]

/-! ## One merge -/

section

variable {q : QueryData} {samples : List SampledPlan} {start : Nat}

/-- An entry of the tree, of which some fields may have been updated, or a new one. -/
theorem mem_addSamples {p : PlanInfo} (hp : p ∈ (addSamples samples q).sampledPlans) :
    (∃ p' ∈ q.sampledPlans, p = markParent samples p') ∨
      ∃ n s, newSampleId q.sampledPlans ≤ n ∧ s ∈ samples ∧ p = finalizedPlan n s := by
  rcases List.mem_append.mp hp with hp | hp
  · obtain ⟨p', hp', rfl⟩ := List.mem_map.mp hp
    exact Or.inl ⟨p', hp', rfl⟩
  · exact Or.inr (mem_finalizedPlans hp)

/-- New entries whose parents are there keep the tree well formed. -/
theorem chainTree_addSamples (h : ChainTree q.sampledPlans)
    (hparent : ∀ s ∈ samples, s.parentSampleId ∈ q.sampledPlans.map (·.sampleId))
    (hpatches : ∀ s ∈ samples, s.isValid = true → ∃ ps, s.sampledPatches = some ps) :
    ChainTree (addSamples samples q).sampledPlans where
  wf := by
    have hmap : (q.sampledPlans.map (markParent samples)).map (·.sampleId) =
        q.sampledPlans.map (·.sampleId) := by
      rw [List.map_map]
      rfl
    refine (h.wf.map (f := markParent samples) (fun _ => rfl) (fun _ => rfl)).append ?_ ?_ ?_
    · -- the new ids are a range
      rw [sampleId_finalizedPlans]
      exact (List.nodup_range' ..).map fun _ _ he => Option.some.inj he
    · -- and lie above those in use
      intro p hp hmem
      obtain ⟨n, s, hn, _, rfl⟩ := mem_finalizedPlans hp
      rw [hmap] at hmem
      obtain ⟨p', hp', he⟩ := List.mem_map.mp hmem
      exact absurd (lt_newSampleId hp' he) (Nat.not_lt_of_le hn)
    · intro p hp
      obtain ⟨n, s, _, hs, rfl⟩ := mem_finalizedPlans hp
      rw [hmap]
      exact hparent s hs
  rootValid p hp hid := by
    rcases mem_addSamples hp with ⟨p', hp', rfl⟩ | ⟨n, s, _, _, rfl⟩
    · exact h.rootValid p' hp' hid
    · exact absurd hid (by simp [finalizedPlan])
  patches p hp hvalid := by
    rcases mem_addSamples hp with ⟨p', hp', rfl⟩ | ⟨n, s, _, hs, rfl⟩
    · exact h.patches p' hp' hvalid
    · exact hpatches s hs hvalid

/-- An entry is a leaf after a merge when it was one and is no new sample's parent. -/
theorem leaf_addSamples (h : SampleTree q.sampledPlans start)
    (hparent : ∀ s ∈ samples, s.parentSampleId ∈ q.sampledPlans.map (·.sampleId)) :
    ∀ p ∈ (addSamples samples q).sampledPlans, p.isLeaf = true ↔
      ∀ c ∈ (addSamples samples q).sampledPlans, c.sampleId ≠ none →
        c.parentSampleId ≠ p.sampleId := by
  intro p hp
  rcases mem_addSamples hp with ⟨p', hp', rfl⟩ | ⟨n, s, hn, hs, rfl⟩
  · have hold : (markParent samples p').isLeaf = true ↔
        p'.sampleId ∉ samples.map (·.parentSampleId) ∧ p'.isLeaf = true := by
      show (if _ then false else p'.isLeaf) = true ↔ _
      by_cases hmem : p'.sampleId ∈ samples.map (·.parentSampleId)
      · rw [if_pos hmem]
        simp [hmem]
      · rw [if_neg hmem]
        simp [hmem]
    rw [hold, h.leaf p' hp']
    constructor
    · intro hleaf c hc hid
      rcases mem_addSamples hc with ⟨c', hc', rfl⟩ | ⟨m, t, _, ht, rfl⟩
      · exact hleaf.2 c' hc' hid
      · intro he
        exact hleaf.1 (List.mem_map.mpr ⟨t, ht, he⟩)
    · intro hall
      constructor
      · intro hmem
        obtain ⟨t, ht, he⟩ := List.mem_map.mp hmem
        obtain ⟨k, hk⟩ := List.getElem?_of_mem ht
        have hnew : finalizedPlan (newSampleId q.sampledPlans + k) t ∈
            finalizedPlans (newSampleId q.sampledPlans) samples := by
          refine List.mem_of_getElem? (i := k) ?_
          rw [getElem?_finalizedPlans, hk]
          rfl
        exact hall _ (List.mem_append_right _ hnew) (by simp [finalizedPlan]) he
      · intro c hc hid
        exact hall (markParent samples c) (List.mem_append_left _ (List.mem_map_of_mem hc)) hid
  · -- the parents of all entries are older than a new one
    refine iff_of_true rfl fun c hc hid he => ?_
    have hmem : c.parentSampleId ∈ q.sampledPlans.map (·.sampleId) := by
      rcases mem_addSamples hc with ⟨c', hc', rfl⟩ | ⟨m, t, _, ht, rfl⟩
      · obtain ⟨i, hi⟩ := List.getElem?_of_mem hc'
        obtain ⟨j, r, _, hr, hpr⟩ := h.tree.wf.earlier i c' hi hid
        exact List.mem_map.mpr ⟨r, List.mem_of_getElem? hr, hpr⟩
      · exact hparent t ht
    rw [he] at hmem
    obtain ⟨r, hr, hrid⟩ := List.mem_map.mp hmem
    exact absurd (lt_newSampleId hr hrid) (Nat.not_lt_of_le hn)

/-- **A merge keeps the invariant**; the last samples start where the new ones do, if any. -/
theorem sampleTree_addSamples (h : SampleTree q.sampledPlans start)
    (hparent : ∀ s ∈ samples, s.parentSampleId ∈ q.sampledPlans.map (·.sampleId))
    (hpatches : ∀ s ∈ samples, s.isValid = true → ∃ ps, s.sampledPatches = some ps) :
    SampleTree (addSamples samples q).sampledPlans
      (if samples = [] then start else q.sampledPlans.length) where
  tree := chainTree_addSamples h.tree hparent hpatches
  smaller p hp n m hn hm := by
    rcases mem_addSamples hp with ⟨p', hp', rfl⟩ | ⟨k, s, hk, hs, rfl⟩
    · exact h.smaller p' hp' n m hn hm
    · injection hn with hn
      obtain ⟨r, hr, hrid⟩ := List.mem_map.mp (hparent s hs)
      have hlt := lt_newSampleId hr (hrid.trans hm)
      omega
  leaf := leaf_addSamples h hparent
  last i p hp := by
    have hmap : (q.sampledPlans.map (markParent samples)).length = q.sampledPlans.length :=
      List.length_map ..
    rcases Nat.lt_or_ge i q.sampledPlans.length with hi | hi
    · have hp : (q.sampledPlans.map (markParent samples))[i]? = some p := by
        rw [← hp]
        exact (List.getElem?_append_left (hmap.symm ▸ hi)).symm
      rw [List.getElem?_map] at hp
      obtain ⟨p', hp', rfl⟩ := Option.map_eq_some_iff.mp hp
      show (if samples = [] then p'.isLast else false) = true ↔ _
      by_cases hs : samples = []
      · rw [if_pos hs, if_pos hs]
        exact h.last i p' hp'
      · rw [if_neg hs, if_neg hs]
        exact iff_of_false Bool.false_ne_true (Nat.not_le_of_lt hi)
    · have hp : (finalizedPlans (newSampleId q.sampledPlans) samples)[i - q.sampledPlans.length]? =
          some p := by
        rw [← hp, ← hmap]
        exact (List.getElem?_append_right (hmap.symm ▸ hi)).symm
      have hmem := List.mem_of_getElem? hp
      obtain ⟨n, s, _, hs, rfl⟩ := mem_finalizedPlans hmem
      rw [if_neg (List.ne_nil_of_mem hs)]
      exact iff_of_true rfl hi

end

/-! ## Runs -/

/-- The states that steps reach from a prepared dataset, with the steps taken so far and the state
each was taken in. -/
inductive Reachable (patch : JsonPatch) (curated : CuratedDataset) (model : String) :
    List (List QueryData × Step) → List QueryData → Prop where
  | prepare : Reachable patch curated model [] (prepareSampling curated model)
  | step {log : List (List QueryData × Step)} {state state' : List QueryData} {step : Step}
      (h : Reachable patch curated model log state) (hstep : runStep patch state step = .ok state') :
      Reachable patch curated model (log ++ [(state, step)]) state'

/-- The number of entries in a query's tree. -/
def treeSize (state : List QueryData) (id : Nat) : Nat :=
  ((state.find? fun q => q.id = id).map (·.sampledPlans.length)).getD 0

/-- The size a tree had before it last grew, given its sizes with the latest first; 0 if it never
grew. -/
def sizeBeforeGrowth : List Nat → Nat
  | now :: before :: rest => if before < now then before else sizeBeforeGrowth (before :: rest)
  | _ => 0

/-- Where the samples of the last step that added any to a query start. -/
def lastStart (log : List (List QueryData × Step)) (state : List QueryData) (id : Nat) : Nat :=
  sizeBeforeGrowth (treeSize state id :: log.reverse.map fun r => treeSize r.1 id)

theorem treeSize_eq {state : List QueryData} (hids : (state.map (·.id)).Nodup) {q : QueryData}
    (hq : q ∈ state) : treeSize state q.id = q.sampledPlans.length := by
  obtain ⟨p, hp, hid, hfind⟩ := exists_find?_id QueryData.id (List.mem_map_of_mem hq)
  have he : p = q := List.inj_on_of_nodup_map hids hp hq hid
  rw [treeSize, hfind, he]
  rfl

/-- A step moves the start of the last samples exactly when the tree grows. -/
theorem lastStart_step (log : List (List QueryData × Step)) (state state' : List QueryData)
    (step : Step) (id : Nat) : lastStart (log ++ [(state, step)]) state' id =
      if treeSize state id < treeSize state' id then treeSize state id
      else lastStart log state id := by
  rw [lastStart, List.reverse_append, List.reverse_singleton, List.singleton_append, List.map_cons,
    sizeBeforeGrowth]
  rfl

/-- What a run keeps: the queries of the dataset with their plans, each with a sample tree. -/
structure StateInv (curated : CuratedDataset) (log : List (List QueryData × Step))
    (state : List QueryData) : Prop where
  queries : state.map (fun q => (q.id, q.plan)) = curated.entries.map fun e => (e.id, e.plan)
  trees : ∀ q ∈ state, SampleTree q.sampledPlans (lastStart log state q.id)

theorem StateInv.ids {curated : CuratedDataset} {log : List (List QueryData × Step)}
    {state : List QueryData} (h : StateInv curated log state) : (state.map (·.id)).Nodup := by
  have he := congrArg (List.map Prod.fst) h.queries
  rw [List.map_map, List.map_map] at he
  exact (show state.map (·.id) = curated.entries.map (·.id) from he) ▸ curated.distinct

variable {patch : JsonPatch} {curated : CuratedDataset} {model : String}

/-- The tree of a prepared query. -/
theorem sampleTree_originalPlan (stats : Json) : SampleTree [originalPlan stats] 0 where
  tree := {
    wf := .singleton rfl
    rootValid := fun p hp _ => by rw [List.mem_singleton.mp hp]; rfl
    patches := fun p hp _ => by rw [List.mem_singleton.mp hp]; exact ⟨[], rfl⟩ }
  smaller p hp n m hn := by
    rw [List.mem_singleton.mp hp] at hn
    exact absurd hn (by simp [originalPlan])
  leaf p hp := by
    rw [List.mem_singleton.mp hp]
    refine iff_of_true rfl fun c hc hid => ?_
    rw [List.mem_singleton.mp hc] at hid
    exact absurd rfl hid
  last i p hp := by
    have hmem : p ∈ [originalPlan stats] := List.mem_of_getElem? hp
    rw [List.mem_singleton.mp hmem]
    exact iff_of_true rfl (Nat.zero_le i)

theorem prepare_inv : StateInv curated [] (prepareSampling curated model) where
  queries := by
    rw [prepareSampling, List.map_map]
    rfl
  trees q hq := by
    obtain ⟨e, _, rfl⟩ := List.mem_map.mp hq
    exact sampleTree_originalPlan e.evaluationStats

/-- A sample's parent is an entry. -/
theorem SampleOf.parent_mem {step : Step} {q : QueryData} {s : SampledPlan}
    (h : SampleOf patch step q s) (ht : ChainTree q.sampledPlans) :
    s.parentSampleId ∈ q.sampledPlans.map (·.sampleId) := by
  obtain ⟨p, hp, base, hbase, pos, result, rfl⟩ := h
  rw [evaluatePlan_parentSampleId]
  exact List.mem_map.mpr ⟨p, hp, (basePlanOf_eq ht hp hbase).1.symm⟩

theorem SampleOf.patches {step : Step} {q : QueryData} {s : SampledPlan}
    (h : SampleOf patch step q s) (hv : s.isValid = true) : ∃ ps, s.sampledPatches = some ps := by
  obtain ⟨p, _, base, _, pos, result, rfl⟩ := h
  obtain ⟨ps, hps, _⟩ := evaluatePlan_valid hv
  exact ⟨ps, by rw [evaluatePlan_sampledPatches, hps]⟩

/-- **A step keeps the invariant.** -/
theorem step_inv {log : List (List QueryData × Step)} {state state' : List QueryData} {step : Step}
    (h : StateInv curated log state) (hstep : runStep patch state step = .ok state') :
    StateInv curated (log ++ [(state, step)]) state' := by
  obtain ⟨evaluated, _, rfl, hsamples⟩ := runStep_eq h.ids
    (fun q hq => (h.trees q hq).tree.exists_root) hstep
  have hqueries : (state.map fun q => addSamples (samplesOf evaluated q.id) q).map
      (fun q => (q.id, q.plan)) = state.map fun q => (q.id, q.plan) := by
    rw [List.map_map]
    rfl
  have hids : ((state.map fun q => addSamples (samplesOf evaluated q.id) q).map (·.id)).Nodup := by
    rw [List.map_map]
    exact h.ids
  refine ⟨hqueries.trans h.queries, fun q' hq' => ?_⟩
  have hsize := treeSize_eq hids hq'
  obtain ⟨q, hq, rfl⟩ := List.mem_map.mp hq'
  have ht := h.trees q hq
  have hnew := sampleTree_addSamples ht (fun s hs => (hsamples q hq s hs).parent_mem ht.tree)
    fun s hs => (hsamples q hq s hs).patches
  have hlen : (addSamples (samplesOf evaluated q.id) q).sampledPlans.length =
      q.sampledPlans.length + (samplesOf evaluated q.id).length := by
    rw [addSamples, List.length_append, List.length_map, length_finalizedPlans]
  have hid : (addSamples (samplesOf evaluated q.id) q).id = q.id := rfl
  rw [hid, hlen] at hsize
  rw [lastStart_step, hid, hsize, treeSize_eq h.ids hq]
  by_cases hs : samplesOf evaluated q.id = []
  · rw [if_pos hs] at hnew
    rw [if_neg (by rw [hs, List.length_nil]; omega)]
    exact hnew
  · rw [if_neg hs] at hnew
    have := List.length_pos_iff.mpr hs
    rw [if_pos (by omega)]
    exact hnew

/-- **Every reachable state has the invariant**, by induction on the run. -/
theorem reachable_inv {log : List (List QueryData × Step)} {state : List QueryData}
    (h : Reachable patch curated model log state) : StateInv curated log state := by
  induction h with
  | prepare => exact prepare_inv
  | step _ hstep ih => exact step_inv ih hstep

/-- **Sample trees stay well formed over any run**, and both walks to the root end: the statistics
are found, and only an invalid entry without patches can fail when its own are asked for. -/
theorem sampleTree_of_reachable (patch : JsonPatch) (curated : CuratedDataset) (model : String)
    (log : List (List QueryData × Step)) (state : List QueryData)
    (h : Reachable patch curated model log state) : ∀ q ∈ state,
      SampleTree q.sampledPlans (lastStart log state q.id) ∧
      ∀ p ∈ q.sampledPlans,
        (∃ patches, getUpstreamPatches p q.sampledPlans false = .ok patches) ∧
        (∀ must e, getUpstreamPatches p q.sampledPlans must = .error e → e = .raised .typeError) ∧
        ∃ stats, getUpstreamEvaluationStats p q.sampledPlans = .ok stats := by
  intro q hq
  have ht := (reachable_inv h).trees q hq
  refine ⟨ht, fun p hp => ⟨?_, fun must e he => ?_, ?_⟩⟩
  · obtain ⟨ps, hps⟩ := ht.tree.exists_chain p hp
    exact ⟨ps, getUpstreamPatches_eq ht.tree hp hps⟩
  · exact getUpstreamPatches_error ht.tree hp must he
  · obtain ⟨a, ha⟩ := ht.tree.exists_nearestValid p hp
    exact ⟨a.evaluationStats, getUpstreamEvaluationStats_eq ht.tree hp ha⟩

/-! ## A run -/

/-- A `replace` operation on a field of the document. -/
def replaceField (document operation : Json) : Except String Json :=
  match document, operation with
  | .obj fields, .obj [("op", .str "replace"), ("path", .str path), ("value", v)] =>
    match path.toList with
    | '/' :: key =>
      if String.ofList key ∈ OrdDict.keys fields then
        .ok (.obj (OrdDict.set fields (String.ofList key) v))
      else .error "can't replace a non-existent object"
    | _ => .error "Location must start with /"
  | _, _ => .error "unsupported operation"

/-- `jsonpatch` for such operations. -/
def replacePatch : JsonPatch := fun document patches => patches.foldlM replaceField document

/-- One query, with a plan of one node. -/
def scanDataset : CuratedDataset where
  entries := [⟨0, "select * from t", .obj [("structure", .obj [("0", .int 0)])], .int 0, .int 1,
    .obj [("execution_time", .int 100)]⟩]
  distinct := by decide
  hasStructure e he := by
    rw [List.mem_singleton.mp he]
    exact ⟨_, _, rfl, rfl⟩

def noResponse : Response := ⟨.str "", .str "", .null, .null, .null⟩

/-- The model answers with a patch, with an empty patch and with an error; the engine accepts. -/
def firstStep : Step where
  strategy := originalStrategy
  model := "gpt-5"
  generate := fun _ _ _ => [
    ⟨noResponse, none, some [.obj [("op", .str "replace"), ("path", .str "/0"), ("value", .int 7)]]⟩,
    ⟨noResponse, none, some []⟩, ⟨noResponse, some "timeout", none⟩]
  engine := {
    validate := fun _ _ _ => .ok none
    evaluate := fun _ _ => .ok (.obj [("execution_time", .int 90)]) }

/-- The next step starts from all three. -/
def secondStep : Step := { firstStep with strategy := ⟨.ofLast, .all, false, none, none⟩ }

def scanStart : List QueryData := prepareSampling scanDataset "gpt-5"

/-- The state a step leads to, none where it fails. -/
def stateAfter (state : List QueryData) (step : Step) : List QueryData :=
  (runStep replacePatch state step).toOption.getD []

def scanFirst : List QueryData := stateAfter scanStart firstStep

def scanSecond : List QueryData := stateAfter scanFirst secondStep

def scanLog : List (List QueryData × Step) := [(scanStart, firstStep), (scanFirst, secondStep)]

theorem scan_reachable : Reachable replacePatch scanDataset "gpt-5" scanLog scanSecond := by
  have hfirst : runStep replacePatch scanStart firstStep = .ok scanFirst := by decide +kernel
  have hsecond : runStep replacePatch scanFirst secondStep = .ok scanSecond := by decide +kernel
  exact (Reachable.prepare.step hfirst).step hsecond

/-- Twelve samples over two steps, a third of them invalid. -/
theorem sampleTree_of_scan : scanSecond ≠ [] ∧ ∀ q ∈ scanSecond,
    SampleTree q.sampledPlans (lastStart scanLog scanSecond q.id) ∧
    ∀ p ∈ q.sampledPlans,
      (∃ patches, getUpstreamPatches p q.sampledPlans false = .ok patches) ∧
      (∀ must e, getUpstreamPatches p q.sampledPlans must = .error e → e = .raised .typeError) ∧
      ∃ stats, getUpstreamEvaluationStats p q.sampledPlans = .ok stats :=
  ⟨by decide +kernel,
    sampleTree_of_reachable replacePatch scanDataset "gpt-5" scanLog scanSecond scan_reachable⟩

end DbPlanBench.Sampling
