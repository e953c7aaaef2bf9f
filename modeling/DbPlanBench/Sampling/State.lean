import DbPlanBench.Lib.Except
import DbPlanBench.Lib.ParentTree
import DbPlanBench.Py.Err

/-!
# The sampling state

`prepare_sampling` turns a curated dataset into the sampling state, one tree of
sampled plans for each query, with the original plan as its only entry.
`accumulate_samples` merges the evaluated samples of a step into it: fresh ids from
one more than the largest, `is_last` and `is_leaf` flags, new entries at the end.

The files are lists of records whose fields the code reads by name; a record here
has the fields that the sampling loop writes into it. `accumulateSamples_eq` says
what a merge does to each query.
-/

namespace DbPlanBench.Sampling

/-- What the language model returned along with its patches; carried along unread. -/
structure Response where
  modelResponse : Json
  reasoningContent : Json
  promptTokens : Json
  completionTokens : Json
  totalTokens : Json
deriving DecidableEq

inductive PlanType where
  | original
  | optimized
deriving DecidableEq

/-- An entry of a query's `sampled_plans` in the sampling state. -/
structure PlanInfo where
  planType : PlanType
  sampleId : Option Nat
  parentSampleId : Option Nat
  isLast : Bool
  isLeaf : Bool
  sampledPatches : Option (List Json)
  isValid : Bool
  errorMessage : Option String
  evaluationStats : Json
  response : Option Response
deriving DecidableEq

/-- A query of the sampling state. -/
structure QueryData where
  id : Nat
  query : String
  plan : Json
  complexity : Json
  rowCount : Json
  model : String
  sampledPlans : List PlanInfo
deriving DecidableEq

/-- A sample of a step, before and after its evaluation. -/
structure SampledPlan where
  parentSampleId : Option Nat
  upstreamPatches : List Json
  upstreamEvaluationStats : Json
  sampledPatches : Option (List Json)
  isValid : Bool
  errorMessage : Option String
  response : Response
  evaluationStats : Json
deriving DecidableEq

/-- A query of a step's files. -/
structure SampledQuery where
  id : Nat
  query : String
  plan : Json
  model : String
  sampledPlans : List SampledPlan
deriving DecidableEq

/-- An entry of the curated dataset. -/
structure CuratedEntry where
  id : Nat
  query : String
  plan : Json
  complexity : Json
  rowCount : Json
  evaluationStats : Json

/-- A curated dataset: the queries are numbered, and each has a plan with a `structure`. -/
structure CuratedDataset where
  entries : List CuratedEntry
  distinct : (entries.map (·.id)).Nodup
  hasStructure : ∀ e ∈ entries, ∃ fields s, e.plan = .obj fields ∧
    OrdDict.get? fields "structure" = some s

/-! ## Preparing -/

/-- The original plan as a sample. -/
def originalPlan (evaluationStats : Json) : PlanInfo where
  planType := .original
  sampleId := none
  parentSampleId := none
  isLast := true
  isLeaf := true
  sampledPatches := some []
  isValid := true
  errorMessage := none
  evaluationStats := evaluationStats
  response := none

def prepareEntry (model : String) (entry : CuratedEntry) : QueryData where
  id := entry.id
  query := entry.query
  plan := entry.plan
  complexity := entry.complexity
  rowCount := entry.rowCount
  model := model
  sampledPlans := [originalPlan entry.evaluationStats]

/-- `prepare_sampling`. -/
def prepareSampling (curated : CuratedDataset) (model : String) : List QueryData :=
  curated.entries.map (prepareEntry model)

/-! ## Accumulating -/

/-- One more than the largest sample id, the root's counting as zero. -/
def newSampleId (plans : List PlanInfo) : Nat :=
  (plans.map fun p => p.sampleId.getD 0).foldl max 0 + 1

/-- `id2metadata`. -/
def id2metadata (final : List QueryData) : List (Nat × Nat) :=
  final.foldl (fun d q => OrdDict.set d q.id (newSampleId q.sampledPlans)) []

/-- `finalized_plan`. -/
def finalizedPlan (newId : Nat) (s : SampledPlan) : PlanInfo where
  planType := .optimized
  sampleId := some newId
  parentSampleId := s.parentSampleId
  isLast := true
  isLeaf := true
  sampledPatches := s.sampledPatches
  isValid := s.isValid
  errorMessage := s.errorMessage
  evaluationStats := s.evaluationStats
  response := some s.response

/-- The samples of a query, numbered from `start`. -/
def finalizedPlans (start : Nat) (plans : List SampledPlan) : List PlanInfo :=
  (plans.zipIdx start).map fun p => finalizedPlan p.2 p.1

/-- `id2samples` and `leaf_parents`. -/
structure Collected where
  id2samples : List (Nat × List PlanInfo)
  leafParents : List (Nat × Option Nat)

/-- One query of the step. -/
def collect (newIds : List (Nat × Nat)) (c : Collected) (q : SampledQuery) :
    Except PyErr Collected :=
  match OrdDict.get? newIds q.id with
  | none => .error .keyError
  | some start => .ok {
      id2samples := OrdDict.set c.id2samples q.id (finalizedPlans start q.sampledPlans)
      leafParents := c.leafParents ++ q.sampledPlans.map fun s => (q.id, s.parentSampleId) }

/-- The flags of an entry and the new entries of a query. -/
def mergeQuery (c : Collected) (q : QueryData) : QueryData :=
  let newSamples := (OrdDict.get? c.id2samples q.id).getD []
  { q with
    sampledPlans := q.sampledPlans.map (fun p =>
      { p with
        isLast := if 0 < newSamples.length then false else p.isLast
        isLeaf := if (q.id, p.sampleId) ∈ c.leafParents then false else p.isLeaf }) ++ newSamples }

/-- `accumulate_samples`: `sampled` is the step's file, `final` the sampling state. -/
def accumulateSamples (sampled : List SampledQuery) (final : List QueryData) :
    Except PyErr (List QueryData) := do
  let c ← sampled.foldlM (collect (id2metadata final)) ⟨[], []⟩
  return final.map (mergeQuery c)

/-! ## What a merge does -/

/-- The samples a step has for a query. -/
def samplesOf (sampled : List SampledQuery) (id : Nat) : List SampledPlan :=
  ((sampled.find? fun q => q.id = id).map (·.sampledPlans)).getD []

/-- An entry loses `is_last` when there are new samples, and `is_leaf` when one is its child. -/
def markParent (samples : List SampledPlan) (p : PlanInfo) : PlanInfo :=
  { p with
    isLast := if samples = [] then p.isLast else false
    isLeaf := if p.sampleId ∈ samples.map (·.parentSampleId) then false else p.isLeaf }

/-- A query with the samples of a step. -/
def addSamples (samples : List SampledPlan) (q : QueryData) : QueryData :=
  { q with
    sampledPlans := q.sampledPlans.map (markParent samples) ++
      finalizedPlans (newSampleId q.sampledPlans) samples }

/-- An id of the list is found. -/
theorem exists_find?_id {α : Type} (f : α → Nat) {l : List α} {id : Nat} (h : id ∈ l.map f) :
    ∃ a ∈ l, f a = id ∧ l.find? (fun b => f b = id) = some a := by
  obtain ⟨b, hb, hid⟩ := List.mem_map.mp h
  have hsome : (l.find? fun b => f b = id).isSome :=
    List.find?_isSome.mpr ⟨b, hb, by simpa using hid⟩
  obtain ⟨a, ha⟩ := Option.isSome_iff_exists.mp hsome
  have hfound := List.find?_some ha
  exact ⟨a, List.mem_of_find?_eq_some ha, by simpa using hfound, ha⟩

theorem samplesOf_cons (q : SampledQuery) (sampled : List SampledQuery) (id : Nat) :
    samplesOf (q :: sampled) id = if q.id = id then q.sampledPlans else samplesOf sampled id := by
  rw [samplesOf]
  by_cases h : q.id = id
  · rw [List.find?_cons_of_pos (by simpa using h), if_pos h]
    rfl
  · rw [List.find?_cons_of_neg (by simpa using h), if_neg h]
    rfl

theorem samplesOf_of_not_mem {sampled : List SampledQuery} {id : Nat}
    (h : id ∉ sampled.map (·.id)) : samplesOf sampled id = [] := by
  have hfind : (sampled.find? fun q => q.id = id) = none := by
    rw [List.find?_eq_none]
    intro q hq he
    exact h (List.mem_map.mpr ⟨q, hq, by simpa using he⟩)
  rw [samplesOf, hfind]
  rfl

theorem get?_id2metadata {final : List QueryData} (hd : (final.map (·.id)).Nodup) {q : QueryData}
    (hq : q ∈ final) : OrdDict.get? (id2metadata final) q.id = some (newSampleId q.sampledPlans) := by
  have he := OrdDict.foldl_set_fresh QueryData.id (fun q => newSampleId q.sampledPlans) final []
    hd fun _ _ => List.not_mem_nil
  rw [List.nil_append] at he
  rw [id2metadata, he]
  refine OrdDict.get?_of_mem ?_ (List.mem_map.mpr ⟨q, hq, rfl⟩)
  rw [OrdDict.keys, List.map_map]
  exact hd

/-- What the collecting loop returns, when every query of the step is known. -/
theorem collect_foldlM (newIds : List (Nat × Nat)) : ∀ (sampled : List SampledQuery) (c : Collected),
    (∀ q ∈ sampled, ∃ n, OrdDict.get? newIds q.id = some n) → (sampled.map (·.id)).Nodup →
      (∀ q ∈ sampled, q.id ∉ OrdDict.keys c.id2samples) →
    ∃ c', sampled.foldlM (collect newIds) c = .ok c' ∧
      (∀ id, OrdDict.get? c'.id2samples id = if id ∈ sampled.map (·.id) then
        some (finalizedPlans ((OrdDict.get? newIds id).getD 0) (samplesOf sampled id)) else
        OrdDict.get? c.id2samples id) ∧
      ∀ id k, (id, k) ∈ c'.leafParents ↔
        (id, k) ∈ c.leafParents ∨ k ∈ (samplesOf sampled id).map (·.parentSampleId)
  | [], c, _, _, _ => ⟨c, rfl, fun id => by simp, fun id k => by simp [samplesOf]⟩
  | q :: sampled, c, hknown, hnd, hfresh => by
    -- no later query of the step has the id of this one, so what it stores stays
    rw [List.map_cons, List.nodup_cons] at hnd
    obtain ⟨start, hstart⟩ := hknown q (List.mem_cons_self ..)
    have hcollect : collect newIds c q = .ok {
        id2samples := OrdDict.set c.id2samples q.id (finalizedPlans start q.sampledPlans)
        leafParents := c.leafParents ++ q.sampledPlans.map fun s => (q.id, s.parentSampleId) } := by
      rw [collect, hstart]
    have hfresh' : ∀ p ∈ sampled, p.id ∉
        OrdDict.keys (OrdDict.set c.id2samples q.id (finalizedPlans start q.sampledPlans)) := by
      intro p hp hmem
      rcases OrdDict.mem_keys_set.mp hmem with he | hmem
      · exact hnd.1 (List.mem_map.mpr ⟨p, hp, he⟩)
      · exact hfresh p (List.mem_cons_of_mem _ hp) hmem
    obtain ⟨c', hc', hsamples, hparents⟩ := collect_foldlM newIds sampled
      ⟨OrdDict.set c.id2samples q.id (finalizedPlans start q.sampledPlans), _⟩
      (fun p hp => hknown p (List.mem_cons_of_mem _ hp)) hnd.2 hfresh'
    refine ⟨c', ?_, fun id => ?_, fun id k => ?_⟩
    · rw [List.foldlM_cons, hcollect]
      exact hc'
    · -- the samples: this query's at its id, the rest by induction
      rw [hsamples id, samplesOf_cons, List.map_cons]
      by_cases hid : q.id = id
      · subst hid
        rw [if_neg hnd.1, if_pos (List.mem_cons_self ..), if_pos rfl, OrdDict.get?_set_self, hstart]
        rfl
      · rw [if_neg hid, OrdDict.get?_set_ne _ _ (fun e => hid e.symm)]
        simp only [List.mem_cons, Ne.symm hid, false_or]
    · -- the marked parents, in the same way
      rw [hparents id k, samplesOf_cons, List.mem_append]
      by_cases hid : q.id = id
      · subst hid
        rw [if_pos rfl, samplesOf_of_not_mem hnd.1]
        simp
      · rw [if_neg hid]
        simp [hid]

/-- **A merge adds to every query the samples the step has for it.** -/
theorem accumulateSamples_eq {sampled : List SampledQuery} {final : List QueryData}
    (hfinal : (final.map (·.id)).Nodup) (hsampled : (sampled.map (·.id)).Nodup)
    (hknown : ∀ q ∈ sampled, q.id ∈ final.map (·.id)) :
    accumulateSamples sampled final =
      .ok (final.map fun q => addSamples (samplesOf sampled q.id) q) := by
  have hids : ∀ q ∈ sampled, ∃ n, OrdDict.get? (id2metadata final) q.id = some n := by
    intro q hq
    obtain ⟨q', hq', he⟩ := List.mem_map.mp (hknown q hq)
    exact ⟨_, he ▸ get?_id2metadata hfinal hq'⟩
  obtain ⟨c, hc, hsamples, hparents⟩ := collect_foldlM (id2metadata final) sampled ⟨[], []⟩ hids
    hsampled fun _ _ => List.not_mem_nil
  rw [accumulateSamples, hc, Except.ok_bind]
  refine congrArg Except.ok (List.map_congr_left fun q hq => ?_)
  have hnew : (OrdDict.get? c.id2samples q.id).getD [] =
      finalizedPlans (newSampleId q.sampledPlans) (samplesOf sampled q.id) := by
    rw [hsamples q.id, get?_id2metadata hfinal hq]
    by_cases hmem : q.id ∈ sampled.map (·.id)
    · rw [if_pos hmem]
      rfl
    · rw [if_neg hmem, samplesOf_of_not_mem hmem]
      rfl
  -- a query without new samples keeps its metadata, in the source by a test on the length
  have hlen : 0 < (finalizedPlans (newSampleId q.sampledPlans) (samplesOf sampled q.id)).length ↔
      samplesOf sampled q.id ≠ [] := by
    rw [finalizedPlans, List.length_map, List.length_zipIdx, List.length_pos_iff]
  simp only [mergeQuery, addSamples, hnew, hlen, hparents, List.not_mem_nil, false_or, ite_not]
  rfl

end DbPlanBench.Sampling
