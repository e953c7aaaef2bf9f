import DbPlanBench.Lib.Smallest
import DbPlanBench.Optimize.Results
import DbPlanBench.Sampling.Chain
import Mathlib.Algebra.Order.Field.Basic
import Mathlib.Algebra.Order.Ring.Rat

/-!
# The best patches of a query

The base plan and the valid samples with a metric compete; the returned patches are
those of the `k` with the smallest metrics, padded with `None`. A base without a
metric comes last, and among equal metrics it comes first.

* `contenders` — what competes, and `TopK` what is returned of it.
* `rankQuery_topK` — whatever `_process_sampling_results` returns for a query is that.
* `rankQuery_returns` — and it returns, if the samples form a tree.
-/

namespace DbPlanBench.Optimize

open Sampling (Fault PlanInfo QueryData keyLe entryAt patchStack getUpstreamPatches originalPlan)

/-! ## What competes -/

/-- The metric, where statistics have one that is a number. -/
def numericMetric (metric : String) (stats : Json) : Option ℚ :=
  (metricValue metric stats).toOption.join

/-- The valid samples with a metric. -/
def eligible (metric : String) (q : QueryData) : List PlanInfo :=
  q.sampledPlans.filter fun p =>
    p.sampleId ≠ none ∧ p.isValid = true ∧ (numericMetric metric p.evaluationStats).isSome = true

/-- A contender is the base plan or a sample. -/
abbrev Contender := Option PlanInfo

/-- The base plan and the valid samples with a metric. -/
def contenders (metric : String) (q : QueryData) : List Contender :=
  none :: (eligible metric q).map some

/-- The statistics of a contender. -/
def contenderStats (q : QueryData) : Contender → Json
  | none => orEmpty (baseEvaluation q.sampledPlans)
  | some p => p.evaluationStats

def contenderMetric (metric : String) (q : QueryData) (c : Contender) : Option ℚ :=
  numericMetric metric (contenderStats q c)

/-- The patches of a contender, from the root down. -/
def contenderPatches (q : QueryData) : Contender → Except Fault (List Json)
  | none => .ok []
  | some p => getUpstreamPatches p q.sampledPlans false

/-- In the order of the metrics; without one a contender comes last. -/
def contenderLe (metric : String) (q : QueryData) (a b : Contender) : Prop :=
  keyLe (contenderMetric metric q a) (contenderMetric metric q b) = true

/-- The entries of a query in the result, for the best `k` contenders. -/
structure TopK (metric : String) (k : Nat) (q : QueryData) (plan : PatchedPlan)
    (data : QueryMetadata) (chosen : List Contender) : Prop where
  basePlan : plan.basePlan = some q.plan
  base : data.base = orEmpty (baseEvaluation q.sampledPlans)
  smallest : Smallest.Of (contenderLe metric q) k (contenders metric q) chosen
  patches : ∃ patches, chosen.mapM (contenderPatches q) = .ok patches ∧
    plan.patch = patches.map some ++ List.replicate (k - chosen.length) none
  stats : data.patch = chosen.map (fun c => some (contenderStats q c)) ++
    List.replicate (k - chosen.length) none
  improvements : data.improvementX = chosen.map (fun c =>
      improvement (contenderMetric metric q none) (contenderMetric metric q c)) ++
    List.replicate (k - chosen.length) none

/-! ## Trees in any order -/

/-- The entries form a tree: in some order the root comes first, ids are distinct, and each entry's
parent is there before it. -/
def TreeShaped (plans : List PlanInfo) : Prop :=
  ∃ l, l.Perm plans ∧ ParentTree.WellFormed (·.sampleId) (·.parentSampleId) l

section

variable {plans l : List PlanInfo}

theorem entryAt_of_not_mem {id : Option Nat} (h : id ∉ plans.map (·.sampleId)) :
    entryAt plans id = .error (.raised .keyError) := by
  have hkeys : ∀ (l : List (PlanInfo × Nat)) (d : List (Option Nat × Nat)),
      id ∉ OrdDict.keys d → id ∉ l.map (·.1.sampleId) →
        id ∉ OrdDict.keys (l.foldl (fun d p => OrdDict.set d p.1.sampleId p.2) d) := by
    intro l
    induction l with
    | nil => exact fun d hd _ => hd
    | cons p l ih =>
      intro d hd hl
      rw [List.map_cons, List.mem_cons, not_or] at hl
      exact ih _ (fun hmem => (OrdDict.mem_keys_set.mp hmem).elim hl.1 hd) hl.2
  have hnone : OrdDict.get? (Sampling.sampleid2sampleidx plans) id = none := by
    refine OrdDict.get?_eq_none.mpr (hkeys plans.zipIdx [] List.not_mem_nil fun hmem => h ?_)
    obtain ⟨p, hp, rfl⟩ := List.mem_map.mp hmem
    exact List.mem_map_of_mem (List.mem_of_getElem? (List.mem_zipIdx_iff_getElem?.mp hp))
  rw [entryAt, hnone]

/-- An entry is found wherever it is. -/
theorem entryAt_perm (hperm : l.Perm plans) (hd : (l.map (·.sampleId)).Nodup) (id : Option Nat) :
    entryAt l id = entryAt plans id := by
  have hd' : (plans.map (·.sampleId)).Nodup := (hperm.map _).nodup_iff.mp hd
  by_cases hmem : id ∈ l.map (·.sampleId)
  · obtain ⟨p, hp, rfl⟩ := List.mem_map.mp hmem
    rw [Sampling.entryAt_eq hd hp, Sampling.entryAt_eq hd' (hperm.mem_iff.mp hp)]
  · rw [entryAt_of_not_mem hmem, entryAt_of_not_mem fun h => hmem ((hperm.map _).mem_iff.mpr h)]

/-- So a walk to the root does not depend on the order of the entries. -/
theorem patchStack_perm (hperm : l.Perm plans) (hd : (l.map (·.sampleId)).Nodup) :
    ∀ (fuel : Nat) (p : PlanInfo) (must : Bool), patchStack l fuel p must = patchStack plans fuel p must
  | 0, _, _ => rfl
  | fuel + 1, p, must => by
    rw [patchStack, patchStack, entryAt_perm hperm hd]
    simp only [patchStack_perm hperm hd fuel]

/-- **In a tree of samples the patches of every entry are found**, if valid entries have some. -/
theorem getUpstreamPatches_returns (h : TreeShaped plans)
    (hpatches : ∀ p ∈ plans, p.isValid = true → ∃ patches, p.sampledPatches = some patches)
    {p : PlanInfo} (hp : p ∈ plans) : ∃ ps, getUpstreamPatches p plans false = .ok ps := by
  obtain ⟨l, hperm, hwf⟩ := h
  have hp := hperm.mem_iff.mpr hp
  obtain ⟨ps, hps⟩ := Sampling.exists_chain_of_tree hwf
    (fun p hp => hpatches p (hperm.mem_iff.mp hp)) p hp
  refine ⟨ps, ?_⟩
  rw [← Sampling.getUpstreamPatches_chain hwf hp hps, getUpstreamPatches, getUpstreamPatches,
    patchStack_perm hperm hwf.nodup, hperm.length_eq]

end

/-! ## What is returned -/

theorem keyLe_total (a b : Option ℚ) : keyLe a b = true ∨ keyLe b a = true := by
  cases a with
  | none => exact Or.inr (by cases b <;> rfl)
  | some a =>
    cases b with
    | none => exact Or.inl rfl
    | some b => simpa [keyLe] using le_total a b

theorem keyLe_trans {a b c : Option ℚ} (hab : keyLe a b = true) (hbc : keyLe b c = true) :
    keyLe a c = true := by
  cases c with
  | none => cases a <;> rfl
  | some c =>
    cases b with
    | none => exact absurd hbc (by simp [keyLe])
    | some b =>
      cases a with
      | none => exact absurd hab (by simp [keyLe])
      | some a =>
        simp only [keyLe, decide_eq_true_eq] at hab hbc ⊢
        exact hab.trans hbc

section

variable {metric : String} {q : QueryData}

theorem numericMetric_of_ok {stats : Json} {v : Option ℚ} (h : metricValue metric stats = .ok v) :
    numericMetric metric stats = v := by
  rw [numericMetric, h]
  cases v <;> rfl

/-- Statistics that count as false have no metric. -/
theorem metricValue_of_falsy {stats : Json} (h : stats.truthy = false) :
    metricValue metric stats = .ok none := by
  have hget : Sampling.getMetricValue stats metric = .ok none := if_pos (by rw [h]; rfl)
  rw [metricValue, hget]
  rfl

theorem metricValue_orEmpty (stats : Json) :
    metricValue metric (orEmpty stats) = metricValue metric stats := by
  unfold orEmpty
  split
  next => rfl
  next h =>
    have hempty : metricValue metric (.obj []) = .ok none := metricValue_of_falsy rfl
    rw [hempty, metricValue_of_falsy (by simpa using h)]

/-- Those with a metric are handed on as they are. -/
theorem orEmpty_of_metric {stats : Json} (h : (numericMetric metric stats).isSome = true) :
    orEmpty stats = stats := by
  unfold orEmpty
  split
  next => rfl
  next hfalsy =>
    rw [numericMetric_of_ok (metricValue_of_falsy (by simpa using hfalsy))] at h
    exact absurd h (by simp)

/-- Those with a value are left, and the values taken off again. -/
theorem map_snd_filterMap {α β : Type} (g : α → Option β) : ∀ l : List α,
    ((l.map fun a => (g a, a)).filterMap fun p => p.1.map (·, p.2)).map Prod.snd =
      l.filter fun a => (g a).isSome
  | [] => rfl
  | a :: l => by
    have ih := map_snd_filterMap g l
    cases hg : g a with
    | none => simpa [List.filterMap_cons, hg] using ih
    | some b => simpa [List.filterMap_cons, hg] using ih

/-- What is measured of some entries. -/
theorem measured_eq {plans : List PlanInfo} {keyed : List (Option ℚ × PlanInfo)}
    (h : (plans.mapM fun p => do
      let value ← metricValue metric p.evaluationStats
      return (value, p)) = .ok keyed) :
    keyed = plans.map fun p => (numericMetric metric p.evaluationStats, p) := by
  have hforall := Except.mapM_eq_ok.mp h
  clear h
  induction hforall with
  | nil => rfl
  | cons hp _ ih =>
    obtain ⟨v, hv, hp⟩ := Except.bind_eq_ok.mp hp
    injection (show Except.ok _ = Except.ok _ from hp) with hp
    rw [List.map_cons, ← hp, numericMetric_of_ok hv, ih]

/-- The valid samples with a metric, in some order, each with its metric. -/
theorem validCandidates_spec {valid : List (ℚ × PlanInfo)}
    (h : validCandidates metric q.sampledPlans = .ok valid) :
    (valid.map Prod.snd).Perm (eligible metric q) ∧
      ∀ p ∈ valid, numericMetric metric p.2.evaluationStats = some p.1 := by
  obtain ⟨keyed, hkeyed, h⟩ := Except.bind_eq_ok.mp h
  injection (show Except.ok _ = Except.ok valid from h) with h
  have hkeyed := measured_eq hkeyed
  subst hkeyed
  have hperm := List.perm_insertionSort (fun a b : ℚ × PlanInfo => a.1 ≤ b.1)
    ((((candidates q.sampledPlans).filter (·.isValid)).map fun p =>
      (numericMetric metric p.evaluationStats, p)).filterMap fun p => p.1.map (·, p.2))
  rw [h] at hperm
  constructor
  · refine (hperm.map Prod.snd).trans (List.Perm.of_eq ?_)
    -- the three filters of the source are one
    rw [map_snd_filterMap fun p : PlanInfo => numericMetric metric p.evaluationStats, eligible,
      candidates, List.filter_filter, List.filter_filter]
    refine List.filter_congr fun p _ => ?_
    simp [Bool.and_comm, Bool.and_left_comm]
  · intro p hp
    obtain ⟨x, hx, hxp⟩ := List.mem_filterMap.mp (hperm.mem_iff.mp hp)
    obtain ⟨p', _, rfl⟩ := List.mem_map.mp hx
    obtain ⟨v, hv, rfl⟩ := Option.map_eq_some_iff.mp hxp
    exact hv

/-- A record of `ranked_candidates` for a contender. -/
structure IsCandidate (metric : String) (q : QueryData) (c : Contender) (r : Candidate) : Prop where
  patches : contenderPatches q c = .ok r.patchOps
  stats : r.evaluationStats = contenderStats q c
  metric : r.metricValue = contenderMetric metric q c

/-- The record of a sample. -/
theorem isCandidate_sample {v : ℚ} {p : PlanInfo} {r : Candidate}
    (hv : numericMetric metric p.evaluationStats = some v)
    (h : candidateOf metric q.sampledPlans p = .ok r) : IsCandidate metric q (some p) r := by
  obtain ⟨patchOps, hpatches, h⟩ := Except.bind_eq_ok.mp h
  obtain ⟨value, hvalue, h⟩ := Except.bind_eq_ok.mp h
  injection (show Except.ok _ = Except.ok r from h) with h
  subst h
  rw [metricValue_orEmpty] at hvalue
  refine ⟨hpatches, orEmpty_of_metric (by rw [hv]; rfl), ?_⟩
  exact (numericMetric_of_ok hvalue).symm

/-- The record of the base plan. -/
theorem isCandidate_base {v : Option ℚ}
    (h : metricValue metric (baseEvaluation q.sampledPlans) = .ok v) :
    IsCandidate metric q none ⟨[], orEmpty (baseEvaluation q.sampledPlans), v⟩ := by
  refine ⟨rfl, rfl, ?_⟩
  rw [← metricValue_orEmpty] at h
  exact (numericMetric_of_ok h).symm

/-- **Sorting the records and taking the first ones takes the best contenders.** -/
theorem chosen_smallest {pairs : List (Contender × Candidate)}
    (hperm : (pairs.map Prod.fst).Perm (contenders metric q))
    (hpairs : ∀ p ∈ pairs, IsCandidate metric q p.1 p.2) (k : Nat) :
    ∃ chosen : List (Contender × Candidate), (∀ p ∈ chosen, IsCandidate metric q p.1 p.2) ∧
      ((pairs.map Prod.snd).insertionSort fun a b => keyLe a.metricValue b.metricValue).take k =
        chosen.map Prod.snd ∧
      Smallest.Of (contenderLe metric q) k (contenders metric q) (chosen.map Prod.fst) := by
  let le : Contender × Candidate → Contender × Candidate → Prop :=
    fun a b => keyLe (contenderMetric metric q a.1) (contenderMetric metric q b.1) = true
  have htotal : Std.Total le := ⟨fun a b => keyLe_total _ _⟩
  have htrans : IsTrans (Contender × Candidate) le := ⟨fun _ _ _ => keyLe_trans⟩
  have hsmallest := Smallest.of_insertionSort (r := le) k pairs
  refine ⟨(pairs.insertionSort le).take k, fun p hp => ?_, ?_, ?_⟩
  · exact hpairs p (hsmallest.mem hp)
  · rw [List.map_take]
    refine congrArg (List.take k) (List.map_insertionSort _ _ _ pairs fun a ha b hb => ?_).symm
    show keyLe _ _ = true ↔ keyLe _ _ = true
    rw [(hpairs a ha).metric, (hpairs b hb).metric]
  · exact (hsmallest.map Prod.fst fun _ _ h => h).perm hperm

/-- The records of the samples, in the order of the ranking. -/
theorem ranked_isCandidate {valid : List (ℚ × PlanInfo)} {ranked : List Candidate}
    (hvalid : ∀ p ∈ valid, numericMetric metric p.2.evaluationStats = some p.1)
    (h : valid.mapM (fun p => candidateOf metric q.sampledPlans p.2) = .ok ranked) :
    List.Forall₂ (fun p r => IsCandidate metric q (some p.2) r) valid ranked := by
  have hforall := Except.mapM_eq_ok.mp h
  clear h
  induction hforall with
  | nil => exact .nil
  | cons hp _ ih =>
    refine .cons (isCandidate_sample (hvalid _ (List.mem_cons_self ..)) hp) (ih fun p hp => ?_)
    exact hvalid p (List.mem_cons_of_mem _ hp)

/-- The contenders with their records, before they are sorted. -/
theorem exists_pairs {valid : List (ℚ × PlanInfo)} {ranked : List Candidate} {v : Option ℚ}
    (hvalid : validCandidates metric q.sampledPlans = .ok valid)
    (hbase : metricValue metric (baseEvaluation q.sampledPlans) = .ok v)
    (hranked : valid.mapM (fun p => candidateOf metric q.sampledPlans p.2) = .ok ranked) :
    ∃ pairs : List (Contender × Candidate),
      pairs.map Prod.snd = ⟨[], orEmpty (baseEvaluation q.sampledPlans), v⟩ :: ranked ∧
      (pairs.map Prod.fst).Perm (contenders metric q) ∧
      ∀ p ∈ pairs, IsCandidate metric q p.1 p.2 := by
  obtain ⟨hperm, hmetric⟩ := validCandidates_spec hvalid
  have hforall := ranked_isCandidate hmetric hranked
  have hlen : (valid.map fun p => some p.2).length = ranked.length := by
    rw [List.length_map, hforall.length_eq]
  refine ⟨(none, ⟨[], orEmpty (baseEvaluation q.sampledPlans), v⟩) ::
    (valid.map fun p => some p.2).zip ranked, ?_, ?_, fun p hp => ?_⟩
  · rw [List.map_cons, List.map_snd_zip (Nat.le_of_eq hlen.symm)]
  · rw [List.map_cons, List.map_fst_zip (Nat.le_of_eq hlen), contenders]
    refine List.Perm.cons _ ?_
    have hmap := hperm.map some
    rwa [List.map_map] at hmap
  · rcases List.mem_cons.mp hp with rfl | hp
    · exact isCandidate_base hbase
    · rw [List.zip_map_left, List.mem_map] at hp
      obtain ⟨p', hp', rfl⟩ := hp
      exact List.forall₂_zip hforall hp'

/-- The patches of the chosen records are those of the contenders. -/
theorem patches_of_isCandidate {chosen : List (Contender × Candidate)}
    (h : ∀ p ∈ chosen, IsCandidate metric q p.1 p.2) :
    (chosen.map Prod.fst).mapM (contenderPatches q) = .ok (chosen.map fun p => p.2.patchOps) := by
  rw [Except.mapM_eq_ok, List.forall₂_map_left_iff, List.forall₂_map_right_iff, List.forall₂_same]
  exact fun p hp => (h p hp).patches

/-- **Whatever is returned for a query is the best `k` of its contenders**, padded. -/
theorem rankQuery_topK {k : Int} {plan : PatchedPlan} {data : QueryMetadata} (hk : 1 ≤ k)
    (h : rankQuery metric k q = .ok (plan, data)) :
    ∃ chosen, TopK metric k.toNat q plan data chosen := by
  obtain ⟨valid, hvalid, h⟩ := Except.bind_eq_ok.mp h
  obtain ⟨baseMetric, hbase, h⟩ := Except.bind_eq_ok.mp h
  obtain ⟨ranked, hranked, h⟩ := Except.bind_eq_ok.mp h
  injection (show Except.ok _ = Except.ok (plan, data) from h) with h
  obtain ⟨hplan, hdata⟩ := Prod.mk.injEq .. ▸ h
  obtain ⟨pairs, hpairs, hperm, hcand⟩ := exists_pairs hvalid hbase hranked
  obtain ⟨chosen, hchosen, htake, hsmallest⟩ := chosen_smallest hperm hcand k.toNat
  rw [hpairs] at htake
  have hslice : ∀ l : List Candidate, Sampling.takeSlice l k = l.take k.toNat :=
    fun l => if_pos (by omega)
  rw [hslice, htake] at hplan hdata
  have hmetric : baseMetric = contenderMetric metric q none :=
    (isCandidate_base hbase).metric
  subst hplan hdata hmetric
  refine ⟨chosen.map Prod.fst, rfl, rfl, hsmallest,
    ⟨_, patches_of_isCandidate hchosen, ?_⟩, ?_, ?_⟩
  · simp only [List.map_map, List.length_map]
    rfl
  · simp only [List.map_map, List.length_map]
    refine congrArg (· ++ _) (List.map_congr_left fun p hp => ?_)
    exact congrArg some (hchosen p hp).stats
  · simp only [List.map_map, List.length_map]
    refine congrArg (· ++ _) (List.map_congr_left fun p hp => ?_)
    exact congrArg (improvement _) (hchosen p hp).metric

/-! ## It returns -/

/-- The samples of a query are a tree, valid ones have patches, and statistics are records. -/
structure SampleData (q : QueryData) : Prop where
  tree : TreeShaped q.sampledPlans
  patches : ∀ p ∈ q.sampledPlans, p.isValid = true →
    ∃ patches, p.sampledPatches = some patches
  stats : ∀ p ∈ q.sampledPlans, p.evaluationStats = .null ∨
    ∃ fields, p.evaluationStats = .obj fields

/-- A record, or none, is looked up without an error. -/
theorem metricValue_returns {stats : Json} (h : stats = .null ∨ ∃ fields, stats = .obj fields) :
    ∃ v, metricValue metric stats = .ok v := by
  rcases h with rfl | ⟨fields, rfl⟩
  · exact ⟨none, metricValue_of_falsy rfl⟩
  · unfold metricValue Sampling.getMetricValue
    split
    next => exact ⟨_, rfl⟩
    next =>
      split
      next => exact ⟨_, rfl⟩
      next => exact ⟨_, rfl⟩

theorem SampleData.baseEvaluation (h : SampleData q) :
    baseEvaluation q.sampledPlans = .null ∨
      ∃ fields, baseEvaluation q.sampledPlans = .obj fields := by
  unfold Optimize.baseEvaluation
  cases hroot : q.sampledPlans.find? fun p => p.sampleId = none with
  | none => exact Or.inl rfl
  | some r => exact h.stats r (List.mem_of_find?_eq_some hroot)

/-- The records of valid samples are there. -/
theorem SampleData.candidateOf (h : SampleData q) {p : PlanInfo} (hp : p ∈ q.sampledPlans) :
    ∃ r, candidateOf metric q.sampledPlans p = .ok r := by
  obtain ⟨ps, hps⟩ := getUpstreamPatches_returns h.tree h.patches hp
  obtain ⟨v, hv⟩ := metricValue_returns (h.stats p hp)
  refine ⟨_, Except.bind_eq_ok.mpr ⟨ps, hps, Except.bind_eq_ok.mpr ⟨v, ?_, rfl⟩⟩⟩
  rw [metricValue_orEmpty, hv]

/-- **For the samples of a query that form a tree the ranking returns.** -/
theorem rankQuery_returns (h : SampleData q) (k : Int) : ∃ r, rankQuery metric k q = .ok r := by
  obtain ⟨keyed, hkeyed⟩ : ∃ keyed, ((candidates q.sampledPlans).filter (·.isValid)).mapM
      (fun p => do
        let value ← metricValue metric p.evaluationStats
        return (value, p)) = .ok keyed := by
    refine Except.exists_mapM_ok fun p hp => ?_
    have hp := List.mem_of_mem_filter (List.mem_of_mem_filter hp)
    obtain ⟨v, hv⟩ := metricValue_returns (h.stats p hp)
    exact ⟨(v, p), by rw [hv]; rfl⟩
  obtain ⟨valid, hvalid⟩ : ∃ valid, validCandidates metric q.sampledPlans = .ok valid :=
    ⟨_, Except.bind_eq_ok.mpr ⟨keyed, hkeyed, rfl⟩⟩
  obtain ⟨baseMetric, hbase⟩ := metricValue_returns h.baseEvaluation
  obtain ⟨hperm, _⟩ := validCandidates_spec hvalid
  obtain ⟨ranked, hranked⟩ : ∃ ranked,
      valid.mapM (fun p => candidateOf metric q.sampledPlans p.2) = .ok ranked := by
    refine Except.exists_mapM_ok fun p hp => h.candidateOf ?_
    exact List.mem_of_mem_filter (hperm.mem_iff.mp (List.mem_map_of_mem hp))
  exact ⟨_, Except.bind_eq_ok.mpr ⟨_, hvalid, Except.bind_eq_ok.mpr ⟨baseMetric, hbase,
    Except.bind_eq_ok.mpr ⟨ranked, hranked, rfl⟩⟩⟩⟩

/-! ## What the best `k` are -/

variable {k : Nat} {plan : PatchedPlan} {data : QueryMetadata} {chosen : List Contender}

/-- The three lists are of length `k`. -/
theorem TopK.lengths (h : TopK metric k q plan data chosen) :
    plan.patch.length = k ∧ data.patch.length = k ∧ data.improvementX.length = k := by
  have hle : chosen.length ≤ k := h.smallest.length ▸ Nat.min_le_left ..
  obtain ⟨patches, hpatches, hplan⟩ := h.patches
  have hlen := (Except.mapM_eq_ok.mp hpatches).length_eq
  refine ⟨?_, ?_, ?_⟩
  · rw [hplan, List.length_append, List.length_map, List.length_replicate]
    omega
  · rw [h.stats, List.length_append, List.length_map, List.length_replicate]
    omega
  · rw [h.improvements, List.length_append, List.length_map, List.length_replicate]
    omega

/-- As many patches as there are contenders, up to `k`. -/
theorem TopK.count (h : TopK metric k q plan data chosen) :
    chosen.length = min k (1 + (eligible metric q).length) := by
  rw [h.smallest.length, contenders, List.length_cons, List.length_map, Nat.add_comm]

/-- **The first entry is no worse than a base with a metric.** -/
theorem TopK.first_le (h : TopK metric k q plan data chosen) (hk : 0 < k) {b : ℚ}
    (hb : contenderMetric metric q none = some b) :
    ∃ c rest a, chosen = c :: rest ∧ contenderMetric metric q c = some a ∧ a ≤ b ∧
      (0 < a → ∃ x, data.improvementX.head? = some (some x) ∧ 1 ≤ x) := by
  have hrefl : ∀ c, contenderLe metric q c c := fun c => (keyLe_total _ _).elim id id
  obtain ⟨c, rest, rfl, hle⟩ :=
    h.smallest.head_le hrefl hk (b := none) (List.mem_cons_self ..)
  rw [contenderLe, hb] at hle
  cases hc : contenderMetric metric q c with
  | none =>
    rw [hc] at hle
    exact absurd hle (by simp [keyLe])
  | some a =>
    rw [hc] at hle
    have hab : a ≤ b := by simpa [keyLe] using hle
    refine ⟨c, rest, a, rfl, hc, hab, fun ha => ⟨b / a, ?_, (one_le_div₀ ha).mpr hab⟩⟩
    rw [h.improvements, List.map_cons, List.cons_append, List.head?_cons, hb, hc, improvement]
    simp only [if_pos ha]

/-! ## All queries -/

/-- **Top-k selection.** For every query the result has the patches, statistics and improvements of
its best `k` contenders; and there is a result whenever the samples of every query form a tree. -/
theorem processSamplingResults_topK {k : Int} (hk : 1 ≤ k) (queriesList : List String)
    (index : SamplingIndex) (metric : String) :
    (∀ out, processSamplingResults queriesList index metric k = .ok out →
      out.optimizationOutcome.length = queriesList.length ∧
      out.metadata.length = queriesList.length ∧
      ∀ i query, queriesList[i]? = some query → ∃ q plan data chosen,
        queryData index i query = .ok q ∧
        out.optimizationOutcome[i]? = some plan ∧ out.metadata[i]? = some data ∧
        TopK metric k.toNat q plan data chosen ∧
        plan.patch.length = k.toNat ∧ data.patch.length = k.toNat ∧
        data.improvementX.length = k.toNat ∧
        chosen.length = min k.toNat (1 + (eligible metric q).length) ∧
        ∀ b, contenderMetric metric q none = some b →
          ∃ c rest a, chosen = c :: rest ∧ contenderMetric metric q c = some a ∧ a ≤ b ∧
            (0 < a → ∃ x, data.improvementX.head? = some (some x) ∧ 1 ≤ x)) ∧
    ((∀ i query, queriesList[i]? = some query →
        ∃ q, queryData index i query = .ok q ∧ SampleData q) →
      ∃ out, processSamplingResults queriesList index metric k = .ok out) := by
  constructor
  · intro out hout
    obtain ⟨results, hresults, rfl⟩ := processSamplingResults_eq_ok.mp hout
    have hlen := (Except.mapM_eq_ok.mp hresults).length_eq
    rw [List.length_zipIdx] at hlen
    simp only [foldl_add, List.nil_append, List.length_map]
    refine ⟨hlen.symm, hlen.symm, fun i query hquery => ?_⟩
    have hi : queriesList.zipIdx[i]? = some (query, i) := by
      rw [List.getElem?_zipIdx, hquery, Nat.zero_add]
      rfl
    obtain ⟨r, hr, hresult⟩ := Except.getElem?_of_mapM hresults hi
    obtain ⟨q, hq, hresult⟩ := Except.bind_eq_ok.mp hresult
    obtain ⟨⟨plan, data⟩, hranked, hresult⟩ := Except.bind_eq_ok.mp hresult
    injection (show Except.ok _ = Except.ok r from hresult) with hresult
    subst hresult
    obtain ⟨chosen, htop⟩ := rankQuery_topK hk hranked
    obtain ⟨hplan, hstats, himprovements⟩ := htop.lengths
    refine ⟨q, plan, data, chosen, hq, ?_, ?_, htop, hplan, hstats, himprovements, htop.count,
      fun b hb => htop.first_le (by omega) hb⟩
    · rw [List.getElem?_map, hr]
      rfl
    · rw [List.getElem?_map, hr]
      rfl
  · intro hdata
    obtain ⟨results, hresults⟩ : ∃ results,
        queriesList.zipIdx.mapM (queryResult index metric k) = .ok results := by
      refine Except.exists_mapM_ok fun p hp => ?_
      obtain ⟨q, hq, hsamples⟩ := hdata p.2 p.1 (List.mem_zipIdx_iff_getElem?.mp hp)
      obtain ⟨r, hr⟩ := rankQuery_returns hsamples k
      exact ⟨_, Except.bind_eq_ok.mpr ⟨q, hq, Except.bind_eq_ok.mpr ⟨r, hr, rfl⟩⟩⟩
    exact ⟨_, processSamplingResults_eq_ok.mpr ⟨results, hresults, rfl⟩⟩

end

/-- A sample that is faster than the base plan. -/
def fasterSample : PlanInfo :=
  { originalPlan (.obj [("execution_time", .int 80)]) with
    planType := .optimized
    sampleId := some 1
    sampledPatches := some [.obj [("op", .str "remove"), ("path", .str "/0")]] }

def fasterQuery : QueryData where
  id := 0
  query := "select * from t"
  plan := .null
  complexity := .int 0
  rowCount := .int 1
  model := "gpt-5"
  sampledPlans := [originalPlan (.obj [("execution_time", .int 100)]), fasterSample]

theorem fasterQuery_sampleData : SampleData fasterQuery where
  tree := by
    refine ⟨fasterQuery.sampledPlans, List.Perm.refl _, ?_⟩
    refine (ParentTree.WellFormed.singleton rfl).append (List.nodup_singleton _) ?_ ?_
    · exact fun p hp => by rw [List.mem_singleton.mp hp]; decide
    · exact fun p hp => by rw [List.mem_singleton.mp hp]; decide
  patches p hp _ := by
    simp only [fasterQuery, List.mem_cons, List.not_mem_nil, or_false] at hp
    rcases hp with rfl | rfl
    · exact ⟨_, rfl⟩
    · exact ⟨_, rfl⟩
  stats p hp := by
    simp only [fasterQuery, List.mem_cons, List.not_mem_nil, or_false] at hp
    rcases hp with rfl | rfl
    · exact Or.inr ⟨_, rfl⟩
    · exact Or.inr ⟨_, rfl⟩

/-- The best three of two. -/
theorem processSamplingResults_topK_faster : ∃ out,
    processSamplingResults ["select * from t"] (samplingIndex [fasterQuery] 1) "execution_time" 3 =
      .ok out ∧ ∃ plan data chosen, out.optimizationOutcome[0]? = some plan ∧
        out.metadata[0]? = some data ∧
        TopK "execution_time" 3 fasterQuery plan data chosen ∧ plan.patch.length = 3 := by
  have hall := processSamplingResults_topK (k := 3) (by decide) ["select * from t"]
    (samplingIndex [fasterQuery] 1) "execution_time"
  have hq : queryData (samplingIndex [fasterQuery] 1) 0 "select * from t" = .ok fasterQuery := by
    decide +kernel
  obtain ⟨out, hout⟩ := hall.2 fun i query hi => by
    cases i with
    | zero =>
      injection hi with hi
      subst hi
      exact ⟨fasterQuery, hq, fasterQuery_sampleData⟩
    | succ i => exact absurd hi (by simp)
  obtain ⟨_, _, hquery⟩ := hall.1 out hout
  obtain ⟨q, plan, data, chosen, hq', hplan, hdata, htop, hlen, _⟩ := hquery 0 _ rfl
  rw [hq] at hq'
  injection hq' with hq'
  subst hq'
  exact ⟨out, hout, plan, data, chosen, hplan, hdata, htop, hlen⟩

end DbPlanBench.Optimize
