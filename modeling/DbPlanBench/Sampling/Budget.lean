import DbPlanBench.Lib.Columns
import DbPlanBench.Optimize.BestPlans
import DbPlanBench.Sampling.Batch
import DbPlanBench.Sampling.Counts
import DbPlanBench.Sampling.Faults
import DbPlanBench.Sampling.Reported
import DbPlanBench.Sampling.Resume

/-!
# The sample budget

A run from a prepared dataset that is not interrupted adds the same number of samples
to every query in each of its steps, whatever becomes of them. A tree after `k` steps
therefore has its samples in blocks, one block a step, and what the samples of a step
hang below is a matter of the blocks alone: of the root, each of its own sample of
the block before, or all of the best one there.

* `Grown` — the invariant of a tree after `k` steps.
* `grown_addSamples` — what a merge keeps, `parentLaw_of_bases` — where new samples hang.
* `sampleBudget` — the law, for every run; and which runs return.
-/

namespace DbPlanBench.Sampling

open Optimize (planMetric evolveKey evolveLe getBestPlanInfos_eq)

/-! ## The law -/

/-- The samples of step `k`, when each step adds `s` of them. -/
def stepSamples (s k : Nat) (plans : List PlanInfo) : List PlanInfo :=
  (plans.drop (1 + (k - 1) * s)).take s

/-- Of the entries with a metric that is not zero, `b` has the least, if there are any. -/
def LeastMetric (metric : String) (l : List PlanInfo) (b : PlanInfo) : Prop :=
  (∃ e ∈ l, ∃ x, planMetric metric e = some x ∧ x ≠ 0) →
    ∃ x, planMetric metric b = some x ∧ x ≠ 0 ∧
      ∀ e ∈ l, ∀ y, planMetric metric e = some y → y ≠ 0 → x ≤ y

/-- The parents of the samples of step `k`, after a step with these samples. -/
def ParentLaw (p : Params) (k : Nat) (previous : List PlanInfo) (parents : List (Option Nat)) :
    Prop :=
  match p.strategy with
  | .bestOf => ∀ parent ∈ parents, parent = none
  | .pstEvol => parents =
      if k = 1 then List.replicate p.nSamplesPerStep none else previous.map (·.sampleId)
  | .bolEvol => ∃ parent, (∀ parent' ∈ parents, parent' = parent) ∧ (k = 1 → parent = none) ∧
      (k ≠ 1 → ∃ b ∈ previous, b.sampleId = parent ∧ LeastMetric p.optimizationMetric previous b)

/-- A chain of samples from a child of the root. -/
structure ParentChain (chain : List PlanInfo) : Prop where
  first : ∀ e ∈ chain.head?, e.parentSampleId = none
  next : chain.IsChain fun a b => b.parentSampleId = a.sampleId

/-- The samples of a tree are `s` chains of length `n`. -/
def FormsChains (s n : Nat) (plans : List PlanInfo) : Prop :=
  ∃ chains : List (List PlanInfo), chains.length = s ∧
    chains.flatten.Perm (plans.filter (·.sampleId ≠ none)) ∧
    ∀ c ∈ chains, c.length = n ∧ ParentChain c

/-- An entry but for its flags. -/
def unflagged (p : PlanInfo) : PlanInfo := { p with isLast := false, isLeaf := false }

/-- The samples of a step are those in its file of evaluated samples. -/
def FromFile (p : Params) (dir : SamplingDir) (k : Nat) (q : QueryData) : Prop :=
  ∃ evaluated, OrdDict.get? dir.evaluated k = some evaluated ∧
    (stepSamples p.nSamplesPerStep k q.sampledPlans).map unflagged =
      (finalizedPlans (1 + (k - 1) * p.nSamplesPerStep) (samplesOf evaluated q.id)).map unflagged

/-! ## Trees in blocks -/

/-- Where the samples of the last of `k` steps start. -/
def lastBlock (s k : Nat) : Nat := if k = 0 then 0 else 1 + (k - 1) * s

/-- A tree after `k` steps. -/
structure Grown (p : Params) (k : Nat) (plans : List PlanInfo) : Prop where
  tree : SampleTree plans (lastBlock p.nSamplesPerStep k)
  ids : plans.map (·.sampleId) = none :: (List.range' 1 (k * p.nSamplesPerStep)).map some
  parents : ∀ j, 1 ≤ j → j ≤ k → ParentLaw p j (stepSamples p.nSamplesPerStep (j - 1) plans)
    ((stepSamples p.nSamplesPerStep j plans).map (·.parentSampleId))

section

variable {p : Params} {k : Nat} {plans : List PlanInfo}

theorem Grown.length (h : Grown p k plans) : plans.length = 1 + k * p.nSamplesPerStep := by
  have hlen := congrArg List.length h.ids
  rw [List.length_map, List.length_cons, List.length_map, List.length_range'] at hlen
  omega

theorem foldl_max_range' (m : Nat) : (List.range' 1 m).foldl max 0 = m := by
  induction m with
  | zero => rfl
  | succ m ih =>
    rw [List.range'_concat, List.foldl_append, ih, List.foldl_cons, List.foldl_nil]
    omega

/-- The next id is one more than the number of samples. -/
theorem Grown.newSampleId (h : Grown p k plans) :
    newSampleId plans = 1 + k * p.nSamplesPerStep := by
  have hids : plans.map (fun p => p.sampleId.getD 0) =
      0 :: List.range' 1 (k * p.nSamplesPerStep) := by
    have hmap := congrArg (List.map fun id : Option Nat => id.getD 0) h.ids
    rw [List.map_map, List.map_cons, List.map_map] at hmap
    rw [show List.range' 1 (k * p.nSamplesPerStep) =
      (List.range' 1 (k * p.nSamplesPerStep)).map fun n => n from (List.map_id' _).symm]
    exact hmap
  rw [Sampling.newSampleId, hids, List.foldl_cons, Nat.max_self, foldl_max_range', Nat.add_comm]

theorem stepSamples_map (s j : Nat) (f : PlanInfo → PlanInfo) :
    stepSamples s j (plans.map f) = (stepSamples s j plans).map f := by
  rw [stepSamples, stepSamples, List.map_take, List.map_drop]

/-- Later entries leave the blocks alone. -/
theorem stepSamples_append {s j : Nat} (h : 1 + (j - 1) * s + s ≤ plans.length)
    (new : List PlanInfo) : stepSamples s j (plans ++ new) = stepSamples s j plans := by
  rw [stepSamples, stepSamples, List.drop_append_of_le_length (by omega),
    List.take_append_of_le_length (by rw [List.length_drop]; omega)]

/-- The block after all entries. -/
theorem stepSamples_new {s k : Nat} {new : List PlanInfo} (hp : plans.length = 1 + k * s)
    (hn : new.length = s) : stepSamples s (k + 1) (plans ++ new) = new := by
  rw [stepSamples, Nat.add_sub_cancel, ← hp, List.drop_left, ← hn, List.take_length]

/-- A law about the entries of a tree does not read their flags. -/
theorem ParentLaw.mark {previous : List PlanInfo} {parents : List (Option Nat)} {j : Nat}
    (h : ParentLaw p j previous parents) (samples : List SampledPlan) :
    ParentLaw p j (previous.map (markParent samples)) parents := by
  unfold ParentLaw at h ⊢
  cases hs : p.strategy with
  | bestOf => simpa only [hs] using h
  | pstEvol =>
    simp only [hs] at h ⊢
    rw [List.map_map]
    exact h
  | bolEvol =>
    simp only [hs] at h ⊢
    obtain ⟨parent, hall, hone, hlater⟩ := h
    refine ⟨parent, hall, hone, fun hj => ?_⟩
    obtain ⟨b, hb, hid, hleast⟩ := hlater hj
    refine ⟨markParent samples b, List.mem_map_of_mem hb, hid, ?_⟩
    intro h
    obtain ⟨e, he, x, hx⟩ := h
    obtain ⟨e', he', rfl⟩ := List.mem_map.mp he
    obtain ⟨y, hy, hne, hle⟩ := hleast ⟨e', he', x, hx⟩
    refine ⟨y, hy, hne, fun e he => ?_⟩
    obtain ⟨e', he', rfl⟩ := List.mem_map.mp he
    exact hle e' he'

/-- The first step has none before it. -/
theorem ParentLaw.first {previous : List PlanInfo} {parents : List (Option Nat)}
    (h : ParentLaw p 1 previous parents) (previous' : List PlanInfo) :
    ParentLaw p 1 previous' parents := by
  unfold ParentLaw at h ⊢
  cases hs : p.strategy with
  | bestOf => simpa only [hs] using h
  | pstEvol => simpa only [hs, if_true] using h
  | bolEvol =>
    simp only [hs] at h ⊢
    obtain ⟨parent, hall, hone, _⟩ := h
    exact ⟨parent, hall, hone, fun hne => absurd rfl hne⟩

theorem block_fits {s j k : Nat} (hj : 1 ≤ j) (hk : j ≤ k) :
    1 + (j - 1) * s + s ≤ 1 + k * s := by
  obtain ⟨j, rfl⟩ : ∃ i, j = i + 1 := ⟨j - 1, by omega⟩
  have hle := Nat.mul_le_mul_right s hk
  rw [Nat.succ_mul] at hle
  rw [Nat.add_sub_cancel]
  omega

/-- The blocks of a tree stay when samples are added, up to flags. -/
theorem Grown.stepSamples_old {q : QueryData} (h : Grown p k q.sampledPlans)
    (samples : List SampledPlan) {j : Nat} (hj : j - 1 < k) :
    stepSamples p.nSamplesPerStep j (addSamples samples q).sampledPlans =
      (stepSamples p.nSamplesPerStep j q.sampledPlans).map (markParent samples) := by
  rw [addSamples, stepSamples_append _, stepSamples_map]
  rw [List.length_map, h.length]
  rcases Nat.eq_zero_or_pos j with rfl | hpos
  · exact block_fits (j := 1) (Nat.le_refl 1) (by omega)
  · exact block_fits hpos (by omega)

/-- The samples of a step are the last block. -/
theorem Grown.stepSamples_last {q : QueryData} (h : Grown p k q.sampledPlans)
    {samples : List SampledPlan} (hlen : samples.length = p.nSamplesPerStep) :
    stepSamples p.nSamplesPerStep (k + 1) (addSamples samples q).sampledPlans =
      finalizedPlans (1 + k * p.nSamplesPerStep) samples := by
  rw [addSamples, h.newSampleId]
  exact stepSamples_new (by rw [List.length_map, h.length]) (by rw [length_finalizedPlans, hlen])

/-- **A merge of a step's samples** keeps the blocks and adds one. -/
theorem grown_addSamples {q : QueryData} {samples : List SampledPlan}
    (h : Grown p k q.sampledPlans) (hlen : samples.length = p.nSamplesPerStep)
    (hlaw : ParentLaw p (k + 1) (stepSamples p.nSamplesPerStep k q.sampledPlans)
      (samples.map (·.parentSampleId)))
    (hparent : ∀ s ∈ samples, s.parentSampleId ∈ q.sampledPlans.map (·.sampleId))
    (hpatches : ∀ s ∈ samples, s.isValid = true → ∃ ps, s.sampledPatches = some ps) :
    Grown p (k + 1) (addSamples samples q).sampledPlans := by
  have hne : samples ≠ [] := List.ne_nil_of_length_pos (hlen ▸ p.samplesPos)
  refine ⟨?_, ?_, fun j hj hk => ?_⟩
  · have htree := sampleTree_addSamples h.tree hparent hpatches
    rw [if_neg hne, h.length] at htree
    rw [lastBlock, if_neg (Nat.succ_ne_zero k), Nat.add_sub_cancel]
    exact htree
  · rw [addSamples, List.map_append, List.map_map, sampleId_finalizedPlans, h.newSampleId, hlen]
    have hids : q.sampledPlans.map ((·.sampleId) ∘ markParent samples) =
        none :: (List.range' 1 (k * p.nSamplesPerStep)).map some := h.ids
    rw [hids, List.cons_append, ← List.map_append, Nat.succ_mul]
    congr 2
    rw [← List.range'_append_1]
  · rcases Nat.lt_or_ge k j with hkj | hkj
    · -- the new block
      obtain rfl : j = k + 1 := by omega
      have hparents : (finalizedPlans (1 + k * p.nSamplesPerStep) samples).map (·.parentSampleId) =
          samples.map (·.parentSampleId) := by
        rw [finalizedPlans, List.map_map]
        nth_rewrite 2 [← List.zipIdx_map_fst (1 + k * p.nSamplesPerStep) samples]
        rw [List.map_map]
        rfl
      rw [h.stepSamples_last hlen, hparents, Nat.add_sub_cancel]
      rcases Nat.eq_zero_or_pos k with rfl | hpos
      · exact hlaw.first _
      · rw [h.stepSamples_old samples (by omega)]
        exact hlaw.mark samples
    · rw [h.stepSamples_old samples (by omega), h.stepSamples_old samples (by omega),
        List.map_map]
      exact (h.parents j hj hkj).mark samples

end

/-! ## Where new samples hang -/

section

variable {p : Params} {k : Nat} {plans : List PlanInfo}

theorem Grown.exists_root (h : Grown p k plans) : ∃ r rest, plans = r :: rest ∧ r.sampleId = none :=
  h.tree.tree.wf.root

/-- The last samples are the last block, or the root. -/
theorem Grown.filter_isLast (h : Grown p k plans) :
    plans.filter (·.isLast) = plans.drop (lastBlock p.nSamplesPerStep k) := by
  have hlast := h.tree.last
  nth_rewrite 1 [← List.take_append_drop (lastBlock p.nSamplesPerStep k) plans]
  rw [List.filter_append]
  have hbefore : (plans.take (lastBlock p.nSamplesPerStep k)).filter (·.isLast) = [] := by
    rw [List.filter_eq_nil_iff]
    intro e he hle
    obtain ⟨i, hi⟩ := List.getElem?_of_mem he
    rw [List.getElem?_take] at hi
    split at hi
    next hlt => exact absurd ((hlast i e hi).mp hle) (by omega)
    next => exact absurd hi (by simp)
  have hafter : (plans.drop (lastBlock p.nSamplesPerStep k)).filter (·.isLast) =
      plans.drop (lastBlock p.nSamplesPerStep k) := by
    rw [List.filter_eq_self]
    intro e he
    obtain ⟨i, hi⟩ := List.getElem?_of_mem he
    rw [List.getElem?_drop] at hi
    exact (hlast _ e hi).mpr (Nat.le_add_right ..)
  rw [hbefore, hafter, List.nil_append]

theorem Grown.lastBlock_lt (h : Grown p k plans) :
    lastBlock p.nSamplesPerStep k < plans.length := by
  rw [h.length, lastBlock]
  split
  next => omega
  next hk =>
    have hfits := block_fits (s := p.nSamplesPerStep) (Nat.pos_of_ne_zero hk) (Nat.le_refl k)
    have hpos := p.samplesPos
    omega

theorem Grown.filter_isLast_succ (h : Grown p (k + 1) plans) :
    plans.filter (·.isLast) = stepSamples p.nSamplesPerStep (k + 1) plans := by
  have hlen := h.length
  rw [Nat.succ_mul] at hlen
  rw [h.filter_isLast, stepSamples, lastBlock, if_neg (Nat.succ_ne_zero k), Nat.add_sub_cancel,
    List.take_of_length_le]
  rw [List.length_drop]
  omega

theorem Grown.length_stepSamples (h : Grown p k plans) {j : Nat} (hj : 1 ≤ j) (hk : j ≤ k) :
    (stepSamples p.nSamplesPerStep j plans).length = p.nSamplesPerStep := by
  have hfits := block_fits (s := p.nSamplesPerStep) hj hk
  rw [stepSamples, List.length_take, List.length_drop, h.length]
  omega

/-- Base plans keep the ids of the entries they are taken from. -/
theorem parents_of_mapM {chosen : List PlanInfo} {bases : List BasePlan}
    (h : chosen.mapM (basePlanOf plans) = .ok bases) :
    bases.map (·.parentSampleId) = chosen.map (·.sampleId) := by
  have hforall := Except.mapM_eq_ok.mp h
  clear h
  induction hforall with
  | nil => rfl
  | cons hb _ ih =>
    obtain ⟨_, _, hb⟩ := Except.bind_eq_ok.mp hb
    obtain ⟨_, _, hb⟩ := Except.bind_eq_ok.mp hb
    injection hb with hb
    rw [List.map_cons, List.map_cons, ih, ← hb]

/-- What a step other than from the original plans starts from. -/
theorem bases_of_last {strategy : SamplingStrategy} {bases : List BasePlan}
    (hstart : strategy.startingSelector = .ofLast) (hvalid : strategy.fromValidOnly = false)
    (h : getBasePlansForSampling plans strategy = .ok bases) :
    ∃ chosen, finalPlans strategy (plans.filter (·.isLast)) = .ok chosen ∧
      bases.map (·.parentSampleId) = chosen.map (·.sampleId) := by
  unfold getBasePlansForSampling at h
  rw [hstart] at h
  simp only [hvalid, validPlans, startingPlans, Bool.false_eq_true, if_false] at h
  cases hchosen : finalPlans strategy (plans.filter (·.isLast)) with
  | error e =>
    simp only [hchosen] at h
    exact absurd h (by simp)
  | ok chosen =>
    simp only [hchosen] at h
    exact ⟨chosen, rfl, parents_of_mapM h⟩

theorem bases_of_original {bases : List BasePlan}
    (h : getBasePlansForSampling plans originalStrategy = .ok bases) :
    bases.map (·.parentSampleId) = [none] := by
  obtain ⟨root, _, h⟩ := Except.bind_eq_ok.mp h
  injection (show Except.ok _ = Except.ok bases from h) with h
  rw [← h]
  rfl

/-- The best entry is one of the entries, with the least metric. -/
theorem best_of_entries {metric : String} {base chosen : List PlanInfo} (hbase : base ≠ [])
    (h : getBestPlanInfos (some metric) base 1 = .ok chosen) :
    ∃ b ∈ base, chosen = [b] ∧ LeastMetric metric base b := by
  have hsmallest := Smallest.of_insertionSort (r := evolveLe metric) 1 base
  rw [← getBestPlanInfos_eq (n := 1) h] at hsmallest
  have hlen : chosen.length = 1 := by
    have hpos := List.length_pos_iff.mpr hbase
    rw [hsmallest.length]
    omega
  obtain ⟨b, rfl⟩ := List.length_eq_one_iff.mp hlen
  refine ⟨b, hsmallest.mem (List.mem_singleton_self b), rfl, ?_⟩
  have hrefl : ∀ e, evolveLe metric e e := fun _ => (Optimize.keyLe_total _ _).elim id id
  -- an entry with such a metric ranks before infinity, and `b` no later than it
  have hle : ∀ e ∈ base, ∀ y, planMetric metric e = some y → y ≠ 0 →
      ∃ x, evolveKey metric b = some x ∧ x ≤ y := by
    intro e he y hy hne
    obtain ⟨b', rest, hb', hbe⟩ := hsmallest.head_le hrefl Nat.one_pos he
    obtain ⟨rfl, _⟩ := List.cons_eq_cons.mp hb'
    have hkey : evolveKey metric e = some y := by
      rw [Optimize.evolveKey_of_ne (by rw [hy]; simpa using hne), hy]
    rw [evolveLe, hkey] at hbe
    cases hx : evolveKey metric b with
    | none =>
      rw [hx] at hbe
      exact absurd hbe (by simp [keyLe])
    | some x =>
      rw [hx] at hbe
      exact ⟨x, rfl, by simpa [keyLe] using hbe⟩
  intro h
  obtain ⟨e, he, y, hy, hne⟩ := h
  obtain ⟨x, hx, _⟩ := hle e he y hy hne
  obtain ⟨hmetric, hxne⟩ := Option.filter_eq_some_iff.mp hx
  refine ⟨x, hmetric, by simpa using hxne, fun e' he' y' hy' hne' => ?_⟩
  obtain ⟨x', hx', hxy⟩ := hle e' he' y' hy' hne'
  rw [hx] at hx'
  exact Option.some.inj hx' ▸ hxy

/-- The parents of the samples that a step takes from these base plans. -/
def parentsFrom (bases : List BasePlan) (nSamples : Nat) : List (Option Nat) :=
  bases.flatMap fun b => List.replicate nSamples b.parentSampleId

theorem parentsFrom_single {bases : List BasePlan} {parent : Option Nat} (n : Nat)
    (h : bases.map (·.parentSampleId) = [parent]) :
    parentsFrom bases n = List.replicate n parent := by
  have hlen : bases.length = 1 := by
    have hlen := congrArg List.length h
    rwa [List.length_map] at hlen
  obtain ⟨base, rfl⟩ := List.length_eq_one_iff.mp hlen
  have hparent : base.parentSampleId = parent := (List.cons_eq_cons.mp h).1
  rw [parentsFrom, List.flatMap_singleton, hparent]

theorem parentsFrom_one (bases : List BasePlan) :
    parentsFrom bases 1 = bases.map (·.parentSampleId) := by
  rw [parentsFrom, List.map_eq_flatMap]
  rfl

/-- **The strategy of a step gives each query as many samples as a step has, and hangs them as
the law says.** -/
theorem parentLaw_of_bases (h : Grown p k plans) {bases : List BasePlan}
    (hbases : getBasePlansForSampling plans (selectStrategy p.strategy (k + 1) p.nSamplesPerStep
      p.optimizationMetric).1 = .ok bases) :
    (parentsFrom bases (selectStrategy p.strategy (k + 1) p.nSamplesPerStep
        p.optimizationMetric).2).length = p.nSamplesPerStep ∧
      ParentLaw p (k + 1) (stepSamples p.nSamplesPerStep k plans) (parentsFrom bases
        (selectStrategy p.strategy (k + 1) p.nSamplesPerStep p.optimizationMetric).2) := by
  unfold ParentLaw
  cases hs : p.strategy with
  | bestOf =>
    rw [hs] at hbases
    have hparents := parentsFrom_single p.nSamplesPerStep (bases_of_original hbases)
    simp only [selectStrategy, hparents, List.length_replicate, true_and]
    exact fun _ hparent => List.eq_of_mem_replicate hparent
  | pstEvol =>
    rw [hs] at hbases
    cases k with
    | zero =>
      -- the first step starts from the root
      have hparents := parentsFrom_single p.nSamplesPerStep (bases_of_original hbases)
      simp only [selectStrategy, Nat.zero_add, if_true, hparents, List.length_replicate, and_self]
    | succ k =>
      -- a later step asks once about each of the last samples
      have hne : k + 1 + 1 ≠ 1 := by omega
      simp only [selectStrategy, if_neg hne] at hbases ⊢
      obtain ⟨chosen, hchosen, hparents⟩ := bases_of_last rfl rfl hbases
      rw [finalPlans, h.filter_isLast_succ] at hchosen
      obtain rfl := Except.ok.inj hchosen
      rw [parentsFrom_one, hparents]
      refine ⟨?_, rfl⟩
      rw [List.length_map, h.length_stepSamples (by omega) (Nat.le_refl _)]
  | bolEvol =>
    rw [hs] at hbases
    obtain ⟨chosen, hchosen, hparents⟩ := bases_of_last rfl rfl hbases
    have hne : plans.filter (·.isLast) ≠ [] := by
      have hfits := h.lastBlock_lt
      rw [h.filter_isLast]
      exact List.ne_nil_of_length_pos (by rw [List.length_drop]; omega)
    obtain ⟨b, hb, rfl, hleast⟩ := best_of_entries hne hchosen
    have hparents := parentsFrom_single p.nSamplesPerStep hparents
    simp only [selectStrategy, hparents, List.length_replicate, true_and]
    refine ⟨b.sampleId, fun _ hparent => List.eq_of_mem_replicate hparent, fun hk => ?_,
      fun hk => ?_⟩
    · -- only the root is there
      obtain rfl : k = 0 := by omega
      have hids := h.ids
      rw [Nat.zero_mul] at hids
      exact List.mem_singleton.mp (hids ▸ List.mem_map_of_mem (List.mem_of_mem_filter hb))
    · obtain ⟨k, rfl⟩ : ∃ j, k = j + 1 := ⟨k - 1, by omega⟩
      rw [h.filter_isLast_succ] at hb hleast
      exact ⟨b, hb, rfl, hleast⟩

end

/-! ## A step of a run -/

/-- Step `k` of a run. -/
def stepOf (p : Params) (k : Nat) : Step :=
  let selected := selectStrategy p.strategy k p.nSamplesPerStep p.optimizationMetric
  { strategy := selected.1
    model := p.model
    generate := answersOf p k selected.2
    engine := p.engine k }

theorem samplesOf_getElem? {evaluated : List SampledQuery} (hids : (evaluated.map (·.id)).Nodup)
    {i : Nat} {sq : SampledQuery} (h : evaluated[i]? = some sq) :
    samplesOf evaluated sq.id = sq.sampledPlans := by
  have hmem := List.mem_of_getElem? h
  obtain ⟨sq', hsq', hid, hfind⟩ := exists_find?_id SampledQuery.id (List.mem_map_of_mem hmem)
  obtain rfl := List.inj_on_of_nodup_map hids hsq' hmem hid
  rw [samplesOf, hfind]
  rfl

theorem parents_sampledQuery {model : String} {q : QueryData} {n : Nat} :
    ∀ {bases : List BasePlan} {answers : List (List GenerationResult)},
      answers.length = bases.length → (∀ a ∈ answers, a.length = n) →
        (sampledQuery model (q, bases) answers).sampledPlans.map (·.parentSampleId) =
          parentsFrom bases n
  | [], _, _, _ => rfl
  | base :: bases, [], h, _ => absurd h (by simp)
  | base :: bases, a :: answers, h, hn => by
    have hrest := @parents_sampledQuery model q n bases answers (Nat.succ.inj h)
      fun b hb => hn b (List.mem_cons_of_mem _ hb)
    have hone : (a.map (newSampledPlan base)).map (·.parentSampleId) =
        List.replicate n base.parentSampleId := by
      rw [List.map_map, ← hn a (List.mem_cons_self ..)]
      exact List.map_const' ..
    rw [sampledQuery, List.zip_cons_cons, List.flatMap_cons, List.map_append, hone, parentsFrom,
      List.flatMap_cons]
    exact congrArg _ hrest

theorem parents_evaluateQuery (patch : JsonPatch) (engine : Engine) (sq : SampledQuery) (i : Nat) :
    (evaluateQuery patch engine (sq, i)).sampledPlans.map (·.parentSampleId) =
      sq.sampledPlans.map (·.parentSampleId) := by
  nth_rewrite 1 [← List.zipIdx_map_fst 0 sq.sampledPlans]
  rw [evaluateQuery, List.map_map, List.map_map]
  exact List.map_congr_left fun s _ => evaluatePlan_parentSampleId

/-- The samples that a step has for a query, by their parents. -/
theorem parents_of_stepFile {patch : JsonPatch} {step : Step} {n : Nat}
    (hn : ∀ i query plan, (step.generate i query plan).length = n) {state : List QueryData}
    {evaluated : List SampledQuery} (hids : (evaluated.map (·.id)).Nodup)
    (h : stepFile patch step state = .ok evaluated) {q : QueryData} (hq : q ∈ state) :
    ∃ bases, getBasePlansForSampling q.sampledPlans step.strategy = .ok bases ∧
      (samplesOf evaluated q.id).map (·.parentSampleId) = parentsFrom bases n := by
  obtain ⟨sampled, hsampled, h⟩ := Except.bind_eq_ok.mp h
  injection (show Except.ok _ = Except.ok evaluated from h) with h
  subst h
  obtain ⟨i, hi⟩ := List.getElem?_of_mem hq
  obtain ⟨_, hquery⟩ := samplePlansFromFile_query hsampled
  obtain ⟨bases, items, hbases, hitems, hget⟩ := hquery i q hi
  refine ⟨bases, hbases, ?_⟩
  have hevaluated : (evaluateSampledPlans patch step.engine sampled)[i]? = some (evaluateQuery patch
      step.engine (sampledQuery step.model (q, bases) ((items.zipIdx (batchStart step.strategy state
        i)).map fun p => step.generate p.2 p.1.1 p.1.2), i)) := by
    rw [evaluateSampledPlans, List.getElem?_map, List.getElem?_zipIdx, hget, Nat.zero_add]
    rfl
  have hsamples := samplesOf_getElem? hids hevaluated
  refine (congrArg _ hsamples).trans ((parents_evaluateQuery ..).trans ?_)
  refine parents_sampledQuery ?_ fun a ha => ?_
  · rw [List.length_map, List.length_zipIdx, ← (Except.mapM_eq_ok.mp hitems).length_eq,
      List.length_map]
  · obtain ⟨item, _, rfl⟩ := List.mem_map.mp ha
    exact hn ..

/-- A step that has no files yet writes those of `stepFile` and merges them. -/
theorem loopStep_stepFile {p : Params} {k : Nat} {dir t : SamplingDir} {state : List QueryData}
    (hd : Completed dir k) (hfinal : dir.final = some state)
    (h : (loopStep p (k + 1) dir).result = .ok t) :
    ∃ evaluated state', stepFile p.patch (stepOf p (k + 1)) state = .ok evaluated ∧
      accumulateSamples evaluated state = .ok state' ∧ t.final = some state' ∧
      t.evaluated = OrdDict.set dir.evaluated (k + 1) evaluated ∧ Completed t (k + 1) := by
  have hs : k + 1 ∉ OrdDict.keys dir.sampled := fun hm => absurd (hd.sampled _ hm) (by omega)
  have he : k + 1 ∉ OrdDict.keys dir.evaluated := fun hm =>
    absurd ((hd.evaluated _).mp hm).2 (by omega)
  obtain ⟨s, sampled, final, final', hsample, hget, hfinal', hacc, rfl, _⟩ :=
    runSamplingStep_result he h
  obtain ⟨_, hmem, _⟩ | ⟨final0, new, hfinal0, hnew, rfl, _⟩ := sampleFile_result hsample
  · exact absurd hmem hs
  obtain rfl := Option.some.inj (hfinal.symm.trans hfinal0)
  obtain rfl := Option.some.inj (hfinal.symm.trans hfinal')
  rw [OrdDict.get?_set_self] at hget
  obtain rfl := Option.some.inj hget
  refine ⟨_, final', Except.bind_eq_ok.mpr ⟨new, hnew, rfl⟩, hacc, rfl, rfl, fun j => ?_,
    fun j hj => ?_⟩
  · rw [OrdDict.mem_keys_set, hd.evaluated]
    omega
  · rcases OrdDict.mem_keys_set.mp hj with hj | hj
    · exact Nat.le_of_eq hj
    · exact Nat.le_succ_of_le (hd.sampled j hj)

/-- It returns when its samples can be taken and merged. -/
theorem loopStep_returns {p : Params} {k : Nat} {dir : SamplingDir} {state state' : List QueryData}
    {sampled : List SampledQuery} (hd : Completed dir k) (hfinal : dir.final = some state)
    (hsampled : samplePlansFromFile p.patch (stepOf p (k + 1)).strategy p.model
      (stepOf p (k + 1)).generate state = .ok sampled)
    (hacc : accumulateSamples (evaluateSampledPlans p.patch (p.engine (k + 1)) sampled) state =
      .ok state') : ∃ t, (loopStep p (k + 1) dir).result = .ok t := by
  have hs : ¬ (p.resume = true ∧ k + 1 ∈ OrdDict.keys dir.sampled) := fun h =>
    absurd (hd.sampled _ h.2) (by omega)
  have he : ¬ (p.resume = true ∧ k + 1 ∈ OrdDict.keys dir.evaluated) := fun h =>
    absurd ((hd.evaluated _).mp h.2).2 (by omega)
  refine ⟨{ dir with
    final := some state'
    sampled := OrdDict.set dir.sampled (k + 1) sampled
    evaluated := OrdDict.set dir.evaluated (k + 1)
      (evaluateSampledPlans p.patch (p.engine (k + 1)) sampled) }, ?_⟩
  rw [loopStep, runSamplingStep]
  refine Traced.result_andThen.mpr
    ⟨{ dir with sampled := OrdDict.set dir.sampled (k + 1) sampled }, ?_, ?_⟩
  · rw [sampleFile, if_neg hs, hfinal]
    dsimp only [stepOf] at hsampled
    simp only [hsampled]
    rfl
  refine Traced.result_andThen.mpr ⟨{ dir with
    sampled := OrdDict.set dir.sampled (k + 1) sampled
    evaluated := OrdDict.set dir.evaluated (k + 1)
      (evaluateSampledPlans p.patch (p.engine (k + 1)) sampled) }, ?_, ?_⟩
  · rw [evaluateFile, if_neg he, OrdDict.get?_set_self]
    rfl
  · rw [mergeFile]
    simp only [OrdDict.get?_set_self, hfinal, hacc]
    rfl

/-- What a run has after `k` steps. -/
structure Budgeted (p : Params) (curated : CuratedDataset) (name : String) (k : Nat)
    (dir : SamplingDir) : Prop where
  completed : Completed dir k
  state : ∃ log state, dir.final = some state ∧ Reachable p.patch curated name log state ∧
    ∀ q ∈ state, Grown p k q.sampledPlans ∧ ∀ j, 1 ≤ j → j ≤ k → FromFile p dir j q

theorem map_unflagged_mark (samples : List SampledPlan) (l : List PlanInfo) :
    (l.map (markParent samples)).map unflagged = l.map unflagged := by
  rw [List.map_map]
  rfl

/-- What a step merges. -/
structure Merges (p : Params) (k : Nat) (state : List QueryData) (evaluated : List SampledQuery)
    (dir t : SamplingDir) : Prop where
  file : stepFile p.patch (stepOf p (k + 1)) state = .ok evaluated
  ids : (evaluated.map (·.id)).Nodup
  samples : ∀ q ∈ state, ∀ s ∈ samplesOf evaluated q.id, SampleOf p.patch (stepOf p (k + 1)) q s
  run : runStep p.patch state (stepOf p (k + 1)) =
    .ok (state.map fun q => addSamples (samplesOf evaluated q.id) q)
  final : t.final = some (state.map fun q => addSamples (samplesOf evaluated q.id) q)
  evaluated : t.evaluated = OrdDict.set dir.evaluated (k + 1) evaluated
  completed : Completed t (k + 1)

section

variable {p : Params} {curated : CuratedDataset} {name : String} {k : Nat} {dir t : SamplingDir}
  {log : List (List QueryData × Step)} {state : List QueryData}

theorem merges_of_loopStep (hd : Completed dir k) (hfinal : dir.final = some state)
    (hinv : StateInv curated log state) (hstep : (loopStep p (k + 1) dir).result = .ok t) :
    ∃ evaluated, Merges p k state evaluated dir t := by
  obtain ⟨evaluated, state', hfile, hacc, htfinal, htevaluated, hcompleted⟩ :=
    loopStep_stepFile hd hfinal hstep
  have hroot : ∀ q ∈ state, ∃ r ∈ q.sampledPlans, r.sampleId = none ∧ r.isValid = true ∧
      entryAt q.sampledPlans none = .ok r := fun q hq => (hinv.trees q hq).tree.exists_root
  have hrun : runStep p.patch state (stepOf p (k + 1)) = .ok state' := by
    rw [runStep, hfile, Except.ok_bind, hacc]
  obtain ⟨evaluated', hfile', rfl, hsamples⟩ := runStep_eq hinv.ids hroot hrun
  obtain rfl := Except.ok.inj (hfile.symm.trans hfile')
  have heids := (stepFile_spec hinv.ids hroot hfile).1
  exact ⟨evaluated, hfile, heids ▸ hinv.ids, hsamples, hrun, htfinal, htevaluated, hcompleted⟩

/-- **A step keeps the budget.** -/
theorem budgeted_loopStep (h : Budgeted p curated name k dir)
    (hstep : (loopStep p (k + 1) dir).result = .ok t) : Budgeted p curated name (k + 1) t := by
  obtain ⟨log, state, hfinal, hreach, hqueries⟩ := h.state
  have hinv := reachable_inv hreach
  obtain ⟨evaluated, hm⟩ := merges_of_loopStep h.completed hfinal hinv hstep
  refine ⟨hm.completed, _, _, hm.final, hreach.step hm.run, fun q' hq' => ?_⟩
  obtain ⟨q, hq, rfl⟩ := List.mem_map.mp hq'
  obtain ⟨hgrown, hfiles⟩ := hqueries q hq
  have htree := (hinv.trees q hq).tree
  -- what the step has for the query
  obtain ⟨bases, hbases, hparents⟩ := parents_of_stepFile (fun i query plan =>
    length_answersOf p (k + 1) _ i query plan) hm.ids hm.file hq
  obtain ⟨hlen, hlaw⟩ := parentLaw_of_bases hgrown hbases
  have hlen : (samplesOf evaluated q.id).length = p.nSamplesPerStep := by
    rw [← hlen, ← List.length_map (·.parentSampleId), hparents]
  refine ⟨grown_addSamples hgrown hlen (hparents ▸ hlaw)
    (fun s hs => (hm.samples q hq s hs).parent_mem htree)
    (fun s hs => (hm.samples q hq s hs).patches), fun j hj hk => ?_⟩
  rcases Nat.lt_or_ge k j with hkj | hkj
  · obtain rfl : j = k + 1 := by omega
    refine ⟨evaluated, by rw [hm.evaluated, OrdDict.get?_set_self], ?_⟩
    rw [hgrown.stepSamples_last hlen, Nat.add_sub_cancel]
    rfl
  · obtain ⟨file, hget, hfile⟩ := hfiles j hj hkj
    refine ⟨file, by rw [hm.evaluated, OrdDict.get?_set_ne _ _ (by omega), hget], ?_⟩
    rw [hgrown.stepSamples_old _ (by omega), map_unflagged_mark, hfile]
    rfl

end

/-! ## Runs that return -/

/-- Statistics are a record, or missing. -/
def IsRecord (stats : Json) : Prop := stats = .null ∨ ∃ fields, stats = .obj fields

/-- `jsonpatch` without operations changes nothing, and statistics are records. -/
structure WellBehaved (p : Params) (curated : CuratedDataset) : Prop where
  patch : ∀ s, p.patch s [] = .ok s
  engine : ∀ k pos plan stats, (p.engine k).evaluate pos plan = .ok stats → IsRecord stats
  base : ∀ e ∈ curated.entries, IsRecord e.evaluationStats

/-- The statistics of all entries are records. -/
def Recorded (dir : SamplingDir) : Prop :=
  ∀ state, dir.final = some state → ∀ q ∈ state, ∀ e ∈ q.sampledPlans, IsRecord e.evaluationStats

theorem evaluatePlan_record {patch : JsonPatch} {engine : Engine} {pos : Nat × Nat}
    {originalPlan : Json} {s : SampledPlan}
    (hengine : ∀ plan stats, engine.evaluate pos plan = .ok stats → IsRecord stats)
    (hs : IsRecord s.upstreamEvaluationStats) :
    IsRecord (evaluatePlan patch engine pos originalPlan s).evaluationStats := by
  unfold evaluatePlan
  split
  next => exact Or.inl rfl
  next =>
    split
    next => exact Or.inl rfl
    next => exact hs
    next =>
      split
      next => exact Or.inl rfl
      next =>
        unfold validateEvaluatePlan
        split
        next => exact Or.inl rfl
        next => exact Or.inl rfl
        next =>
          split
          next => exact Or.inl rfl
          next stats hstats => exact hengine _ stats hstats

section

variable {p : Params} {curated : CuratedDataset} {name : String} {k : Nat} {dir t : SamplingDir}

theorem recorded_loopStep (hw : WellBehaved p curated) (h : Budgeted p curated name k dir)
    (hr : Recorded dir) (hstep : (loopStep p (k + 1) dir).result = .ok t) : Recorded t := by
  obtain ⟨log, state, hfinal, hreach, _⟩ := h.state
  have hinv := reachable_inv hreach
  obtain ⟨evaluated, hm⟩ := merges_of_loopStep h.completed hfinal hinv hstep
  intro state' hstate' q' hq' e he
  rw [hm.final] at hstate'
  obtain rfl := Option.some.inj hstate'
  obtain ⟨q, hq, rfl⟩ := List.mem_map.mp hq'
  rcases mem_addSamples he with ⟨e', he', rfl⟩ | ⟨_, s, _, hs, rfl⟩
  · exact hr state hfinal q hq e' he'
  · -- a new sample has what was measured, or what its base plan inherits from an entry
    obtain ⟨b, hb, base, hbase, pos, result, rfl⟩ := hm.samples q hq s hs
    obtain ⟨_, _, a, ha, hstats⟩ := basePlanOf_eq (hinv.trees q hq).tree hb hbase
    refine evaluatePlan_record (fun plan stats => hw.engine _ pos plan stats) ?_
    rw [show (newSampledPlan base result).upstreamEvaluationStats = a.evaluationStats from hstats]
    exact hr state hfinal q hq a (ha.mem hb)

theorem exists_metricKey (metric : String) {e : PlanInfo} (h : IsRecord e.evaluationStats) :
    ∃ key, metricKey metric e = .ok key := by
  unfold metricKey
  rcases h with h | ⟨fields, h⟩
  · rw [if_pos h]
    exact ⟨_, rfl⟩
  · rw [if_neg (by rw [h]; exact Json.noConfusion), h, getMetricValue]
    split
    next => exact ⟨_, rfl⟩
    next =>
      split
      next => exact ⟨_, rfl⟩
      next => exact ⟨_, rfl⟩

theorem exists_basePlanOf_mem {plans : List PlanInfo} (ht : ChainTree plans) {e : PlanInfo}
    (he : e ∈ plans) : ∃ base, basePlanOf plans e = .ok base := by
  obtain ⟨ps, hps⟩ := ht.exists_chain e he
  obtain ⟨a, ha⟩ := ht.exists_nearestValid e he
  rw [basePlanOf, getUpstreamPatches_eq ht he hps, Except.ok_bind,
    getUpstreamEvaluationStats_eq ht he ha]
  exact ⟨_, rfl⟩

theorem exists_getBestPlanInfos {metric : Option String} (hmetric : metric.isSome = true)
    {base : List PlanInfo} (hr : ∀ e ∈ base, IsRecord e.evaluationStats) (n : Int) :
    ∃ chosen, getBestPlanInfos metric base n = .ok chosen := by
  obtain ⟨m, rfl⟩ := Option.isSome_iff_exists.mp hmetric
  obtain ⟨keys, hkeys⟩ := Except.exists_mapM_ok fun e he => exists_metricKey m (hr e he)
  exact ⟨_, by simp only [getBestPlanInfos, hkeys]; rfl⟩

theorem exists_finalPlans {strategy : SamplingStrategy} (hs : strategy.Complete)
    {base : List PlanInfo} (hr : ∀ e ∈ base, IsRecord e.evaluationStats) :
    ∃ chosen, finalPlans strategy base = .ok chosen := by
  unfold SamplingStrategy.Complete at hs
  unfold finalPlans
  cases he : strategy.finalSelector with
  | all => exact ⟨base, rfl⟩
  | best1 =>
    rw [he] at hs
    exact exists_getBestPlanInfos hs hr 1
  | bestN =>
    rw [he] at hs
    obtain ⟨n, hn⟩ := Option.isSome_iff_exists.mp hs.2
    simp only [hn]
    exact exists_getBestPlanInfos hs.1 hr n

/-- A complete strategy finds base plans in a tree whose statistics are records. -/
theorem exists_bases {plans : List PlanInfo} (ht : ChainTree plans)
    (hr : ∀ e ∈ plans, IsRecord e.evaluationStats) {strategy : SamplingStrategy}
    (hs : strategy.Complete) : ∃ bases, getBasePlansForSampling plans strategy = .ok bases := by
  unfold getBasePlansForSampling
  split
  next =>
    obtain ⟨r, _, _, _, hentry⟩ := ht.exists_root
    exact ⟨_, by rw [hentry]; rfl⟩
  next =>
    have hsub : ∀ e ∈ validPlans strategy.fromValidOnly
        (startingPlans strategy.startingSelector plans), e ∈ plans :=
      fun e he => startingPlans_subset (validPlans_subset he)
    obtain ⟨chosen, hchosen⟩ := exists_finalPlans hs fun e he => hr e (hsub e he)
    simp only [hchosen]
    exact Except.exists_mapM_ok fun e he =>
      exists_basePlanOf_mem ht (hsub e (finalPlans_subset hchosen e he))

/-- **A step of such a run returns.** -/
theorem exists_loopStep (hw : WellBehaved p curated) (h : Budgeted p curated name k dir)
    (hr : Recorded dir) : ∃ t, (loopStep p (k + 1) dir).result = .ok t := by
  obtain ⟨log, state, hfinal, hreach, _⟩ := h.state
  have hinv := reachable_inv hreach
  have hsamples := samplesInv_of_reachable hw.patch hreach
  have hroot : ∀ q ∈ state, ∃ r ∈ q.sampledPlans, r.sampleId = none ∧ r.isValid = true ∧
      entryAt q.sampledPlans none = .ok r := fun q hq => (hinv.trees q hq).tree.exists_root
  -- every query has base plans, and the patches above each of them apply
  obtain ⟨sampled, hsampled⟩ : ∃ sampled, samplePlansFromFile p.patch (stepOf p (k + 1)).strategy
      (stepOf p (k + 1)).model (stepOf p (k + 1)).generate state = .ok sampled := by
    refine exists_samplePlansFromFile fun q hq => ?_
    have ht := (hinv.trees q hq).tree
    obtain ⟨bases, hbases⟩ := exists_bases ht (hr state hfinal q hq)
      (selectStrategy_complete p.strategy (k + 1) p.nSamplesPerStep p.optimizationMetric)
    refine ⟨bases, hbases, fun base hbase => ?_⟩
    obtain ⟨e, he, hbo⟩ := exists_basePlanOf (hroot q hq) hbases base hbase
    obtain ⟨_, hchain, _⟩ := basePlanOf_eq ht he hbo
    obtain ⟨plan, hplan⟩ := chain_applies hw.patch hinv hsamples hq he hchain
    exact ⟨(q.query, plan), by rw [batchItem, hplan]⟩
  have hfile : stepFile p.patch (stepOf p (k + 1)) state =
      .ok (evaluateSampledPlans p.patch (p.engine (k + 1)) sampled) :=
    Except.bind_eq_ok.mpr ⟨sampled, hsampled, rfl⟩
  have heids := (stepFile_spec hinv.ids hroot hfile).1
  have hacc := accumulateSamples_eq hinv.ids (heids ▸ hinv.ids) fun q hq =>
    heids ▸ List.mem_map_of_mem hq
  exact loopStep_returns h.completed hfinal hsampled hacc

end

/-! ## Whole runs -/

section

variable {p : Params} {curated : CuratedDataset} {name : String}

theorem rebuildLimit_newDir (p : Params) (base : List QueryData) :
    rebuildLimit p (maxCompleted (newDir base)) = 0 := by
  rw [rebuildLimit, (completed_newDir base).maxCompleted]
  split
  next => exact Nat.zero_min _
  next => rfl

/-- In a new directory the accumulated state is the prepared dataset, whether resumed or not. -/
theorem startRun_newDir (p : Params) (base : List QueryData) :
    startRun p (newDir base) = resetFinal (newDir base) := by
  rw [startRun]
  by_cases hr : p.resume = false
  · rw [if_pos hr]
  · rw [if_neg hr, if_pos (show (newDir base).final = none ∨ _ from Or.inl rfl),
      rebuildLimit_newDir]
    rfl

/-- Then all steps are run. -/
theorem loopSteps_newDir (p : Params) (base : List QueryData) (dir : SamplingDir) :
    loopSteps p (rebuildLimit p (maxCompleted (newDir base))) dir =
      Traced.forEach (loopStep p) (List.range' 1 p.nSteps.toNat) dir := by
  rw [loopSteps, rebuildLimit_newDir]
  split
  next => rfl
  next h =>
    have hzero : p.nSteps.toNat = 0 := by omega
    rw [hzero]
    rfl

theorem budgeted_start (p : Params) (curated : CuratedDataset) (name : String) :
    Budgeted p curated name 0 { newDir (prepareSampling curated name) with
      final := some (prepareSampling curated name) } where
  completed := ⟨(completed_newDir (prepareSampling curated name)).evaluated,
    (completed_newDir (prepareSampling curated name)).sampled⟩
  state := by
    refine ⟨[], _, rfl, .prepare, fun q hq => ?_⟩
    obtain ⟨e, _, rfl⟩ := List.mem_map.mp hq
    refine ⟨⟨sampleTree_originalPlan e.evaluationStats, ?_, fun j hj hk => ?_⟩, fun j hj hk => ?_⟩
    · rw [Nat.zero_mul]
      rfl
    · omega
    · omega

theorem currentSamples_of_grown {k : Nat} {q : QueryData} (h : Grown p k q.sampledPlans) :
    currentSamples q = k * p.nSamplesPerStep := by
  have hcount : currentSamples q = (q.sampledPlans.map (·.sampleId)).countP (· ≠ none) := by
    rw [List.countP_map]
    rfl
  rw [hcount, h.ids, List.countP_cons_of_neg (by simp), List.countP_eq_length.mpr]
  · rw [List.length_map, List.length_range']
  · intro id hid
    obtain ⟨n, _, rfl⟩ := List.mem_map.mp hid
    rfl

/-- With all its samples `best_of` is not topped up. -/
theorem topUp_of_budgeted {t : SamplingDir} (h : Budgeted p curated name p.nSteps.toNat t)
    (maxCompleted : Nat) : topUp p maxCompleted t = .done t := by
  obtain ⟨_, state, hfinal, _, hqueries⟩ := h.state
  unfold topUp
  split
  next hc =>
    rw [hfinal]
    cases state with
    | nil => rfl
    | cons q state =>
      have hcount := currentSamples_of_grown (hqueries q (List.mem_cons_self ..)).1
      have hone : p.nSteps.toNat = 1 := by omega
      rw [hone, Nat.one_mul] at hcount
      exact if_neg (by omega)
  next => rfl

/-- **A run that returns has its budget**, by induction on its steps. -/
theorem budgeted_of_run {t : SamplingDir}
    (h : (runSamplingSteps p (newDir (prepareSampling curated name))).result = .ok t) :
    Budgeted p curated name p.nSteps.toNat t := by
  obtain ⟨s, hs, hrest⟩ := Traced.result_andThen.mp h
  obtain ⟨s', hs', htop⟩ := Traced.result_andThen.mp hrest
  rw [startRun_newDir] at hs
  obtain rfl := Except.ok.inj hs
  rw [loopSteps_newDir] at hs'
  have hloop := Traced.forEach_range'_result (f := loopStep p) (P := fun k s => ∃ j,
    k = j + 1 ∧ Budgeted p curated name j s) (fun k s t hP hstep => ?_) p.nSteps.toNat 1 _ s'
    ⟨0, rfl, budgeted_start p curated name⟩ hs'
  · obtain ⟨j, hj, hb⟩ := hloop
    obtain rfl : j = p.nSteps.toNat := by omega
    rw [topUp_of_budgeted hb] at htop
    obtain rfl := Except.ok.inj htop
    exact hb
  · obtain ⟨j, rfl, hb⟩ := hP
    exact ⟨j + 1, rfl, budgeted_loopStep hb hstep⟩

/-- It returns when its parameters behave. -/
theorem exists_run (hw : WellBehaved p curated) :
    ∃ t, (runSamplingSteps p (newDir (prepareSampling curated name))).result = .ok t := by
  have hstart : Recorded { newDir (prepareSampling curated name) with
      final := some (prepareSampling curated name) } := by
    intro state hstate q hq e he
    obtain rfl := Option.some.inj hstate
    obtain ⟨entry, hentry, rfl⟩ := List.mem_map.mp hq
    rw [List.mem_singleton.mp he]
    exact hw.base entry hentry
  obtain ⟨t, ht, j, hj, hb, _⟩ := Traced.forEach_range'_returns (f := loopStep p)
    (P := fun k s => ∃ j, k = j + 1 ∧ Budgeted p curated name j s ∧ Recorded s)
    (fun k s hP => by
      obtain ⟨j, rfl, hb, hr⟩ := hP
      obtain ⟨t, ht⟩ := exists_loopStep hw hb hr
      exact ⟨t, ht, j + 1, rfl, budgeted_loopStep hb ht, recorded_loopStep hw hb hr ht⟩)
    p.nSteps.toNat 1 _ ⟨0, rfl, budgeted_start p curated name, hstart⟩
  obtain rfl : j = p.nSteps.toNat := by omega
  refine ⟨t, Traced.result_andThen.mpr ⟨_, by rw [startRun_newDir]; rfl, ?_⟩⟩
  refine Traced.result_andThen.mpr ⟨t, by rw [loopSteps_newDir]; exact ht, ?_⟩
  rw [topUp_of_budgeted hb]
  rfl

/-! ## Chains -/

/-- The blocks of a tree, one after the other, are its entries after the root. -/
theorem flatten_stepSamples (s n : Nat) (plans : List PlanInfo) :
    ((List.range' 1 n).map fun k => stepSamples s k plans).flatten =
      (plans.drop 1).take (n * s) := by
  induction n with
  | zero => rw [Nat.zero_mul]; rfl
  | succ n ih =>
    rw [List.range'_1_concat, List.map_append, List.flatten_append, ih, Nat.succ_mul, List.take_add,
      List.drop_drop, List.map_singleton, List.flatten_singleton, stepSamples,
      Nat.add_sub_cancel_left]

theorem Grown.filter_samples {n : Nat} {plans : List PlanInfo} (h : Grown p n plans) :
    plans.filter (·.sampleId ≠ none) = plans.drop 1 := by
  obtain ⟨r, rest, rfl, hr⟩ := h.exists_root
  have hids := (List.cons_eq_cons.mp h.ids).2
  rw [List.filter_cons_of_neg (by simp [hr]), List.drop_one, List.tail_cons, List.filter_eq_self]
  intro e he
  have hmem : e.sampleId ∈ (List.range' 1 (n * p.nSamplesPerStep)).map some :=
    hids ▸ List.mem_map_of_mem he
  obtain ⟨i, _, hi⟩ := List.mem_map.mp hmem
  simp [← hi]

/-- **Under `pst_evol` the samples form as many chains as a step has samples.** -/
theorem formsChains_of_grown {n : Nat} {plans : List PlanInfo} (h : Grown p n plans)
    (hs : p.strategy = .pstEvol) : FormsChains p.nSamplesPerStep n plans := by
  have hlaw : ∀ j, 1 ≤ j → j ≤ n →
      (stepSamples p.nSamplesPerStep j plans).map (·.parentSampleId) =
        if j = 1 then List.replicate p.nSamplesPerStep none
        else (stepSamples p.nSamplesPerStep (j - 1) plans).map (·.sampleId) := by
    intro j hj hn
    have hj := h.parents j hj hn
    simpa only [ParentLaw, hs] using hj
  have hflat : ((List.range' 1 n).map fun k => stepSamples p.nSamplesPerStep k plans).flatten =
      plans.filter (·.sampleId ≠ none) := by
    rw [flatten_stepSamples, h.filter_samples, List.take_of_length_le]
    rw [List.length_drop, h.length]
    omega
  cases n with
  | zero =>
    refine ⟨List.replicate p.nSamplesPerStep [], List.length_replicate, ?_, fun c hc => ?_⟩
    · rw [← hflat]
      simp
    · rw [List.eq_of_mem_replicate hc]
      exact ⟨rfl, fun e he => absurd he (by simp), .nil⟩
  | succ n =>
    -- the blocks are the rows, each sample above its own child
    have hchain : ((List.range' 1 (n + 1)).map fun k =>
        stepSamples p.nSamplesPerStep k plans).IsChain
          (List.Forall₂ fun a b => b.parentSampleId = a.sampleId) := by
      rw [List.isChain_iff_getElem]
      intro i hi
      rw [List.length_map, List.length_range'] at hi
      have hnext := hlaw (1 + (i + 1)) (by omega) (by omega)
      rw [if_neg (by omega), show 1 + (i + 1) - 1 = 1 + i by omega] at hnext
      simp only [List.getElem_map, List.getElem_range', Nat.one_mul]
      have heq := (congrFun (congrFun List.forall₂_eq_eq_eq _) _).mpr hnext.symm
      exact List.forall₂_map_left_iff.mp (List.forall₂_map_right_iff.mp heq) |>.imp
        fun _ _ he => he.symm
    rw [List.range'_succ, List.map_cons] at hflat hchain
    obtain ⟨chains, hbelow, hperm⟩ := Columns.exists_columns hchain
    refine ⟨chains, ?_, hflat ▸ hperm, fun c hc => ?_⟩
    · rw [hbelow.length_eq, h.length_stepSamples (Nat.le_refl 1) (by omega)]
    · obtain ⟨a, ha, tail, rfl, hlen, hnext⟩ := Columns.exists_above hbelow hc
      rw [List.length_map, List.length_range'] at hlen
      refine ⟨by rw [List.length_cons, hlen], fun e he => ?_, hnext⟩
      obtain rfl := Option.some.inj he
      have hfirst := hlaw 1 (Nat.le_refl 1) (by omega)
      rw [if_pos rfl] at hfirst
      exact List.eq_of_mem_replicate (hfirst ▸ List.mem_map_of_mem ha)

end

/-! ## The law of a run -/

/-- A query after `n` steps: `n` blocks of samples, as the files of the steps have them, that hang
where the law says. -/
structure BudgetLaw (p : Params) (n : Nat) (t : SamplingDir) (q : QueryData) : Prop where
  count : currentSamples q = n * p.nSamplesPerStep
  files : ∀ k, 1 ≤ k → k ≤ n → FromFile p t k q
  block : ∀ k, 1 ≤ k → k ≤ n →
    (stepSamples p.nSamplesPerStep k q.sampledPlans).length = p.nSamplesPerStep
  parents : ∀ k, 1 ≤ k → k ≤ n →
    ParentLaw p k (stepSamples p.nSamplesPerStep (k - 1) q.sampledPlans)
      ((stepSamples p.nSamplesPerStep k q.sampledPlans).map (·.parentSampleId))
  chains : p.strategy = .pstEvol → FormsChains p.nSamplesPerStep n q.sampledPlans

/-- **The sample budget**: a run from a prepared dataset that is not interrupted leaves every query
with its blocks of samples, whatever the model and the engine answer; and it returns when
`jsonpatch` and the engine behave as documented. -/
theorem sampleBudget (p : Params) (curated : CuratedDataset) (name : String) :
    (∀ t, (runSamplingSteps p (newDir (prepareSampling curated name))).result = .ok t →
      ∃ final, t.final = some final ∧
        final.map (·.id) = curated.entries.map (·.id) ∧
        ∀ q ∈ final, BudgetLaw p p.nSteps.toNat t q) ∧
    (WellBehaved p curated →
      ∃ t, (runSamplingSteps p (newDir (prepareSampling curated name))).result = .ok t) := by
  refine ⟨fun t h => ?_, exists_run⟩
  obtain ⟨log, final, hfinal, hreach, hqueries⟩ := (budgeted_of_run h).state
  have hids := congrArg (List.map Prod.fst) (reachable_inv hreach).queries
  rw [List.map_map, List.map_map] at hids
  refine ⟨final, hfinal, hids, fun q hq => ?_⟩
  obtain ⟨hgrown, hfiles⟩ := hqueries q hq
  exact {
    count := currentSamples_of_grown hgrown
    files := hfiles
    block := fun k hk hn => hgrown.length_stepSamples hk hn
    parents := hgrown.parents
    chains := formsChains_of_grown hgrown }

/-! ## A metric below zero -/

/-- Of the entries with a metric above zero, `b` has the least, if there are any. -/
def LeastPositive (metric : String) (l : List PlanInfo) (b : PlanInfo) : Prop :=
  (∃ e ∈ l, ∃ x, planMetric metric e = some x ∧ 0 < x) →
    ∃ x, planMetric metric b = some x ∧ 0 < x ∧
      ∀ e ∈ l, ∀ y, planMetric metric e = some y → 0 < y → x ≤ y

/-- Two steps of two samples, of which the engine measures the first below zero. -/
def negativeCall : Params where
  strategy := .bolEvol
  nSteps := 2
  nSamplesPerStep := 2
  samplesPos := Nat.two_pos
  optimizationMetric := "gain"
  model := "gpt-5"
  resume := false
  patch := replacePatch
  llm := fun _ _ _ _ _ => ⟨noResponse, none,
    some [.obj [("op", .str "replace"), ("path", .str "/0"), ("value", .int 7)]]⟩
  engine := fun _ => {
    validate := fun _ _ _ => .ok none
    evaluate := fun pos _ => .ok (.obj [("gain", .int (if pos.2 = 0 then -1 else 5))]) }

def negativeDir : SamplingDir := dirAfter [negativeCall] (newDir scanStart)

/-- The tree of the one query. -/
def negativePlans : List PlanInfo :=
  (negativeDir.final.getD []).flatMap (·.sampledPlans)

/-- The second step starts from a sample whose metric is negative, though the other one's is
positive. -/
theorem negative_metric_is_least :
    (runSamplingSteps negativeCall (newDir scanStart)).result = .ok negativeDir ∧
      negativeDir.final.map (·.map (·.sampledPlans)) = some [negativePlans] ∧
      (stepSamples 2 2 negativePlans).map (·.parentSampleId) = [some 1, some 1] ∧
      ∀ b ∈ stepSamples 2 1 negativePlans, b.sampleId = some 1 →
        ¬ LeastPositive "gain" (stepSamples 2 1 negativePlans) b := by
  refine ⟨by decide +kernel, by decide +kernel, by decide +kernel, fun b hb hid hleast => ?_⟩
  have hnegative : ∀ b ∈ stepSamples 2 1 negativePlans, b.sampleId = some 1 →
      planMetric "gain" b = some (-1) := by decide +kernel
  have hpositive : ∃ e ∈ stepSamples 2 1 negativePlans, planMetric "gain" e = some 5 := by
    decide +kernel
  obtain ⟨e, he, hfive⟩ := hpositive
  obtain ⟨x, hx, hpos, _⟩ := hleast ⟨e, he, 5, hfive, by decide⟩
  rw [hnegative b hb hid] at hx
  exact absurd (Option.some.inj hx ▸ hpos) (by decide)

end DbPlanBench.Sampling
