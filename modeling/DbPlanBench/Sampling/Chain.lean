import DbPlanBench.Sampling.Step

/-!
# Chains of patches

What the two walks to the root compute, without the walking: `Chain plans p ps`
says that `ps` are the patches of the valid entries from the root down to `p`, and
`NearestValid plans p a` that `a` is the first valid entry from `p` upwards. In a
well-formed tree with a valid root every entry has one of each, and the walks
return them (`getUpstreamPatches_eq`, `getUpstreamEvaluationStats_eq`).

Both only look up the tree, so they stay as they are when entries are added at its
end (`Chain.addSamples`).
-/

namespace DbPlanBench.Sampling

/-- The patches of the valid entries from the root to `p`, in this order. -/
inductive Chain (plans : List PlanInfo) : PlanInfo → List Json → Prop where
  | root {p : PlanInfo} (hid : p.sampleId = none) : Chain plans p []
  | valid {p q : PlanInfo} {upstream patches : List Json} (hid : p.sampleId ≠ none)
      (hvalid : p.isValid = true) (hq : q ∈ plans) (hparent : q.sampleId = p.parentSampleId)
      (hup : Chain plans q upstream) (hpatches : p.sampledPatches = some patches) :
      Chain plans p (upstream ++ patches)
  | invalid {p q : PlanInfo} {upstream : List Json} (hid : p.sampleId ≠ none)
      (hvalid : p.isValid = false) (hq : q ∈ plans) (hparent : q.sampleId = p.parentSampleId)
      (hup : Chain plans q upstream) : Chain plans p upstream

/-- The first valid entry from `p` upwards. -/
inductive NearestValid (plans : List PlanInfo) : PlanInfo → PlanInfo → Prop where
  | here {p : PlanInfo} (hvalid : p.isValid = true) : NearestValid plans p p
  | up {p q a : PlanInfo} (hid : p.sampleId ≠ none) (hvalid : p.isValid = false) (hq : q ∈ plans)
      (hparent : q.sampleId = p.parentSampleId) (hup : NearestValid plans q a) :
      NearestValid plans p a

/-- A well-formed tree of samples: the root is valid, and so are the patches of valid entries. -/
structure ChainTree (plans : List PlanInfo) : Prop where
  wf : ParentTree.WellFormed (·.sampleId) (·.parentSampleId) plans
  rootValid : ∀ p ∈ plans, p.sampleId = none → p.isValid = true
  patches : ∀ p ∈ plans, p.isValid = true → ∃ patches, p.sampledPatches = some patches

variable {plans : List PlanInfo}

/-- The parent of an entry is looked up. -/
theorem entryAt_parent (h : (plans.map (·.sampleId)).Nodup) {p q : PlanInfo} (hq : q ∈ plans)
    (hparent : q.sampleId = p.parentSampleId) : entryAt plans p.parentSampleId = .ok q := by
  rw [← hparent]
  exact entryAt_eq h hq

/-- **Every entry of a tree has a chain**, by induction along parents. -/
theorem exists_chain_of_tree
    (hwf : ParentTree.WellFormed (·.sampleId) (·.parentSampleId) plans)
    (hpatches : ∀ p ∈ plans, p.isValid = true → ∃ patches, p.sampledPatches = some patches) :
    ∀ p ∈ plans, ∃ ps, Chain plans p ps := by
  refine hwf.induction (fun p _ hid => ⟨[], .root hid⟩) fun p hp q hq hid hparent hup => ?_
  obtain ⟨upstream, hup⟩ := hup
  cases hvalid : p.isValid with
  | true =>
    obtain ⟨patches, hpatches⟩ := hpatches p hp hvalid
    exact ⟨_, .valid hid hvalid hq hparent hup hpatches⟩
  | false => exact ⟨_, .invalid hid hvalid hq hparent hup⟩

namespace ChainTree

theorem exists_root (h : ChainTree plans) :
    ∃ r ∈ plans, r.sampleId = none ∧ r.isValid = true ∧ entryAt plans none = .ok r := by
  obtain ⟨r, rest, hplans, hr⟩ := h.wf.root
  have hmem : r ∈ plans := hplans ▸ List.mem_cons_self ..
  have hentry := entryAt_eq h.wf.nodup hmem
  rw [hr] at hentry
  exact ⟨r, hmem, hr, h.rootValid r hmem hr, hentry⟩

/-- Every entry has a chain. -/
theorem exists_chain (h : ChainTree plans) : ∀ p ∈ plans, ∃ ps, Chain plans p ps :=
  exists_chain_of_tree h.wf h.patches

/-- Every entry has a valid entry on its way to the root. -/
theorem exists_nearestValid (h : ChainTree plans) : ∀ p ∈ plans, ∃ a, NearestValid plans p a := by
  refine h.wf.induction (fun p hp hid => ⟨p, .here (h.rootValid p hp hid)⟩)
    fun p hp q hq hid hparent hup => ?_
  obtain ⟨a, hup⟩ := hup
  cases hvalid : p.isValid with
  | true => exact ⟨p, .here hvalid⟩
  | false => exact ⟨a, .up hid hvalid hq hparent hup⟩

end ChainTree

theorem NearestValid.valid {p a : PlanInfo} (h : NearestValid plans p a) : a.isValid = true := by
  induction h with
  | here hvalid => exact hvalid
  | up _ _ _ _ _ ih => exact ih

theorem NearestValid.mem {p a : PlanInfo} (h : NearestValid plans p a) (hp : p ∈ plans) :
    a ∈ plans := by
  induction h with
  | here => exact hp
  | up _ _ hq _ _ ih => exact ih hq

/-- Invalid entries add nothing: an entry has the chain of its nearest valid one. -/
theorem NearestValid.chain {p a : PlanInfo} (hd : (plans.map (·.sampleId)).Nodup)
    (h : NearestValid plans p a) {ps : List Json} (hc : Chain plans p ps) : Chain plans a ps := by
  induction h with
  | here => exact hc
  | up hid hvalid hq hparent _ ih =>
    cases hc with
    | root hid' => exact absurd hid' hid
    | valid _ hvalid' => exact absurd hvalid' (by rw [hvalid]; decide)
    | invalid _ _ hq' hparent' hup =>
      have he := List.inj_on_of_nodup_map hd hq hq' (hparent.trans hparent'.symm)
      exact ih (he ▸ hup)

/-! ## The walks -/

/-- The stack of a walk is the chain, last patches first; the walk takes a step for each entry on
the way, and there are at most as many as the entry's position. -/
theorem patchStack_eq (hwf : ParentTree.WellFormed (·.sampleId) (·.parentSampleId) plans)
    (i : Nat) : ∀ p, plans[i]? = some p → ∀ ps, Chain plans p ps → ∀ fuel, i < fuel →
      ∃ stack, patchStack plans fuel p false = .ok stack ∧
        ∃ l, stack.reverse.mapM iterPatches = .ok l ∧ l.flatten = ps := by
  -- induction on the position: a parent stands earlier in the list
  refine hwf.index_induction (P := fun i p => ∀ ps, Chain plans p ps → ∀ fuel, i < fuel →
    ∃ stack, patchStack plans fuel p false = .ok stack ∧
      ∃ l, stack.reverse.mapM iterPatches = .ok l ∧ l.flatten = ps) ?_ ?_ i
  · intro i p hid ps hc fuel hf
    obtain ⟨fuel, rfl⟩ : ∃ k, fuel = k + 1 := ⟨fuel - 1, by omega⟩
    cases hc with
    | root => exact ⟨[], by rw [patchStack]; simp only [hid], [], rfl, rfl⟩
    | valid hid' => exact absurd hid hid'
    | invalid hid' => exact absurd hid hid'
  · intro i p j q _ hid hj hq hparent ih ps hc fuel hf
    obtain ⟨fuel, rfl⟩ : ∃ k, fuel = k + 1 := ⟨fuel - 1, by omega⟩
    obtain ⟨n, hn⟩ := Option.ne_none_iff_exists'.mp hid
    have hq := List.mem_of_getElem? hq
    -- one turn of the loop: the entry is pushed when it is valid, and the walk goes on at its
    -- parent
    have hstep : ∀ stack, patchStack plans fuel q false = .ok stack →
        patchStack plans (fuel + 1) p false =
          .ok (if p.isValid then p.sampledPatches :: stack else stack) := by
      intro stack hstack
      rw [patchStack]
      simp only [hn, entryAt_parent hwf.nodup hq hparent, Except.ok_bind, hstack, Bool.false_or]
      rfl
    -- sample ids are distinct, so the parent the chain names is the one the walk finds
    have hup : ∀ {q'}, q' ∈ plans → q'.sampleId = p.parentSampleId → q' = q := fun hq' hp' =>
      List.inj_on_of_nodup_map hwf.nodup hq' hq (hp'.trans hparent.symm)
    cases hc with
    | root hid' => exact absurd hid' hid
    | @valid _ _ upstream patches _ hvalid hq' hparent' hc hpatches =>
      obtain ⟨stack, hstack, l, hl, hflat⟩ := ih upstream (hup hq' hparent' ▸ hc) fuel (by omega)
      refine ⟨_, hstep stack hstack, l ++ [patches], ?_, ?_⟩
      · rw [hvalid, if_pos rfl, List.reverse_cons, List.mapM_append, hl, hpatches]
        rfl
      · rw [List.flatten_append, hflat]
        simp
    | invalid _ hvalid hq' hparent' hc =>
      obtain ⟨stack, hstack, l, hl, hflat⟩ := ih _ (hup hq' hparent' ▸ hc) fuel (by omega)
      refine ⟨_, hstep stack hstack, l, ?_, hflat⟩
      rw [hvalid, if_neg Bool.false_ne_true]
      exact hl

/-- **`get_upstream_patches` returns the chain.** -/
theorem getUpstreamPatches_chain
    (hwf : ParentTree.WellFormed (·.sampleId) (·.parentSampleId) plans) {p : PlanInfo}
    (hp : p ∈ plans) {ps : List Json} (hc : Chain plans p ps) :
    getUpstreamPatches p plans false = .ok ps := by
  obtain ⟨i, hi⟩ := List.getElem?_of_mem hp
  have hlt : i < plans.length := (List.getElem?_eq_some_iff.mp hi).1
  obtain ⟨stack, hstack, l, hl, hflat⟩ :=
    patchStack_eq hwf i p hi ps hc (plans.length + 1) (by omega)
  rw [getUpstreamPatches, hstack, Except.ok_bind, hl, Except.ok_bind, hflat]
  rfl

theorem getUpstreamPatches_eq (h : ChainTree plans) {p : PlanInfo} (hp : p ∈ plans)
    {ps : List Json} (hc : Chain plans p ps) : getUpstreamPatches p plans false = .ok ps :=
  getUpstreamPatches_chain h.wf hp hc

/-- With the current patches the walk still ends; only patches that are not there can fail. -/
theorem getUpstreamPatches_error (h : ChainTree plans) {p : PlanInfo} (hp : p ∈ plans)
    (must : Bool) {e : Fault} (he : getUpstreamPatches p plans must = .error e) :
    e = .raised .typeError := by
  obtain ⟨i, hi⟩ := List.getElem?_of_mem hp
  have hlt : i < plans.length := (List.getElem?_eq_some_iff.mp hi).1
  -- with `must` the first entry is pushed whatever its validity; from its parent on the walk is
  -- the one without it
  have hwalk : ∃ stack, patchStack plans (plans.length + 1) p must = .ok stack := by
    cases hid : p.sampleId with
    | none => exact ⟨[], by rw [patchStack]; simp only [hid]⟩
    | some n =>
      obtain ⟨j, q, hj, hq, hparent⟩ := h.wf.earlier i p hi (by simp [hid])
      have hqm := List.mem_of_getElem? hq
      obtain ⟨us, hus⟩ := h.exists_chain q hqm
      obtain ⟨stack, hstack, _⟩ := patchStack_eq h.wf j q hq us hus plans.length (by omega)
      refine ⟨if must || p.isValid then p.sampledPatches :: stack else stack, ?_⟩
      rw [patchStack]
      simp only [hid, entryAt_parent h.wf.nodup hqm hparent, Except.ok_bind, hstack]
      rfl
  obtain ⟨stack, hstack⟩ := hwalk
  rw [getUpstreamPatches, hstack, Except.ok_bind] at he
  rcases Except.bind_eq_error.mp he with he | ⟨l, _, he⟩
  · -- iterating over patches that are `None` is the only thing left to fail
    obtain ⟨o, _, ho⟩ := Except.exists_of_mapM_eq_error he
    cases o with
    | none =>
      injection ho with ho
      exact ho.symm
    | some ps => exact absurd ho (by simp [iterPatches])
  · exact absurd he (by simp [pure, Except.pure])

/-- The walk of the statistics ends at the nearest valid entry. -/
theorem evaluationStatsWalk_eq (h : ChainTree plans) (i : Nat) : ∀ p, plans[i]? = some p →
    ∀ a, NearestValid plans p a → ∀ fuel, i < fuel →
      evaluationStatsWalk plans fuel p = .ok a.evaluationStats := by
  refine h.wf.index_induction (P := fun i p => ∀ a, NearestValid plans p a → ∀ fuel, i < fuel →
    evaluationStatsWalk plans fuel p = .ok a.evaluationStats) ?_ ?_ i
  · -- the original: it is valid, so the walk stops here
    intro i p hid a ha fuel hf
    obtain ⟨fuel, rfl⟩ : ∃ k, fuel = k + 1 := ⟨fuel - 1, by omega⟩
    cases ha with
    | here hvalid =>
      rw [evaluationStatsWalk]
      simp only [hid, hvalid, if_true]
    | up hid' => exact absurd hid hid'
  · -- a later entry: either valid itself, or what its parent reads, and the parent is earlier
    intro i p j q _ hid hj hq hparent ih a ha fuel hf
    obtain ⟨fuel, rfl⟩ : ∃ k, fuel = k + 1 := ⟨fuel - 1, by omega⟩
    obtain ⟨n, hn⟩ := Option.ne_none_iff_exists'.mp hid
    have hq := List.mem_of_getElem? hq
    cases ha with
    | here hvalid =>
      rw [evaluationStatsWalk]
      simp only [hn, hvalid, if_true]
    | up _ hvalid hq' hparent' hup =>
      have he := List.inj_on_of_nodup_map h.wf.nodup hq' hq (hparent'.trans hparent.symm)
      rw [evaluationStatsWalk]
      simp only [hn, hvalid, Bool.false_eq_true, if_false, entryAt_parent h.wf.nodup hq hparent,
        Except.ok_bind]
      exact ih a (he ▸ hup) fuel (by omega)

/-- **`get_upstream_evaluation_stats` returns those of the nearest valid entry.** -/
theorem getUpstreamEvaluationStats_eq (h : ChainTree plans) {p a : PlanInfo} (hp : p ∈ plans)
    (ha : NearestValid plans p a) : getUpstreamEvaluationStats p plans = .ok a.evaluationStats := by
  obtain ⟨i, hi⟩ := List.getElem?_of_mem hp
  have hlt : i < plans.length := (List.getElem?_eq_some_iff.mp hi).1
  exact evaluationStatsWalk_eq h i p hi a ha (plans.length + 1) (by omega)

/-- **A base plan is an entry with its chain and its nearest valid entry.** -/
theorem basePlanOf_eq (h : ChainTree plans) {p : PlanInfo} (hp : p ∈ plans) {base : BasePlan}
    (hb : basePlanOf plans p = .ok base) :
    base.parentSampleId = p.sampleId ∧ Chain plans p base.upstreamPatches ∧
      ∃ a, NearestValid plans p a ∧ base.upstreamEvaluationStats = a.evaluationStats := by
  obtain ⟨ps, hps⟩ := h.exists_chain p hp
  obtain ⟨a, ha⟩ := h.exists_nearestValid p hp
  rw [basePlanOf, getUpstreamPatches_eq h hp hps, Except.ok_bind,
    getUpstreamEvaluationStats_eq h hp ha, Except.ok_bind] at hb
  injection hb with hb
  rw [← hb]
  exact ⟨rfl, hps, a, ha, rfl⟩

end DbPlanBench.Sampling
