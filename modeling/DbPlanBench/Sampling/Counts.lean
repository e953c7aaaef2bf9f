import DbPlanBench.Sampling.Orchestrator

/-!
# How many samples a query has

A step from the original plans asks as many questions about every query as it is told
to, and each answer becomes a sample, valid or not. So all queries have the same number
of samples, of which `best_of` counts those of the first.

* `givesEach_sample` — what such a step has for each query.
* `hasEach_accumulate` — what a merge does to the number of samples of each query.
-/

namespace DbPlanBench.Sampling

/-! ## The number of samples -/

/-- Every query has `n` samples besides its original plan. -/
structure HasEach (ids : List Nat) (n : Nat) (final : List QueryData) : Prop where
  ids : final.map (·.id) = ids
  count : ∀ q ∈ final, currentSamples q = n

/-- A step with `n` samples for every query. -/
structure GivesEach (ids : List Nat) (n : Nat) (sampled : List SampledQuery) : Prop where
  ids : sampled.map (·.id) = ids
  size : ∀ q ∈ sampled, q.sampledPlans.length = n

theorem hasEach_prepare (curated : CuratedDataset) (name : String) :
    HasEach (curated.entries.map (·.id)) 0 (prepareSampling curated name) where
  ids := by
    rw [prepareSampling, List.map_map]
    rfl
  count q hq := by
    obtain ⟨e, _, rfl⟩ := List.mem_map.mp hq
    simp [currentSamples, prepareEntry, originalPlan]

theorem countP_finalizedPlans (start : Nat) (samples : List SampledPlan) :
    (finalizedPlans start samples).countP (·.sampleId ≠ none) = samples.length := by
  rw [List.countP_eq_length.mpr, length_finalizedPlans]
  intro p hp
  obtain ⟨n, s, _, _, rfl⟩ := mem_finalizedPlans hp
  rfl

theorem currentSamples_addSamples (samples : List SampledPlan) (q : QueryData) :
    currentSamples (addSamples samples q) = currentSamples q + samples.length := by
  rw [currentSamples, addSamples, List.countP_append, countP_finalizedPlans, List.countP_map]
  rfl

/-- **A merge adds the samples of the step to those of every query.** -/
theorem hasEach_accumulate {ids : List Nat} {c n : Nat} {final final' : List QueryData}
    {sampled : List SampledQuery} (hnd : ids.Nodup) (hf : HasEach ids c final)
    (hs : GivesEach ids n sampled) (h : accumulateSamples sampled final = .ok final') :
    HasEach ids (c + n) final' := by
  rw [accumulateSamples_eq (hf.ids ▸ hnd) (hs.ids ▸ hnd) fun q hq =>
    hf.ids ▸ hs.ids ▸ List.mem_map_of_mem hq] at h
  injection h with h
  subst h
  refine ⟨?_, fun q' hq' => ?_⟩
  · rw [List.map_map]
    exact hf.ids
  · obtain ⟨q, hq, rfl⟩ := List.mem_map.mp hq'
    have hmem : q.id ∈ sampled.map (·.id) := hs.ids ▸ hf.ids ▸ List.mem_map_of_mem hq
    have hlen : (samplesOf sampled q.id).length = n := by
      obtain ⟨sq, hsq, _, hfind⟩ := exists_find?_id SampledQuery.id hmem
      rw [samplesOf, hfind]
      exact hs.size sq hsq
    rw [currentSamples_addSamples, hf.count q hq, hlen]

/-! ## A step from the original plans -/

theorem length_originalBases {q : QueryData} {p : QueryData × List BasePlan}
    (h : selectBasePlans originalStrategy q = .ok p) : p.2.length = 1 := by
  obtain ⟨_, hbases⟩ := selectBasePlans_eq h
  obtain ⟨root, _, hbases⟩ := Except.bind_eq_ok.mp hbases
  injection (show Except.ok _ = Except.ok p.2 from hbases) with hbases
  rw [← hbases]
  rfl

/-- With one base plan for each query every query gets one answer's samples. -/
theorem size_distribute {model : String} {n : Nat} {selected : List (QueryData × List BasePlan)}
    {answers : List (List GenerationResult)} (hone : ∀ p ∈ selected, p.2.length = 1)
    (hlen : answers.length = selected.length) (hn : ∀ a ∈ answers, a.length = n) :
    ∀ q ∈ distribute model selected answers, q.sampledPlans.length = n := by
  induction selected generalizing answers with
  | nil => exact fun _ hq => absurd hq List.not_mem_nil
  | cons p rest ih =>
    cases answers with
    | nil => exact absurd hlen (by simp)
    | cons a answers =>
      have hp := hone p (List.mem_cons_self ..)
      obtain ⟨base, hbase⟩ := List.length_eq_one_iff.mp hp
      intro q hq
      rw [distribute, hp] at hq
      rcases List.mem_cons.mp hq with rfl | hq
      · simp [sampledQuery, hbase, hn a (List.mem_cons_self ..)]
      · exact ih (fun p' hp' => hone p' (List.mem_cons_of_mem _ hp')) (by simpa using hlen)
          (fun b hb => hn b (List.mem_cons_of_mem _ hb)) q hq

theorem givesEach_sample {patch : JsonPatch} {model : String} {generate : Answers} {n : Nat}
    {queries : List QueryData} {sampled : List SampledQuery}
    (hn : ∀ i text plan, (generate i text plan).length = n)
    (h : samplePlansFromFile patch originalStrategy model generate queries = .ok sampled) :
    GivesEach (queries.map (·.id)) n sampled := by
  obtain ⟨selected, hselected, h⟩ := Except.bind_eq_ok.mp h
  obtain ⟨batch, hbatch, h⟩ := Except.bind_eq_ok.mp h
  injection (show Except.ok _ = Except.ok sampled from h) with h
  subst h
  -- the strategy offers one base a query, and each base is answered once
  have hone : ∀ p ∈ selected, p.2.length = 1 := by
    intro p hp
    obtain ⟨q, _, hq⟩ := Except.mem_of_mapM hselected hp
    exact length_originalBases hq
  have hlen : batch.length = selected.length := by
    rw [← (Except.mapM_eq_ok.mp hbatch).length_eq, List.length_flatMap]
    have hones : selected.map (fun p => (p.2.map fun b => (p.1, b)).length) =
        selected.map fun _ => 1 :=
      List.map_congr_left fun p hp => (List.length_map ..).trans (hone p hp)
    rw [hones]
    simp
  -- what is left: as many answers as bases, and each answer has `n` plans
  refine ⟨by rw [map_id_distribute, map_id_select hselected], size_distribute hone ?_ ?_⟩
  · rw [List.length_map, List.length_zipIdx]
    exact hlen
  · intro a ha
    obtain ⟨item, _, rfl⟩ := List.mem_map.mp ha
    exact hn ..

theorem givesEach_evaluate {patch : JsonPatch} {engine : Engine} {ids : List Nat} {n : Nat}
    {sampled : List SampledQuery} (h : GivesEach ids n sampled) :
    GivesEach ids n (evaluateSampledPlans patch engine sampled) where
  ids := (map_id_evaluate patch engine sampled).trans h.ids
  size q hq := by
    obtain ⟨p, hp, rfl⟩ := List.mem_map.mp hq
    have hmem : p.1 ∈ sampled := List.mem_of_getElem? (List.mem_zipIdx_iff_getElem?.mp hp)
    simpa [evaluateQuery] using h.size p.1 hmem

theorem length_answersOf (p : Params) (k nSamples i : Nat) (text : String) (plan : Json) :
    (answersOf p k nSamples i text plan).length = nSamples := by
  rw [answersOf, List.length_map, List.length_range]

end DbPlanBench.Sampling
