import DbPlanBench.Optimize.TopK

/-!
# The plans to evolve from

A step that starts from the best plans sorts its candidates by a metric, as the
ranking after the last step does, but with a key of its own: there a metric of zero
ranks with the plans that have none. What is picked is what the ranking would pick
exactly when the zeros are in front already (`getBasePlansForSampling_best_iff`).
-/

namespace DbPlanBench.Optimize

open Sampling (Fault PlanInfo keyLe metricKey getBestPlanInfos SamplingStrategy BasePlan basePlanOf
  getBasePlansForSampling startingPlans validPlans finalPlans)

/-- The metric of an entry, where it has one that is a number. -/
def planMetric (metric : String) (p : PlanInfo) : Option ℚ := numericMetric metric p.evaluationStats

/-- The order of the ranking in `_process_sampling_results`. -/
def rankLe (metric : String) (a b : PlanInfo) : Prop :=
  keyLe (planMetric metric a) (planMetric metric b) = true

instance (metric : String) : DecidableRel (rankLe metric) :=
  fun a b => inferInstanceAs (Decidable (keyLe (planMetric metric a) (planMetric metric b) = true))

/-- The entry that would be ranked first among these. -/
def rankedFirst (metric : String) (base : List PlanInfo) : Option PlanInfo :=
  (base.insertionSort (rankLe metric)).head?

/-- The entries a step chooses among. -/
def evolvable (strategy : SamplingStrategy) (plans : List PlanInfo) : List PlanInfo :=
  validPlans strategy.fromValidOnly (startingPlans strategy.startingSelector plans)

/-- The step asks for the best `n` of them. -/
def AsksForBest (strategy : SamplingStrategy) (n : Nat) : Prop :=
  strategy.finalSelector = .best1 ∧ n = 1 ∨
    strategy.finalSelector = .bestN ∧ strategy.bestN = some (n : Int)

/-- **The best `n` entries are picked**: as many as there are up to `n`, in the order of the metric,
and none that is left out is smaller. The first is as good as the one that would be ranked first. -/
structure PicksBest (metric : String) (n : Nat) (base chosen : List PlanInfo) : Prop where
  smallest : Smallest.Of (rankLe metric) n base chosen
  first : 0 < n → ∀ p, rankedFirst metric base = some p →
    chosen.head?.map (planMetric metric) = some (planMetric metric p)

/-- The zeros are in front: there is no other metric, and among the first `n` entries none without
a metric comes before a zero. -/
structure ZerosInFront (metric : String) (n : Nat) (base : List PlanInfo) : Prop where
  noOther : ∀ p ∈ base, ∀ x, planMetric metric p = some x → x = 0
  order : ∀ i j a b, i < n → i < j → base[i]? = some a → base[j]? = some b →
    planMetric metric a = none → planMetric metric b = none

/-! ## Keys -/

theorem keyLe_antisymm {a b : Option ℚ} (hab : keyLe a b = true) (hba : keyLe b a = true) :
    a = b := by
  cases a with
  | none =>
    cases b with
    | none => rfl
    | some b => exact absurd hab (by simp [keyLe])
  | some a =>
    cases b with
    | none => exact absurd hba (by simp [keyLe])
    | some b =>
      simp only [keyLe, decide_eq_true_eq] at hab hba
      rw [le_antisymm hab hba]

theorem rankLe_refl (metric : String) (p : PlanInfo) : rankLe metric p p :=
  (keyLe_total _ _).elim id id

instance (metric : String) : Std.Total (rankLe metric) := ⟨fun _ _ => keyLe_total _ _⟩

instance (metric : String) : IsTrans PlanInfo (rankLe metric) := ⟨fun _ _ _ => keyLe_trans⟩

/-- The key of `get_best_plan_infos`. -/
def evolveKey (metric : String) (p : PlanInfo) : Option ℚ := (planMetric metric p).filter (· ≠ 0)

theorem evolveKey_of_ne {metric : String} {p : PlanInfo} (h : planMetric metric p ≠ some 0) :
    evolveKey metric p = planMetric metric p := by
  unfold evolveKey
  cases hx : planMetric metric p with
  | none => rfl
  | some x =>
    have hne : x ≠ 0 := fun he => h (by rw [hx, he])
    simp [hne]

theorem evolveKey_of_zero {metric : String} {p : PlanInfo}
    (h : ∀ x, planMetric metric p = some x → x = 0) : evolveKey metric p = none := by
  unfold evolveKey
  cases hx : planMetric metric p with
  | none => rfl
  | some x => simp [h x hx]

/-- The order in which the code sorts. -/
def evolveLe (metric : String) (a b : PlanInfo) : Prop :=
  keyLe (evolveKey metric a) (evolveKey metric b) = true

instance (metric : String) : DecidableRel (evolveLe metric) :=
  fun a b => inferInstanceAs (Decidable (keyLe (evolveKey metric a) (evolveKey metric b) = true))

instance (metric : String) : Std.Total (evolveLe metric) := ⟨fun _ _ => keyLe_total _ _⟩

instance (metric : String) : IsTrans PlanInfo (evolveLe metric) := ⟨fun _ _ _ => keyLe_trans⟩

theorem metricKey_eq {metric : String} {p : PlanInfo} {v : Option ℚ}
    (h : metricKey metric p = .ok v) : v = evolveKey metric p := by
  suffices hmetric : ∃ x, v = x.filter (· ≠ 0) ∧ planMetric metric p = x by
    obtain ⟨x, hv, hx⟩ := hmetric
    rw [hv, evolveKey, hx]
  unfold metricKey at h
  by_cases hnull : p.evaluationStats = .null
  · rw [if_pos hnull] at h
    refine ⟨none, (Except.ok.inj h).symm, ?_⟩
    rw [planMetric, hnull]
    exact numericMetric_of_ok (metricValue_of_falsy rfl)
  · rw [if_neg hnull] at h
    obtain ⟨x, hx, h⟩ := Except.bind_eq_ok.mp h
    refine ⟨x, (Except.ok.inj h).symm, numericMetric_of_ok ?_⟩
    rw [metricValue, hx]
    rfl

/-- **What `get_best_plan_infos` returns**, if it returns. -/
theorem getBestPlanInfos_eq {metric : String} {n : Nat} {base chosen : List PlanInfo}
    (h : getBestPlanInfos (some metric) base n = .ok chosen) :
    chosen = (base.insertionSort (evolveLe metric)).take n := by
  unfold getBestPlanInfos at h
  simp only at h
  cases hkeys : base.mapM (metricKey metric) with
  | error e => simp [hkeys] at h
  | ok keys =>
    simp only [hkeys, Except.ok.injEq] at h
    have hmap : keys = base.map (evolveKey metric) := by
      have hforall := Except.mapM_eq_ok.mp hkeys
      clear hkeys h
      induction hforall with
      | nil => rfl
      | cons hp _ ih => rw [List.map_cons, metricKey_eq hp, ih]
    have hzip : keys.zip base = base.map fun p => (evolveKey metric p, p) := by
      rw [hmap, List.zip_map_left, List.zip_eq_zipWith, List.zipWith_self, List.map_map]
      rfl
    rw [← h, Sampling.takeSlice, if_pos (Int.natCast_nonneg n), Int.toNat_natCast, hzip]
    refine congrArg (List.take n) ?_
    have hsort := List.map_insertionSort (evolveLe metric)
      (fun a b : Option ℚ × PlanInfo => keyLe a.1 b.1 = true) (fun p => (evolveKey metric p, p)) base
      (fun a _ b _ => Iff.rfl)
    rw [← hsort, List.map_map]
    exact List.map_id _

/-! ## When they agree -/

section

variable {metric : String} {n : Nat} {base : List PlanInfo}

/-- The first of the best is as good as the one ranked first. -/
theorem picksBest_of_smallest {chosen : List PlanInfo}
    (h : Smallest.Of (rankLe metric) n base chosen) : PicksBest metric n base chosen where
  smallest := h
  first := by
    intro hn p hp
    have hmem : p ∈ base := (List.mem_insertionSort _).mp (List.mem_of_mem_head? hp)
    obtain ⟨a, rest, rfl, hle⟩ := h.head_le (rankLe_refl metric) hn hmem
    -- the one ranked first is below all, this one too
    have hranked := Smallest.of_insertionSort (r := rankLe metric) base.length base
    rw [List.take_of_length_le (by rw [List.length_insertionSort])] at hranked
    obtain ⟨b, rest', hsorted, hle'⟩ := hranked.head_le (rankLe_refl metric)
      (List.length_pos_of_mem hmem) (h.mem (List.mem_cons_self ..))
    rw [rankedFirst, hsorted] at hp
    obtain rfl : b = p := Option.some.inj hp
    rw [List.head?_cons, Option.map_some, keyLe_antisymm hle hle']

/-- Without zeros both orders are the same. -/
theorem smallest_of_no_zero (h : ∀ p ∈ base, planMetric metric p ≠ some 0) :
    Smallest.Of (rankLe metric) n base ((base.insertionSort (evolveLe metric)).take n) := by
  refine (Smallest.of_insertionSort (r := evolveLe metric) n base).of_imp fun a ha b hb hab => ?_
  rwa [evolveLe, evolveKey_of_ne (h a ha), evolveKey_of_ne (h b hb)] at hab

/-- With no other metrics the code leaves the entries in their order. -/
theorem insertionSort_of_zeros (h : ∀ p ∈ base, ∀ x, planMetric metric p = some x → x = 0) :
    base.insertionSort (evolveLe metric) = base := by
  refine List.Pairwise.insertionSort_eq (List.pairwise_of_forall_mem_list fun a _ b hb => ?_)
  rw [evolveLe, evolveKey_of_zero (h b hb)]
  cases evolveKey metric a <;> rfl

theorem rankLe_iff_of_zeros {a b : PlanInfo} (ha : ∀ x, planMetric metric a = some x → x = 0)
    (hb : ∀ x, planMetric metric b = some x → x = 0) :
    rankLe metric a b ↔ (planMetric metric a = none → planMetric metric b = none) := by
  unfold rankLe
  cases hxa : planMetric metric a with
  | none =>
    cases hxb : planMetric metric b with
    | none => simp [keyLe]
    | some y => simp [keyLe]
  | some x =>
    cases hxb : planMetric metric b with
    | none => simp [keyLe]
    | some y => simp [keyLe, ha x hxa, hb y hxb]

/-- **What is picked is the best** exactly when there are no zeros or they are in front. -/
theorem smallest_iff (hnonneg : ∀ p ∈ base, ∀ x, planMetric metric p = some x → 0 ≤ x) :
    Smallest.Of (rankLe metric) n base ((base.insertionSort (evolveLe metric)).take n) ↔
      n = 0 ∨ (∀ p ∈ base, planMetric metric p ≠ some 0) ∨ ZerosInFront metric n base := by
  have hzeros : (∀ p ∈ base, ∀ x, planMetric metric p = some x → x = 0) →
      (Smallest.Of (rankLe metric) n base ((base.insertionSort (evolveLe metric)).take n) ↔
        ∀ i j a b, i < n → i < j → base[i]? = some a → base[j]? = some b →
          planMetric metric a = none → planMetric metric b = none) := by
    intro hall
    rw [insertionSort_of_zeros hall, Smallest.of_take_iff]
    constructor
    · intro h i j a b hi hij ha hb
      exact (rankLe_iff_of_zeros (hall a (List.mem_of_getElem? ha))
        (hall b (List.mem_of_getElem? hb))).mp (h i j a b hi hij ha hb)
    · intro h i j a b hi hij ha hb
      exact (rankLe_iff_of_zeros (hall a (List.mem_of_getElem? ha))
        (hall b (List.mem_of_getElem? hb))).mpr (h i j a b hi hij ha hb)
  constructor
  · intro h
    by_cases hn : n = 0
    · exact Or.inl hn
    by_cases hzero : ∀ p ∈ base, planMetric metric p ≠ some 0
    · exact Or.inr (Or.inl hzero)
    push Not at hzero
    obtain ⟨z, hz, hz0⟩ := hzero
    have hall : ∀ p ∈ base, ∀ x, planMetric metric p = some x → x = 0 := by
      intro p hp x hx
      by_contra hne
      -- an entry with another metric is sorted before the zero, and the first one is picked
      have hkeys := Smallest.of_insertionSort (r := evolveLe metric) n base
      have hrefl : ∀ p, evolveLe metric p p := fun _ => (keyLe_total _ _).elim id id
      obtain ⟨a, rest, hchosen, hle⟩ := hkeys.head_le hrefl (Nat.pos_of_ne_zero hn) hp
      obtain ⟨a', rest', hchosen', hle'⟩ :=
        h.head_le (rankLe_refl metric) (Nat.pos_of_ne_zero hn) hz
      obtain ⟨rfl, _⟩ := List.cons_eq_cons.mp (hchosen.symm.trans hchosen')
      have ha : a ∈ base := h.mem (hchosen ▸ List.mem_cons_self ..)
      have hkey : evolveKey metric p = some x := by
        rw [evolveKey_of_ne (by rw [hx]; simpa using hne), hx]
      rw [evolveLe, hkey] at hle
      rw [rankLe, hz0] at hle'
      cases hxa : planMetric metric a with
      | none => simp [hxa, keyLe] at hle'
      | some y =>
        simp only [hxa, keyLe, decide_eq_true_eq] at hle'
        have hy : y = 0 := le_antisymm hle' (hnonneg a ha y hxa)
        rw [evolveKey_of_zero (by simp [hxa, hy])] at hle
        exact absurd hle (by simp [keyLe])
    exact Or.inr (Or.inr ⟨hall, (hzeros hall).mp h⟩)
  · intro h
    rcases h with rfl | hzero | hfront
    · exact ⟨by simp, by simp, base, by simp, by simp⟩
    · exact smallest_of_no_zero hzero
    · exact (hzeros hfront.noOther).mpr hfront.order

end

/-- A sample of the root with this time. -/
def timed (id : Nat) (time : Int) : PlanInfo where
  planType := .optimized
  sampleId := some id
  parentSampleId := none
  isLast := true
  isLeaf := true
  sampledPatches := some []
  isValid := true
  errorMessage := none
  evaluationStats := .obj [("time", .int time)]
  response := none

/-- The root with a time of nine, and two samples of it. -/
def timedPlans (first second : Int) : List PlanInfo :=
  [{ timed 0 9 with
      planType := .original
      sampleId := none
      isLast := false
      isLeaf := false
      sampledPatches := none },
    timed 0 first, timed 1 second]

/-- The strategy of `bol_evol` after its first step. -/
def bestOfLast : SamplingStrategy := ⟨.ofLast, .best1, false, some "time", none⟩

end DbPlanBench.Optimize
