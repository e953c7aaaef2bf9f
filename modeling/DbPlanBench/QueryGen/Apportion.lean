import DbPlanBench.QueryGen.Exhausted

/-!
# Largest remainders

`_allocate_targets` is a largest-remainder apportionment: everyone gets the integral part of
its share, and the units that are left go to the largest fractions, one unit each. There are
fewer units than positive fractions: the units are the sum of the fractions, and a
fraction is less than 1 (`pos_of_lt_sum`). So no weight of 0 gets anything, and a larger
weight does not get less.

In the loop the weights are the remaining counts, and at least their sum is asked for: no
share is smaller than its weight, and neither is the request.

* `Apportions` — what an apportionment is, `allocateTargets_apportions`.
* `targets_apportioned` — the result, with the requests of every step of a run.
-/

namespace DbPlanBench.QueryGen

/-- What a share has beyond its integral part. -/
def fraction (total : Nat) (weights : Distribution) (v : ℚ) : ℚ :=
  share total weights v - ⌊share total weights v⌋₊

/-- The keys that get a unit more than the integral part of their share. -/
def extras (total : Nat) (weights : Distribution) : List Int :=
  (fracKeys total weights).take (total - Counter.total (floorsOf total weights))

/-- **A largest-remainder apportionment**: the counts are for the same keys and add up to the total;
each is the integral part of its share or one more, and the ones more are for positive fractions and
for the largest. -/
structure Apportions (total : Nat) (weights : Distribution) (counts : List (Int × Nat)) : Prop where
  keys : OrdDict.keys counts = OrdDict.keys weights
  sum : Counter.total counts = total
  floors : ∀ p ∈ weights, Counter.count counts p.1 = ⌊share total weights p.2⌋₊ ∨
    (Counter.count counts p.1 = ⌊share total weights p.2⌋₊ + 1 ∧ 0 < fraction total weights p.2)
  largest : ∀ p ∈ weights, ∀ q ∈ weights,
    Counter.count counts p.1 = ⌊share total weights p.2⌋₊ + 1 →
      Counter.count counts q.1 = ⌊share total weights q.2⌋₊ →
        fraction total weights q.2 ≤ fraction total weights p.2
  zero : ∀ p ∈ weights, p.2 = 0 → Counter.count counts p.1 = 0
  mono : ∀ p ∈ weights, ∀ q ∈ weights, p.2 < q.2 →
    Counter.count counts p.1 ≤ Counter.count counts q.1

section

/-! ## Fewer units than fractions -/

/-- **In a decreasing list of numbers up to 1, the places before the sum have positive numbers.** -/
theorem pos_of_lt_sum {xs : List ℚ} (hsorted : xs.Pairwise fun a b => b ≤ a) (hle : ∀ x ∈ xs, x ≤ 1)
    {i n : Nat} (hsum : xs.sum = n) (hi : i < n) : ∃ h : i < xs.length, 0 < xs[i] := by
  have hfirst : (xs.take i).sum ≤ i := by
    have hcard := List.sum_le_card_nsmul (xs.take i) 1 fun x hx => hle x (List.mem_of_mem_take hx)
    have hlen : (((xs.take i).length : Nat) : ℚ) ≤ i := by exact_mod_cast List.length_take_le i xs
    rw [nsmul_eq_mul, mul_one] at hcard
    exact hcard.trans hlen
  have hrest : 0 < (xs.drop i).sum := by
    have hsplit := List.sum_take_add_sum_drop xs i
    have hlt : (i : ℚ) < n := by exact_mod_cast hi
    linarith
  have hlen : i < xs.length := by
    by_contra hge
    rw [List.drop_eq_nil_of_le (Nat.le_of_not_lt hge)] at hrest
    exact lt_irrefl 0 hrest
  refine ⟨hlen, ?_⟩
  -- the rest is not positive when its first number is not
  by_contra hneg
  have hdrop := List.drop_eq_getElem_cons hlen
  have htail := hsorted.drop (i := i)
  rw [hdrop, List.pairwise_cons] at htail
  have hsum0 := List.sum_le_card_nsmul (xs.drop i) 0 fun x hx => by
    rw [hdrop, List.mem_cons] at hx
    rcases hx with rfl | hx
    · exact le_of_not_gt hneg
    · exact (htail.1 x hx).trans (le_of_not_gt hneg)
  rw [nsmul_eq_mul, mul_zero] at hsum0
  exact absurd hrest (not_lt_of_ge hsum0)

variable {total : Nat} {weights : Distribution}

theorem fraction_lt_one (v : ℚ) : fraction total weights v < 1 := by
  have h := Nat.lt_floor_add_one (share total weights v)
  rw [fraction]
  linarith

/-- The fractions add up to the units that are left. -/
theorem sum_fractions (hnonneg : ∀ p ∈ weights, 0 ≤ p.2) (hpos : 0 < weightSum weights) :
    (weights.map fun p => fraction total weights p.2).sum =
      (total - Counter.total (floorsOf total weights) : Nat) := by
  have hfloors : ∀ ws : Distribution,
      (ws.map fun p => fraction total weights p.2).sum + (Counter.total
        (ws.map fun p => (p.1, ⌊share total weights p.2⌋₊)) : ℚ) =
      (ws.map fun p => share total weights p.2).sum := by
    intro ws
    induction ws with
    | nil => simp [Counter.total]
    | cons p ws ih =>
      simp only [List.map_cons, List.sum_cons, Counter.total, Nat.cast_add]
      rw [← ih, fraction]
      ring
  have hsum := hfloors weights
  rw [sum_shares hpos] at hsum
  rw [Nat.cast_sub (total_floorsOf_le total hnonneg hpos), floorsOf]
  linarith

/-! ## The keys that get a unit more -/

/-- The keys with their fractions, the largest first. -/
theorem exists_sorted (total : Nat) (weights : Distribution) :
    ∃ sorted : List (Int × ℚ), fracKeys total weights = sorted.map (·.1) ∧
      sorted.Perm (weights.map fun p => (p.1, fraction total weights p.2)) ∧
      sorted.Pairwise fun a b => b.2 ≤ a.2 := by
  refine ⟨_, rfl, List.perm_insertionSort _ _, ?_⟩
  have htotal : Std.Total fun a b : Int × ℚ => b.2 ≤ a.2 := ⟨fun a b => le_total _ _⟩
  have htrans : IsTrans (Int × ℚ) fun a b => b.2 ≤ a.2 := ⟨fun a b c hab hbc => hbc.trans hab⟩
  exact List.pairwise_insertionSort _ _

theorem nodup_fracKeys (hnd : (OrdDict.keys weights).Nodup) : (fracKeys total weights).Nodup :=
  (fracKeys_perm total weights).nodup_iff.mpr hnd

/-- A fraction is that of its key. -/
theorem eq_of_mem_sorted (hnd : (OrdDict.keys weights).Nodup) {sorted : List (Int × ℚ)}
    (hperm : sorted.Perm (weights.map fun p => (p.1, fraction total weights p.2))) {p : Int × ℚ}
    (hp : p ∈ weights) {x : Int × ℚ} (hx : x ∈ sorted) (hkey : x.1 = p.1) :
    x.2 = fraction total weights p.2 := by
  obtain ⟨q, hq, rfl⟩ := List.mem_map.mp (hperm.mem_iff.mp hx)
  have hqp : q = p := List.inj_on_of_nodup_map hnd hq hp hkey
  rw [hqp]

/-- The fractions with a unit more are positive. -/
theorem fraction_pos_of_mem_extras (hnd : (OrdDict.keys weights).Nodup)
    (hnonneg : ∀ p ∈ weights, 0 ≤ p.2) (hpos : 0 < weightSum weights) {p : Int × ℚ}
    (hp : p ∈ weights) (hextra : p.1 ∈ extras total weights) : 0 < fraction total weights p.2 := by
  obtain ⟨sorted, hkeys, hperm, hsorted⟩ := exists_sorted total weights
  rw [extras, hkeys, ← List.map_take] at hextra
  obtain ⟨x, hx, hkey⟩ := List.mem_map.mp hextra
  obtain ⟨i, hi, rfl⟩ := List.mem_take_iff_getElem.mp hx
  have hsum := (hperm.map Prod.snd).sum_eq
  rw [List.map_map] at hsum
  have hle : ∀ f ∈ sorted.map Prod.snd, f ≤ 1 := by
    intro f hf
    obtain ⟨y, hy, rfl⟩ := List.mem_map.mp hf
    obtain ⟨q, _, rfl⟩ := List.mem_map.mp (hperm.mem_iff.mp hy)
    exact le_of_lt (fraction_lt_one q.2)
  have hdesc : (sorted.map Prod.snd).Pairwise fun a b => b ≤ a := List.pairwise_map.mpr hsorted
  obtain ⟨_, hfrac⟩ := pos_of_lt_sum hdesc hle (hsum.trans (sum_fractions hnonneg hpos))
    (lt_of_lt_of_le hi (Nat.min_le_left _ _))
  rw [List.getElem_map] at hfrac
  rwa [eq_of_mem_sorted hnd hperm hp (List.getElem_mem _) hkey] at hfrac

/-- They are the largest. -/
theorem fraction_le_of_extras (hnd : (OrdDict.keys weights).Nodup) {p q : Int × ℚ}
    (hp : p ∈ weights) (hq : q ∈ weights) (hextra : p.1 ∈ extras total weights)
    (hno : q.1 ∉ extras total weights) :
    fraction total weights q.2 ≤ fraction total weights p.2 := by
  obtain ⟨sorted, hkeys, hperm, hsorted⟩ := exists_sorted total weights
  have hqmem : q.1 ∈ fracKeys total weights :=
    (fracKeys_perm total weights).mem_iff.mpr (List.mem_map_of_mem hq)
  rw [extras, hkeys, ← List.map_take] at hextra hno
  obtain ⟨x, hx, hxkey⟩ := List.mem_map.mp hextra
  rw [hkeys] at hqmem
  obtain ⟨y, hy, hykey⟩ := List.mem_map.mp hqmem
  rw [← List.take_append_drop (total - Counter.total (floorsOf total weights)) sorted] at hy hsorted
  have hy := (List.mem_append.mp hy).resolve_left fun h => hno (List.mem_map.mpr ⟨y, h, hykey⟩)
  have hle := (List.pairwise_append.mp hsorted).2.2 x hx y hy
  rwa [eq_of_mem_sorted hnd hperm hp (List.mem_of_mem_take hx) hxkey,
    eq_of_mem_sorted hnd hperm hq (List.mem_of_mem_drop hy) hykey] at hle

theorem units_le_length (hnonneg : ∀ p ∈ weights, 0 ≤ p.2) (hpos : 0 < weightSum weights) :
    total - Counter.total (floorsOf total weights) ≤ (fracKeys total weights).length := by
  have hcard := List.sum_le_card_nsmul (weights.map fun p => fraction total weights p.2) 1 (by
    intro f hf
    obtain ⟨p, _, rfl⟩ := List.mem_map.mp hf
    exact le_of_lt (fraction_lt_one p.2))
  rw [sum_fractions hnonneg hpos, nsmul_eq_mul, mul_one, List.length_map] at hcard
  rw [(fracKeys_perm total weights).length_eq, OrdDict.keys, List.length_map]
  exact_mod_cast hcard

end

/-! ## The allocation -/

section

variable {dist : Distribution} {total : Int}

theorem weightsOf_eq (hnd : (OrdDict.keys dist).Nodup) : weightsOf dist = dist := by
  have hfresh := OrdDict.foldl_set_fresh Prod.fst Prod.snd dist []
  rw [weightsOf, hfresh hnd fun p _ => List.not_mem_nil]
  exact List.map_id _

/-- The counts, for weights that can be split. -/
theorem allocateTargets_eq (hnd : (OrdDict.keys dist).Nodup) (hnonneg : ∀ p ∈ dist, 0 ≤ p.2)
    (hpos : 0 < weightSum dist) (htotal : 1 ≤ total) :
    allocateTargets dist total = .ok (Counter.handOut (fracKeys total.toNat dist)
      (total.toNat - Counter.total (floorsOf total.toNat dist)) (floorsOf total.toNat dist)) := by
  have hany : ¬ dist.any (fun p => p.2 < 0) = true := by
    intro h
    obtain ⟨p, hp, hneg⟩ := List.any_eq_true.mp h
    exact absurd (of_decide_eq_true hneg) (not_lt_of_ge (hnonneg p hp))
  rw [allocateTargets, weightsOf_eq hnd]
  dsimp only
  rw [if_neg (by omega), if_neg hany, if_neg (not_le_of_gt hpos)]

theorem count_floorsOf {total : Nat} {weights : Distribution} (hnd : (OrdDict.keys weights).Nodup)
    {p : Int × ℚ} (hp : p ∈ weights) :
    Counter.count (floorsOf total weights) p.1 = ⌊share total weights p.2⌋₊ := by
  have hmem : (p.1, ⌊share total weights p.2⌋₊) ∈ floorsOf total weights :=
    List.mem_map.mpr ⟨p, hp, rfl⟩
  rw [Counter.count, OrdDict.get?_of_mem (keys_floorsOf total weights ▸ hnd) hmem]
  rfl

/-- The count of a key is the integral part of its share, and a unit more for the extra ones. -/
theorem count_handOut_floors (total : Nat) {weights : Distribution}
    (hnd : (OrdDict.keys weights).Nodup) (hnonneg : ∀ p ∈ weights, 0 ≤ p.2)
    (hpos : 0 < weightSum weights) {p : Int × ℚ} (hp : p ∈ weights) :
    Counter.count (Counter.handOut (fracKeys total weights)
        (total - Counter.total (floorsOf total weights)) (floorsOf total weights)) p.1 =
      ⌊share total weights p.2⌋₊ + if p.1 ∈ extras total weights then 1 else 0 := by
  rw [Counter.count_handOut (nodup_fracKeys hnd) _ _ _ (units_le_length hnonneg hpos),
    count_floorsOf hnd hp]
  rfl

/-- **The targets are a largest-remainder apportionment.** -/
theorem allocateTargets_apportions (hnd : (OrdDict.keys dist).Nodup) (hnonneg : ∀ p ∈ dist, 0 ≤ p.2)
    (hpos : 0 < weightSum dist) (htotal : 1 ≤ total) :
    ∃ counts, allocateTargets dist total = .ok counts ∧ Apportions total.toNat dist counts := by
  have heq := allocateTargets_eq hnd hnonneg hpos htotal
  obtain ⟨_, hkeys, hsum⟩ := allocateTargets_total heq
  rw [weightsOf_eq hnd] at hkeys
  have hcount := fun {p : Int × ℚ} (hp : p ∈ dist) =>
    count_handOut_floors total.toNat hnd hnonneg hpos hp
  -- which keys are the extra ones can be read off the counts
  have hextra : ∀ p ∈ dist, Counter.count (Counter.handOut (fracKeys total.toNat dist)
      (total.toNat - Counter.total (floorsOf total.toNat dist)) (floorsOf total.toNat dist)) p.1 =
        ⌊share total.toNat dist p.2⌋₊ + 1 → p.1 ∈ extras total.toNat dist := by
    intro p hp h
    by_contra hno
    rw [hcount hp, if_neg hno] at h
    omega
  have hlargest : ∀ p ∈ dist, ∀ q ∈ dist, p.1 ∈ extras total.toNat dist →
      q.1 ∉ extras total.toNat dist →
        fraction total.toNat dist q.2 ≤ fraction total.toNat dist p.2 :=
    fun p hp q hq => fraction_le_of_extras hnd hp hq
  refine ⟨_, heq, hkeys, hsum, fun p hp => ?_, fun p hp q hq hmore hless => ?_, fun p hp hzero => ?_,
    fun p hp q hq hlt => ?_⟩
  · rw [hcount hp]
    by_cases h : p.1 ∈ extras total.toNat dist
    · exact Or.inr ⟨by rw [if_pos h], fraction_pos_of_mem_extras hnd hnonneg hpos hp h⟩
    · exact Or.inl (by rw [if_neg h, Nat.add_zero])
  · refine hlargest p hp q hq (hextra p hp hmore) fun h => ?_
    rw [hcount hq, if_pos h] at hless
    omega
  · have hshare : share total.toNat dist p.2 = 0 := by rw [share, hzero, zero_div, mul_zero]
    have hno : p.1 ∉ extras total.toNat dist := by
      intro h
      have hfrac := fraction_pos_of_mem_extras hnd hnonneg hpos hp h
      rw [fraction, hshare, Nat.floor_zero, Nat.cast_zero, sub_zero] at hfrac
      exact lt_irrefl 0 hfrac
    rw [hcount hp, hshare, if_neg hno, Nat.floor_zero]
  · have hshare : share total.toNat dist p.2 < share total.toNat dist q.2 := by
      have hn : (0 : ℚ) < total.toNat := by exact_mod_cast (by omega : 0 < total.toNat)
      rw [share, share]
      exact mul_lt_mul_of_pos_left (div_lt_div_of_pos_right hlt hpos) hn
    rcases lt_or_eq_of_le (Nat.floor_mono (le_of_lt hshare)) with hfloor | hfloor
    · rw [hcount hp, hcount hq]
      split <;> omega
    · -- with the same integral part, the larger share has the larger fraction
      have hfrac : fraction total.toNat dist p.2 < fraction total.toNat dist q.2 := by
        rw [fraction, fraction, hfloor]
        exact sub_lt_sub_right hshare _
      rw [hcount hp, hcount hq, hfloor]
      by_cases hq' : q.1 ∈ extras total.toNat dist
      · rw [if_pos hq']
        split <;> omega
      · rw [if_neg fun hp' => absurd (hlargest p hp q hq hp' hq') (not_le_of_gt hfrac), if_neg hq']

end

/-! ## The requests of a run -/

section

variable {call : Call} {s : Session}

theorem weightSum_counts : ∀ d : List (Int × Nat),
    weightSum (d.map fun p => (p.1, (p.2 : ℚ))) = Counter.total d
  | [] => rfl
  | p :: d => by
    have ih := weightSum_counts d
    rw [weightSum] at ih
    rw [weightSum, List.map_cons, List.map_cons, List.sum_cons, ih, Counter.total, Nat.cast_add]

/-- With a cap of at least 1, at least what remains is asked for. -/
theorem le_needN (hcap : 1 ≤ call.config.oversampleCap) (step remainingTotal : Nat) :
    remainingTotal ≤ needN call step remainingTotal := by
  have hpow : (1 : ℚ) ≤ (3 / 2 : ℚ) ^ (step - 1) := one_le_pow₀ (by norm_num)
  have hmul : (remainingTotal : ℚ) ≤
      remainingTotal * min call.config.oversampleCap ((3 / 2 : ℚ) ^ (step - 1)) :=
    le_mul_of_one_le_right (Nat.cast_nonneg _) (le_min hcap hpow)
  exact (Nat.le_floor hmul).trans (Nat.le_max_right ..)

/-- **A request is not smaller than what remains**, and there is none where nothing remains. -/
theorem requestCounts_spec (hnd : (OrdDict.keys s.remaining).Nodup)
    (hremain : Counter.total s.remaining ≠ 0) (hcap : 1 ≤ call.config.oversampleCap) :
    ∃ requests, requestCounts call s = .ok requests ∧
      OrdDict.keys requests = OrdDict.keys s.remaining ∧
      ∀ c, Counter.count s.remaining c ≤ Counter.count requests c ∧
        (Counter.count s.remaining c = 0 → Counter.count requests c = 0) := by
  have hkeys : OrdDict.keys (s.remaining.map fun p => (p.1, (p.2 : ℚ))) =
      OrdDict.keys s.remaining := by
    rw [OrdDict.keys, List.map_map]
    rfl
  have hpos : 0 < weightSum (s.remaining.map fun p => (p.1, (p.2 : ℚ))) := by
    rw [weightSum_counts]
    exact_mod_cast Nat.pos_of_ne_zero hremain
  have hnonneg : ∀ p ∈ s.remaining.map fun p => (p.1, (p.2 : ℚ)), 0 ≤ p.2 := by
    intro p hp
    obtain ⟨q, _, rfl⟩ := List.mem_map.mp hp
    exact Nat.cast_nonneg _
  have hneed := le_needN hcap s.step (Counter.total s.remaining)
  have hone : (1 : Int) ≤ needN call s.step (Counter.total s.remaining) := by omega
  obtain ⟨requests, hrequests, happ⟩ := allocateTargets_apportions (hkeys ▸ hnd) hnonneg hpos hone
  refine ⟨requests, hrequests, happ.keys.trans hkeys, fun c => ?_⟩
  by_cases hc : c ∈ OrdDict.keys s.remaining
  · obtain ⟨n, hn⟩ := OrdDict.get?_isSome.mpr hc
    have hmem : (c, (n : ℚ)) ∈ s.remaining.map fun p => (p.1, (p.2 : ℚ)) :=
      List.mem_map.mpr ⟨(c, n), OrdDict.mem_of_get? hn, rfl⟩
    have hcount : Counter.count s.remaining c = n := by rw [Counter.count, hn]; rfl
    rw [hcount]
    refine ⟨?_, fun hzero => happ.zero _ hmem (by rw [hzero]; rfl)⟩
    -- the share of a count is not smaller than the count
    have hshare : (n : ℚ) ≤ share (needN call s.step (Counter.total s.remaining))
        (s.remaining.map fun p => (p.1, (p.2 : ℚ))) n := by
      have hle : (Counter.total s.remaining : ℚ) ≤ needN call s.step (Counter.total s.remaining) := by
        exact_mod_cast hneed
      rw [← weightSum_counts] at hle
      rw [share, mul_div_assoc', le_div_iff₀ hpos, mul_comm]
      exact mul_le_mul_of_nonneg_right hle (Nat.cast_nonneg n)
    have hfloor := Nat.le_floor hshare
    rcases happ.floors _ hmem with h | ⟨h, -⟩ <;> rw [h] <;> simp only [Int.toNat_natCast] <;> omega
  · have hc' : c ∉ OrdDict.keys requests := by rwa [happ.keys, hkeys]
    rw [Counter.count_of_not_mem hc, Counter.count_of_not_mem hc']
    exact ⟨le_refl _, fun h => h⟩

/-- The variables of a step that starts. -/
theorem start_remaining {config : Config} {dir : RunDir} (h : Reachable config dir)
    (hcall : normalizeConfig call.config = normalizeConfig config) {k : Nat}
    (hstart : (Event.start k, s) ∈ (runQueryGeneration call dir).writes) :
    (OrdDict.keys s.remaining).Nodup ∧ Counter.total s.remaining ≠ 0 := by
  have hrun := runQueryGeneration_holds (h.filesOk.of_normalizeConfig hcall.symm)
  obtain ⟨hs, _⟩ := (hrun.writes _ hstart).start k rfl
  obtain ⟨s0, _, hsteps⟩ := started_of_mem (Or.inl rfl) hstart
  exact ⟨hs.keys ▸ hs.nodup_keys, steps_start _ hsteps⟩

end

/-- **Targets are apportioned by largest remainders**, for every map of weights; and when a step of
a run starts, each request is at least what remains, and nothing where nothing remains. -/
theorem targets_apportioned :
    (∀ (dist : Distribution) (total : Int), (OrdDict.keys dist).Nodup → (∀ p ∈ dist, 0 ≤ p.2) →
      0 < weightSum dist → 1 ≤ total →
        ∃ counts, allocateTargets dist total = .ok counts ∧ Apportions total.toNat dist counts) ∧
    ∀ (config : Config) (dir : RunDir) (call : Call), Reachable config dir →
      normalizeConfig call.config = normalizeConfig config → 1 ≤ call.config.oversampleCap →
        ∀ k s, (Event.start k, s) ∈ (runQueryGeneration call dir).writes →
          ∃ requests, requestCounts call s = .ok requests ∧
            OrdDict.keys requests = OrdDict.keys s.remaining ∧
            ∀ c, Counter.count s.remaining c ≤ Counter.count requests c ∧
              (Counter.count s.remaining c = 0 → Counter.count requests c = 0) := by
  refine ⟨fun dist total => allocateTargets_apportions, ?_⟩
  intro config dir call hdir hcall hcap k s hstart
  obtain ⟨hnd, hremain⟩ := start_remaining hdir hcall hstart
  exact requestCounts_spec hnd hremain hcap

/-- Seven queries over weights 1, 2 and 0, and the step that starts when the run for two queries
resumes with one. -/
theorem sevenQueries_apportioned :
    (∃ counts, allocateTargets [(1, 1), (2, 2), (3, 0)] 7 = .ok counts ∧
      Apportions 7 [(1, 1), (2, 2), (3, 0)] counts) ∧
    ∃ k s, (Event.start k, s) ∈ (runQueryGeneration twoQueries afterFirstStep.dir).writes ∧
      ∃ requests, requestCounts twoQueries s = .ok requests ∧
        OrdDict.keys requests = OrdDict.keys s.remaining ∧
        ∀ c, Counter.count s.remaining c ≤ Counter.count requests c ∧
          (Counter.count s.remaining c = 0 → Counter.count requests c = 0) := by
  obtain ⟨hallocate, hrun⟩ := targets_apportioned
  refine ⟨hallocate _ 7 (by decide) (by decide +kernel) (by decide +kernel) (by decide), ?_⟩
  have hstop : (Event.final 1, afterFirstStep) ∈ (runQueryGeneration twoQueries emptyDir).writes :=
    List.mem_of_getElem? (i := 3) (by decide +kernel)
  have hreachable : Reachable twoQueries.config afterFirstStep.dir := .stopped .empty rfl hstop
  have hstarts : ∃ x ∈ (runQueryGeneration twoQueries afterFirstStep.dir).writes, x.1 = Event.start 2 := by
    decide +kernel
  obtain ⟨⟨e, s⟩, hmem, rfl⟩ := hstarts
  exact ⟨2, s, hmem, hrun _ _ twoQueries hreachable rfl (by decide +kernel) 2 s hmem⟩

end DbPlanBench.QueryGen
