import Mathlib.Algebra.BigOperators.Ring.Finset
import DbPlanBench.QueryGen.Collected

/-!
# The books of a run

Every outcome file says how many queries its step generated and how many of them are
valid, in total and by complexity, and the file of accepted queries says how many have
been generated in all steps and how many are kept. These numbers are counts of what is in
the files, and the ones by complexity add up to the ones in total, in every directory
that interrupted and resumed runs lead to (`books_of_reachable`). When the accepted
queries are written, the generated queries they are said to come from are those of the
outcome files that are there (`totals_of_reachable`).

* `Balanced`, `BalancedFinal` — the two kinds of files.
* `Books` — the directory, `Kept` — the variables of a run.
-/

namespace DbPlanBench.QueryGen

/-- The complexities of the queries that a step generated. -/
def Outcome.complexities (o : Outcome) : List Int := o.metadata.map (·.complexity)

/-- The complexities of those that are valid. -/
def Outcome.validComplexities (o : Outcome) : List Int :=
  (o.metadata.filter (·.isValid)).map (·.complexity)

/-- The numbers of an outcome file are counts of its entries. -/
structure Balanced (o : Outcome) : Prop where
  queries : o.generatedQueries.length = o.metadata.length
  nodup : (OrdDict.keys o.byComplexity).Nodup
  covered : ∀ c ∈ o.complexities, c ∈ OrdDict.keys o.byComplexity
  generated : o.overall.nGenerated = o.complexities.length
  valid : o.overall.nValid = o.validComplexities.length
  invalid : o.overall.nValid + o.overall.nInvalid = o.overall.nGenerated
  each : ∀ c counts, OrdDict.get? o.byComplexity c = some counts →
    counts.nGenerated = o.complexities.count c ∧ counts.nValid = o.validComplexities.count c ∧
      counts.nValid + counts.nInvalid = counts.nGenerated
  sumRequested : (o.byComplexity.map (·.2.nRequested)).sum = o.overall.nRequested
  sumGenerated : (o.byComplexity.map (·.2.nGenerated)).sum = o.overall.nGenerated
  sumValid : (o.byComplexity.map (·.2.nValid)).sum = o.overall.nValid

/-- The numbers of a file of accepted queries are counts of its queries. -/
structure BalancedFinal (f : FinalQueries) : Prop where
  aligned : f.queries.length = f.metadata.length
  nodup : (OrdDict.keys f.byComplexity).Nodup
  covered : ∀ c ∈ f.metadata, c ∈ OrdDict.keys f.byComplexity
  final : f.overall.nFinal = f.queries.length
  each : ∀ c counts, OrdDict.get? f.byComplexity c = some counts →
    counts.nFinal = f.metadata.count c ∧ (counts.nFinal : Int) ≤ counts.nRequested
  sumRequested : (f.byComplexity.map (·.2.nRequested)).sum = f.overall.nRequested
  sumGenerated : (f.byComplexity.map (·.2.nGenerated)).sum = f.overall.nGenerated
  sumFinal : (f.byComplexity.map (·.2.nFinal)).sum = f.overall.nFinal

/-- The complexities of the queries in the outcome files. -/
def generatedIn (outcomes : List (Nat × Outcome)) : List Int :=
  outcomes.flatMap fun o => o.2.complexities

/-- The generated queries in a file of accepted queries are those of the outcome files. -/
structure Totals (f : FinalQueries) (outcomes : List (Nat × Outcome)) : Prop where
  total : f.overall.nGenerated = (generatedIn outcomes).length
  each : ∀ c counts, OrdDict.get? f.byComplexity c = some counts →
    counts.nGenerated = (generatedIn outcomes).count c

/-- **The files of a directory.** -/
structure Books (config : Config) (dir : RunDir) : Prop where
  steps : (OrdDict.keys dir.outcomes).Nodup
  outcomes : ∀ p ∈ dir.outcomes, Balanced p.2 ∧
    ∀ c ∈ OrdDict.keys p.2.byComplexity, c ∈ OrdDict.keys (weightsOf config.distribution)
  final : ∀ f, dir.final = some f → BalancedFinal f

/-- **The variables of a run**, with outcomes of steps before `next`. -/
structure Kept (call : Call) (next : Nat) (s : Session) : Prop where
  books : Books call.config s.dir
  earlier : ∀ k ∈ OrdDict.keys s.dir.outcomes, k < next
  total : s.totalGenerated = (generatedIn s.dir.outcomes).length
  keys : OrdDict.keys s.totalGeneratedByC = OrdDict.keys s.target
  each : ∀ c, Counter.count s.totalGeneratedByC c = (generatedIn s.dir.outcomes).count c

/-- What is there when something is written. -/
structure Booked (call : Call) (e : Event) (s : Session) : Prop where
  books : Books call.config s.dir
  final : ∀ k, e = .final k → ∃ f, s.dir.final = some f ∧ Totals f s.dir.outcomes

section

variable {call : Call} {s : Session}

/-! ## The outcome of a step -/

/-- A query is generated for a complexity that was requested. -/
theorem complexity_of_generated {step : Nat} {requests : List (Int × Nat)}
    {generated : List Generated} (h : generateQueries call step requests = .ok generated) :
    ∀ g ∈ generated, g.complexity ∈ OrdDict.keys requests := by
  intro g hg
  unfold generateQueries at h
  split at h
  · cases h
  · obtain ⟨_, _, h⟩ := Except.bind_eq_ok.mp h
    obtain ⟨_, _, h⟩ := Except.bind_eq_ok.mp h
    injection h with h
    subst h
    obtain ⟨task, htask, hkept⟩ := List.mem_filterMap.mp hg
    obtain ⟨query, _, rfl⟩ := Option.map_eq_some_iff.mp hkept
    have hmem := List.mem_of_getElem? (List.mem_zipIdx_iff_getElem?.mp htask)
    obtain ⟨c, hc, hrep⟩ := List.mem_flatMap.mp hmem
    rw [List.eq_of_mem_replicate hrep]
    exact (List.perm_insertionSort _ _).mem_iff.mp hc

/-- The requests of a step are for complexities of the target. -/
theorem keys_of_requests (hnodup : (OrdDict.keys s.remaining).Nodup) {requests : List (Int × Nat)}
    (h : requestCounts call s = .ok requests) :
    OrdDict.keys requests = OrdDict.keys s.remaining := by
  obtain ⟨-, hkeys, -⟩ := allocateTargets_total h
  have hsame : OrdDict.keys (s.remaining.map fun p => (p.1, (p.2 : ℚ))) = OrdDict.keys s.remaining := by
    rw [OrdDict.keys, List.map_map]
    rfl
  have hfresh := OrdDict.foldl_set_fresh Prod.fst Prod.snd
    (s.remaining.map fun p => (p.1, (p.2 : ℚ))) [] (by rw [← hsame] at hnodup; exact hnodup)
    fun _ _ h => by cases h
  rw [hkeys, weightsOf, hfresh, List.nil_append, ← hsame, OrdDict.keys, List.map_map]
  rfl

section

variable {generated : List Generated} {v : Validation}

theorem complexities_outcomeOf :
    (outcomeOf s generated v).complexities = generated.map (·.complexity) := by
  rw [Outcome.complexities, outcomeOf, List.map_map]
  rfl

theorem validComplexities_outcomeOf :
    (outcomeOf s generated v).validComplexities = (validEntries v generated).map (·.complexity) := by
  rw [Outcome.validComplexities, outcomeOf, List.filter_map, List.map_map]
  rfl

theorem keys_outcomeOf :
    OrdDict.keys (outcomeOf s generated v).byComplexity = OrdDict.keys s.remaining := by
  rw [outcomeOf, OrdDict.keys, List.map_map]
  exact List.map_id _

theorem validEntries_sublist : (validEntries v generated).Sublist generated := List.filter_sublist

theorem countP_complexity (l : List Generated) (c : Int) :
    l.countP (·.complexity = c) = (l.map (·.complexity)).count c := by
  rw [List.count_eq_countP, List.countP_map]
  refine List.countP_congr fun g _ => ?_
  simp

/-- Numbers by complexity that are counts of a list add up to its length. -/
theorem sum_by_complexity {keys l : List Int} (hnodup : keys.Nodup) (hl : ∀ c ∈ l, c ∈ keys) :
    (keys.map fun c => l.count c).sum = l.length := by
  have hkeys : OrdDict.keys (keys.map fun c => (c, l.count c)) = keys := by
    rw [OrdDict.keys, List.map_map]
    exact List.map_id _
  have htotal := Counter.total_eq_length (l := l) (d := keys.map fun c => (c, l.count c))
    (by rw [hkeys]; exact hnodup) fun c => ?_
  · rw [Counter.total_eq_sum_map, List.map_map] at htotal
    exact htotal
  · by_cases hc : c ∈ keys
    · have hget := OrdDict.get?_of_mem (by rw [hkeys]; exact hnodup)
        (List.mem_map.mpr ⟨c, hc, rfl⟩ : (c, l.count c) ∈ keys.map fun c => (c, l.count c))
      rw [Counter.count, hget]
      rfl
    · rw [Counter.count_of_not_mem (by rw [hkeys]; exact hc),
        List.count_eq_zero_of_not_mem fun h => hc (hl c h)]

/-- **The outcome of a step is balanced.** -/
theorem balanced_outcomeOf (hnodup : (OrdDict.keys s.remaining).Nodup)
    (hgenerated : ∀ g ∈ generated, g.complexity ∈ OrdDict.keys s.remaining) :
    Balanced (outcomeOf s generated v) := by
  have hsub : (validEntries v generated).Sublist generated := validEntries_sublist
  have hle := hsub.length_le
  have hcovered : ∀ c ∈ generated.map (·.complexity), c ∈ OrdDict.keys s.remaining := by
    intro c hc
    obtain ⟨g, hg, rfl⟩ := List.mem_map.mp hc
    exact hgenerated g hg
  have hvalid : ∀ c ∈ (validEntries v generated).map (·.complexity), c ∈ OrdDict.keys s.remaining :=
    fun c hc => hcovered c ((validEntries_sublist.map _).subset hc)
  refine ⟨?_, ?_, ?_, ?_, ?_, ?_, fun c counts hc => ?_, ?_, ?_, ?_⟩
  · rw [outcomeOf, List.length_map, List.length_map]
  · rw [keys_outcomeOf]
    exact hnodup
  · rw [complexities_outcomeOf, keys_outcomeOf]
    exact hcovered
  · rw [complexities_outcomeOf, List.length_map]
    rfl
  · rw [validComplexities_outcomeOf, List.length_map]
    rfl
  · exact Nat.add_sub_of_le hle
  · obtain ⟨c', hc', heq⟩ := List.mem_map.mp (OrdDict.mem_of_get? hc)
    obtain ⟨rfl, rfl⟩ := Prod.mk.inj heq
    rw [complexities_outcomeOf, validComplexities_outcomeOf]
    exact ⟨countP_complexity .., countP_complexity ..,
      Nat.add_sub_of_le (validEntries_sublist.countP_le ..)⟩
  · rw [outcomeOf, List.map_map]
    show ((OrdDict.keys s.remaining).map (Counter.count s.remaining)).sum =
      Counter.total s.remaining
    rw [Counter.map_count_keys hnodup, Counter.total_eq_sum_map]
  · have hsum := sum_by_complexity hnodup hcovered
    rw [List.length_map] at hsum
    rw [outcomeOf, List.map_map]
    simpa only [Function.comp_def, countsFor, countP_complexity] using hsum
  · have hsum := sum_by_complexity hnodup hvalid
    rw [List.length_map] at hsum
    rw [outcomeOf, List.map_map]
    simpa only [Function.comp_def, countsFor, countP_complexity] using hsum

end

/-! ## Totals -/

theorem keys_map_generated (o : Outcome) :
    OrdDict.keys (o.byComplexity.map fun p => (p.1, p.2.nGenerated)) = OrdDict.keys o.byComplexity := by
  rw [OrdDict.keys, List.map_map]
  rfl

theorem Balanced.count_generated {o : Outcome} (h : Balanced o) (c : Int) :
    Counter.count (o.byComplexity.map fun p => (p.1, p.2.nGenerated)) c = o.complexities.count c := by
  rw [Counter.count, OrdDict.get?_map_snd (fun counts : StepCounts => counts.nGenerated)]
  cases hget : OrdDict.get? o.byComplexity c with
  | some counts => exact (h.each c counts hget).1
  | none =>
    have hnot : c ∉ o.complexities := fun hmem => OrdDict.get?_eq_none.mp hget (h.covered c hmem)
    exact (List.count_eq_zero_of_not_mem hnot).symm

/-- The numbers of an outcome file are added to the totals. -/
theorem Balanced.addTotals {o : Outcome} (h : Balanced o) {totals : List (Int × Nat)}
    (hkeys : ∀ c ∈ OrdDict.keys o.byComplexity, c ∈ OrdDict.keys totals) :
    OrdDict.keys (o.byComplexity.foldl (fun totals p => Counter.add totals p.1 p.2.nGenerated)
      totals) = OrdDict.keys totals ∧
    ∀ c, Counter.count (o.byComplexity.foldl
        (fun totals p => Counter.add totals p.1 p.2.nGenerated) totals) c =
      Counter.count totals c + o.complexities.count c := by
  have hall : o.byComplexity.foldl (fun totals p => Counter.add totals p.1 p.2.nGenerated) totals =
      Counter.addAll totals (o.byComplexity.map fun p => (p.1, p.2.nGenerated)) := by
    rw [Counter.addAll, List.foldl_map]
  rw [hall]
  refine ⟨Counter.keys_addAll ?_, fun c => ?_⟩
  · rw [keys_map_generated]
    exact hkeys
  · rw [Counter.count_addAll _ _ _ (by rw [keys_map_generated]; exact h.nodup), h.count_generated]

/-! ## The accepted queries -/

section

variable {t : Session} {p : Progress} {outcomes : List (Nat × Outcome)}

/-- The entries of a file of accepted queries, as counts. -/
theorem byComplexity_finalQueries (hstored : Stored t.target p.remaining p.queries p.metadata)
    (heach : ∀ c, Counter.count t.totalGeneratedByC c = (generatedIn outcomes).count c) :
    (finalQueries call t p).byComplexity =
      ((OrdDict.keys t.target).insertionSort (· ≤ ·)).map fun c =>
        (c, ⟨Counter.count t.target c, (generatedIn outcomes).count c, p.metadata.count c⟩) := by
  refine List.map_congr_left fun c _ => ?_
  rw [heach, ← hstored.counts c, Nat.add_sub_cancel]

/-- **The file of accepted queries is balanced**, with the totals of the outcome files. -/
theorem balanced_finalQueries
    (htarget : allocateTargets call.config.distribution call.config.nQueries = .ok t.target)
    (hstored : Stored t.target p.remaining p.queries p.metadata)
    (htotal : t.totalGenerated = (generatedIn outcomes).length)
    (hkeys : OrdDict.keys t.totalGeneratedByC = OrdDict.keys t.target)
    (heach : ∀ c, Counter.count t.totalGeneratedByC c = (generatedIn outcomes).count c) :
    BalancedFinal (finalQueries call t p) ∧ Totals (finalQueries call t p) outcomes := by
  obtain ⟨hpos, htargetKeys, htargetTotal⟩ := allocateTargets_total htarget
  have hnodup : (OrdDict.keys t.target).Nodup := htargetKeys ▸ nodup_weightsOf _
  have hby : (finalQueries call t p).byComplexity =
      ((OrdDict.keys t.target).insertionSort (· ≤ ·)).map fun c =>
        (c, ⟨Counter.count t.target c, (generatedIn outcomes).count c, p.metadata.count c⟩) :=
    byComplexity_finalQueries hstored heach
  have hperm := List.perm_insertionSort (· ≤ ·) (OrdDict.keys t.target)
  have hsortedKeys : OrdDict.keys (finalQueries call t p).byComplexity =
      (OrdDict.keys t.target).insertionSort (· ≤ ·) := by
    rw [hby, OrdDict.keys, List.map_map]
    exact List.map_id _
  have hentry : ∀ c counts, OrdDict.get? (finalQueries call t p).byComplexity c = some counts →
      counts = ⟨Counter.count t.target c, (generatedIn outcomes).count c, p.metadata.count c⟩ := by
    intro c counts hc
    rw [hby] at hc
    obtain ⟨c', hc', heq⟩ := List.mem_map.mp (OrdDict.mem_of_get? hc)
    obtain ⟨rfl, rfl⟩ := Prod.mk.inj heq
    rfl
  have hcovered : ∀ c ∈ p.metadata, c ∈ OrdDict.keys t.target := by
    intro c hc
    have hcount := List.count_pos_iff.mpr hc
    have hbounded := hstored.bounded c
    exact Counter.mem_keys_of_count (by omega)
  refine ⟨⟨hstored.aligned, ?_, fun c hc => ?_, rfl, fun c counts hc => ?_, ?_, ?_, ?_⟩,
    htotal, fun c counts hc => ?_⟩
  · rw [hsortedKeys]
    exact hperm.nodup_iff.mpr hnodup
  · rw [hsortedKeys]
    exact hperm.mem_iff.mpr (hcovered c hc)
  · rw [hentry c counts hc]
    exact ⟨rfl, Int.ofNat_le.mpr (hstored.bounded c)⟩
  · rw [hby, List.map_map]
    have hsum := (hperm.map fun c => (Counter.count t.target c : Int)).sum_eq
    have hcast := congrArg (Nat.cast : Nat → Int) (Counter.total_eq_sum_map t.target)
    rw [← Counter.map_count_keys hnodup, htargetTotal, Int.toNat_of_nonneg hpos.le,
      Nat.cast_list_sum, List.map_map] at hcast
    exact hsum.trans hcast.symm
  · rw [hby, List.map_map]
    have hsum := (hperm.map fun c => (generatedIn outcomes).count c).sum_eq
    have hlen := Counter.total_eq_length (hkeys ▸ hnodup) heach
    rw [Counter.total_eq_sum_map, ← Counter.map_count_keys (hkeys ▸ hnodup), hkeys,
      List.map_congr_left fun c _ => heach c] at hlen
    exact (hsum.trans hlen).trans htotal.symm
  · rw [hby, List.map_map]
    have hsum := (hperm.map fun c => p.metadata.count c).sum_eq
    exact (hsum.trans (sum_by_complexity hnodup hcovered)).trans hstored.aligned.symm
  · rw [hentry c counts hc]

end

/-! ## A step -/

/-- The outcome of a step is added to the books. -/
theorem Kept.outcome (h : Kept call s.step s) (hholds : Holds call s) {generated : List Generated}
    (v : Validation) (hgenerated : ∀ g ∈ generated, g.complexity ∈ OrdDict.keys s.remaining)
    (valid : List Generated) :
    (writeOutcome generated v s).Ensures (Booked call) fun t =>
      Kept call (s.step + 1) t ∧ t.step = s.step ∧ t.target = s.target ∧
        acceptQueries call valid t = acceptQueries call valid s := by
  have hnodup : (OrdDict.keys s.remaining).Nodup := by
    rw [hholds.keys]
    exact hholds.nodup_keys
  have hbalanced := balanced_outcomeOf (v := v) hnodup hgenerated
  have hnew : s.step ∉ OrdDict.keys s.dir.outcomes := fun hmem =>
    absurd (h.earlier s.step hmem) (Nat.lt_irrefl _)
  have hset := OrdDict.set_of_not_mem (outcomeOf s generated v) hnew
  have hin : generatedIn (OrdDict.set s.dir.outcomes s.step (outcomeOf s generated v)) =
      generatedIn s.dir.outcomes ++ generated.map (·.complexity) := by
    rw [hset, generatedIn, List.flatMap_append, List.flatMap_singleton, complexities_outcomeOf]
    rfl
  have hbooks : Books call.config { s.dir with
      outcomes := OrdDict.set s.dir.outcomes s.step (outcomeOf s generated v) } := by
    refine ⟨OrdDict.nodup_keys_set _ _ h.books.steps, fun p hp => ?_, h.books.final⟩
    rcases OrdDict.mem_set hp with rfl | hp
    · refine ⟨hbalanced, fun c hc => ?_⟩
      obtain ⟨-, htargetKeys, -⟩ := allocateTargets_total hholds.target
      rw [keys_outcomeOf, hholds.keys, htargetKeys] at hc
      exact hc
    · exact h.books.outcomes p hp
  have hcovered : ∀ c ∈ OrdDict.keys (outcomeOf s generated v).byComplexity,
      c ∈ OrdDict.keys s.totalGeneratedByC := by
    intro c hc
    rw [keys_outcomeOf, hholds.keys] at hc
    rw [h.keys]
    exact hc
  obtain ⟨hkeys, hcount⟩ := hbalanced.addTotals hcovered
  refine .write ⟨hbooks, fun k hk => by cases hk⟩ ⟨⟨hbooks, fun k hk => ?_, ?_, hkeys.trans h.keys,
    fun c => ?_⟩, rfl, rfl, rfl⟩
  · rcases OrdDict.mem_keys_set.mp hk with rfl | hk
    · exact Nat.lt_succ_self _
    · exact Nat.lt_succ_of_lt (h.earlier k hk)
  · show s.totalGenerated + generated.length = _
    rw [hin, List.length_append, List.length_map, h.total]
  · show Counter.count _ c = List.count c _
    rw [hcount, h.each, hin, List.count_append, complexities_outcomeOf]

/-- **A step keeps the books.** -/
theorem runStep_kept (h : Kept call s.step s) (hholds : Holds call s) :
    (runStep call s).Ensures (Booked call) fun t => Kept call t.step t := by
  refine Traced.Ensures.andThen (Q := fun t => t = s)
    (.write ⟨h.books, fun k hk => by cases hk⟩ rfl) fun t ht => ?_
  subst ht
  cases hcollect : collect call t with
  | error e => exact .fail e
  | ok batch =>
    obtain ⟨generated, v⟩ := batch
    obtain ⟨requests, hrequests, hcollect⟩ := Except.bind_eq_ok.mp hcollect
    obtain ⟨generated', hgenerated, hcollect⟩ := Except.bind_eq_ok.mp hcollect
    obtain ⟨v', hv, hcollect⟩ := Except.bind_eq_ok.mp hcollect
    injection hcollect with hcollect
    injection hcollect with hgen hval
    subst hgen hval
    have hp := hholds.accept hgenerated hv
    have hcomplexities : ∀ g ∈ generated', g.complexity ∈ OrdDict.keys t.remaining := by
      intro g hg
      have hnodup : (OrdDict.keys t.remaining).Nodup := hholds.keys ▸ hholds.nodup_keys
      rw [← keys_of_requests hnodup hrequests]
      exact complexity_of_generated hgenerated g hg
    refine (h.outcome hholds v' hcomplexities (validEntries v' generated')).andThen ?_
    rintro t' ⟨hkept, hstep, htarget, haccept⟩
    dsimp only
    rw [haccept]
    obtain ⟨hfinal, htotals⟩ := balanced_finalQueries (htarget ▸ hholds.target)
      (htarget ▸ hp.stored) hkept.total hkept.keys hkept.each
    have hbooks : Books call.config { t'.dir with final := some (finalQueries call t'
        (acceptQueries call (validEntries v' generated') t)) } :=
      ⟨hkept.books.steps, hkept.books.outcomes, fun f hf => Option.some.inj hf ▸ hfinal⟩
    refine Traced.Ensures.andThen (Q := fun t'' => Kept call (t.step + 1) t'' ∧ t''.step = t.step)
      (.write ⟨hbooks, fun k _ => ⟨_, rfl, htotals⟩⟩
        ⟨⟨hbooks, hkept.earlier, hkept.total, hkept.keys, hkept.each⟩, hstep⟩) ?_
    rintro t'' ⟨ht'', hstep''⟩
    unfold endStep
    split
    · exact .fail _
    · refine .done ⟨ht''.books, ?_, ht''.total, ht''.keys, ht''.each⟩
      rw [← hstep''] at ht''
      exact ht''.earlier

/-- **All steps.** -/
theorem steps_kept (left : Nat) : ∀ {s : Session}, Kept call s.step s → Holds call s →
    (steps call left s).Ensures (Booked call) fun t => Books call.config t.dir := by
  induction left with
  | zero =>
    intro s h _
    unfold steps
    split
    · exact .done h.books
    · exact .fail _
  | succ left ih =>
    intro s h hholds
    unfold steps
    split
    · exact .done h.books
    · have hrun : (runStep call s).Ensures (Booked call) fun t => Kept call t.step t ∧ Holds call t :=
        ⟨(runStep_kept h hholds).writes, fun t ht =>
          ⟨(runStep_kept h hholds).result t ht, (runStep_holds hholds).result t ht⟩⟩
      exact hrun.andThen fun t ht => ih ht.1 ht.2

/-! ## A run -/

/-- The totals over some outcome files. -/
theorem count_generatedByC : ∀ {outcomes : List (Nat × Outcome)} {totals : List (Int × Nat)},
    (∀ p ∈ outcomes, Balanced p.2 ∧ ∀ c ∈ OrdDict.keys p.2.byComplexity, c ∈ OrdDict.keys totals) →
      OrdDict.keys (outcomes.foldl (fun totals o => o.2.byComplexity.foldl
        (fun totals p => Counter.add totals p.1 p.2.nGenerated) totals) totals) =
          OrdDict.keys totals ∧
      ∀ c, Counter.count (outcomes.foldl (fun totals o => o.2.byComplexity.foldl
        (fun totals p => Counter.add totals p.1 p.2.nGenerated) totals) totals) c =
          Counter.count totals c + (generatedIn outcomes).count c
  | [], _, _ => ⟨rfl, fun _ => rfl⟩
  | (k, o) :: outcomes, totals, h => by
    obtain ⟨hbalanced, hcovered⟩ := h (k, o) (List.mem_cons_self ..)
    obtain ⟨hkeys, hcount⟩ := hbalanced.addTotals hcovered
    obtain ⟨hkeysRest, hcountRest⟩ := count_generatedByC fun p hp => by
      obtain ⟨hp', hc⟩ := h p (List.mem_cons_of_mem _ hp)
      exact ⟨hp', fun c hmem => hkeys.symm ▸ hc c hmem⟩
    rw [List.foldl_cons]
    refine ⟨hkeysRest.trans hkeys, fun c => ?_⟩
    rw [hcountRest, hcount, generatedIn, generatedIn, List.flatMap_cons, List.count_append,
      Nat.add_assoc]

/-- What is read off the files is what is in them. -/
theorem load_kept {dir : RunDir} (hbooks : Books call.config dir) (h : load call dir = .ok s) :
    Kept call s.step s := by
  unfold load at h
  generalize (if call.resume = true then dir.final else none) = existing at h
  obtain ⟨target, htarget, h⟩ := Except.bind_eq_ok.mp h
  dsimp only at h
  split at h
  next => exact absurd h (by simp)
  next =>
    injection h with h
    subst h
    obtain ⟨-, htargetKeys, -⟩ := allocateTargets_total htarget
    have hzeros : OrdDict.keys (target.map fun p => (p.1, 0)) = OrdDict.keys target := by
      rw [OrdDict.keys, List.map_map]
      rfl
    have hfiles : ∀ p ∈ dir.outcomes, Balanced p.2 ∧
        ∀ c ∈ OrdDict.keys p.2.byComplexity, c ∈ OrdDict.keys (target.map fun p => (p.1, 0)) := by
      intro p hp
      obtain ⟨hp', hc⟩ := hbooks.outcomes p hp
      refine ⟨hp', fun c hmem => ?_⟩
      rw [hzeros, htargetKeys]
      exact hc c hmem
    obtain ⟨hkeys, hcount⟩ := count_generatedByC hfiles
    refine ⟨hbooks, fun k hk => ?_, ?_, hkeys.trans hzeros, fun c => ?_⟩
    · exact Nat.lt_succ_of_le ((Sampling.le_foldl_max _ 0).2 k hk)
    · rw [generatedIn, List.length_flatMap]
      refine congrArg List.sum (List.map_congr_left fun p hp => ?_)
      exact (hbooks.outcomes p hp).1.generated
    · refine (hcount c).trans ?_
      rw [Counter.count_map (g := fun _ _ => 0) (fun _ => rfl), Nat.zero_add]

theorem Books.of_final_none {config : Config} {dir : RunDir} (h : Books config dir) :
    Books config { dir with final := none } :=
  ⟨h.steps, h.outcomes, fun f hf => by cases hf⟩

/-- **A run keeps the books**, wherever it is stopped. -/
theorem runQueryGeneration_books {dir : RunDir} (hfiles : FilesOk call.config dir)
    (h : Books call.config dir) :
    (runQueryGeneration call dir).Ensures (Booked call) fun t => Books call.config t.dir := by
  have hcheck : (checkConfig call (openDir dir)).Ensures (Booked call) fun t =>
      Books call.config t.dir := by
    have hwrite : (writeConfig call (openDir dir)).Ensures (Booked call) fun t =>
        Books call.config t.dir :=
      .write ⟨⟨h.steps, h.outcomes, h.final⟩, fun k hk => by cases hk⟩ ⟨h.steps, h.outcomes, h.final⟩
    unfold checkConfig
    split
    · split
      · split
        · exact .fail _
        · exact hwrite
      · exact .done h
    · exact hwrite
  have hclear : ∀ t : Session, Books call.config t.dir → (clear call t).Ensures (Booked call) fun t =>
      Books call.config t.dir := by
    intro t ht
    unfold clear
    split
    · exact .done ht
    · have hunlink : ∀ k t, Books call.config t.dir → (unlinkOutcome k t).Ensures (Booked call)
          fun t => Books call.config t.dir := by
        intro k t ht
        have herased : Books call.config { t.dir with
            outcomes := OrdDict.erase t.dir.outcomes k } :=
          ⟨OrdDict.nodup_keys_erase k ht.steps,
            fun p hp => ht.outcomes p ((OrdDict.erase_sublist _ k).subset hp), ht.final⟩
        exact .write ⟨herased, fun k hk => by cases hk⟩ herased
      refine (Traced.Ensures.forEach hunlink _ t ht).andThen fun t ht => ?_
      unfold unlinkFinal
      split
      · exact .write ⟨ht.of_final_none, fun k hk => by cases hk⟩ ht.of_final_none
      · exact .done ht
  -- the variables are read off files that can be read again
  have hprologue : ((checkConfig call (openDir dir)).andThen (clear call)).Ensures (Booked call)
      fun t => Books call.config t.dir ∧ FilesOk call.config t.dir ∧
        (call.resume = false → t.dir.final = none) := by
    have hbooked := hcheck.andThen hclear
    have hloadable := Traced.Ensures.andThen (checkConfig_files (s := openDir dir) hfiles)
      fun t ht => clear_files ht
    exact ⟨hbooked.writes, fun t ht => ⟨hbooked.result t ht, hloadable.result t ht⟩⟩
  refine hprologue.andThen fun t ht => ?_
  obtain ⟨hbooks, hreadable, hfresh⟩ := ht
  cases hload : load call t.dir with
  | error e => exact .fail e
  | ok s =>
    obtain ⟨hholds, -, -⟩ := load_holds hreadable hfresh hload
    have hkept := load_kept hbooks hload
    dsimp only
    split
    · exact .done hkept.books
    · cases fetchSchema call with
      | error e => exact .fail e
      | ok tables => exact steps_kept _ hkept hholds

end

/-! ## Interrupted and resumed runs -/

theorem Books.of_normalizeConfig {a b : Config} (h : normalizeConfig a = normalizeConfig b)
    {dir : RunDir} (hbooks : Books a dir) : Books b dir :=
  ⟨hbooks.steps, fun p hp => ⟨(hbooks.outcomes p hp).1, fun c hc =>
    mem_keys_of_normalizeConfig h ((hbooks.outcomes p hp).2 c hc)⟩, hbooks.final⟩

theorem Reachable.books {config : Config} {dir : RunDir} (h : Reachable config dir) :
    Books config dir := by
  induction h with
  | empty => exact ⟨List.nodup_nil, fun p hp => absurd hp List.not_mem_nil, fun f hf => by cases hf⟩
  | stopped hdir hcall hstop ih =>
    have hrun := runQueryGeneration_books (hdir.filesOk.of_normalizeConfig hcall.symm)
      (ih.of_normalizeConfig hcall.symm)
    exact (hrun.writes _ hstop).books.of_normalizeConfig hcall

/-- **The books are right**, over any number of interrupted and resumed runs: wherever they are
stopped, the numbers in the outcome files and in the file of accepted queries are counts of what is
in these files, and the ones by complexity add up to the ones in total. -/
theorem books_of_reachable {config : Config} {dir : RunDir} (h : Reachable config dir) :
    (OrdDict.keys dir.outcomes).Nodup ∧ (∀ p ∈ dir.outcomes, Balanced p.2) ∧
      ∀ f, dir.final = some f → BalancedFinal f :=
  ⟨h.books.steps, fun p hp => (h.books.outcomes p hp).1, h.books.final⟩

theorem afterFirstStep_reachable : Reachable twoQueries.config afterFirstStep.dir := by
  have hstop : (Event.final 1, afterFirstStep) ∈ (runQueryGeneration twoQueries emptyDir).writes :=
    List.mem_of_getElem? (by decide +kernel : _[3]? = some (Event.final 1, afterFirstStep))
  exact .stopped .empty rfl hstop

theorem books_of_reachable_twoQueries :
    ∃ f, afterFirstStep.dir.final = some f ∧ BalancedFinal f := by
  obtain ⟨f, hf⟩ := Option.isSome_iff_exists.mp
    (by decide +kernel : afterFirstStep.dir.final.isSome = true)
  exact ⟨f, hf, (books_of_reachable afterFirstStep_reachable).2.2 f hf⟩

/-- When the accepted queries are written, in whichever run, the generated queries that their file
speaks of are those of the outcome files that are there. -/
theorem totals_of_reachable {config : Config} {dir : RunDir} (h : Reachable config dir) (call : Call)
    (hcall : normalizeConfig call.config = normalizeConfig config) {k : Nat} {s : Session}
    (hmem : (Event.final k, s) ∈ (runQueryGeneration call dir).writes) :
    ∃ f, s.dir.final = some f ∧ f.overall.nGenerated = (generatedIn s.dir.outcomes).length ∧
      ∀ c counts, OrdDict.get? f.byComplexity c = some counts →
        counts.nGenerated = (generatedIn s.dir.outcomes).count c := by
  have hrun := runQueryGeneration_books (h.filesOk.of_normalizeConfig hcall.symm)
    (h.books.of_normalizeConfig hcall.symm)
  obtain ⟨f, hf, htotals⟩ := (hrun.writes _ hmem).final k rfl
  exact ⟨f, hf, htotals.total, htotals.each⟩

/-- The run that resumes after the first step counts the queries of both. -/
theorem totals_of_reachable_twoQueries :
    ∃ s f, (Event.final 2, s) ∈ (runQueryGeneration twoQueries afterFirstStep.dir).writes ∧
      s.dir.final = some f ∧ f.overall.nGenerated = (generatedIn s.dir.outcomes).length := by
  have hevent : (runQueryGeneration twoQueries afterFirstStep.dir).writes[2]?.map (·.1) =
      some (.final 2) := by decide +kernel
  obtain ⟨⟨e, s⟩, hget, rfl⟩ := Option.map_eq_some_iff.mp hevent
  have hmem := List.mem_of_getElem? hget
  obtain ⟨f, hf, htotal, -⟩ := totals_of_reachable afterFirstStep_reachable twoQueries rfl hmem
  exact ⟨s, f, hmem, hf, htotal⟩

end DbPlanBench.QueryGen
