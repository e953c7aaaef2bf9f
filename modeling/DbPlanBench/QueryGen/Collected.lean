import DbPlanBench.QueryGen.Run

/-!
# What has been collected

The queries of a run and what is still needed of each complexity make up the target
counts, in memory at the start of every step and in every file of accepted queries.
The queries are distinct: a query that was valid before is not valid again, whether
it was accepted or not, and those of the file are known again when a run resumes.
So a run that returns has exactly the target.

* `Holds` — what holds of the variables between two steps, `runStep_holds`.
* `FilesOk` — what a run may rely on when it reads the files.
* `Reachable` — the directories of interrupted and resumed runs.
* `queries_collected` — the result.
-/

namespace DbPlanBench.QueryGen

/-- Stored queries with what remains make up the target, and no complexity has too many; the
queries are distinct, and each has its metadata. -/
structure Stored (target remaining : List (Int × Nat)) (queries : List String)
    (metadata : List Int) : Prop where
  counts : ∀ c, metadata.count c + Counter.count remaining c = Counter.count target c
  bounded : ∀ c, metadata.count c ≤ Counter.count target c
  nodup : queries.Nodup
  aligned : queries.length = metadata.length

/-- **Between two steps.** -/
structure Holds (call : Call) (s : Session) : Prop where
  target : allocateTargets call.config.distribution call.config.nQueries = .ok s.target
  keys : OrdDict.keys s.remaining = OrdDict.keys s.target
  stored : Stored s.target s.remaining s.queries s.metadata
  seen : s.seen.Nodup
  known : ∀ q ∈ s.queries, q ∈ s.seen
  fileQueries : (s.dir.final.map (·.queries)).getD [] = s.queries
  fileMetadata : (s.dir.final.map (·.metadata)).getD [] = s.metadata

/-- The file of accepted queries can be read again: distinct queries with their metadata, for
complexities of the distribution. -/
def FilesOk (config : Config) (dir : RunDir) : Prop :=
  ∀ f, dir.final = some f → f.queries.Nodup ∧ f.queries.length = f.metadata.length ∧
    ∀ c ∈ f.metadata, c ∈ OrdDict.keys (weightsOf config.distribution)

section

variable {call : Call} {s : Session}

theorem Holds.nodup_keys (h : Holds call s) : (OrdDict.keys s.target).Nodup := by
  obtain ⟨_, hkeys, _⟩ := allocateTargets_total h.target
  rw [hkeys]
  exact nodup_weightsOf _

/-- The number of stored queries, with what remains in total. -/
theorem Holds.total (h : Holds call s) :
    s.metadata.length + Counter.total s.remaining = call.config.nQueries.toNat := by
  obtain ⟨_, _, htotal⟩ := allocateTargets_total h.target
  rw [← htotal]
  exact Counter.length_add_total h.keys h.nodup_keys h.stored.counts

theorem Holds.file (h : Holds call s) {f : FinalQueries} (hf : s.dir.final = some f) :
    f.queries = s.queries ∧ f.metadata = s.metadata := by
  have hqueries := h.fileQueries
  have hmetadata := h.fileMetadata
  rw [hf] at hqueries hmetadata
  exact ⟨hqueries, hmetadata⟩

theorem Holds.filesOk (h : Holds call s) : FilesOk call.config s.dir := by
  intro f hf
  obtain ⟨hqueries, hmetadata⟩ := h.file hf
  rw [hqueries, hmetadata]
  refine ⟨h.stored.nodup, h.stored.aligned, fun c hc => ?_⟩
  obtain ⟨_, hkeys, _⟩ := allocateTargets_total h.target
  have hpos := List.count_pos_iff.mpr hc
  have hle := h.stored.bounded c
  rw [← hkeys]
  exact Counter.mem_keys_of_count (by omega)

/-! ## Reading the files -/

theorem count_currentCounts (target : List (Int × Nat)) (metadata : List Int) (c : Int) :
    Counter.count (currentCounts target metadata) c = metadata.count c := by
  rw [currentCounts, Counter.count_tally,
    Counter.count_map (g := fun _ _ => 0) (fun _ => rfl) c target, Nat.zero_add]

theorem total_currentCounts (target : List (Int × Nat)) (metadata : List Int) :
    Counter.total (currentCounts target metadata) = metadata.length := by
  rw [currentCounts, Counter.total_tally, Counter.total_zeros, Nat.zero_add]

theorem count_remaining (target : List (Int × Nat)) (metadata : List Int) (c : Int) :
    Counter.count (target.map fun p => (p.1, p.2 - Counter.count (currentCounts target metadata) p.1))
        c = Counter.count target c - metadata.count c := by
  have hcount := Counter.count_map
    (g := fun c n => n - Counter.count (currentCounts target metadata) c)
    (fun _ => Nat.zero_sub _) c target
  rw [hcount, count_currentCounts]

/-- What passes the check of the files is within the target, complexities without one included. -/
theorem count_le_target {target : List (Int × Nat)} {metadata : List Int}
    (hmem : ∀ c ∈ metadata, c ∈ OrdDict.keys target)
    (h : ¬ target.any (fun p => p.2 < Counter.count (currentCounts target metadata) p.1) = true)
    (c : Int) : metadata.count c ≤ Counter.count target c := by
  by_cases hc : c ∈ OrdDict.keys target
  · obtain ⟨n, hn⟩ := OrdDict.get?_isSome.mpr hc
    by_contra hlt
    rw [Counter.count, hn] at hlt
    refine mt List.any_eq_true.mpr h ⟨(c, n), OrdDict.mem_of_get? hn, decide_eq_true ?_⟩
    rw [count_currentCounts]
    exact Nat.lt_of_not_le hlt
  · rw [List.count_eq_zero_of_not_mem fun hmem' => hc (hmem c hmem')]
    exact Nat.zero_le _

/-- The files in one statement, whether there are any or not. -/
theorem FilesOk.read {config : Config} {dir : RunDir} (h : FilesOk config dir) :
    ((dir.final.map (·.queries)).getD []).Nodup ∧
      ((dir.final.map (·.queries)).getD []).length =
        ((dir.final.map (·.metadata)).getD []).length ∧
      ∀ c ∈ (dir.final.map (·.metadata)).getD [], c ∈ OrdDict.keys (weightsOf config.distribution) := by
  cases hf : dir.final with
  | none => exact ⟨List.nodup_nil, rfl, fun c hc => absurd hc List.not_mem_nil⟩
  | some f => exact h f hf

/-- **What is read off the files.** -/
theorem load_holds {dir : RunDir} (hfiles : FilesOk call.config dir)
    (hresume : call.resume = false → dir.final = none) (h : load call dir = .ok s) :
    Holds call s ∧ s.dir = dir ∧ s.step = (OrdDict.keys dir.outcomes).foldl max 0 + 1 := by
  have hexisting : (if call.resume = true then dir.final else none) = dir.final := by
    split
    next => rfl
    next hno => rw [hresume (by simpa using hno)]
  unfold load at h
  rw [hexisting] at h
  obtain ⟨target, htarget, h⟩ := Except.bind_eq_ok.mp h
  dsimp only at h
  split at h
  next => exact absurd h (by simp)
  next hexceeds =>
    injection h with h
    subst h
    obtain ⟨_, hkeys, _⟩ := allocateTargets_total htarget
    obtain ⟨hnodup, haligned, hmem⟩ := hfiles.read
    have hle := count_le_target (fun c hc => hkeys ▸ hmem c hc) hexceeds
    refine ⟨⟨htarget, ?_, ⟨fun c => ?_, hle, hnodup, haligned⟩, List.nodup_dedup _,
      fun q hq => List.mem_dedup.mpr hq, rfl, rfl⟩, rfl, rfl⟩
    · rw [OrdDict.keys, List.map_map]
      rfl
    · rw [count_remaining]
      exact Nat.add_sub_of_le (hle c)

/-! ## A step -/

/-- What is accepted in a step. -/
structure AcceptedOf (s : Session) (seen : List String) (p : Progress) : Prop where
  keys : OrdDict.keys p.remaining = OrdDict.keys s.target
  stored : Stored s.target p.remaining p.queries p.metadata
  nodup : seen.Nodup
  known : ∀ q ∈ p.queries, q ∈ seen

theorem Holds.accept (h : Holds call s) {requests : List (Int × Nat)} {generated : List Generated}
    {v : Validation} (hgenerated : generateQueries call s.step requests = .ok generated)
    (hv : validateQueries call s.step s.seen generated = .ok v) :
    AcceptedOf s v.seen (acceptQueries call (validEntries v generated) s) := by
  obtain ⟨hnodup, hperm⟩ := validateQueries_fresh (nodup_ids hgenerated) h.seen hv
  have hfresh : (s.queries ++ (validEntries v generated).map (·.query)).Nodup := by
    obtain ⟨_, hvalid, hdisjoint⟩ := List.nodup_append.mp (hperm.nodup_iff.mp hnodup)
    exact List.nodup_append.mpr
      ⟨h.stored.nodup, hvalid, fun q hq q' hq' => hdisjoint q (h.known q hq) q' hq'⟩
  obtain ⟨done, hp⟩ := accept_spec call s.step ⟨s.queries, s.metadata, s.remaining, 0⟩
    (h.keys ▸ h.nodup_keys) h.stored.aligned hfresh
  have hcounts := fun c => (hp.counts c).trans (h.stored.counts c)
  refine ⟨hp.keys.trans h.keys, ⟨hcounts, fun c => ?_, hp.nodup, hp.aligned⟩, hnodup,
    fun q hq => ?_⟩
  · rw [← hcounts c]
    exact Nat.le_add_right _ _
  · rw [hperm.mem_iff, List.mem_append]
    rcases hp.sources q hq with hold | ⟨g, hg, rfl, _⟩
    · exact Or.inl (h.known q hold)
    · exact Or.inr (List.mem_map_of_mem hg)

/-- What is there when something is written, a step starts or the accepted queries of one are
written. -/
structure Logs (call : Call) (e : Event) (s : Session) : Prop where
  files : FilesOk call.config s.dir
  start : ∀ k, e = .start k → Holds call s ∧ s.step = k
  final : ∀ k, e = .final k → Holds call s ∧ s.step = k ∧ ∃ f, s.dir.final = some f

/-- A write that is neither. -/
theorem Logs.of_files {e : Event} (hfiles : FilesOk call.config s.dir)
    (hstart : ∀ k, e ≠ .start k) (hfinal : ∀ k, e ≠ .final k) : Logs call e s :=
  ⟨hfiles, fun k he => absurd he (hstart k), fun k he => absurd he (hfinal k)⟩

/-- **A step keeps what holds.** -/
theorem runStep_holds (h : Holds call s) : (runStep call s).Ensures (Logs call) (Holds call) := by
  have hstart : Logs call (.start s.step) s :=
    ⟨h.filesOk, fun k hk => ⟨h, Event.start.inj hk⟩, fun k hk => absurd hk (by simp)⟩
  refine Traced.Ensures.andThen (Q := fun t => t = s) (.write hstart rfl) fun t ht => ?_
  subst ht
  cases hcollect : collect call t with
  | error e => exact .fail e
  | ok batch =>
    obtain ⟨generated, v⟩ := batch
    obtain ⟨requests, _, hcollect⟩ := Except.bind_eq_ok.mp hcollect
    obtain ⟨generated', hgenerated, hcollect⟩ := Except.bind_eq_ok.mp hcollect
    obtain ⟨v', hv, hcollect⟩ := Except.bind_eq_ok.mp hcollect
    injection hcollect with hcollect
    injection hcollect with hgen hval
    subst hgen hval
    have hp := h.accept hgenerated hv
    -- neither the file nor what was accepted changes with the outcome
    refine Traced.Ensures.andThen (Q := fun t' => t'.target = t.target ∧ t'.seen = v'.seen ∧
        acceptQueries call (validEntries v' generated') t' =
          acceptQueries call (validEntries v' generated') t)
      (.write (.of_files h.filesOk (fun k => by simp) fun k => by simp) ⟨rfl, rfl, rfl⟩) ?_
    rintro t' ⟨htarget, hseen, haccept⟩
    dsimp only
    rw [haccept]
    have hnext : Holds call { t' with
        dir := { t'.dir with final := some (finalQueries call t'
          (acceptQueries call (validEntries v' generated') t)) }
        queries := (acceptQueries call (validEntries v' generated') t).queries
        metadata := (acceptQueries call (validEntries v' generated') t).metadata
        remaining := (acceptQueries call (validEntries v' generated') t).remaining } := by
      refine ⟨htarget ▸ h.target, htarget ▸ hp.keys, htarget ▸ hp.stored, hseen ▸ hp.nodup,
        fun q hq => ?_, rfl, rfl⟩
      rw [hseen]
      exact hp.known q hq
    refine Traced.Ensures.andThen (Q := Holds call) (.write ?_ hnext) fun t'' ht'' => ?_
    · exact ⟨hnext.filesOk, fun k hk => absurd hk (by simp),
        fun k hk => ⟨hnext, Event.final.inj hk, _, rfl⟩⟩
    · unfold endStep
      split
      next => exact .fail _
      next => exact .done ⟨ht''.target, ht''.keys, ht''.stored, ht''.seen, ht''.known,
          ht''.fileQueries, ht''.fileMetadata⟩

/-- **All steps.** -/
theorem steps_holds : ∀ (left : Nat) {s : Session}, Holds call s →
    (steps call left s).Ensures (Logs call) fun t => Holds call t ∧ Counter.total t.remaining = 0
  | 0, s, h => by
    unfold steps
    split
    next hzero => exact .done ⟨h, hzero⟩
    next => exact .fail _
  | left + 1, s, h => by
    unfold steps
    split
    next hzero => exact .done ⟨h, hzero⟩
    next => exact (runStep_holds h).andThen fun t ht => steps_holds left ht

/-! ## A run -/

theorem checkConfig_files (h : FilesOk call.config s.dir) :
    (checkConfig call s).Ensures (Logs call) fun t => FilesOk call.config t.dir := by
  have hwrite : (writeConfig call s).Ensures (Logs call) fun t => FilesOk call.config t.dir :=
    .write (.of_files h (fun k => by simp) fun k => by simp) h
  unfold checkConfig
  split
  next =>
    split
    next =>
      split
      next => exact .fail _
      next => exact hwrite
    next => exact .done h
  next => exact hwrite

theorem clear_files (h : FilesOk call.config s.dir) :
    (clear call s).Ensures (Logs call) fun t =>
      FilesOk call.config t.dir ∧ (call.resume = false → t.dir.final = none) := by
  unfold clear
  split
  next hresume => exact .done ⟨h, fun hno => absurd hresume (by simp [hno])⟩
  next =>
    have hunlink : ∀ k t, FilesOk call.config t.dir → (unlinkOutcome k t).Ensures (Logs call)
        fun t => FilesOk call.config t.dir := fun k t ht =>
      .write (.of_files ht (fun k => by simp) fun k => by simp) ht
    refine (Traced.Ensures.forEach hunlink _ s h).andThen fun t ht => ?_
    unfold unlinkFinal
    split
    next =>
      have hnone : FilesOk call.config { t.dir with final := none } :=
        fun f hf => absurd hf (by simp)
      exact .write (.of_files hnone (fun k => by simp) fun k => by simp) ⟨hnone, fun _ => rfl⟩
    next hnone => exact .done ⟨ht, fun _ => hnone⟩

/-- **A run keeps the files readable**, and when it returns nothing remains. -/
theorem runQueryGeneration_holds {dir : RunDir} (h : FilesOk call.config dir) :
    (runQueryGeneration call dir).Ensures (Logs call) fun t =>
      Holds call t ∧ Counter.total t.remaining = 0 := by
  refine Traced.Ensures.andThen ((checkConfig_files (s := openDir dir) h).andThen fun t ht =>
    clear_files ht) fun t ht => ?_
  cases hload : load call t.dir with
  | error e => exact .fail e
  | ok s =>
    obtain ⟨hs, _, _⟩ := load_holds ht.1 ht.2 hload
    dsimp only
    split
    next hcomplete =>
      refine .done ⟨hs, ?_⟩
      have htotal := hs.total
      have hpos := (allocateTargets_total hs.target).1
      have hle := of_decide_eq_true hcomplete
      rw [total_currentCounts] at hle
      omega
    next =>
      cases fetchSchema call with
      | error e => exact .fail e
      | ok tables => exact steps_holds _ hs

end

/-! ## Interrupted and resumed runs -/

/-- The directories that calls with one configuration lead to, each stopped after one of its writes;
a call that ends, in whichever way, leaves what its last write did. -/
inductive Reachable (config : Config) : RunDir → Prop where
  | empty : Reachable config emptyDir
  | stopped {dir : RunDir} {call : Call} {e : Event} {s : Session} (h : Reachable config dir)
      (hcall : normalizeConfig call.config = normalizeConfig config)
      (hstop : (e, s) ∈ (runQueryGeneration call dir).writes) : Reachable config s.dir

theorem mem_keys_of_normalizeConfig {a b : Config} (h : normalizeConfig a = normalizeConfig b)
    {c : Int} (hc : c ∈ OrdDict.keys (weightsOf a.distribution)) :
    c ∈ OrdDict.keys (weightsOf b.distribution) := by
  have hsorted : (weightsOf a.distribution).insertionSort (fun a b => a.1 ≤ b.1) =
      (weightsOf b.distribution).insertionSort fun a b => a.1 ≤ b.1 :=
    congrArg Config.distribution h
  have ha := List.perm_insertionSort (fun a b => a.1 ≤ b.1) (weightsOf a.distribution)
  have hb := List.perm_insertionSort (fun a b => a.1 ≤ b.1) (weightsOf b.distribution)
  rw [hsorted] at ha
  exact ((ha.symm.trans hb).map Prod.fst).mem_iff.mp hc

theorem FilesOk.of_normalizeConfig {a b : Config} (h : normalizeConfig a = normalizeConfig b)
    {dir : RunDir} (hfiles : FilesOk a dir) : FilesOk b dir := fun f hf =>
  ⟨(hfiles f hf).1, (hfiles f hf).2.1, fun c hc =>
    mem_keys_of_normalizeConfig h ((hfiles f hf).2.2 c hc)⟩

theorem Reachable.filesOk {config : Config} {dir : RunDir} (h : Reachable config dir) :
    FilesOk config dir := by
  induction h with
  | empty => exact fun f hf => absurd hf (by simp [emptyDir])
  | stopped _ hcall hstop ih =>
    have hlogs := (runQueryGeneration_holds (ih.of_normalizeConfig hcall.symm)).writes _ hstop
    exact hlogs.files.of_normalizeConfig hcall

/-- **The query collection invariant**, over any number of interrupted and resumed runs: at the
start of every step and in every file of accepted queries, stored queries with what remains make up
the target of the run, without repetitions; a run that returns has exactly its target. -/
theorem queries_collected {config : Config} {dir : RunDir} (h : Reachable config dir) (call : Call)
    (hcall : normalizeConfig call.config = normalizeConfig config) :
    (∀ k s, (Event.start k, s) ∈ (runQueryGeneration call dir).writes →
      allocateTargets call.config.distribution call.config.nQueries = .ok s.target ∧
        Stored s.target s.remaining s.queries s.metadata) ∧
    (∀ k s, (Event.final k, s) ∈ (runQueryGeneration call dir).writes →
      ∃ f, s.dir.final = some f ∧
        allocateTargets call.config.distribution call.config.nQueries = .ok s.target ∧
        Stored s.target s.remaining f.queries f.metadata) ∧
    ∀ s, (runQueryGeneration call dir).result = .ok s →
      ∃ f target, s.dir.final = some f ∧
        allocateTargets call.config.distribution call.config.nQueries = .ok target ∧
        (f.queries.length : Int) = call.config.nQueries ∧ f.queries.Nodup ∧
        f.queries.length = f.metadata.length ∧
        ∀ c, f.metadata.count c = Counter.count target c := by
  have hrun := runQueryGeneration_holds (h.filesOk.of_normalizeConfig hcall.symm)
  refine ⟨fun k s hmem => ?_, fun k s hmem => ?_, fun s hs => ?_⟩
  · obtain ⟨hs, _⟩ := (hrun.writes _ hmem).start k rfl
    exact ⟨hs.target, hs.stored⟩
  · obtain ⟨hs, _, f, hf⟩ := (hrun.writes _ hmem).final k rfl
    obtain ⟨hqueries, hmetadata⟩ := hs.file hf
    refine ⟨f, hf, hs.target, ?_⟩
    rw [hqueries, hmetadata]
    exact hs.stored
  · obtain ⟨hs, hzero⟩ := hrun.result s hs
    have htotal := hs.total
    have hpos := (allocateTargets_total hs.target).1
    have hlen : (s.metadata.length : Int) = call.config.nQueries := by omega
    have hcounts := (Counter.total_eq_zero (hs.keys ▸ hs.nodup_keys)).mp hzero
    cases hf : s.dir.final with
    | none =>
      -- without a file nothing is stored
      have hmetadata := hs.fileMetadata
      rw [hf] at hmetadata
      rw [← hmetadata] at hlen
      exact absurd hpos (not_lt_of_ge (le_of_eq hlen.symm))
    | some f =>
      obtain ⟨hqueries, hmetadata⟩ := hs.file hf
      refine ⟨f, s.target, rfl, hs.target, ?_, ?_, ?_, fun c => ?_⟩
      · rw [hqueries, hs.stored.aligned, hlen]
      · rw [hqueries]
        exact hs.stored.nodup
      · rw [hqueries, hmetadata, hs.stored.aligned]
      · rw [hmetadata, ← hs.stored.counts c, hcounts c, Nat.add_zero]

/-- One query of each of two complexities. In the first step the model gives the same text for
both. -/
def twoQueries : Call where
  config := ⟨"tpch", [(1, 1), (2, 1)], 2, false, 4, 4, 3, 3, 3⟩
  resume := true
  execLocal := false
  validateKwargs := []
  str := fun _ => ""
  client := .ok ()
  schema := .ok [("tables", .obj [("region", .obj [])])]
  listing := fun _ => Equiv.refl _
  prompts := fun _ => .ok ()
  answer := fun step _ => .ok (some (if step = 1 then "SELECT 1" else "SELECT 2"))
  check := fun _ _ _ => .ok ⟨none, .bool true, .obj [("0", .obj [])], .bool true, .bool false,
    .int 1, .int 1, false⟩
  validationOrder := fun _ _ => Fin.revPerm
  sampleOrder := fun _ _ _ => Equiv.refl _

/-- The run with two queries after its first step. -/
def afterFirstStep : Session :=
  ((runQueryGeneration twoQueries emptyDir).writes[3]?.map (·.2)).getD (openDir emptyDir)

/-- A run that is stopped after its first step has one query, and ends with two when it resumes. -/
theorem twoQueries_collected : afterFirstStep.queries = ["SELECT 1"] ∧
    ∃ s f, (runQueryGeneration twoQueries afterFirstStep.dir).result = .ok s ∧
      s.dir.final = some f ∧ (f.queries.length : Int) = 2 ∧ f.queries.Nodup := by
  have hstop : (Event.final 1, afterFirstStep) ∈ (runQueryGeneration twoQueries emptyDir).writes :=
    List.mem_of_getElem? (i := 3) (by decide +kernel)
  have hok : (runQueryGeneration twoQueries afterFirstStep.dir).result.toOption.isSome = true := by
    decide +kernel
  obtain ⟨s, hs⟩ := Except.exists_of_isSome hok
  have hreachable : Reachable twoQueries.config afterFirstStep.dir := .stopped .empty rfl hstop
  obtain ⟨_, _, hreturned⟩ := queries_collected hreachable twoQueries rfl
  obtain ⟨f, _, hf, _, hlength, hnodup, _⟩ := hreturned s hs
  exact ⟨by decide +kernel, s, f, hs, hf, hlength, hnodup⟩

end DbPlanBench.QueryGen
