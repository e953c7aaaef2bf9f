import DbPlanBench.QueryGen.Collected

/-!
# After the last step

A run of query generation has `max_steps` steps, and the outcome files carry the
count across runs. When the last step is done and queries are missing, the run
raises: without progress in that step at its end, otherwise when the next step would
start. The queries are in the file, but are not returned; and every later call that
resumes with the configuration raises, too, as no step is left for it
(`exhausted_raises`).
-/

namespace DbPlanBench.QueryGen

/-- A run gets as far as its steps, with these variables. -/
def Started (call : Call) (dir : RunDir) (s : Session) : Prop :=
  ∃ t, ((checkConfig call (openDir dir)).andThen (clear call)).result = .ok t ∧
    load call t.dir = .ok s ∧ isComplete call s = false ∧ ∃ tables, fetchSchema call = .ok tables

/-- **The steps of the budget are done, and queries are missing**: when a run starts, or after a
step of it. -/
inductive Exhausts (call : Call) (dir : RunDir) : Session → Prop where
  | before {s : Session} (hstarted : Started call dir s) (hstep : call.config.maxSteps < s.step)
      (hmissing : 0 < Counter.total s.remaining) : Exhausts call dir s
  | after {k : Nat} {s : Session}
      (hfinal : (Event.final k, s) ∈ (runQueryGeneration call dir).writes)
      (hstep : call.config.maxSteps ≤ k) (hmissing : 0 < Counter.total s.remaining) :
      Exhausts call dir s

/-- The run returns what has been collected, and a later one returns or extends that. -/
structure PartialResult (call later : Call) (dir : RunDir) (s : Session) : Prop where
  returned : ∃ t f, (runQueryGeneration call dir).result = .ok t ∧ t.dir.final = some f ∧
    f.queries = s.queries ∧ f.metadata = s.metadata
  continued : ∃ t f, (runQueryGeneration later s.dir).result = .ok t ∧ t.dir.final = some f ∧
    s.queries <+: f.queries ∧ s.metadata <+: f.metadata

section

variable {call : Call} {s : Session}

/-! ## The end of a step -/

theorem writeOutcome_eq (generated : List Generated) (v : Validation) (s : Session) :
    ∃ o, writeOutcome generated v s = .write (.outcome s.step) o ∧ o.step = s.step ∧
      s.step ∈ OrdDict.keys o.dir.outcomes :=
  ⟨_, rfl, rfl, OrdDict.mem_keys_set.mpr (Or.inl rfl)⟩

theorem writeFinal_eq (call : Call) (s : Session) (p : Progress) :
    ∃ t, writeFinal call s p = .write (.final s.step) t ∧ t.step = s.step ∧
      t.dir.outcomes = s.dir.outcomes :=
  ⟨_, rfl, rfl, rfl⟩

theorem endStep_cases (call : Call) (p : Progress) (t : Session) :
    (∃ msg, endStep call p t = .fail (.runtimeError msg)) ∨
      endStep call p t = .done { t with step := t.step + 1 } := by
  unfold endStep
  split
  next => exact Or.inl ⟨_, rfl⟩
  next => exact Or.inr rfl

/-- A step fails before it writes an outcome, or writes three times and then raises or returns. -/
theorem runStep_cases (call : Call) (s : Session) :
    (∃ e, runStep call s = ⟨[(.start s.step, s)], .error e⟩) ∨
      ∃ o t, t.step = s.step ∧ s.step ∈ OrdDict.keys t.dir.outcomes ∧
        (runStep call s).writes = [(.start s.step, s), (.outcome s.step, o), (.final s.step, t)] ∧
        ((∃ msg, (runStep call s).result = .error (.runtimeError msg)) ∨
          (runStep call s).result = .ok { t with step := t.step + 1 }) := by
  rw [runStep, Traced.write_andThen]
  cases collect call s with
  | error e => exact Or.inl ⟨e, rfl⟩
  | ok batch =>
    obtain ⟨generated, v⟩ := batch
    obtain ⟨o, ho, hostep, hokeys⟩ := writeOutcome_eq generated v s
    obtain ⟨t, ht, htstep, htkeys⟩ :=
      writeFinal_eq call o (acceptQueries call (validEntries v generated) o)
    dsimp only
    rw [ho, Traced.write_andThen, ht, Traced.write_andThen]
    refine Or.inr ⟨o, t, htstep.trans hostep, htkeys ▸ hokeys, ?_⟩
    rcases endStep_cases call (acceptQueries call (validEntries v generated) o) t with
      ⟨msg, hend⟩ | hend
    · rw [hend, hostep]
      exact ⟨rfl, Or.inl ⟨msg, rfl⟩⟩
    · rw [hend, hostep]
      exact ⟨rfl, Or.inr rfl⟩

/-- The last write of a step that is not stopped. -/
theorem runStep_final {k : Nat} {t : Session} (h : (Event.final k, t) ∈ (runStep call s).writes) :
    k = s.step ∧ t.step = s.step ∧ k ∈ OrdDict.keys t.dir.outcomes ∧
      ((∃ msg, (runStep call s).result = .error (.runtimeError msg)) ∨
        (runStep call s).result = .ok { t with step := t.step + 1 }) := by
  rcases runStep_cases call s with ⟨e, he⟩ | ⟨o, t', hstep, hkeys, hwrites, hresult⟩
  · rw [he] at h
    exact absurd (List.mem_singleton.mp h) (by simp)
  · rw [hwrites] at h
    obtain ⟨rfl, rfl⟩ : k = s.step ∧ t = t' := by simpa using h
    exact ⟨rfl, hstep, hkeys, hresult⟩

theorem runStep_step {t : Session} (h : (runStep call s).result = .ok t) : t.step = s.step + 1 := by
  rcases runStep_cases call s with ⟨e, he⟩ | ⟨o, t', hstep, _, _, ⟨msg, hmsg⟩ | hresult⟩
  · rw [he] at h
    exact absurd h (by simp)
  · rw [hmsg] at h
    exact absurd h (by simp)
  · rw [hresult] at h
    injection h with h
    rw [← h, ← hstep]

/-- **After the last step without enough queries the loop raises.** -/
theorem steps_exhausted : ∀ (left : Nat) {s : Session}, left = stepsLeft call s.step →
    ∀ {k : Nat} {t : Session}, (Event.final k, t) ∈ (steps call left s).writes →
      call.config.maxSteps ≤ k → 0 < Counter.total t.remaining →
      k ∈ OrdDict.keys t.dir.outcomes ∧
        ∃ msg, (steps call left s).result = .error (.runtimeError msg)
  | 0, s, _, k, t, h, _, _ => by
    unfold steps at h
    split at h
    next => exact absurd h List.not_mem_nil
    next => exact absurd h List.not_mem_nil
  | left + 1, s, hleft, k, t, h, hk, hmissing => by
    unfold steps at h ⊢
    split at h
    next => exact absurd h List.not_mem_nil
    next hne =>
      rw [if_neg hne]
      rw [stepsLeft] at hleft
      rcases Traced.mem_writes_andThen.mp h with h | ⟨s', hs', h⟩
      · obtain ⟨hks, hstep, hkeys, hresult⟩ := runStep_final h
        refine ⟨hkeys, ?_⟩
        rcases hresult with ⟨msg, hmsg⟩ | hok
        · exact ⟨msg, by rw [Traced.andThen, hmsg]⟩
        · -- this was the last step that the budget has
          obtain rfl : left = 0 := by omega
          rw [Traced.result_andThen_of_ok hok, steps, if_neg (Nat.ne_of_gt hmissing)]
          exact ⟨_, rfl⟩
      · have hstep := runStep_step hs'
        obtain ⟨hkeys, hmsg⟩ := steps_exhausted left (by rw [stepsLeft, hstep]; omega) h hk hmissing
        exact ⟨hkeys, by rwa [Traced.result_andThen_of_ok hs']⟩

/-- A step starts when something is missing. -/
theorem steps_start : ∀ (left : Nat) {s : Session} {k : Nat} {t : Session},
    (Event.start k, t) ∈ (steps call left s).writes → Counter.total t.remaining ≠ 0
  | 0, s, k, t, h => by
    unfold steps at h
    split at h
    next => exact absurd h List.not_mem_nil
    next => exact absurd h List.not_mem_nil
  | left + 1, s, k, t, h => by
    unfold steps at h
    split at h
    next => exact absurd h List.not_mem_nil
    next hmissing =>
      rcases Traced.mem_writes_andThen.mp h with h | ⟨s', _, h⟩
      · have ht : t = s := by
          rcases runStep_cases call s with ⟨e, he⟩ | ⟨o, t', _, _, hwrites, _⟩
          · rw [he] at h
            simpa using congrArg Prod.snd (List.mem_singleton.mp h)
          · rw [hwrites] at h
            have hst : k = s.step ∧ t = s := by simpa using h
            exact hst.2
        exact ht ▸ hmissing
      · exact steps_start left h

/-! ## The start of a run -/

/-- Before the steps none starts, and no accepted queries are written. -/
theorem prologue_events (dir : RunDir) :
    ((checkConfig call (openDir dir)).andThen (clear call)).Ensures
      (fun e _ => ∀ k, e ≠ .start k ∧ e ≠ .final k)
      fun t => call.resume = true → t.dir.outcomes = dir.outcomes ∧ t.dir.final = dir.final := by
  refine Traced.Ensures.andThen
    (Q := fun t => t.dir.outcomes = dir.outcomes ∧ t.dir.final = dir.final) ?_ fun t ht => ?_
  · unfold checkConfig
    split
    next =>
      split
      next =>
        split
        next => exact .fail _
        next => exact .write (fun k => by simp) ⟨rfl, rfl⟩
      next => exact .done ⟨rfl, rfl⟩
    next => exact .write (fun k => by simp) ⟨rfl, rfl⟩
  · unfold clear
    split
    next => exact .done fun _ => ht
    next hno =>
      refine Traced.Ensures.andThen (Q := fun _ => True) (.forEach (fun k t _ =>
        .write (fun k => by simp) trivial) _ _ trivial) fun t _ => ?_
      unfold unlinkFinal
      split
      next => exact .write (fun k => by simp) fun hyes => absurd hyes hno
      next => exact .done fun hyes => absurd hyes hno

/-- A run that gets to its steps ends as they do. -/
theorem Started.result {dir : RunDir} (h : Started call dir s) :
    (runQueryGeneration call dir).result = (steps call (stepsLeft call s.step) s).result := by
  obtain ⟨t, ht, hload, hcomplete, tables, htables⟩ := h
  rw [runQueryGeneration, Traced.result_andThen_of_ok ht, hload]
  dsimp only
  rw [if_neg (by simp [hcomplete]), htables]

/-- The events of the steps. -/
theorem started_of_mem {dir : RunDir} {e : Event} {k : Nat} (he : e = .start k ∨ e = .final k)
    (h : (e, s) ∈ (runQueryGeneration call dir).writes) :
    ∃ s0, Started call dir s0 ∧ (e, s) ∈ (steps call (stepsLeft call s0.step) s0).writes := by
  rcases Traced.mem_writes_andThen.mp h with h | ⟨t, ht, h⟩
  · obtain ⟨hstart, hfinal⟩ := (prologue_events dir).writes _ h k
    exact absurd he (not_or.mpr ⟨hstart, hfinal⟩)
  · cases hload : load call t.dir with
    | error e =>
      rw [hload] at h
      exact absurd h List.not_mem_nil
    | ok s0 =>
      rw [hload] at h
      dsimp only at h
      split at h
      next => exact absurd h List.not_mem_nil
      next hcomplete =>
        cases htables : fetchSchema call with
        | error e =>
          rw [htables] at h
          exact absurd h List.not_mem_nil
        | ok tables =>
          rw [htables] at h
          exact ⟨s0, ⟨t, ht, hload, by simpa using hcomplete, tables, htables⟩, h⟩

/-- A directory whose outcomes use up the budget, and whose queries do not meet the target. -/
structure Spent (config : Config) (dir : RunDir) : Prop where
  steps : config.maxSteps < ((OrdDict.keys dir.outcomes).foldl max 0 + 1 : Nat)
  missing : (((dir.final.map (·.metadata)).getD []).length : Int) < config.nQueries

/-- **A call that resumes there raises.** -/
theorem resumed_raises {dir : RunDir} (hfiles : FilesOk call.config dir)
    (hresume : call.resume = true) (hspent : Spent call.config dir) :
    ∃ e, (runQueryGeneration call dir).result = .error e := by
  cases hresult : (runQueryGeneration call dir).result with
  | error e => exact ⟨e, rfl⟩
  | ok t =>
    obtain ⟨t0, ht0, h⟩ := Traced.result_andThen.mp hresult
    obtain ⟨houtcomes, hfinal⟩ := (prologue_events dir).result t0 ht0 hresume
    have hfiles0 : FilesOk call.config t0.dir := fun f hf => hfiles f (hfinal ▸ hf)
    cases hload : load call t0.dir with
    | error e =>
      rw [hload] at h
      exact absurd h (by simp [Traced.fail])
    | ok s0 =>
      have hnone : call.resume = false → t0.dir.final = none :=
        fun hno => absurd hresume (by simp [hno])
      obtain ⟨hs0, hdir, hstep⟩ := load_holds hfiles0 hnone hload
      have hmissing := hspent.missing
      have hstored := hs0.fileMetadata
      rw [hdir, hfinal] at hstored
      rw [hstored] at hmissing
      rw [hload] at h
      dsimp only at h
      split at h
      next hcomplete =>
        have hle := of_decide_eq_true hcomplete
        rw [total_currentCounts] at hle
        omega
      next =>
        cases htables : fetchSchema call with
        | error e =>
          rw [htables] at h
          exact absurd h (by simp [Traced.fail])
        | ok tables =>
          -- there is no step left, and something remains
          have hleft : stepsLeft call s0.step = 0 := by
            have := hspent.steps
            rw [stepsLeft, hstep, houtcomes]
            omega
          have htotal := hs0.total
          rw [htables] at h
          dsimp only at h
          rw [hleft, steps, if_neg (by omega)] at h
          exact absurd h (by simp [Traced.fail])

/-- **A run whose budget is used up raises**, and leaves a directory where that is so. -/
theorem Exhausts.raises {dir : RunDir} (hfiles : FilesOk call.config dir)
    (h : Exhausts call dir s) :
    Holds call s ∧ Spent call.config s.dir ∧
      ∃ msg, (runQueryGeneration call dir).result = .error (.runtimeError msg) := by
  have hspent : Holds call s → call.config.maxSteps <
      ((OrdDict.keys s.dir.outcomes).foldl max 0 + 1 : Nat) → 0 < Counter.total s.remaining →
      Spent call.config s.dir := by
    intro hs hsteps hmissing
    have htotal := hs.total
    refine ⟨hsteps, ?_⟩
    rw [hs.fileMetadata]
    omega
  cases h with
  | before hstarted hstep hmissing =>
    obtain ⟨t, ht, hload, _⟩ := id hstarted
    obtain ⟨hfiles', hnone⟩ := ((checkConfig_files (s := openDir dir) hfiles).andThen
      fun t ht => clear_files ht).result t ht
    obtain ⟨hs, hdir, hsteps⟩ := load_holds hfiles' hnone hload
    refine ⟨hs, hspent hs (by rw [hdir, ← hsteps]; exact hstep) hmissing, ?_⟩
    have hleft : stepsLeft call s.step = 0 := by
      rw [stepsLeft]
      omega
    rw [hstarted.result, hleft, steps, if_neg (Nat.ne_of_gt hmissing)]
    exact ⟨_, rfl⟩
  | after hfinal hstep hmissing =>
    obtain ⟨hs, _⟩ := ((runQueryGeneration_holds hfiles).writes _ hfinal).final _ rfl
    obtain ⟨s0, hstarted, hsteps⟩ := started_of_mem (Or.inr rfl) hfinal
    obtain ⟨hkeys, hmsg⟩ := steps_exhausted _ rfl hsteps hstep hmissing
    have hle := (Sampling.le_foldl_max (OrdDict.keys s.dir.outcomes) 0).2 _ hkeys
    exact ⟨hs, hspent hs (by omega) hmissing, by rwa [hstarted.result]⟩

end

/-- **There is no partial result**: when the budget is used up, over any number of interrupted and
resumed runs, the run raises, and so does every later one that resumes with the configuration. -/
theorem exhausted_raises {config : Config} {dir : RunDir} (h : Reachable config dir)
    (call later : Call) (hcall : normalizeConfig call.config = normalizeConfig config)
    (hlater : normalizeConfig later.config = normalizeConfig config) (hresume : later.resume = true)
    {s : Session} (hexhausts : Exhausts call dir s) :
    (∃ msg, (runQueryGeneration call dir).result = .error (.runtimeError msg)) ∧
      (∃ e, (runQueryGeneration later s.dir).result = .error e) ∧
      ¬ PartialResult call later dir s := by
  obtain ⟨hs, hspent, msg, hmsg⟩ := hexhausts.raises (h.filesOk.of_normalizeConfig hcall.symm)
  have hsame := hcall.trans hlater.symm
  have hsteps := congrArg Config.maxSteps hsame
  have hqueries := congrArg Config.nQueries hsame
  dsimp only [normalizeConfig] at hsteps hqueries
  refine ⟨⟨msg, hmsg⟩, resumed_raises (hs.filesOk.of_normalizeConfig hsame) hresume
    ⟨hsteps ▸ hspent.steps, hqueries ▸ hspent.missing⟩, fun hpartial => ?_⟩
  obtain ⟨t, _, ht, _⟩ := hpartial.returned
  exact absurd (ht.symm.trans hmsg) (by simp)

/-- One step for two queries, of which the second has the text of the first. -/
def oneStep : Call := { twoQueries with config := { twoQueries.config with maxSteps := 1 } }

/-- The run after its step. -/
def afterOneStep : Session :=
  ((runQueryGeneration oneStep emptyDir).writes[3]?.map (·.2)).getD (openDir emptyDir)

theorem oneStep_exhausts : Exhausts oneStep emptyDir afterOneStep :=
  .after (k := 1) (List.mem_of_getElem? (i := 3) (by decide +kernel)) (by decide)
    (by decide +kernel)

/-- A query has been collected, and neither this call nor the next returns it. -/
theorem oneStep_no_partial_result : afterOneStep.queries = ["SELECT 1"] ∧
    ¬ ∀ (config : Config) (dir : RunDir) (call later : Call) (s : Session), Reachable config dir →
      normalizeConfig call.config = normalizeConfig config →
      normalizeConfig later.config = normalizeConfig config → later.resume = true →
      Exhausts call dir s → PartialResult call later dir s := by
  refine ⟨by decide +kernel, fun hclaim => ?_⟩
  obtain ⟨⟨t, _, ht, _⟩, _⟩ := hclaim oneStep.config emptyDir oneStep oneStep afterOneStep .empty
    rfl rfl rfl oneStep_exhausts
  have hnone : (runQueryGeneration oneStep emptyDir).result.toOption.isSome = false := by
    decide +kernel
  rw [ht] at hnone
  exact absurd hnone (by simp [Except.toOption])

theorem oneStep_raises :
    (∃ msg, (runQueryGeneration oneStep emptyDir).result = .error (.runtimeError msg)) ∧
      (∃ e, (runQueryGeneration oneStep afterOneStep.dir).result = .error e) ∧
      ¬ PartialResult oneStep oneStep emptyDir afterOneStep :=
  exhausted_raises .empty oneStep oneStep rfl rfl rfl oneStep_exhausts

end DbPlanBench.QueryGen
