import DbPlanBench.Lib.Search
import DbPlanBench.Optimize.Validate
import DbPlanBench.Optimize.Verdict

/-!
# What is reported as non-deterministic

`check_query_validity` executes the plan of a query several times and asks
`validate_plan_result_set` for a verdict. It comes as a text, and the caller looks
into it for the reason. The texts about a failed execution end in what the engine
said, so the reason it finds may come from there: a query is reported as
non-deterministic only when that was observed, exactly when the failure at which
the check stops does not speak of it (`checkQueryValidity_reports_iff`).
-/

namespace DbPlanBench.Optimize

open Search (infix_append_cons_iff)

/-! ## Looking for a word -/

/-- The texts that are read as non-determinism. -/
def ReadsNondeterministic (err : String) : Prop :=
  contains "mismatch" err ∨ contains "Non-deterministic" err

instance (err : String) : Decidable (ReadsNondeterministic err) :=
  inferInstanceAs (Decidable (_ ∨ _))

/-- What is put before the text of a failure does not matter. -/
theorem readsNondeterministic_append {start : String} (xs : List Char)
    (hstart : start.toList = xs ++ [' ']) (hmis : ¬ "mismatch".toList <:+: xs)
    (hnon : ¬ "Non-deterministic".toList <:+: xs) (text : String) :
    ReadsNondeterministic (start ++ text) ↔ ReadsNondeterministic text := by
  have hmem : ' ' ∉ "mismatch".toList ∧ ' ' ∉ "Non-deterministic".toList := by decide
  have happ : (start ++ text).toList = xs ++ ' ' :: text.toList := by
    rw [String.toList_append, hstart, List.append_assoc, List.singleton_append]
  simp only [ReadsNondeterministic, contains, decide_eq_true_eq, happ,
    infix_append_cons_iff hmem.1, infix_append_cons_iff hmem.2, hmis, hnon, false_or]

/-! ## The failure a check stops at -/

/-- The text of an execution that failed. -/
def failure (env : Env) : Except PyErr Kwargs → Option String
  | .error exc => some (env.excText exc)
  | .ok r =>
    if r = [] ∨ (resultError r).isSome then
      some (env.str ((OrdDict.get? r "error").getD (.str "Unknown error")))
    else none

/-- The arrivals are no problem; what has been compared after them. -/
inductive NoProblem (env : Env) : Compared → List (Bool × Except PyErr Kwargs) → Compared → Prop
  | nil (c : Compared) : NoProblem env c [] c
  | cons {c c' c'' : Compared} {isBase : Bool} {outcome : Except PyErr Kwargs}
    {rest : List (Bool × Except PyErr Kwargs)} (first : arrive env c isBase outcome = .ok (.ok c'))
    (others : NoProblem env c' rest c'') : NoProblem env c ((isBase, outcome) :: rest) c''

/-- An error comes from the first arrival that is a problem. -/
theorem arriveAll_eq_some {env : Env} {text : String} : ∀ {l : List (Bool × Except PyErr Kwargs)}
    {c : Compared}, arriveAll env c l = .ok (some text) ↔
      ∃ pre isBase outcome post c', l = pre ++ (isBase, outcome) :: post ∧
        NoProblem env c pre c' ∧ arrive env c' isBase outcome = .ok (.error text)
  | [], c => by simp [arriveAll]
  | (isBase, outcome) :: rest, c => by
    rw [arriveAll, Except.bind_eq_ok]
    constructor
    · intro h
      obtain ⟨step, hstep, h⟩ := h
      cases step with
      | error text' =>
        obtain rfl : text' = text := by simpa [pure, Except.pure] using h
        exact ⟨[], isBase, outcome, rest, c, rfl, .nil c, hstep⟩
      | ok c' =>
        obtain ⟨pre, isBase', outcome', post, c'', rfl, hpre, hfail⟩ := arriveAll_eq_some.mp h
        exact ⟨(isBase, outcome) :: pre, isBase', outcome', post, c'', rfl, .cons hstep hpre, hfail⟩
    · intro h
      obtain ⟨pre, isBase', outcome', post, c', hl, hpre, hfail⟩ := h
      cases hpre with
      | nil =>
        obtain ⟨hx, rfl⟩ := List.cons_eq_cons.mp hl
        obtain ⟨rfl, rfl⟩ := Prod.mk.inj hx
        exact ⟨.error text, hfail, rfl⟩
      | cons first others =>
        obtain ⟨hx, rfl⟩ := List.cons_eq_cons.mp hl
        obtain ⟨rfl, rfl⟩ := Prod.mk.inj hx
        exact ⟨_, first, arriveAll_eq_some.mpr ⟨_, _, _, _, _, rfl, others, hfail⟩⟩

/-- How the text about a failed execution starts. -/
def failureStarts : List String :=
  ["Validation failed: ", "Baseline execution failed: ", "Candidate execution failed: "]

theorem readsNondeterministic_failure {start : String} (h : start ∈ failureStarts) (text : String) :
    ReadsNondeterministic (start ++ text) ↔ ReadsNondeterministic text := by
  simp only [failureStarts, List.mem_cons, List.not_mem_nil, or_false] at h
  rcases h with rfl | rfl | rfl
  · exact readsNondeterministic_append "Validation failed:".toList (by decide +kernel)
      (by decide +kernel) (by decide +kernel) text
  · exact readsNondeterministic_append "Baseline execution failed:".toList
      (by decide +kernel) (by decide +kernel) (by decide +kernel) text
  · exact readsNondeterministic_append "Candidate execution failed:".toList
      (by decide +kernel) (by decide +kernel) (by decide +kernel) text

theorem readsNondeterministic_mismatch : ReadsNondeterministic resultSetMismatch := by
  decide +kernel

theorem readsNondeterministic_plan : ReadsNondeterministic nonDeterministicPlan := by
  decide +kernel

/-- An execution that failed is a problem, whenever it arrives. -/
theorem arrive_of_failure {env : Env} {outcome : Except PyErr Kwargs} {t : String}
    (h : failure env outcome = some t) (c : Compared) (isBase : Bool) :
    ∃ start ∈ failureStarts, arrive env c isBase outcome = .ok (.error (start ++ t)) := by
  cases outcome with
  | error exc =>
    injection h with h
    exact ⟨"Validation failed: ", by decide, by rw [← h]; rfl⟩
  | ok r =>
    by_cases hbad : r = [] ∨ (resultError r).isSome
    · rw [failure, if_pos hbad, Option.some.injEq] at h
      refine ⟨if isBase then "Baseline execution failed: " else "Candidate execution failed: ", ?_, ?_⟩
      · cases isBase with
        | true => decide
        | false => decide
      · rw [arrive, if_pos hbad, ← h]
    · rw [failure, if_neg hbad] at h
      exact absurd h (by simp)

/-- An execution that did not fail is a problem if it compares unequal. -/
theorem unequal_of_arrive {env : Env} {c : Compared} {isBase : Bool} {outcome : Except PyErr Kwargs}
    {text : String} (hok : failure env outcome = none)
    (h : arrive env c isBase outcome = .ok (.error text)) :
    ReadsNondeterministic text ∧ ∃ data, Succeeds outcome data ∧
      c.passes env isBase data = false := by
  cases outcome with
  | error exc => exact absurd hok (by simp [failure])
  | ok r =>
    by_cases hbad : r = [] ∨ (resultError r).isSome
    · rw [failure, if_pos hbad] at hok
      exact absurd hok (by simp)
    · rw [arrive, if_neg hbad] at h
      obtain ⟨data, hdata, h⟩ := Except.bind_eq_ok.mp h
      have hsucc := succeeds_of_resultData hbad hdata
      obtain ⟨baseline, primary⟩ := c
      cases isBase with
      | true =>
        cases primary with
        | some p =>
          obtain ⟨hne, rfl⟩ := checked_eq_error.mp h
          exact ⟨readsNondeterministic_mismatch, data, hsucc, hne⟩
        | none => simp [pure, Except.pure] at h
      | false =>
        cases primary with
        | some p =>
          obtain ⟨hne, rfl⟩ := checked_eq_error.mp h
          exact ⟨readsNondeterministic_plan, data, hsucc, hne⟩
        | none =>
          cases baseline with
          | some b =>
            obtain ⟨hne, rfl⟩ := checked_eq_error.mp h
            exact ⟨readsNondeterministic_mismatch, data, hsucc, hne⟩
          | none => simp [pure, Except.pure] at h

/-! ## What has been compared -/

/-- What is kept comes from executions that have arrived and succeeded. -/
structure KeptFrom (outcome : Nat → Except PyErr Kwargs) (arrived : List Nat) (c : Compared) :
    Prop where
  primary : ∀ d, c.primaryCandData = some d → ∃ i ∈ arrived, i ≠ 0 ∧ Succeeds (outcome i) d
  baseline : ∀ d, c.baselineData = some d → 0 ∈ arrived ∧ Succeeds (outcome 0) d

theorem notNone_eq_some {v d : Json} (h : notNone v = some d) : v = d := by
  unfold notNone at h
  split at h
  next => exact absurd h (by simp)
  next => exact Option.some.inj h

/-- An execution that succeeds is kept, or nothing changes. -/
theorem KeptFrom.next {outcome : Nat → Except PyErr Kwargs} {arrived : List Nat} {c : Compared}
    (h : KeptFrom outcome arrived c) {i : Nat} {data : Json} (hsucc : Succeeds (outcome i) data) :
    KeptFrom outcome (arrived ++ [i]) (c.next (decide (i = 0)) data) := by
  have hi : i ∈ arrived ++ [i] := List.mem_append_right _ (List.mem_singleton_self i)
  have hprimary : ∀ d, c.primaryCandData = some d →
      ∃ j ∈ arrived ++ [i], j ≠ 0 ∧ Succeeds (outcome j) d := by
    intro d hd
    obtain ⟨j, hj, hrest⟩ := h.primary d hd
    exact ⟨j, List.mem_append_left _ hj, hrest⟩
  have hbaseline : ∀ d, c.baselineData = some d → 0 ∈ arrived ++ [i] ∧ Succeeds (outcome 0) d :=
    fun d hd => (h.baseline d hd).imp_left (List.mem_append_left _)
  obtain ⟨baseline, primary⟩ := c
  cases primary with
  | some p =>
    refine ⟨?_, ?_⟩
    · simpa [Compared.next] using hprimary
    · simpa [Compared.next] using hbaseline
  | none =>
    by_cases hzero : i = 0
    · subst hzero
      refine ⟨fun d hd => absurd hd (by simp [Compared.next]), fun d hd => ?_⟩
      rw [← notNone_eq_some hd]
      exact ⟨hi, hsucc⟩
    · rw [decide_eq_false hzero]
      refine ⟨fun d hd => ?_, fun d hd => absurd hd (by simp [Compared.next])⟩
      rw [← notNone_eq_some hd]
      exact ⟨i, hi, hzero, hsucc⟩

/-- Along arrivals that are no problem. -/
theorem NoProblem.keptFrom {env : Env} {outcome : Nat → Except PyErr Kwargs} {c' : Compared} :
    ∀ {rest arrived : List Nat} {c : Compared}, NoProblem env c (arrivals outcome rest) c' →
      KeptFrom outcome arrived c → KeptFrom outcome (arrived ++ rest) c'
  | [], arrived, c, h, hkept => by
    cases h with
    | nil => rwa [List.append_nil]
  | i :: rest, arrived, c, h, hkept => by
    cases h with
    | cons first others =>
      obtain ⟨data, hsucc, _, rfl⟩ := arrive_eq_ok.mp first
      have hrest := NoProblem.keptFrom others (hkept.next hsucc)
      rwa [List.append_assoc, List.singleton_append] at hrest

/-- Two of the executions `0` to `n` succeeded, and their results compare unequal. -/
def ObservedUnequal (env : Env) (outcome : Nat → Except PyErr Kwargs) (n : Nat) : Prop :=
  ∃ i j, i ≤ n ∧ j ≤ n ∧ i ≠ j ∧ ∃ a b, Succeeds (outcome i) a ∧ Succeeds (outcome j) b ∧
    env.compareResultSets a b = false

/-- A comparison that fails is one with an execution that has arrived. -/
theorem KeptFrom.observed {env : Env} {outcome : Nat → Except PyErr Kwargs} {arrived : List Nat}
    {c : Compared} (h : KeptFrom outcome arrived c) {n i : Nat} (hle : ∀ j ∈ arrived, j ≤ n)
    (hi : i ≤ n) (hnew : i ∉ arrived) {data : Json} (hsucc : Succeeds (outcome i) data)
    (hne : c.passes env (decide (i = 0)) data = false) : ObservedUnequal env outcome n := by
  obtain ⟨baseline, primary⟩ := c
  cases primary with
  | some p =>
    obtain ⟨j, hj, _, hp⟩ := h.primary p rfl
    have hij : i ≠ j := fun he => hnew (he ▸ hj)
    cases hzero : decide (i = 0) with
    | true =>
      rw [hzero] at hne
      exact ⟨i, j, hi, hle j hj, hij, data, p, hsucc, hp, hne⟩
    | false =>
      rw [hzero] at hne
      exact ⟨j, i, hle j hj, hi, hij.symm, p, data, hp, hsucc, hne⟩
  | none =>
    cases hzero : decide (i = 0) with
    | true =>
      rw [hzero] at hne
      exact absurd hne (by simp [Compared.passes])
    | false =>
      rw [hzero] at hne
      cases baseline with
      | some b =>
        obtain ⟨hmem, hb⟩ := h.baseline b rfl
        have hi0 : i ≠ 0 := of_decide_eq_false hzero
        exact ⟨0, i, Nat.zero_le n, hi, hi0.symm, b, data, hb, hsucc, hne⟩
      | none => exact absurd hne (by simp [Compared.passes])

/-! ## One check -/

/-- An execution of the query's plan. -/
def planExecution (env : Env) (site : Site) (i : Nat) : Except PyErr Kwargs :=
  (env.answer site .execute i).mapError .runtimeError

/-- The query's validation leads to executions of its plan. -/
def ChecksDeterminism (env : Env) (site : Site) : Prop :=
  ∃ result plan, env.answer site .validate 0 = .ok result ∧ result ≠ [] ∧
    OrdDict.get? result "error" = none ∧ determinismPlan result = .ok (some plan)

/-- The executions arrive without a problem until one that failed with this text. -/
def StopsAtFailure (env : Env) (site : Site) (n : Nat) (text : String) : Prop :=
  ∃ pre i post c, completionOrder env site n = pre ++ i :: post ∧
    NoProblem env ⟨none, none⟩ (arrivals (planExecution env site) pre) c ∧
    failure env (planExecution env site i) = some text

/-- `n_determinism_retries`, as a number of executions. -/
def determinismRetries (args : Kwargs) : Nat :=
  ((kwarg args "n_determinism_retries" (.int 3)).asInt.getD 0).toNat

/-- **A check reports what it saw**: non-determinism only if two executions compare unequal, and an
error if it stopped at one that failed. -/
structure ReportsObserved (env : Env) (site : Site) (n : Nat) (v : ValidationResult) : Prop where
  observed : v.isNondeterministic = true → ObservedUnequal env (planExecution env site) n
  stopped : ChecksDeterminism env site → ∀ text, StopsAtFailure env site n text →
    v.error ≠ none ∧ v.isNondeterministic = false

section

variable {env : Env} {site : Site}

theorem not_mem_keys_of_callKwargs {positional : List String} {explicit kwargs args : Kwargs}
    (h : callKwargs positional explicit kwargs = .ok args) {name : String}
    (hname : name ∈ positional ++ OrdDict.keys explicit) : name ∉ OrdDict.keys kwargs := by
  unfold callKwargs at h
  split at h
  next => exact absurd h (by simp)
  next hno => exact fun hmem => hno ⟨name, hname, hmem⟩

theorem args_of_callKwargs {positional : List String} {explicit kwargs args : Kwargs}
    (h : callKwargs positional explicit kwargs = .ok args) : args = explicit ++ kwargs := by
  unfold callKwargs at h
  split at h
  next => exact absurd h (by simp)
  next => exact (Except.ok.inj h).symm

/-- The executions for a query's plan are submitted with what its validation was submitted with. -/
theorem executed_eq_planExecution {kwargs submitArgs planArgs : Kwargs} {nRetries execLocal : Json}
    (hsubmit : callKwargs ["operation", "input_str", "data_folder"]
      [("n_retry", .int 5), ("exec_local", execLocal)] kwargs = .ok submitArgs)
    (hplan : callKwargs ["candidate_plan_str", "baseline_plan_str", "data_folder"]
      [("n_retry", .int 5), ("n_determinism_retries", nRetries), ("exec_local", execLocal)] kwargs =
        .ok planArgs) (plan : Json) (dataFolder : String) (i : Nat) :
    executed env site plan plan dataFolder planArgs i = planExecution env site i := by
  have hretry : kwarg planArgs "n_retry" (.int 5) = .int 5 :=
    kwarg_callKwargs_explicit hplan "n_retry" rfl _
  obtain rfl := args_of_callKwargs hplan
  -- nothing is given twice here either
  have hcall : ∀ explicit : Kwargs, OrdDict.keys explicit = ["n_retry", "exec_local"] →
      callKwargs ["operation", "input_str", "data_folder"] explicit
        (without ["n_retry", "n_determinism_retries", "exec_local"]
          ([("n_retry", .int 5), ("n_determinism_retries", nRetries), ("exec_local", execLocal)] ++
            kwargs)) = .ok (explicit ++ without ["n_retry", "n_determinism_retries", "exec_local"]
          ([("n_retry", .int 5), ("n_determinism_retries", nRetries), ("exec_local", execLocal)] ++
            kwargs)) := by
    intro explicit hkeys
    rw [callKwargs, if_neg]
    intro h
    obtain ⟨name, hname, hmem⟩ := h
    obtain ⟨p, hp, rfl⟩ := List.mem_map.mp hmem
    obtain ⟨hp, hnot⟩ := List.mem_filter.mp hp
    rw [hkeys] at hname
    rcases List.mem_append.mp hp with hp | hp
    · simp only [List.mem_cons, List.not_mem_nil, or_false] at hp
      rcases hp with rfl | rfl | rfl
      all_goals exact absurd hnot (by simp)
    · exact not_mem_keys_of_callKwargs hsubmit hname (List.mem_map_of_mem hp)
  rw [executed, hcall _ rfl, Logged.bind_of_ok rfl]
  unfold submitRunOperation
  dsimp only
  rw [if_neg]
  · rfl
  · intro h
    obtain ⟨_, hneg⟩ := h
    rw [hretry] at hneg
    have hfive : (some (5 : Int)).any (fun x => decide (x < 0)) = true := hneg
    exact absurd hfive (by decide)

theorem isNondeterministic_of_goodResult {result : Kwargs} {seen : Bool} {v : ValidationResult}
    (h : goodResult result seen = .ok v) : v.isNondeterministic = seen := by
  unfold goodResult at h
  obtain ⟨_, _, h⟩ := Except.bind_eq_ok.mp h
  obtain ⟨_, _, h⟩ := Except.bind_eq_ok.mp h
  obtain ⟨_, _, h⟩ := Except.bind_eq_ok.mp h
  obtain ⟨_, _, h⟩ := Except.bind_eq_ok.mp h
  obtain ⟨_, _, h⟩ := Except.bind_eq_ok.mp h
  obtain ⟨_, _, h⟩ := Except.bind_eq_ok.mp h
  injection h with h
  rw [← h]

/-- **What a check returns** is decided by the arrivals of its executions, if it has any. -/
theorem result_checkQueryValidity {query dataset : String} {args : Kwargs} {v : ValidationResult}
    (h : (checkQueryValidity env site query dataset args).result = .ok v) :
    (¬ ChecksDeterminism env site ∧ v.isNondeterministic = false) ∨
      ChecksDeterminism env site ∧ ∃ verdict, arriveAll env ⟨none, none⟩
          (arrivals (planExecution env site)
            (completionOrder env site (determinismRetries args))) = .ok verdict ∧
        (v.isNondeterministic = true ↔ ∃ err, verdict = some err ∧ ReadsNondeterministic err) ∧
        (v.isNondeterministic = false → verdict ≠ none → v.error ≠ none) := by
  unfold checkQueryValidity at h
  dsimp only at h
  obtain ⟨scaleFactor, _, h⟩ := Logged.result_bind.mp h
  obtain ⟨submitArgs, hsubmit, h⟩ := Logged.result_bind.mp h
  obtain ⟨result, hresult, h⟩ := Logged.result_bind.mp h
  have hanswer := answer_of_submit env site _ _ hresult
  -- without a plan to execute there is nothing to see
  have hunchecked : (∀ plan, result = [] ∨ OrdDict.get? result "error" ≠ none ∨
      determinismPlan result ≠ .ok (some plan)) → ¬ ChecksDeterminism env site := by
    rintro hno ⟨result', plan, hanswer', hne, herr, hplan⟩
    obtain rfl : result = result' := Except.ok.inj (hanswer.symm.trans hanswer')
    rcases hno plan with hnil | hsome | hother
    · exact hne hnil
    · exact hsome herr
    · exact hother hplan
  by_cases hnil : result = []
  · rw [if_pos hnil] at h
    injection h with h
    exact Or.inl ⟨hunchecked fun _ => Or.inl hnil, by rw [← h]; rfl⟩
  rw [if_neg hnil] at h
  cases herr : OrdDict.get? result "error" with
  | some err =>
    simp only [herr] at h
    injection h with h
    exact Or.inl ⟨hunchecked fun _ => Or.inr (Or.inl (by simp [herr])), by rw [← h]; rfl⟩
  | none =>
    simp only [herr] at h
    obtain ⟨plan, hplan, h⟩ := Logged.result_bind.mp h
    cases plan with
    | none =>
      refine Or.inl ⟨hunchecked fun plan => Or.inr (Or.inr fun hsome => ?_),
        isNondeterministic_of_goodResult h⟩
      rw [show determinismPlan result = .ok none from hplan] at hsome
      exact absurd hsome (by simp)
    | some plan =>
      obtain ⟨planArgs, hcall, h⟩ := Logged.result_bind.mp h
      obtain ⟨verdict, hverdict, h⟩ := Logged.result_bind.mp h
      obtain ⟨n, hn, harrive⟩ := arriveAll_of_verdict env site plan plan _ planArgs hverdict
      rw [kwarg_callKwargs_explicit hcall "n_determinism_retries" rfl] at hn
      have hexec : ∀ folder, executed env site plan plan folder planArgs =
          planExecution env site :=
        fun folder => funext (executed_eq_planExecution hsubmit hcall plan folder)
      have hretries : n.toNat = determinismRetries args := by
        rw [determinismRetries, hn]
        rfl
      rw [hexec, hretries] at harrive
      refine Or.inr ⟨⟨result, plan, hanswer, hnil, herr, hplan⟩, verdict, harrive, ?_⟩
      cases verdict with
      | none =>
        have hfalse := isNondeterministic_of_goodResult h
        exact ⟨by simp [hfalse], fun _ hne => absurd rfl hne⟩
      | some err =>
        by_cases hreads : ReadsNondeterministic err
        · have htrue : v.isNondeterministic = true := by
            dsimp only at h
            rw [if_pos (show contains "mismatch" err ∨ contains "Non-deterministic" err from
              hreads)] at h
            exact isNondeterministic_of_goodResult h
          exact ⟨by simp [htrue, hreads], fun hfalse => by simp [htrue] at hfalse⟩
        · have hbad : ∃ text, v = badResult text result := by
            dsimp only at h
            rw [if_neg (show ¬ (contains "mismatch" err ∨ contains "Non-deterministic" err) from
              hreads)] at h
            injection h with h
            exact ⟨_, h.symm⟩
          obtain ⟨text, rfl⟩ := hbad
          exact ⟨by simp [badResult, hreads], fun _ _ => by simp [badResult]⟩

/-- A failure the check stops at makes the verdict. -/
theorem arriveAll_of_stops {n : Nat} {text : String} (h : StopsAtFailure env site n text) :
    ∃ err, arriveAll env ⟨none, none⟩ (arrivals (planExecution env site)
        (completionOrder env site n)) = .ok (some err) ∧
      (ReadsNondeterministic err ↔ ReadsNondeterministic text) := by
  obtain ⟨pre, i, post, c, horder, hpre, hfail⟩ := h
  obtain ⟨start, hstart, harrive⟩ := arrive_of_failure hfail c (decide (i = 0))
  refine ⟨start ++ text, arriveAll_eq_some.mpr ⟨_, _, _,
    arrivals (planExecution env site) post, c, ?_, hpre, harrive⟩,
    readsNondeterministic_failure hstart text⟩
  rw [horder, arrivals, List.map_append, List.map_cons]
  rfl

/-- A text about non-determinism comes from two executions that compare unequal, or from a failure. -/
theorem observed_or_stops {n : Nat} {err : String}
    (h : arriveAll env ⟨none, none⟩ (arrivals (planExecution env site)
      (completionOrder env site n)) = .ok (some err)) (hreads : ReadsNondeterministic err) :
    ObservedUnequal env (planExecution env site) n ∨
      ∃ text, StopsAtFailure env site n text ∧ ReadsNondeterministic text := by
  obtain ⟨pre, isBase, outcome, post, c, hl, hpre, harrive⟩ := arriveAll_eq_some.mp h
  -- the arrivals are those of execution numbers
  obtain ⟨preIds, rest, horder, rfl, hrest⟩ := List.map_eq_append_iff.mp hl
  obtain ⟨i, postIds, rfl, hi, rfl⟩ := List.map_eq_cons_iff.mp hrest
  obtain ⟨rfl, rfl⟩ := Prod.mk.inj hi
  cases hfail : failure env (planExecution env site i) with
  | some text =>
    have hstops : StopsAtFailure env site n text := ⟨preIds, i, postIds, c, horder, hpre, hfail⟩
    obtain ⟨err', herr', hiff⟩ := arriveAll_of_stops hstops
    obtain rfl : err = err' := Option.some.inj (Except.ok.inj (h.symm.trans herr'))
    exact Or.inr ⟨text, hstops, hiff.mp hreads⟩
  | none =>
    obtain ⟨_, data, hsucc, hne⟩ := unequal_of_arrive hfail harrive
    have hempty : KeptFrom (planExecution env site) [] ⟨none, none⟩ :=
      ⟨fun _ hd => absurd hd (by simp), fun _ hd => absurd hd (by simp)⟩
    have hkept := hpre.keptFrom hempty
    rw [List.nil_append] at hkept
    have hle : ∀ j ∈ completionOrder env site n, j ≤ n :=
      fun j hj => (mem_completionOrder env site).mp hj
    have hnodup : (completionOrder env site n).Nodup :=
      (completed_perm env site _).nodup_iff.mpr List.nodup_range
    rw [horder] at hle hnodup
    have hnew : i ∉ preIds := fun hmem =>
      (List.nodup_append.mp hnodup).2.2 i hmem i (List.mem_cons_self ..) rfl
    exact Or.inl (hkept.observed (fun j hj => hle j (List.mem_append_left _ hj))
      (hle i (List.mem_append_right _ (List.mem_cons_self ..))) hnew hsucc hne)

end

/-- **What a check reports was observed** exactly when the failure it stops at, if it stops at one,
has a text that does not speak of a mismatch or of non-determinism. -/
theorem checkQueryValidity_reports_iff (env : Env) (site : Site) (query dataset : String)
    (args : Kwargs) (v : ValidationResult)
    (h : (checkQueryValidity env site query dataset args).result = .ok v) :
    ReportsObserved env site (determinismRetries args) v ↔
      (ChecksDeterminism env site → ∀ text, StopsAtFailure env site (determinismRetries args) text →
        ¬ ReadsNondeterministic text) := by
  rcases result_checkQueryValidity h with ⟨hno, hfalse⟩ |
    ⟨hchecks, verdict, hverdict, hiff, herror⟩
  · exact ⟨fun _ hchecks => absurd hchecks hno, fun _ => ⟨fun htrue => by simp [hfalse] at htrue,
      fun hchecks => absurd hchecks hno⟩⟩
  · constructor
    · intro hreports _ text hstops hreads
      obtain ⟨err, herr, hsame⟩ := arriveAll_of_stops hstops
      obtain rfl : verdict = some err := Except.ok.inj (hverdict.symm.trans herr)
      have htrue := hiff.mpr ⟨err, rfl, hsame.mpr hreads⟩
      rw [(hreports.stopped hchecks text hstops).2] at htrue
      exact absurd htrue (by simp)
    · intro hsafe
      refine ⟨fun htrue => ?_, fun _ text hstops => ?_⟩
      · obtain ⟨err, rfl, hreads⟩ := hiff.mp htrue
        rcases observed_or_stops hverdict hreads with hobserved | ⟨text, hstops, hreads⟩
        · exact hobserved
        · exact absurd hreads (hsafe hchecks text hstops)
      · obtain ⟨err, herr, hsame⟩ := arriveAll_of_stops hstops
        obtain rfl : verdict = some err := Except.ok.inj (hverdict.symm.trans herr)
        have hfalse : v.isNondeterministic = false := by
          cases hseen : v.isNondeterministic with
          | false => rfl
          | true =>
            obtain ⟨err', herr', hreads⟩ := hiff.mp hseen
            obtain rfl : err = err' := Option.some.inj herr'
            exact absurd (hsame.mp hreads) (hsafe hchecks text hstops)
        exact ⟨herror hfalse (by simp), hfalse⟩

/-- The query is valid, and every execution of its plan fails with this text. -/
def failingExecutions (text : String) : Env where
  localDataDir := "/data"
  str := fun v => match v with
    | .str text => text
    | _ => ""
  excText := fun _ => ""
  loads := fun _ => none
  answer := fun _ operation _ => .ok (match operation with
    | .validate => [("is_syntax_valid", .bool true), ("plan", .obj []), ("can_run", .bool true),
      ("is_empty", .bool false), ("row_count", .int 1), ("execution_time", .int 1)]
    | _ => [("error", .str text)])
  arrival := fun _ n => Equiv.refl (Fin n)
  queryOrder := fun n => Equiv.refl (Fin n)
  compareResultSets := fun a b => decide (a = b)
  computeMetricStats := fun _ => []
  localData := fun _ _ => .present
  patch := fun s _ => .ok s
  llm := fun _ _ _ _ _ => ⟨⟨.null, .null, .null, .null, .null⟩, none, some []⟩

/-- A check whose executions fail for another reason reports an error. -/
theorem connectionReset_reports : ∃ v,
    (checkQueryValidity (failingExecutions "Connection reset") (.query 0) "SELECT 1" "tpch"
      []).result = .ok v ∧
    ReportsObserved (failingExecutions "Connection reset") (.query 0) (determinismRetries []) v := by
  have hok : (checkQueryValidity (failingExecutions "Connection reset") (.query 0) "SELECT 1" "tpch"
      []).result.toOption.isSome := by decide +kernel
  obtain ⟨v, hv⟩ := Except.exists_of_isSome hok
  refine ⟨v, hv, (checkQueryValidity_reports_iff (failingExecutions "Connection reset") (.query 0)
    "SELECT 1" "tpch" [] v hv).mpr ?_⟩
  intro _ text hstops
  obtain ⟨_, i, _, _, _, _, hfail⟩ := hstops
  obtain rfl : "Connection reset" = text := Option.some.inj hfail
  decide +kernel

/-- A check whose executions fail on the files they read reports non-determinism. -/
theorem schemaMismatch_reported : ∃ v,
    (checkQueryValidity (failingExecutions "Schema mismatch in part-0.parquet") (.query 0) "SELECT 1"
      "tpch" []).result = .ok v ∧ v.isNondeterministic = true ∧
    ¬ ReportsObserved (failingExecutions "Schema mismatch in part-0.parquet") (.query 0)
      (determinismRetries []) v := by
  have hseen : (checkQueryValidity (failingExecutions "Schema mismatch in part-0.parquet") (.query 0)
      "SELECT 1" "tpch" []).result.toOption.map (·.isNondeterministic) = some true := by
    decide +kernel
  cases hv : (checkQueryValidity (failingExecutions "Schema mismatch in part-0.parquet") (.query 0)
      "SELECT 1" "tpch" []).result with
  | error e =>
    rw [hv] at hseen
    exact absurd hseen (by simp [Except.toOption])
  | ok v =>
    rw [hv] at hseen
    have htrue : v.isNondeterministic = true := Option.some.inj hseen
    refine ⟨v, rfl, htrue, fun hreports => ?_⟩
    have hstops : StopsAtFailure (failingExecutions "Schema mismatch in part-0.parquet") (.query 0)
        (determinismRetries []) "Schema mismatch in part-0.parquet" :=
      ⟨[], 0, [1, 2, 3], ⟨none, none⟩, rfl, .nil _, rfl⟩
    have hfalse := (hreports.stopped ⟨_, .obj [], rfl, by decide, rfl, rfl⟩ _ hstops).2
    rw [htrue] at hfalse
    exact absurd hfalse (by simp)

end DbPlanBench.Optimize
