import DbPlanBench.Lib.Slots
import DbPlanBench.Optimize.Submit
import Mathlib.Data.List.FinRange

/-!
# The verdict on a plan

`validate_plan_result_set` compares the results of one baseline and `n` candidate
executions as they arrive. Whatever arrives first, the first candidate to arrive is
compared with the baseline and with every other candidate (`arriveAll_none_iff`),
so no verdict of success comes without both comparisons. When the comparison is an
equivalence, that is the same for every order: all the data are equal.
-/

namespace DbPlanBench.Optimize

/-! ## Orders -/

theorem perm_val_congr (σ : (n : Nat) → Equiv.Perm (Fin n)) {n m : Nat} (h : n = m) (i : Nat)
    (hn : i < n) (hm : i < m) : (σ n ⟨i, hn⟩).val = (σ m ⟨i, hm⟩).val := by
  subst h
  rfl

/-- The order in which operations complete depends on their number only. -/
theorem completed_map {α β : Type} (env : Env) (site : Site) (g : α → β) (l : List α) :
    completed env site (l.map g) = (completed env site l).map g := by
  apply List.ext_getElem
  · simp [completed]
  · intro i h h'
    simp only [completed, List.getElem_ofFn, List.getElem_map, List.get_eq_getElem]
    have hlen : i < l.length := by simpa [completed] using h'
    have hi := perm_val_congr (env.arrival site) (List.length_map g) i (by simpa using hlen) hlen
    exact congrArg g (by simp only [hi])

/-- Every operation completes once. -/
theorem completed_perm {α : Type} (env : Env) (site : Site) (l : List α) :
    (completed env site l).Perm l :=
  Slots.reorder_perm (env.arrival site) l

/-! ## One arrival -/

/-- An execution that succeeded with these data. -/
def Succeeds (outcome : Except PyErr Kwargs) (data : Json) : Prop :=
  ∃ r, outcome = .ok r ∧ r ≠ [] ∧ resultError r = none ∧
    OrdDict.get? r "result_data" = some data

theorem succeeds_of_resultData {r : Kwargs} {data : Json}
    (hgood : ¬ (r = [] ∨ (resultError r).isSome)) (hdata : resultData r = .ok data) :
    Succeeds (.ok r) data := by
  push Not at hgood
  refine ⟨r, rfl, hgood.1, by simpa using hgood.2, ?_⟩
  cases hget : OrdDict.get? r "result_data" with
  | none => simp [resultData, hget] at hdata
  | some d => simpa [resultData, hget] using hdata

/-- The comparison an arrival makes. -/
def Compared.passes (env : Env) (c : Compared) (isBase : Bool) (data : Json) : Bool :=
  match isBase, c.primaryCandData, c.baselineData with
  | true, some primary, _ => env.compareResultSets data primary
  | false, some primary, _ => env.compareResultSets primary data
  | false, none, some baseline => env.compareResultSets baseline data
  | _, none, _ => true

/-- What is kept after an arrival. -/
def Compared.next (c : Compared) (isBase : Bool) (data : Json) : Compared :=
  match isBase, c.primaryCandData with
  | true, none => { c with baselineData := notNone data }
  | false, none => ⟨none, notNone data⟩
  | _, some _ => c

theorem checked_eq_ok {same : Bool} {c c' : Compared} {text : String} :
    (if same = true then (.ok (.ok c) : Except PyErr (Except String Compared))
      else .ok (.error text)) = .ok (.ok c') ↔ same = true ∧ c' = c := by
  cases same with
  | true => simp [@eq_comm _ c c']
  | false => simp

theorem checked_eq_error {same : Bool} {c : Compared} {text err : String} :
    (if same = true then (.ok (.ok c) : Except PyErr (Except String Compared))
      else .ok (.error text)) = .ok (.error err) ↔ same = false ∧ text = err := by
  cases same with
  | true => simp
  | false => simp

/-- **An arrival that is no problem**: it succeeded, and what it is compared with equals it. -/
theorem arrive_eq_ok {env : Env} {c c' : Compared} {isBase : Bool}
    {outcome : Except PyErr Kwargs} : arrive env c isBase outcome = .ok (.ok c') ↔
      ∃ data, Succeeds outcome data ∧ c.passes env isBase data = true ∧
        c' = c.next isBase data := by
  unfold arrive
  cases outcome with
  | error exc => simp [Succeeds]
  | ok r =>
    by_cases hbad : r = [] ∨ (resultError r).isSome
    · simp only [if_pos hbad]
      constructor
      · intro h
        exact absurd h (by simp)
      · intro h
        obtain ⟨data, ⟨r', hr, hne, herr, _⟩, _⟩ := h
        injection hr with hr
        subst hr
        rcases hbad with hbad | hbad
        · exact absurd hbad hne
        · rw [herr] at hbad
          exact absurd hbad (by simp)
    · simp only [if_neg hbad]
      push Not at hbad
      obtain ⟨hne, herr⟩ := hbad
      have herr : resultError r = none := by simpa using herr
      cases hdata : OrdDict.get? r "result_data" with
      | none => simp [resultData, Succeeds, hdata]
      | some data =>
        have hsucc : ∀ d, Succeeds (.ok r) d ↔ d = data := by
          intro d
          simp [Succeeds, hne, herr, hdata, eq_comm]
        simp only [resultData, hdata, Except.ok_bind, hsucc, exists_eq_left]
        obtain ⟨baseline, primary⟩ := c
        -- the branches of the source: who arrives, and who has arrived before
        cases isBase with
        | true =>
          cases primary with
          | some p => exact checked_eq_ok
          | none => simp [Compared.passes, Compared.next, pure, Except.pure, @eq_comm _ c']
        | false =>
          cases primary with
          | some p => exact checked_eq_ok
          | none =>
            cases baseline with
            | some b => exact checked_eq_ok
            | none => simp [Compared.passes, Compared.next, pure, Except.pure, @eq_comm _ c']

/-! ## All arrivals -/

theorem arriveAll_cons {env : Env} {c : Compared} {isBase : Bool} {outcome : Except PyErr Kwargs}
    {rest : List (Bool × Except PyErr Kwargs)} :
    arriveAll env c ((isBase, outcome) :: rest) = .ok none ↔
      ∃ data, Succeeds outcome data ∧ c.passes env isBase data = true ∧
        arriveAll env (c.next isBase data) rest = .ok none := by
  rw [arriveAll, Except.bind_eq_ok]
  constructor
  · intro h
    obtain ⟨step, hstep, h⟩ := h
    cases step with
    | error text => exact absurd h (by simp [pure, Except.pure])
    | ok c' =>
      obtain ⟨data, hsucc, hpass, rfl⟩ := arrive_eq_ok.mp hstep
      exact ⟨data, hsucc, hpass, h⟩
  · intro h
    obtain ⟨data, hsucc, hpass, h⟩ := h
    exact ⟨.ok (c.next isBase data), arrive_eq_ok.mpr ⟨data, hsucc, hpass, rfl⟩, h⟩

/-- The execution succeeded, and its data equal those of the first candidate. -/
def Agrees (env : Env) (primary : Json) (isBase : Bool) (outcome : Except PyErr Kwargs) : Prop :=
  ∃ data, Succeeds outcome data ∧
    (isBase = true → env.compareResultSets data primary = true) ∧
    (isBase = false → env.compareResultSets primary data = true)

/-- Once a candidate has arrived, all others are compared with it. -/
theorem arriveAll_primary (env : Env) (baseline : Option Json) (primary : Json)
    (l : List (Bool × Except PyErr Kwargs)) :
    arriveAll env ⟨baseline, some primary⟩ l = .ok none ↔
      ∀ x ∈ l, Agrees env primary x.1 x.2 := by
  induction l with
  | nil => simp [arriveAll]
  | cons x rest ih =>
    obtain ⟨isBase, outcome⟩ := x
    have hstep : ∀ data, (Compared.mk baseline (some primary)).passes env isBase data = true ↔
        (isBase = true → env.compareResultSets data primary = true) ∧
          (isBase = false → env.compareResultSets primary data = true) := by
      intro data
      cases isBase with
      | true => simp [Compared.passes]
      | false => simp [Compared.passes]
    -- nothing is stashed any more
    have hnext : ∀ data, (Compared.mk baseline (some primary)).next isBase data =
        ⟨baseline, some primary⟩ := by
      intro data
      cases isBase with
      | true => rfl
      | false => rfl
    rw [arriveAll_cons, List.forall_mem_cons, ← ih]
    simp only [hstep, hnext, Agrees]
    constructor
    · intro h
      obtain ⟨data, hsucc, hpass, hrest⟩ := h
      exact ⟨⟨data, hsucc, hpass⟩, hrest⟩
    · intro h
      obtain ⟨⟨data, hsucc, hpass⟩, hrest⟩ := h
      exact ⟨data, hsucc, hpass, hrest⟩

/-- The executions in some order, the baseline as number 0. -/
def arrivals (outcome : Nat → Except PyErr Kwargs) (order : List Nat) :
    List (Bool × Except PyErr Kwargs) := order.map fun i => (decide (i = 0), outcome i)

section

variable {env : Env} {outcome : Nat → Except PyErr Kwargs} {first : Nat} {rest : List Nat}

theorem notNone_of_succeeds (hdata : ∀ i data, Succeeds (outcome i) data → data ≠ .null) {i : Nat}
    {data : Json} (h : Succeeds (outcome i) data) : notNone data = some data := by
  rw [notNone, if_neg (hdata i data h)]

/-- The arrivals after the first candidate. -/
theorem arriveAll_arrivals {baseline : Option Json} {primary : Json} (hnot : first ∉ rest) :
    arriveAll env ⟨baseline, some primary⟩ (arrivals outcome rest) = .ok none ↔
      ∀ i ∈ rest, i ≠ first → Agrees env primary (decide (i = 0)) (outcome i) := by
  rw [arriveAll_primary, arrivals, List.forall_mem_map]
  constructor
  · exact fun h i hi _ => h i hi
  · exact fun h i hi => h i hi (fun he => hnot (he ▸ hi))

/-- A candidate that arrives first is the reference from then on. -/
theorem arriveAll_candidateFirst
    (hdata : ∀ i data, Succeeds (outcome i) data → data ≠ .null) (hzero : first ≠ 0)
    (hnot : first ∉ rest) :
    arriveAll env ⟨none, none⟩ (arrivals outcome (first :: rest)) = .ok none ↔
      ∃ primary, Succeeds (outcome first) primary ∧
        ∀ i ∈ first :: rest, i ≠ first → Agrees env primary (decide (i = 0)) (outcome i) := by
  have hcand : decide (first = 0) = false := decide_eq_false hzero
  rw [arrivals, List.map_cons, hcand, arriveAll_cons]
  constructor
  · intro h
    obtain ⟨primary, hprimary, _, h⟩ := h
    simp only [Compared.next, notNone_of_succeeds hdata hprimary] at h
    refine ⟨primary, hprimary, fun i hi hne => ?_⟩
    rcases List.mem_cons.mp hi with rfl | hi
    · exact absurd rfl hne
    · exact (arriveAll_arrivals hnot).mp h i hi hne
  · intro h
    obtain ⟨primary, hprimary, h⟩ := h
    refine ⟨primary, hprimary, rfl, ?_⟩
    simp only [Compared.next, notNone_of_succeeds hdata hprimary]
    exact (arriveAll_arrivals hnot).mpr fun i hi => h i (List.mem_cons_of_mem _ hi)

/-- A baseline that arrives first waits for the candidate. -/
theorem arriveAll_baselineFirst
    (hdata : ∀ i data, Succeeds (outcome i) data → data ≠ .null) (hzero : first ≠ 0)
    (hnot : first ∉ rest) :
    arriveAll env ⟨none, none⟩ (arrivals outcome (0 :: first :: rest)) = .ok none ↔
      ∃ primary, Succeeds (outcome first) primary ∧
        ∀ i ∈ 0 :: first :: rest, i ≠ first →
          Agrees env primary (decide (i = 0)) (outcome i) := by
  have hbase : decide ((0 : Nat) = 0) = true := by decide
  have hcand : decide (first = 0) = false := decide_eq_false hzero
  rw [arrivals, List.map_cons, List.map_cons, hbase, hcand, arriveAll_cons]
  constructor
  · intro h
    obtain ⟨data, hsucc, _, h⟩ := h
    obtain ⟨primary, hprimary, hpass, h⟩ := arriveAll_cons.mp h
    simp only [Compared.next, Compared.passes, notNone_of_succeeds hdata hsucc,
      notNone_of_succeeds hdata hprimary] at hpass h
    refine ⟨primary, hprimary, fun i hi hne => ?_⟩
    rcases List.mem_cons.mp hi with rfl | hi
    · exact ⟨data, hsucc, fun _ => hpass, fun hf => absurd hf (by simp)⟩
    · rcases List.mem_cons.mp hi with rfl | hi
      · exact absurd rfl hne
      · exact (arriveAll_arrivals hnot).mp h i hi hne
  · intro h
    obtain ⟨primary, hprimary, h⟩ := h
    obtain ⟨data, hsucc, hpass, _⟩ := h 0 (List.mem_cons_self ..) (Ne.symm hzero)
    refine ⟨data, hsucc, rfl, arriveAll_cons.mpr ⟨primary, hprimary, ?_⟩⟩
    simp only [Compared.next, Compared.passes, notNone_of_succeeds hdata hsucc,
      notNone_of_succeeds hdata hprimary]
    exact ⟨hpass rfl, (arriveAll_arrivals hnot).mpr fun i hi =>
      h i (List.mem_cons_of_mem _ (List.mem_cons_of_mem _ hi))⟩

end

/-- **No problem in any order**: the first candidate to arrive agrees with all the others. -/
theorem arriveAll_none_iff {env : Env} {outcome : Nat → Except PyErr Kwargs} {order : List Nat}
    {first : Nat} (hdata : ∀ i data, Succeeds (outcome i) data → data ≠ .null)
    (hnodup : order.Nodup) (hfirst : order.find? (fun i => decide (i ≠ 0)) = some first) :
    arriveAll env ⟨none, none⟩ (arrivals outcome order) = .ok none ↔
      ∃ primary, Succeeds (outcome first) primary ∧
        ∀ i ∈ order, i ≠ first → Agrees env primary (decide (i = 0)) (outcome i) := by
  cases order with
  | nil => exact absurd hfirst (by simp)
  | cons a rest =>
    obtain ⟨ha, hnodup'⟩ := List.nodup_cons.mp hnodup
    by_cases hzero : a = 0
    · subst hzero
      cases rest with
      | nil => exact absurd hfirst (by simp)
      | cons b rest =>
        have hb0 : b ≠ 0 := fun he => ha (he ▸ List.mem_cons_self ..)
        have hfb : first = b := by simpa [hb0, eq_comm] using hfirst
        subst hfb
        exact arriveAll_baselineFirst hdata hb0 (List.nodup_cons.mp hnodup').1
    · have hfa : first = a := by simpa [hzero, eq_comm] using hfirst
      subst hfa
      exact arriveAll_candidateFirst hdata hzero ha

/-! ## The verdict -/

section

variable (env : Env) (site : Site) (candidate baseline : Json) (dataFolder : String) (args : Kwargs)

/-- The outcome of execution `i`. -/
def executed (i : Nat) : Except PyErr Kwargs :=
  (do
    let args ← Logged.lift (callKwargs ["operation", "input_str", "data_folder"]
      [("n_retry", kwarg args "n_retry" (.int 5)),
        ("exec_local", kwarg args "exec_local" (.bool false))]
      (without ["n_retry", "n_determinism_retries", "exec_local"] args))
    submitRunOperation env site i .execute (if i = 0 then baseline else candidate) dataFolder
      args : Submits Kwargs).result

/-- The order in which `n` candidates and the baseline complete. -/
def completionOrder (n : Nat) : List Nat := completed env site (List.range (1 + n))

/-- What an operation returns is the engine's answer. -/
theorem answer_of_submit {index : Nat} {operation : Operation} {input : Json} {r : Kwargs}
    (h : (submitRunOperation env site index operation input dataFolder args).result = .ok r) :
    env.answer site operation index = .ok r := by
  unfold submitRunOperation at h
  dsimp only at h
  split at h
  next => exact absurd h (by simp [Logged.lift])
  next =>
    obtain ⟨_, _, h⟩ := Logged.result_bind.mp h
    exact Except.mapError_eq_ok.mp h

/-- What the engine returned for an execution is its answer. -/
theorem answer_of_executed {i : Nat} {r : Kwargs}
    (h : executed env site candidate baseline dataFolder args i = .ok r) :
    env.answer site .execute i = .ok r := by
  rw [executed] at h
  obtain ⟨args', _, h⟩ := Logged.result_bind.mp h
  exact answer_of_submit env site dataFolder args' h

/-- The verdict is what the arrivals say, where there are enough workers. -/
theorem validatePlanResultSet_of_workers {n : Int}
    (hn : (kwarg args "n_determinism_retries" (.int 3)).asInt = some n)
    (hworkers : checkWorkers (if (kwarg args "exec_local" (.bool false)).truthy then 1
      else 1 + n) = .ok ()) :
    (validatePlanResultSet env site candidate baseline dataFolder args).result =
      arriveAll env ⟨none, none⟩
        (arrivals (executed env site candidate baseline dataFolder args)
          (completionOrder env site n.toNat)) := by
  unfold validatePlanResultSet
  dsimp only
  simp only [hn]
  rw [hworkers, Logged.bind_of_ok (a := ()) rfl]
  have hloop := Logged.result_forEach (ω := Submission) (ε := PyErr)
    (f := fun i => do
      let outcome ← Logged.attempt (do
        let args ← Logged.lift (callKwargs ["operation", "input_str", "data_folder"]
          [("n_retry", kwarg args "n_retry" (.int 5)),
            ("exec_local", kwarg args "exec_local" (.bool false))]
          (without ["n_retry", "n_determinism_retries", "exec_local"] args))
        submitRunOperation env site i .execute (if i = 0 then baseline else candidate) dataFolder
          args)
      return (decide (i = 0), outcome))
    (g := fun i => (decide (i = 0), executed env site candidate baseline dataFolder args i))
    (l := List.range (1 + n.toNat)) (fun i _ => rfl)
  rw [Logged.bind_of_ok hloop, completed_map]
  rfl

/-- A candidate or more is enough: there is one worker locally, and on Modal one for each execution. -/
theorem validatePlanResultSet_result {n : Int} (hpos : 1 ≤ n)
    (hn : (kwarg args "n_determinism_retries" (.int 3)).asInt = some n) :
    (validatePlanResultSet env site candidate baseline dataFolder args).result =
      arriveAll env ⟨none, none⟩
        (arrivals (executed env site candidate baseline dataFolder args)
          (completionOrder env site n.toNat)) := by
  refine validatePlanResultSet_of_workers env site candidate baseline dataFolder args hn ?_
  rw [checkWorkers, if_neg]
  split
  next => decide
  next => omega

/-- A verdict is what the arrivals say. -/
theorem arriveAll_of_verdict {verdict : Option String}
    (h : (validatePlanResultSet env site candidate baseline dataFolder args).result = .ok verdict) :
    ∃ n, (kwarg args "n_determinism_retries" (.int 3)).asInt = some n ∧
      arriveAll env ⟨none, none⟩ (arrivals (executed env site candidate baseline dataFolder args)
        (completionOrder env site n.toNat)) = .ok verdict := by
  cases hn : (kwarg args "n_determinism_retries" (.int 3)).asInt with
  | none =>
    unfold validatePlanResultSet at h
    simp only [hn] at h
    exact absurd h (by simp [Logged.lift])
  | some n =>
    refine ⟨n, rfl, ?_⟩
    cases hworkers : checkWorkers (if (kwarg args "exec_local" (.bool false)).truthy then 1
        else 1 + n) with
    | ok u =>
      rw [← h]
      exact (validatePlanResultSet_of_workers env site candidate baseline dataFolder args hn
        hworkers).symm
    | error e =>
      unfold validatePlanResultSet at h
      simp only [hn] at h
      rw [hworkers, Logged.bind_of_error (e := e) rfl] at h
      exact absurd h (by simp)

/-- The candidate that completes first, of `n`. -/
def firstCandidate (n : Nat) : Option Nat :=
  (completionOrder env site n).find? fun i => decide (i ≠ 0)

theorem mem_completionOrder {n i : Nat} : i ∈ completionOrder env site n ↔ i ≤ n := by
  rw [completionOrder, (completed_perm env site _).mem_iff, List.mem_range]
  omega

theorem exists_firstCandidate {n : Nat} (hn : 1 ≤ n) : ∃ first,
    firstCandidate env site n = some first ∧ 1 ≤ first ∧ first ≤ n := by
  have hsome : (firstCandidate env site n).isSome := by
    rw [firstCandidate, List.find?_isSome]
    exact ⟨1, (mem_completionOrder env site).mpr hn, by decide⟩
  obtain ⟨first, hfirst⟩ := Option.isSome_iff_exists.mp hsome
  have hne : first ≠ 0 := by simpa using List.find?_some hfirst
  have hle := (mem_completionOrder env site).mp (List.mem_of_find?_eq_some hfirst)
  exact ⟨first, hfirst, by omega, hle⟩

variable {env site candidate baseline dataFolder args} in
/-- **The verdict is `None`** exactly when the first candidate agrees with all other executions. -/
theorem validatePlanResultSet_none_iff {n : Int} (hpos : 1 ≤ n)
    (hn : (kwarg args "n_determinism_retries" (.int 3)).asInt = some n)
    (hdata : ∀ i r, env.answer site .execute i = .ok r → OrdDict.get? r "result_data" ≠ some .null)
    {first : Nat} (hfirst : firstCandidate env site n.toNat = some first) :
    (validatePlanResultSet env site candidate baseline dataFolder args).result = .ok none ↔
      ∃ primary, Succeeds (executed env site candidate baseline dataFolder args first) primary ∧
        ∀ i, i ≤ n.toNat → i ≠ first → Agrees env primary (decide (i = 0))
          (executed env site candidate baseline dataFolder args i) := by
  have hnodup : (completionOrder env site n.toNat).Nodup :=
    (completed_perm env site _).nodup_iff.mpr List.nodup_range
  have hnull : ∀ i data, Succeeds (executed env site candidate baseline dataFolder args i) data →
      data ≠ .null := by
    rintro i data ⟨r, hr, _, _, hget⟩ rfl
    exact hdata i r (answer_of_executed env site candidate baseline dataFolder args hr) hget
  rw [validatePlanResultSet_result env site candidate baseline dataFolder args hpos hn,
    arriveAll_none_iff hnull hnodup hfirst]
  simp only [mem_completionOrder]

end

/-- All executions succeed with data that equal some value. -/
def AllEqual (env : Env) (outcome : Nat → Except PyErr Kwargs) (n : Nat) : Prop :=
  ∃ value, ∀ i, i ≤ n → ∃ data, Succeeds (outcome i) data ∧
    env.compareResultSets data value = true

/-- For an equivalence it does not matter which candidate the others are compared with. -/
theorem agrees_iff_allEqual {env : Env} {outcome : Nat → Except PyErr Kwargs} {n first : Nat}
    (heq : Equivalence fun a b => env.compareResultSets a b = true) (hfirst : first ≤ n) :
    (∃ primary, Succeeds (outcome first) primary ∧
      ∀ i, i ≤ n → i ≠ first → Agrees env primary (decide (i = 0)) (outcome i)) ↔
        AllEqual env outcome n := by
  constructor
  · intro h
    obtain ⟨primary, hprimary, h⟩ := h
    refine ⟨primary, fun i hi => ?_⟩
    by_cases hne : i = first
    · exact ⟨primary, hne ▸ hprimary, heq.refl primary⟩
    · obtain ⟨data, hsucc, hbase, hcand⟩ := h i hi hne
      refine ⟨data, hsucc, ?_⟩
      cases hzero : decide (i = 0) with
      | true => exact hbase hzero
      | false => exact heq.symm (hcand hzero)
  · intro h
    obtain ⟨value, h⟩ := h
    obtain ⟨primary, hprimary, hvalue⟩ := h first hfirst
    refine ⟨primary, hprimary, fun i hi _ => ?_⟩
    obtain ⟨data, hsucc, hdata⟩ := h i hi
    exact ⟨data, hsucc, fun _ => heq.trans hdata (heq.symm hvalue),
      fun _ => heq.trans hvalue (heq.symm hdata)⟩

/-- The engine answered an execution with these data. -/
def Answers (env : Env) (site : Site) (i : Nat) (data : Json) : Prop :=
  ∃ r, env.answer site .execute i = .ok r ∧ r ≠ [] ∧ resultError r = none ∧
    OrdDict.get? r "result_data" = some data

/-- **A verdict of success is safe and does not depend on the order.** It is reached only if every
execution succeeded, the baseline's data equal those of the first candidate to arrive and these
equal those of every other candidate. If the comparison is an equivalence, it is reached in every
order or in none. -/
theorem validatePlanResultSet_verdict (env : Env) (site : Site) (candidate baseline : Json)
    (dataFolder : String) (args : Kwargs) (n : Int)
    (hn : (kwarg args "n_determinism_retries" (.int 3)).asInt = some n) (hpos : 1 ≤ n)
    (hdata : ∀ i r, env.answer site .execute i = .ok r →
      OrdDict.get? r "result_data" ≠ some .null) :
    ((validatePlanResultSet env site candidate baseline dataFolder args).result = .ok none →
      ∃ (first : Nat) (data : Nat → Json), firstCandidate env site n.toNat = some first ∧
        (∀ i, i ≤ n.toNat → Answers env site i (data i)) ∧
        env.compareResultSets (data 0) (data first) = true ∧
        ∀ i, 1 ≤ i → i ≤ n.toNat → i ≠ first →
          env.compareResultSets (data first) (data i) = true) ∧
    ((Equivalence fun a b => env.compareResultSets a b = true) →
      ∀ arrival : Site → (n : Nat) → Equiv.Perm (Fin n),
        (validatePlanResultSet { env with arrival } site candidate baseline dataFolder args).result
            = .ok none ↔
          (validatePlanResultSet env site candidate baseline dataFolder args).result = .ok none) := by
  have hlen : 1 ≤ n.toNat := by omega
  constructor
  · intro h
    obtain ⟨first, hfirst, hone, hle⟩ := exists_firstCandidate env site hlen
    obtain ⟨primary, hprimary, hrest⟩ := (validatePlanResultSet_none_iff hpos hn hdata hfirst).mp h
    -- the data of every execution, whether it is the reference or compared with it
    have hall : ∀ i, ∃ d, i ≤ n.toNat →
        Succeeds (executed env site candidate baseline dataFolder args i) d ∧
          (i = first → d = primary) ∧ (i ≠ first →
            (i = 0 → env.compareResultSets d primary = true) ∧
            (i ≠ 0 → env.compareResultSets primary d = true)) := by
      intro i
      by_cases hi : i ≤ n.toNat
      · by_cases hf : i = first
        · exact ⟨primary, fun _ => ⟨hf ▸ hprimary, fun _ => rfl, fun hne => absurd hf hne⟩⟩
        · obtain ⟨d, hsucc, hbase, hcand⟩ := hrest i hi hf
          exact ⟨d, fun _ => ⟨hsucc, fun he => absurd he hf, fun _ =>
            ⟨fun hz => hbase (decide_eq_true hz), fun hz => hcand (decide_eq_false hz)⟩⟩⟩
      · exact ⟨.null, fun h => absurd h hi⟩
    choose data hdata' using hall
    refine ⟨first, data, hfirst, fun i hi => ?_, ?_, fun i hone' hi hne => ?_⟩
    · obtain ⟨r, hr, hrest⟩ := (hdata' i hi).1
      exact ⟨r, answer_of_executed env site candidate baseline dataFolder args hr, hrest⟩
    · rw [(hdata' first hle).2.1 rfl]
      exact ((hdata' 0 (Nat.zero_le _)).2.2 (by omega)).1 rfl
    · rw [(hdata' first hle).2.1 rfl]
      exact ((hdata' i hi).2.2 hne).2 (by omega)
  · intro heq arrival
    -- in either order the verdict says that all data are equal
    obtain ⟨first, hfirst, _, hle⟩ := exists_firstCandidate env site hlen
    obtain ⟨first', hfirst', _, hle'⟩ := exists_firstCandidate { env with arrival } site hlen
    have heq' : Equivalence fun a b => ({ env with arrival } : Env).compareResultSets a b = true :=
      heq
    have hdata' : ∀ i r, ({ env with arrival } : Env).answer site .execute i = .ok r →
        OrdDict.get? r "result_data" ≠ some .null := hdata
    have hnone : (validatePlanResultSet { env with arrival } site candidate baseline dataFolder
        args).result = .ok none ↔ _ := validatePlanResultSet_none_iff hpos hn hdata' hfirst'
    rw [validatePlanResultSet_none_iff hpos hn hdata hfirst, hnone, agrees_iff_allEqual heq hle,
      agrees_iff_allEqual heq' hle']
    exact Iff.rfl

/-- The candidates return first, the last one before all others, and the baseline at the end. -/
def baselineLast : Env where
  localDataDir := "/data"
  str := fun _ => ""
  excText := fun _ => ""
  loads := fun _ => none
  answer := fun _ _ _ => .ok [("result_data", .str "[1, 2.0]"), ("rows", .int 1)]
  arrival := fun _ _ => Fin.revPerm
  queryOrder := fun n => Equiv.refl (Fin n)
  compareResultSets := fun a b => decide (a = b)
  computeMetricStats := fun _ => []
  localData := fun _ _ => .present
  patch := fun s _ => .ok s
  llm := fun _ _ _ _ _ => ⟨⟨.null, .null, .null, .null, .null⟩, none, some []⟩

/-- Three candidates whose data equal the baseline's: no problem, in this order and in any other. -/
theorem validatePlanResultSet_baselineLast :
    (∃ (first : Nat) (data : Nat → Json), firstCandidate baselineLast (.query 0) 3 = some first ∧
      baselineLast.compareResultSets (data 0) (data first) = true) ∧
    ∀ arrival : Site → (n : Nat) → Equiv.Perm (Fin n),
      (validatePlanResultSet { baselineLast with arrival } (.query 0) (.obj []) (.obj []) "/data"
        []).result = .ok none := by
  have hdata : ∀ i r, baselineLast.answer (.query 0) .execute i = .ok r →
      OrdDict.get? r "result_data" ≠ some .null := by
    intro i r h
    injection h with h
    rw [← h]
    decide
  have hnone : (validatePlanResultSet baselineLast (.query 0) (.obj []) (.obj []) "/data"
      []).result = .ok none := by rfl
  have heq : Equivalence fun a b => baselineLast.compareResultSets a b = true := by
    simp only [baselineLast, decide_eq_true_eq]
    exact eq_equivalence
  obtain ⟨hsafe, horder⟩ := validatePlanResultSet_verdict baselineLast (.query 0) (.obj []) (.obj [])
    "/data" [] 3 rfl (by decide) hdata
  obtain ⟨first, data, hfirst, _, hbase, _⟩ := hsafe hnone
  exact ⟨⟨first, data, hfirst, hbase⟩, fun arrival => (horder heq arrival).mpr hnone⟩

end DbPlanBench.Optimize
