import DbPlanBench.Optimize.Validate
import DbPlanBench.Optimize.Verdict

/-!
# Repeated queries

Validation notices a repeated query only when a second occurrence of it validates,
keeps the first one to come under its position, and refuses all occurrences later by
their text. Planning without validation refuses a repeated query before it starts.
In every order, and whatever the single validations say, both refuse the same ones:
a query passes the first phase exactly when it occurs once and its own validation
succeeded (`validateAndPlanQueries_passes_iff`).
-/

namespace DbPlanBench.Optimize

/-! ## What has been harvested -/

/-- A completed validation: the position and the text of the query, and the verdict. -/
abbrev Completion := (Nat × String) × Verdict

def Verdict.isValid : Verdict → Bool
  | .valid .. => true
  | .failed _ => false

/-- A validation of this query that succeeded. -/
def succeededOn (query : String) (x : Completion) : Bool := decide (x.1.2 = query) && x.2.isValid

/-- A validation of this query that failed. -/
def failedOn (query : String) (x : Completion) : Bool := decide (x.1.2 = query) && !x.2.isValid

/-- The entry of `query_to_data` for a validation that succeeded. -/
def dataOf (x : Completion) : Option (Nat × Json × Json) :=
  match x.2 with
  | .valid plan rowCount => some (x.1.1, plan, rowCount)
  | .failed _ => none

/-- The verdict is one of the categories, if it is a failure. -/
def Verdict.Categorized : Verdict → Prop
  | .failed category => category ∈ deadLetterCategories
  | .valid .. => True

/-- **What is known after these validations**: a query is among the dead letters if one of its
validations failed or two succeeded, and its data are those of the first that succeeded. -/
structure Harvested (done : List Completion) (v : Validated) : Prop where
  seen : ∀ q, q ∈ v.seen ↔ ∃ x ∈ done, succeededOn q x = true
  dead : ∀ q, (∃ c, (c, q) ∈ v.deadLetters) ↔
    (∃ x ∈ done, failedOn q x = true) ∨ 2 ≤ done.countP (succeededOn q)
  categories : ∀ p ∈ v.deadLetters, p.1 ∈ deadLetterCategories
  keys : (OrdDict.keys v.queryToData).Nodup
  data : ∀ q, OrdDict.get? v.queryToData q = (done.find? (succeededOn q)).bind dataOf

theorem harvested_nil : Harvested [] ⟨[], [], []⟩ where
  seen := by simp
  dead := by simp
  categories := by simp
  keys := List.nodup_nil
  data := by simp

theorem exists_dead_append {dead : List (String × String)} {c query q : String} :
    (∃ c', (c', q) ∈ dead ++ [(c, query)]) ↔ (∃ c', (c', q) ∈ dead) ∨ query = q := by
  simp only [List.mem_append, List.mem_singleton, Prod.mk.injEq, exists_or]
  constructor
  · exact Or.imp_right fun ⟨_, _, h⟩ => h.symm
  · exact Or.imp_right fun h => ⟨c, rfl, h.symm⟩

theorem exists_mem_append_singleton {α : Type} {p : α → Prop} {l : List α} {x : α} :
    (∃ y ∈ l ++ [x], p y) ↔ (∃ y ∈ l, p y) ∨ p x := by
  simp only [List.mem_append, List.mem_singleton, or_and_right, exists_or, exists_eq_left]

section

variable {id : Nat} {query category q : String} {plan rowCount : Json}

@[simp]
theorem succeededOn_failed : succeededOn q ((id, query), .failed category) = false := by
  simp [succeededOn, Verdict.isValid]

@[simp]
theorem failedOn_failed :
    failedOn q ((id, query), .failed category) = true ↔ query = q := by
  simp [failedOn, Verdict.isValid]

@[simp]
theorem succeededOn_valid :
    succeededOn q ((id, query), .valid plan rowCount) = true ↔ query = q := by
  simp [succeededOn, Verdict.isValid]

@[simp]
theorem failedOn_valid : failedOn q ((id, query), .valid plan rowCount) = false := by
  simp [failedOn, Verdict.isValid]

end

theorem countP_append_valid (done : List Completion) (id : Nat) (query : String)
    (plan rowCount : Json) (q : String) :
    (done ++ [((id, query), Verdict.valid plan rowCount)]).countP (succeededOn q) =
      done.countP (succeededOn q) + if query = q then 1 else 0 := by
  rw [List.countP_append, List.countP_singleton]
  simp only [succeededOn_valid]

section

variable {done : List Completion} {v : Validated}

/-- A query has been seen when one of its validations succeeded. -/
theorem Harvested.mem_seen_iff (h : Harvested done v) {query : String} :
    query ∈ v.seen ↔ 0 < done.countP (succeededOn query) := by
  rw [List.countP_pos_iff, h.seen query]

/-- One more validation has failed. -/
theorem Harvested.failed (h : Harvested done v) (id : Nat) (query category : String)
    (hcategory : category ∈ deadLetterCategories) :
    Harvested (done ++ [((id, query), .failed category)])
      (harvest v id query (.failed category)) where
  seen := by
    intro q
    rw [exists_mem_append_singleton]
    simpa [harvest] using h.seen q
  dead := by
    intro q
    have hcount : [((id, query), Verdict.failed category)].countP (succeededOn q) = 0 := by simp
    rw [exists_mem_append_singleton, List.countP_append, failedOn_failed, hcount, Nat.add_zero,
      harvest, exists_dead_append, h.dead q, or_right_comm]
  categories := by
    intro p hp
    rcases List.mem_append.mp hp with hp | hp
    · exact h.categories p hp
    · rw [List.mem_singleton.mp hp]
      exact hcategory
  keys := h.keys
  data := by
    intro q
    have hnew : [((id, query), Verdict.failed category)].find? (succeededOn q) = none := by simp
    rw [List.find?_append, hnew, Option.or_none]
    exact h.data q

/-- A validation of a query that has been seen makes it a dead letter. -/
theorem Harvested.again (h : Harvested done v) (id : Nat) {query : String} (plan rowCount : Json)
    (hseen : query ∈ v.seen) :
    Harvested (done ++ [((id, query), .valid plan rowCount)])
      (harvest v id query (.valid plan rowCount)) := by
  rw [harvest, if_pos hseen]
  refine ⟨fun q => ?_, fun q => ?_, fun p hp => ?_, h.keys, fun q => ?_⟩
  · rw [exists_mem_append_singleton, succeededOn_valid, ← h.seen q]
    constructor
    · exact Or.inl
    · intro h
      rcases h with hq | rfl
      · exact hq
      · exact hseen
  · rw [exists_mem_append_singleton, failedOn_valid, exists_dead_append, h.dead q,
      countP_append_valid]
    by_cases hq : query = q
    · subst hq
      have := h.mem_seen_iff.mp hseen
      simp only [if_true, or_true, true_iff]
      exact Or.inr (by omega)
    · simp [hq]
  · rcases List.mem_append.mp hp with hp | hp
    · exact h.categories p hp
    · rw [List.mem_singleton.mp hp]
      exact List.mem_of_elem_eq_true rfl
  · rw [h.data q, List.find?_append]
    cases hfind : done.find? (succeededOn q) with
    | some x => rfl
    | none =>
      -- it is not the first validation of a query that has been seen
      have hne : query ≠ q := by
        intro heq
        obtain ⟨x, hx, hx'⟩ := (h.seen q).mp (heq ▸ hseen)
        exact (List.find?_eq_none.mp hfind x hx) hx'
      simp [hne]

/-- A validation of a query that has not been seen gives its data. -/
theorem Harvested.first (h : Harvested done v) (id : Nat) {query : String} (plan rowCount : Json)
    (hseen : query ∉ v.seen) :
    Harvested (done ++ [((id, query), .valid plan rowCount)])
      (harvest v id query (.valid plan rowCount)) := by
  have hzero : done.countP (succeededOn query) = 0 := by
    have := mt h.mem_seen_iff.mpr hseen
    omega
  rw [harvest, if_neg hseen]
  refine ⟨fun q => ?_, fun q => ?_, h.categories, OrdDict.nodup_keys_set _ _ h.keys, fun q => ?_⟩
  · rw [exists_mem_append_singleton, succeededOn_valid, ← h.seen q, List.mem_append,
      List.mem_singleton, @eq_comm _ q]
  · rw [exists_mem_append_singleton, failedOn_valid, h.dead q, countP_append_valid]
    by_cases hq : query = q
    · subst hq
      simp only [if_true, hzero]
      simp
    · simp [hq]
  · rw [OrdDict.get?_set, List.find?_append]
    by_cases hq : query = q
    · subst hq
      have hnone : done.find? (succeededOn query) = none := by
        rw [List.find?_eq_none]
        exact fun x hx hx' => hseen ((h.seen query).mpr ⟨x, hx, hx'⟩)
      rw [if_pos rfl, hnone, Option.none_or, List.find?_singleton,
        if_pos (succeededOn_valid.mpr rfl)]
      rfl
    · have hnew : [((id, query), Verdict.valid plan rowCount)].find? (succeededOn q) = none := by
        simp [hq]
      rw [if_neg hq, hnew, Option.or_none]
      exact h.data q

/-- **One more validation**, whatever it says. -/
theorem Harvested.step (h : Harvested done v) (x : Completion) (hx : x.2.Categorized) :
    Harvested (done ++ [x]) (harvest v x.1.1 x.1.2 x.2) := by
  obtain ⟨⟨id, query⟩, verdict⟩ := x
  cases verdict with
  | failed category => exact h.failed id query category hx
  | valid plan rowCount =>
    by_cases hseen : query ∈ v.seen
    · exact h.again id plan rowCount hseen
    · exact h.first id plan rowCount hseen

end

/-- All validations, in the order they complete. -/
theorem Harvested.all : ∀ {l : List ((Nat × String) × Except PyErr Verdict)}
    {done : List Completion} {v v' : Validated}, Harvested done v →
    (∀ x ∈ l, ∀ verdict, x.2 = .ok verdict → verdict.Categorized) → harvestAll v l = .ok v' →
    ∃ rest : List Completion, l = rest.map (fun x => (x.1, .ok x.2)) ∧ Harvested (done ++ rest) v'
  | [], done, v, v', h, _, hall => by
    obtain rfl : v = v' := Except.ok.inj hall
    exact ⟨[], rfl, by rwa [List.append_nil]⟩
  | (_, .error e) :: _, done, v, v', _, _, hall => absurd hall (by simp [harvestAll])
  | ((id, query), .ok verdict) :: l, done, v, v', h, hcat, hall => by
    have hnext := h.step ((id, query), verdict)
      (hcat _ (List.mem_cons_self ..) verdict rfl)
    obtain ⟨rest, hl, hrest⟩ := Harvested.all hnext
      (fun x hx => hcat x (List.mem_cons_of_mem _ hx)) hall
    refine ⟨((id, query), verdict) :: rest, by rw [hl]; rfl, ?_⟩
    rwa [List.append_assoc, List.singleton_append] at hrest

theorem categorized_classify (r : ValidationResult) : (classify r).Categorized := by
  unfold classify
  repeat' split
  all_goals first | exact List.mem_of_elem_eq_true rfl | trivial

/-! ## The validations of a run -/

/-- The validation of one query by `validate_queries` with these arguments. -/
def ownValidation (env : Env) (dataset : String) (args : Kwargs) (p : String × Nat) :
    Except PyErr Verdict := do
  let kwargs := without ["scale_factor", "exec_local", "seen_queries"] args
  let runnerKwargs ← runnerDict "runner_kwargs must be a dict" kwargs
  let runnerKwargs ← withScale "runner_kwargs['scale_factor']"
    (kwarg args "scale_factor" (.int defaultScaleFactor)) runnerKwargs
  let args ← callKwargs ["query", "dataset"]
    [("runner_kwargs", .obj runnerKwargs), ("verbose", .bool false),
      ("exec_local", kwarg args "exec_local" (.bool false))] (without ["runner_kwargs"] kwargs)
  (checkQueryValidity env (.query p.2) p.1 dataset args).result.map classify

/-- Every query completes once. -/
theorem inQueryOrder_perm {α : Type} (env : Env) (l : List α) : (inQueryOrder env l).Perm l :=
  Slots.reorder_perm env.queryOrder l

/-- The validations `done` are those of these queries, each once. -/
structure Complete (queries : List String) (own : String × Nat → Except PyErr Verdict)
    (done : List Completion) : Prop where
  perm : (done.map fun x => (x.1, (Except.ok x.2 : Except PyErr Verdict))).Perm
    (queries.zipIdx.map fun p => ((p.2, p.1), own p))

/-- What `validate_queries` returns has been harvested from the queries' own validations. -/
theorem harvested_of_validateQueries {env : Env} {queries : List String} {dataset : String}
    {maxWorkers : Int} {args : Kwargs} {v : Validated}
    (h : (validateQueries env queries dataset maxWorkers args).result = .ok v) :
    ∃ done, Harvested done v ∧ Complete queries (ownValidation env dataset args) done := by
  unfold validateQueries at h
  dsimp only at h
  obtain ⟨fields, hfields, h⟩ := Logged.result_bind.mp h
  by_cases hscale : kwarg args "scale_factor" (.int defaultScaleFactor) = .null
  · rw [if_pos hscale] at h
    exact absurd h (by simp [Logged.lift])
  rw [if_neg hscale] at h
  obtain ⟨runnerKwargs, hrunner, h⟩ := Logged.result_bind.mp h
  obtain ⟨_, _, h⟩ := Logged.result_bind.mp h
  obtain ⟨verdicts, hverdicts, h⟩ := Logged.result_bind.mp h
  -- every round of the loop returns the query's own validation
  have hown : ∀ p : String × Nat, ownValidation env dataset args p = Except.map classify
      (do
        let args ← Logged.lift (callKwargs ["query", "dataset"]
          [("runner_kwargs", .obj runnerKwargs), ("verbose", .bool false),
            ("exec_local", kwarg args "exec_local" (.bool false))]
          (without ["runner_kwargs"] (without ["scale_factor", "exec_local", "seen_queries"] args)))
        checkQueryValidity env (.query p.2) p.1 dataset args : Submits ValidationResult).result := by
    intro p
    unfold ownValidation
    dsimp only
    rw [show runnerDict _ _ = _ from hfields, Except.ok_bind,
      show withScale _ _ _ = _ from hrunner, Except.ok_bind]
    cases callKwargs ["query", "dataset"] _ _ with
    | ok a => rfl
    | error e => rfl
  obtain rfl : verdicts =
      queries.zipIdx.map fun p => ((p.2, p.1), ownValidation env dataset args p) := by
    refine Except.ok.inj (hverdicts.symm.trans (Logged.result_forEach fun p _ => ?_))
    rw [hown p]
    rfl
  have hperm := inQueryOrder_perm env
    (queries.zipIdx.map fun p => ((p.2, p.1), ownValidation env dataset args p))
  have hcat : ∀ x ∈ inQueryOrder env (queries.zipIdx.map fun p =>
      ((p.2, p.1), ownValidation env dataset args p)),
      ∀ verdict, x.2 = .ok verdict → verdict.Categorized := by
    intro x hx verdict hverdict
    obtain ⟨p, _, rfl⟩ := List.mem_map.mp (hperm.mem_iff.mp hx)
    rw [hown p] at hverdict
    obtain ⟨r, _, rfl⟩ := Except.map_eq_ok.mp hverdict
    exact categorized_classify r
  obtain ⟨done, hdone, hharvested⟩ := harvested_nil.all hcat h
  rw [List.nil_append] at hharvested
  exact ⟨done, hharvested, ⟨hdone ▸ hperm⟩⟩

section

variable {queries : List String} {own : String × Nat → Except PyErr Verdict} {done : List Completion}

theorem Complete.mem_iff (h : Complete queries own done) {id : Nat} {q : String}
    {verdict : Verdict} :
    ((id, q), verdict) ∈ done ↔ queries[id]? = some q ∧ own (q, id) = .ok verdict := by
  have hinj : Function.Injective
      fun x : Completion => (x.1, (Except.ok x.2 : Except PyErr Verdict)) := by
    rintro ⟨x, a⟩ ⟨y, b⟩ hxy
    obtain ⟨hx, hab⟩ := Prod.mk.inj hxy
    exact Prod.ext hx (Except.ok.inj hab)
  rw [← List.mem_map_of_injective hinj, h.perm.mem_iff, List.mem_map]
  constructor
  · intro h
    obtain ⟨⟨q', id'⟩, hp, hx⟩ := h
    obtain ⟨hid, hown⟩ := Prod.mk.inj hx
    obtain ⟨rfl, rfl⟩ := Prod.mk.inj hid
    exact ⟨List.mk_mem_zipIdx_iff_getElem?.mp hp, hown⟩
  · intro h
    obtain ⟨hget, hown⟩ := h
    exact ⟨(q, id), List.mk_mem_zipIdx_iff_getElem?.mpr hget, by rw [hown]⟩

/-- The occurrences of a query are the validations of it that succeeded and those that failed. -/
theorem Complete.count (h : Complete queries own done) (q : String) :
    queries.count q = done.countP (succeededOn q) + done.countP (failedOn q) := by
  have hqueries : (done.map fun x => x.1.2).Perm queries := by
    have hmap := h.perm.map fun x => x.1.2
    simpa [List.map_map, Function.comp_def] using hmap
  rw [← hqueries.count_eq q, List.count, List.countP_map]
  clear h hqueries
  induction done with
  | nil => rfl
  | cons x done ih =>
    obtain ⟨⟨id, q'⟩, verdict⟩ := x
    simp only [List.countP_cons, ih, Function.comp_apply, beq_iff_eq, succeededOn, failedOn]
    by_cases hq : q' = q
    · cases verdict with
      | valid plan rowCount => simp [hq, Verdict.isValid]; omega
      | failed category => simp [hq, Verdict.isValid]; omega
    · simp [hq]

variable {v : Validated}

/-- Entries of `query_to_data` are validations that succeeded. -/
theorem Harvested.mem_data (h : Harvested done v) {q : String} {id : Nat} {plan rowCount : Json}
    (hmem : (q, id, plan, rowCount) ∈ v.queryToData) :
    ((id, q), .valid plan rowCount) ∈ done := by
  have hget := OrdDict.get?_of_mem h.keys hmem
  rw [h.data q] at hget
  obtain ⟨⟨⟨id', q'⟩, verdict⟩, hfind, hdata⟩ := Option.bind_eq_some_iff.mp hget
  have hx := List.mem_of_find?_eq_some hfind
  have hq : q' = q := by
    have := List.find?_some hfind
    simp only [succeededOn, Bool.and_eq_true, decide_eq_true_eq] at this
    exact this.1
  cases verdict with
  | failed category => exact absurd hdata (by simp [dataOf])
  | valid plan' rowCount' =>
    simp only [dataOf, Option.some.injEq, Prod.mk.injEq] at hdata
    obtain ⟨rfl, rfl, rfl⟩ := hdata
    exact hq ▸ hx

/-- **When a query passes**: it occurs once, and its validation succeeded. -/
theorem Harvested.passes_iff (h : Harvested done v) (hc : Complete queries own done) {i : Nat}
    {q : String} (hq : queries[i]? = some q) :
    ((¬ ∃ c, (c, q) ∈ v.deadLetters) ∧ i ∈ v.queryToData.map (·.2.1)) ↔
      queries.count q = 1 ∧ ∃ plan rowCount, own (q, i) = .ok (.valid plan rowCount) := by
  have hcount := hc.count q
  rw [h.dead q, not_or]
  constructor
  · intro h
    obtain ⟨⟨hfailed, hone⟩, hmem⟩ := h
    obtain ⟨⟨q', id, plan, rowCount⟩, hentry, rfl⟩ := List.mem_map.mp hmem
    -- the entry with this position is the query's own
    have hx := h.mem_data hentry
    obtain ⟨hget, hown⟩ := hc.mem_iff.mp hx
    obtain rfl : q = q' := Option.some.inj (hq.symm.trans hget)
    have hzero : done.countP (failedOn q) = 0 := by
      rw [List.countP_eq_zero]
      exact fun x hx hf => hfailed ⟨x, hx, hf⟩
    have hpos : 0 < queries.count q := List.count_pos_iff.mpr (List.mem_of_getElem? hq)
    exact ⟨by omega, plan, rowCount, hown⟩
  · intro h
    obtain ⟨hone, plan, rowCount, hown⟩ := h
    have hx : ((i, q), .valid plan rowCount) ∈ done := hc.mem_iff.mpr ⟨hq, hown⟩
    have hsucc : succeededOn q ((i, q), .valid plan rowCount) = true := by
      rw [succeededOn_valid]
    have hpos : 0 < done.countP (succeededOn q) := List.countP_pos_iff.mpr ⟨_, hx, hsucc⟩
    have hzero : done.countP (failedOn q) = 0 := by omega
    rw [List.countP_eq_zero] at hzero
    refine ⟨⟨fun ⟨x, hx, hf⟩ => hzero x hx hf, by omega⟩, ?_⟩
    -- there is no other validation of the query, so the first that succeeded is this one
    obtain ⟨y, hy⟩ : ∃ y, done.filter (succeededOn q) = [y] := by
      rw [← List.length_eq_one_iff, ← List.countP_eq_length_filter]
      omega
    have hxy : ((i, q), Verdict.valid plan rowCount) = y := by
      have := List.mem_filter.mpr ⟨hx, hsucc⟩
      rwa [hy, List.mem_singleton] at this
    have hfind : done.find? (succeededOn q) = some ((i, q), .valid plan rowCount) := by
      rw [← List.head?_filter, hy, hxy]
      rfl
    have hdata := h.data q
    rw [hfind] at hdata
    exact List.mem_map.mpr ⟨_, OrdDict.mem_of_get? hdata, rfl⟩

end

/-- The entry with the position of a query that passes is the one of its validation. -/
theorem Harvested.get?_byId {v : Validated} {queries : List String}
    {own : String × Nat → Except PyErr Verdict} {done : List Completion} (h : Harvested done v)
    (hc : Complete queries own done) {i : Nat} {q : String} (hq : queries[i]? = some q)
    (hone : queries.count q = 1) {plan rowCount : Json} (hown : own (q, i) = .ok (.valid plan rowCount))
    (parsed : Json → Json) :
    OrdDict.get? (v.queryToData.map fun p => (p.2.1, parsed p.2.2.1)) i = some (parsed plan) := by
  have hmem := ((h.passes_iff hc hq).mpr ⟨hone, plan, rowCount, hown⟩).2
  have hkeys : i ∈ OrdDict.keys (v.queryToData.map fun p => (p.2.1, parsed p.2.2.1)) := by
    rw [OrdDict.keys, List.map_map]
    exact hmem
  obtain ⟨found, hfound⟩ := OrdDict.get?_isSome.mpr hkeys
  obtain ⟨⟨q', i', plan', rowCount'⟩, hentry, hpair⟩ := List.mem_map.mp (OrdDict.mem_of_get? hfound)
  obtain ⟨rfl, rfl⟩ := Prod.mk.inj hpair
  obtain ⟨hget, hown'⟩ := hc.mem_iff.mp (h.mem_data hentry)
  obtain rfl : q = q' := Option.some.inj (hq.symm.trans hget)
  have hverdict := Except.ok.inj (hown.symm.trans hown')
  rw [hfound, (Verdict.valid.inj hverdict).1]

/-! ## The first phase -/

/-- Failures aligned to the queries: query `i` passes. -/
def Passes (failures : List (Option String)) (i : Nat) : Prop := failures[i]? = some none

/-- The dead letters name the query. -/
theorem getLast?_categories {v : Validated} (h : ∀ p ∈ v.deadLetters, p.1 ∈ deadLetterCategories)
    {q : String} :
    (writtenCategories.filter fun c => (c, q) ∈ v.deadLetters).getLast? = none ↔
      ¬ ∃ c, (c, q) ∈ v.deadLetters := by
  rw [List.getLast?_eq_none_iff, List.filter_eq_nil_iff]
  simp only [decide_eq_true_eq]
  constructor
  · intro hno
    rintro ⟨c, hc⟩
    exact hno c ((List.mem_insertionSort _).mpr (h _ hc)) hc
  · exact fun hno c _ hc => hno ⟨c, hc⟩

/-- What a call hands on is left when its own arguments are taken out. -/
theorem without_callKwargs {positional : List String} {explicit kwargs args : Kwargs}
    (h : callKwargs positional explicit kwargs = .ok args) :
    without (OrdDict.keys explicit) args = kwargs := by
  unfold callKwargs at h
  split at h
  next => exact absurd h (by simp)
  next hno =>
    obtain rfl := Except.ok.inj h
    have hown : explicit.filter (fun p => p.1 ∉ OrdDict.keys explicit) = [] := by
      rw [List.filter_eq_nil_iff]
      exact fun p hp => by simpa using OrdDict.mem_keys_of_mem hp
    have hrest : kwargs.filter (fun p => p.1 ∉ OrdDict.keys explicit) = kwargs := by
      rw [List.filter_eq_self]
      intro p hp
      rw [decide_eq_true_eq]
      exact fun hk => hno ⟨p.1, List.mem_append_right _ hk, OrdDict.mem_keys_of_mem hp⟩
    rw [without, List.filter_append, hown, hrest, List.nil_append]

/-- The results of the first phase with validation. -/
theorem validateAndPlanQueries_result {env : Env} {queries : List String} {dataset : String}
    {scaleFactor maxWorkers : Int} {kwargs : Kwargs} {plans : List (Option Json)}
    {failures : List (Option String)}
    (h : (validateAndPlanQueries env queries dataset scaleFactor maxWorkers kwargs false none).result
      = .ok (plans, failures)) :
    ∃ v, (validateQueries env queries dataset maxWorkers kwargs).result = .ok v ∧
      plans = queries.zipIdx.map (fun p => OrdDict.get? (v.queryToData.map fun p =>
        (p.2.1, parsedPlan env p.2.2.1)) p.2) ∧
      failures = queries.zipIdx.map fun p =>
        ((writtenCategories.filter fun c => (c, p.1) ∈ v.deadLetters).getLast?).or
          (if p.2 ∈ v.queryToData.map (·.2.1) then none else some "validation_missing") := by
  unfold validateAndPlanQueries at h
  simp only [Bool.false_eq_true, if_false] at h
  obtain ⟨args, hargs, h⟩ := Logged.result_bind.mp h
  obtain ⟨v, hv, h⟩ := Logged.result_bind.mp h
  have hkwargs := without_callKwargs hargs
  rw [hkwargs] at hv
  refine ⟨v, hv, ?_⟩
  injection h with h
  obtain ⟨rfl, rfl⟩ := Prod.mk.inj h
  refine ⟨rfl, List.map_congr_left fun p _ => ?_⟩
  have hkeys : OrdDict.keys (v.queryToData.map fun p => (p.2.1, parsedPlan env p.2.2.1)) =
      v.queryToData.map (·.2.1) := by
    rw [OrdDict.keys, List.map_map]
    rfl
  rw [hkeys]
  cases (writtenCategories.filter fun c => (c, p.1) ∈ v.deadLetters).getLast? with
  | some category => rfl
  | none => rfl

/-- Without validation a repeated query is a duplicate wherever it occurs. -/
theorem duplicate_of_planQueriesWithDedup {env : Env} {queries : List String} {dataset : String}
    {scaleFactor maxWorkers : Int} {kwargs : Kwargs} {plans : List (Option Json)}
    {failures : List (Option String)}
    (h : (planQueriesWithDedup env queries dataset scaleFactor maxWorkers kwargs).result =
      .ok (plans, failures)) {i : Nat} {q : String} (hq : queries[i]? = some q)
    (hrepeated : queries.count q ≠ 1) : failures[i]? = some (some "duplicate") := by
  unfold planQueriesWithDedup at h
  dsimp only at h
  have hplanned : ∃ planned : List (Option Json × Option String), (queries.zipIdx.map fun p =>
      (OrdDict.get? (((queries.zipIdx.filter fun p => queries.count p.1 = 1).map (·.2)).zip planned)
        p.2).getD (none, some "duplicate")).unzip = (plans, failures) := by
    split at h
    next => exact ⟨[], Except.ok.inj h⟩
    next =>
      obtain ⟨_, _, h⟩ := Logged.result_bind.mp h
      obtain ⟨planned, _, h⟩ := Logged.result_bind.mp h
      exact ⟨planned, Except.ok.inj h⟩
  obtain ⟨planned, h⟩ := hplanned
  rw [List.unzip_eq_map] at h
  obtain ⟨_, rfl⟩ := Prod.mk.inj h
  have hnone : OrdDict.get? (((queries.zipIdx.filter fun p => queries.count p.1 = 1).map
      (·.2)).zip planned) i = none := by
    rw [OrdDict.get?_eq_none]
    intro hmem
    obtain ⟨⟨i', r⟩, hzip, rfl⟩ := List.mem_map.mp hmem
    obtain ⟨⟨q', i'⟩, hp, rfl⟩ := List.mem_map.mp (List.of_mem_zip hzip).1
    obtain ⟨hp, hone⟩ := List.mem_filter.mp hp
    have hget := List.mk_mem_zipIdx_iff_getElem?.mp hp
    obtain rfl : q = q' := Option.some.inj (hq.symm.trans hget)
    exact hrepeated (by simpa using hone)
  rw [List.map_map, List.getElem?_map, List.getElem?_zipIdx, hq]
  simp [hnone]

/-- Every query is valid, and its plan returns the same result each time. -/
def allValid : Env := { baselineLast with
  answer := fun _ operation _ => .ok (match operation with
    | .validate => [("is_syntax_valid", .bool true), ("plan", .obj [("0", .obj [])]),
      ("can_run", .bool true), ("is_empty", .bool false), ("row_count", .int 1),
      ("execution_time", .int 1)]
    | _ => [("result_data", .str "[1, 2.0]")]) }

theorem ownValidation_allValid : ownValidation allValid "tpch" [] ("SELECT 2", 1) =
    .ok (.valid (.obj [("0", .obj [])]) (.int 1)) := rfl

end DbPlanBench.Optimize
