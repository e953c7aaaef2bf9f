import DbPlanBench.Lib.Slots
import DbPlanBench.Optimize.Validate
import DbPlanBench.Py.Str
import DbPlanBench.QueryGen.Allocate

/-!
# One step of query generation

A step asks the language model for a number of queries of each complexity, validates
what it gets, and accepts as many valid queries of a complexity as are still needed.
A query that was valid before, in this step or an earlier one, is a duplicate, also
when it was not accepted then.

What the model and the validator answer is arbitrary, and so is the order in which
validations complete and the choice among valid queries.

* `validateQueries_fresh` — valid entries are new and distinct.
* `accept_spec` — accepting keeps the count of stored and remaining queries.
-/

namespace DbPlanBench.QueryGen

open Optimize (Kwargs ValidationResult Verdict classify)

/-- The arguments of `run_query_generation` that are in its configuration. -/
structure Config where
  dataset : String
  distribution : Distribution
  nQueries : Int
  includeSampleRows : Bool
  maxGenerations : Int
  maxValidators : Int
  maxSteps : Int
  oversampleCap : ℚ
  scaleFactor : Int
deriving DecidableEq

/-- A call of `run_query_generation`: its arguments, and what it does not decide. A function of a
step gives the answers of that step. -/
structure Call where
  config : Config
  resume : Bool
  execLocal : Bool
  validateKwargs : Kwargs
  str : Json → String
  client : Except PyErr Unit
  schema : Except PyErr Kwargs
  listing : Slots.Order
  prompts : Nat → Except PyErr Unit
  answer : Nat → Nat → Except PyErr (Option String)
  check : Nat → Nat → String → Except PyErr ValidationResult
  validationOrder : Nat → Slots.Order
  sampleOrder : Nat → Int → Slots.Order

/-! ## Generating -/

/-- White space of `str.strip`, which has four separators more than that of `int`. -/
def isSpace (c : Char) : Bool := Py.isSpace c || (0x1C ≤ c.toNat && c.toNat ≤ 0x1F)

/-- `s.strip()`. -/
def strip (s : String) : String :=
  String.ofList ((s.toList.dropWhile isSpace).reverse.dropWhile isSpace).reverse

/-- A generated query, with the number of its task. -/
structure Generated where
  id : Nat
  complexity : Int
  query : String
deriving DecidableEq

/-- The complexities of the tasks, which are numbered in this order. -/
def taskComplexities (requestCounts : List (Int × Nat)) : List Int :=
  ((OrdDict.keys requestCounts).insertionSort (· ≤ ·)).flatMap fun c =>
    List.replicate (Counter.count requestCounts c) c

/-- What is kept of the answer to a task. -/
def keptQuery (answer : Except PyErr (Option String)) : Option String :=
  match answer with
  | .error _ | .ok none => none
  | .ok (some raw) =>
    let query := strip raw
    if query = "" ∨ Optimize.contains "limit " query.toLower then none else some query

/-- `generate_queries`: the queries it writes, by their ids. -/
def generateQueries (call : Call) (step : Nat) (requestCounts : List (Int × Nat)) :
    Except PyErr (List Generated) := do
  if Counter.total requestCounts = 0 then
    .error (.valueError "complexity_counts must request at least one query")
  else do
    call.prompts step
    Optimize.checkWorkers call.config.maxGenerations
    return (taskComplexities requestCounts).zipIdx.filterMap fun task =>
      (keptQuery (call.answer step task.2)).map fun query => ⟨task.2, task.1, query⟩

/-! ## Validating -/

/-- `is_valid` and `error` of a validation. -/
structure Recorded where
  isValid : Bool
  error : Option String
deriving DecidableEq

/-- `seen` and `validation_results_by_id`. -/
structure Validation where
  seen : List String
  results : List (Nat × Recorded)

/-- A validation completes. -/
def record (v : Validation) (g : Generated) (verdict : Verdict) : Validation :=
  match verdict with
  | .failed category => { v with results := OrdDict.set v.results g.id ⟨false, some category⟩ }
  | .valid .. =>
    if g.query ∈ v.seen then
      { v with results := OrdDict.set v.results g.id ⟨false, some "duplicate"⟩ }
    else
      { seen := v.seen ++ [g.query]
        results := OrdDict.set v.results g.id ⟨true, none⟩ }

/-- `validate_queries`, with `output_format="validation"`. -/
def validateQueries (call : Call) (step : Nat) (seen : List String) (generated : List Generated) :
    Except PyErr Validation := do
  let _ ← Optimize.callKwargs ["input_file", "output_file", "dead_letter_file", "dataset",
    "max_workers", "output_format", "seen_queries", "verbose", "exec_local"] [] call.validateKwargs
  Optimize.checkWorkers call.config.maxValidators
  (Slots.reorder (call.validationOrder step) generated).foldlM (fun v g => do
    let result ← call.check step g.id g.query
    return record v g (classify result)) ⟨seen, []⟩

/-- The validation of a query, by its id. -/
def recordedOf (v : Validation) (g : Generated) : Recorded :=
  (OrdDict.get? v.results g.id).getD ⟨false, some "validation_missing"⟩

/-- `valid_entries`. -/
def validEntries (v : Validation) (generated : List Generated) : List Generated :=
  generated.filter fun g => (recordedOf v g).isValid

/-! ## Accepting -/

/-- `final_queries`, `final_meta`, `remaining_counts` and `accepted_this_step`. -/
structure Progress where
  queries : List String
  metadata : List Int
  remaining : List (Int × Nat)
  accepted : Nat

/-- `valid_by_c.get(c, [])`. -/
def candidates (valid : List Generated) (c : Int) : List String :=
  (OrdDict.get? (OrdDict.group (valid.map fun g => (g.query, g.complexity))) c).getD []

/-- `chosen`. -/
def chosen (call : Call) (step need : Nat) (c : Int) (candidates : List String) : List String :=
  if candidates.length ≤ need then candidates
  else (Slots.reorder (call.sampleOrder step c) candidates).take need

/-- The accepted queries of one complexity. -/
def acceptFor (call : Call) (step : Nat) (valid : List Generated) (p : Progress) (c : Int) :
    Progress :=
  let need := Counter.count p.remaining c
  if need = 0 then p
  else if candidates valid c = [] then p
  else
    let chosen := chosen call step need c (candidates valid c)
    { queries := p.queries ++ chosen
      metadata := p.metadata ++ List.replicate chosen.length c
      remaining := OrdDict.set p.remaining c (need - chosen.length)
      accepted := p.accepted + chosen.length }

/-- The accepted queries of a step. -/
def accept (call : Call) (step : Nat) (valid : List Generated) (p : Progress) : Progress :=
  ((OrdDict.keys p.remaining).insertionSort (· ≤ ·)).foldl (acceptFor call step valid) p

/-! ## Numbers of tasks -/

theorem nodup_ids {call : Call} {step : Nat} {requestCounts : List (Int × Nat)}
    {generated : List Generated} (h : generateQueries call step requestCounts = .ok generated) :
    (generated.map (·.id)).Nodup := by
  unfold generateQueries at h
  split at h
  next => exact absurd h (by simp)
  next =>
    obtain ⟨_, _, h⟩ := Except.bind_eq_ok.mp h
    obtain ⟨_, _, h⟩ := Except.bind_eq_ok.mp h
    injection h with h
    subst h
    -- the ids are those of a sublist of the tasks
    have hsub : ∀ tasks : List (Int × Nat), ((tasks.filterMap fun task =>
        (keptQuery (call.answer step task.2)).map fun query =>
          (⟨task.2, task.1, query⟩ : Generated)).map (·.id)).Sublist (tasks.map (·.2)) := by
      intro tasks
      induction tasks with
      | nil => exact .slnil
      | cons task tasks ih =>
        rw [List.filterMap_cons]
        cases keptQuery (call.answer step task.2) with
        | none => exact ih.cons _
        | some query => exact ih.cons_cons _
    refine (hsub _).nodup ?_
    rw [List.zipIdx_map_snd]
    exact List.nodup_range'

/-! ## What is valid -/

/-- **What has been seen**: the queries before, and those of the valid entries. -/
structure SeenAfter (seen : List String) (done : List Generated) (v : Validation) : Prop where
  seen : v.seen = seen ++ (validEntries v done).map (·.query)
  nodup : v.seen.Nodup
  ids : ∀ k ∈ OrdDict.keys v.results, k ∈ done.map (·.id)

section

variable {seen : List String} {done : List Generated} {v : Validation} {g : Generated}

/-- A result for another query changes nothing for those that are done. -/
theorem validEntries_set (hg : g.id ∉ done.map (·.id)) (r : Recorded) (seen' : List String) :
    validEntries ⟨seen', OrdDict.set v.results g.id r⟩ (done ++ [g]) =
      validEntries v done ++ if r.isValid = true then [g] else [] := by
  have hold : ∀ g' ∈ done,
      recordedOf ⟨seen', OrdDict.set v.results g.id r⟩ g' = recordedOf v g' := by
    intro g' hg'
    have hne : g'.id ≠ g.id := fun heq => hg (heq ▸ List.mem_map_of_mem hg')
    rw [recordedOf, OrdDict.get?_set_ne _ _ hne, recordedOf]
  have hnew : recordedOf ⟨seen', OrdDict.set v.results g.id r⟩ g = r := by
    rw [recordedOf, OrdDict.get?_set_self]
    rfl
  rw [validEntries, List.filter_append, validEntries]
  congr 1
  · exact List.filter_congr fun g' hg' => by rw [hold g' hg']
  · rw [List.filter_cons, hnew, List.filter_nil]

/-- **One more validation.** -/
theorem SeenAfter.record (h : SeenAfter seen done v) (hg : g.id ∉ done.map (·.id))
    (verdict : Verdict) : SeenAfter seen (done ++ [g]) (record v g verdict) := by
  have hids : ∀ r : Recorded, ∀ k ∈ OrdDict.keys (OrdDict.set v.results g.id r),
      k ∈ (done ++ [g]).map (·.id) := by
    intro r k hk
    rw [List.map_append, List.mem_append]
    rcases OrdDict.mem_keys_set.mp hk with rfl | hk
    · exact Or.inr (List.mem_singleton_self _)
    · exact Or.inl (h.ids k hk)
  cases verdict with
  | failed category =>
    refine ⟨?_, h.nodup, hids _⟩
    rw [QueryGen.record, validEntries_set hg, h.seen]
    simp
  | valid plan rowCount =>
    rw [QueryGen.record]
    split
    next =>
      refine ⟨?_, h.nodup, hids _⟩
      rw [validEntries_set hg, h.seen]
      simp
    next hnew =>
      refine ⟨?_, h.nodup.append (List.nodup_singleton _) ?_, hids _⟩
      · rw [validEntries_set hg, h.seen]
        simp
      · exact fun q hq hq' => hnew (List.mem_singleton.mp hq' ▸ hq)

/-- All validations, in the order they complete. -/
theorem SeenAfter.all {call : Call} {step : Nat} : ∀ {rest done : List Generated}
    {v v' : Validation}, SeenAfter seen done v → ((done ++ rest).map (·.id)).Nodup →
    rest.foldlM (fun v g => do
      let result ← call.check step g.id g.query
      return QueryGen.record v g (classify result)) v = .ok v' → SeenAfter seen (done ++ rest) v'
  | [], done, v, v', h, _, hall => by
    obtain rfl : v = v' := Except.ok.inj hall
    rwa [List.append_nil]
  | g :: rest, done, v, v', h, hnodup, hall => by
    rw [List.foldlM_cons] at hall
    obtain ⟨v1, hv1, hall⟩ := Except.bind_eq_ok.mp hall
    obtain ⟨result, _, hv1⟩ := Except.bind_eq_ok.mp hv1
    injection hv1 with hv1
    subst hv1
    have hg : g.id ∉ done.map (·.id) := by
      rw [List.map_append, List.map_cons] at hnodup
      exact fun hmem => (List.nodup_append.mp hnodup).2.2 _ hmem _ (List.mem_cons_self ..) rfl
    have hstep := SeenAfter.all (h.record hg (classify result)) (by simpa using hnodup) hall
    simpa using hstep

/-- **Valid entries are new and distinct**, and have been seen afterwards. -/
theorem validateQueries_fresh {call : Call} {step : Nat} {generated : List Generated}
    (hids : (generated.map (·.id)).Nodup) (hseen : seen.Nodup)
    (h : validateQueries call step seen generated = .ok v) :
    v.seen.Nodup ∧ v.seen.Perm (seen ++ (validEntries v generated).map (·.query)) := by
  obtain ⟨_, _, h⟩ := Except.bind_eq_ok.mp h
  obtain ⟨_, _, h⟩ := Except.bind_eq_ok.mp h
  have hperm := Slots.reorder_perm (call.validationOrder step) generated
  have hnil : SeenAfter seen [] ⟨seen, []⟩ :=
    ⟨by simp [validEntries], hseen, fun k hk => absurd hk List.not_mem_nil⟩
  have hafter := SeenAfter.all hnil ((hperm.map _).nodup_iff.mpr hids) h
  refine ⟨hafter.nodup, ?_⟩
  rw [hafter.seen]
  exact List.Perm.append_left seen ((hperm.filter _).map _)

end

/-! ## What is accepted -/

theorem candidates_eq (valid : List Generated) (c : Int) :
    candidates valid c = (valid.filter fun g => g.complexity = c).map (·.query) := by
  rw [candidates, OrdDict.get?_group, List.filter_map, List.map_map]
  rfl

theorem chosen_subperm (call : Call) (step need : Nat) (c : Int) (candidates : List String) :
    (chosen call step need c candidates).Subperm candidates ∧
      (chosen call step need c candidates).length ≤ need := by
  unfold chosen
  split
  next h => exact ⟨List.Subperm.refl _, h⟩
  next =>
    refine ⟨?_, List.length_take_le _ _⟩
    exact ((List.take_sublist _ _).subperm).trans (Slots.reorder_perm _ _).subperm

/-- **What is collected after some complexities**: no count of stored and remaining queries has
changed, and what is new is valid and of one of these complexities. -/
structure Accepted (valid : List Generated) (before : Progress) (done : List Int) (p : Progress) :
    Prop where
  keys : OrdDict.keys p.remaining = OrdDict.keys before.remaining
  counts : ∀ c, p.metadata.count c + Counter.count p.remaining c =
    before.metadata.count c + Counter.count before.remaining c
  aligned : p.queries.length = p.metadata.length
  nodup : p.queries.Nodup
  sources : ∀ q ∈ p.queries, q ∈ before.queries ∨
    ∃ g ∈ valid, g.query = q ∧ g.complexity ∈ done

/-- A chosen query is that of a valid entry of its complexity. -/
theorem mem_chosen {valid : List Generated} {call : Call} {step need : Nat} {c : Int} {q : String}
    (h : q ∈ chosen call step need c (candidates valid c)) :
    ∃ g ∈ valid, g.query = q ∧ g.complexity = c := by
  have hq := (chosen_subperm call step need c (candidates valid c)).1.subset h
  rw [candidates_eq] at hq
  obtain ⟨g, hg, rfl⟩ := List.mem_map.mp hq
  obtain ⟨hg, hgc⟩ := List.mem_filter.mp hg
  exact ⟨g, hg, rfl, of_decide_eq_true hgc⟩

theorem nodup_chosen {valid : List Generated} (hvalid : (valid.map (·.query)).Nodup) (call : Call)
    (step need : Nat) (c : Int) : (chosen call step need c (candidates valid c)).Nodup := by
  obtain ⟨l, hl, hsub⟩ := (chosen_subperm call step need c (candidates valid c)).1
  refine hl.nodup_iff.mp (hsub.nodup ?_)
  rw [candidates_eq]
  exact hvalid.sublist (List.filter_sublist.map _)

/-- **One more complexity.** -/
theorem Accepted.step {valid : List Generated} {before p : Progress} {done : List Int}
    (h : Accepted valid before done p) (call : Call) (step : Nat) {c : Int}
    (hc : c ∉ done) (hmem : c ∈ OrdDict.keys before.remaining)
    (hvalid : (before.queries ++ valid.map (·.query)).Nodup) :
    Accepted valid before (done ++ [c]) (acceptFor call step valid p c) := by
  have hweaken : Accepted valid before (done ++ [c]) p :=
    { h with
      sources := fun q hq => (h.sources q hq).imp_right fun ⟨g, hg, hquery, hdone⟩ =>
        ⟨g, hg, hquery, List.mem_append_left _ hdone⟩ }
  unfold acceptFor
  dsimp only
  split
  next => exact hweaken
  next =>
    split
    next => exact hweaken
    next =>
      obtain ⟨_, hnodup, hdisjoint⟩ := List.nodup_append.mp hvalid
      have hlen := (chosen_subperm call step (Counter.count p.remaining c) c
        (candidates valid c)).2
      have hnew := nodup_chosen hnodup call step (Counter.count p.remaining c) c
      have hsource : ∀ q ∈ chosen call step (Counter.count p.remaining c) c (candidates valid c),
          ∃ g ∈ valid, g.query = q ∧ g.complexity = c := fun q hq => mem_chosen hq
      generalize chosen call step (Counter.count p.remaining c) c (candidates valid c) = new at *
      refine ⟨?_, fun c' => ?_, ?_, ?_, fun q hq => ?_⟩
      · rw [OrdDict.keys_set_of_mem _ (h.keys ▸ hmem), h.keys]
      · rw [List.count_append, List.count_replicate, Counter.count_set]
        have hold := h.counts c'
        by_cases hcc : c = c'
        · subst hcc
          simp only [beq_self_eq_true, if_true]
          omega
        · have hne : (c == c') = false := beq_false_of_ne hcc
          simp only [hne, if_neg hcc]
          simpa using hold
      · rw [List.length_append, List.length_append, List.length_replicate, h.aligned]
      · refine h.nodup.append hnew fun q hq hq' => ?_
        obtain ⟨g, hg, rfl, hgc⟩ := hsource q hq'
        rcases h.sources _ hq with hold | ⟨g', hg', hquery, hdone⟩
        · exact hdisjoint _ hold _ (List.mem_map_of_mem hg) rfl
        · have hgg := List.inj_on_of_nodup_map hnodup hg' hg hquery
          exact hc (hgc ▸ hgg ▸ hdone)
      · rcases List.mem_append.mp hq with hq | hq
        · exact hweaken.sources q hq
        · obtain ⟨g, hg, hquery, hgc⟩ := hsource q hq
          exact Or.inr ⟨g, hg, hquery, List.mem_append_right _ (List.mem_singleton.mpr hgc)⟩

/-- **The accepted queries of a step.** -/
theorem accept_spec (call : Call) (step : Nat) {valid : List Generated} (before : Progress)
    (hkeys : (OrdDict.keys before.remaining).Nodup)
    (haligned : before.queries.length = before.metadata.length)
    (hvalid : (before.queries ++ valid.map (·.query)).Nodup) :
    ∃ done, Accepted valid before done (accept call step valid before) := by
  have hall : ∀ (rest done : List Int) (p : Progress), Accepted valid before done p →
      (done ++ rest).Nodup → (∀ c ∈ rest, c ∈ OrdDict.keys before.remaining) →
      Accepted valid before (done ++ rest) (rest.foldl (acceptFor call step valid) p) := by
    intro rest
    induction rest with
    | nil => exact fun done p h _ _ => by rwa [List.append_nil]
    | cons c rest ih =>
      intro done p h hnodup hmem
      have hc : c ∉ done := fun hd =>
        (List.nodup_append.mp hnodup).2.2 c hd c (List.mem_cons_self ..) rfl
      have hnext := ih (done ++ [c]) _ (h.step call step hc (hmem c (List.mem_cons_self ..)) hvalid)
        (by simpa using hnodup) fun c' hc' => hmem c' (List.mem_cons_of_mem _ hc')
      simpa using hnext
  have hperm := List.perm_insertionSort (· ≤ ·) (OrdDict.keys before.remaining)
  refine ⟨_, hall _ [] before ⟨rfl, fun _ => rfl, haligned, (List.nodup_append.mp hvalid).1,
    fun q hq => Or.inl hq⟩ ?_ fun c hc => hperm.mem_iff.mp hc⟩
  rw [List.nil_append]
  exact hperm.nodup_iff.mpr hkeys

end DbPlanBench.QueryGen
