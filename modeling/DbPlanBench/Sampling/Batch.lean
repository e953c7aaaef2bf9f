import DbPlanBench.Lib.Slots
import DbPlanBench.Sampling.Invariant

/-!
# Asking the language model

`sample_plans_from_file` flattens the base plans of all queries into one batch.
`optimize_plans_batch` submits the batch in a random order and `optimize_plan` asks
for the samples of one plan, each in a pool of its own whose calls complete in any
order; results are stored under the positions that the calls carry. What comes back
is nested again by taking the answers one after the other from one iterator, query
by query and base plan by base plan.

The answer to a call, that is what `generate_single_sample` returns, depends on the
position of the plan in the batch, on the number of the sample and on the prompt. A
prompt is the arguments of `create_user_prompt`, which formats them as a text.

* `samplePlansFromFile_eq` — pools and iterator do what a loop over the batch does.
* `samplePlansFromFile_query` — what such a loop gives each query.
* `samplePlansFromFile_aligned` — every base plan gets the answers to its own prompt.
-/

namespace DbPlanBench.Sampling

/-! ## What a step gives each query -/

/-- The number of base plans of a query. -/
def baseCount (strategy : SamplingStrategy) (q : QueryData) : Nat :=
  match getBasePlansForSampling q.sampledPlans strategy with
  | .ok bases => bases.length
  | .error _ => 0

/-- Where the base plans of a query start in the batch. -/
def batchStart (strategy : SamplingStrategy) (queries : List QueryData) (i : Nat) : Nat :=
  ((queries.take i).map (baseCount strategy)).sum

/-- The queries with their base plans, one item for each base plan. -/
def batchOf (selected : List (QueryData × List BasePlan)) : List (QueryData × BasePlan) :=
  selected.flatMap fun p => p.2.map fun b => (p.1, b)

section

variable {patch : JsonPatch} {model : String} {strategy : SamplingStrategy}

/-- A query takes the answers to its own items. -/
theorem getElem?_distribute {g : (String × Json) × Nat → List GenerationResult} :
    ∀ {selected : List (QueryData × List BasePlan)} {k : Nat} {batch : List (String × Json)},
      (batchOf selected).mapM (batchItem patch) = .ok batch →
      ∀ {i : Nat} {p : QueryData × List BasePlan}, selected[i]? = some p →
        ∃ items, (p.2.map fun b => (p.1, b)).mapM (batchItem patch) = .ok items ∧
          (distribute model selected ((batch.zipIdx k).map g))[i]? = some (sampledQuery model p
            ((items.zipIdx (k + ((selected.take i).map (·.2.length)).sum)).map g))
  | [], _, _, _, i, p, hp => absurd hp (by simp)
  | p :: selected, k, batch, h, i, p', hp => by
    -- the batch starts with the items of the first query
    rw [batchOf, List.flatMap_cons, List.mapM_append] at h
    obtain ⟨items, hitems, h⟩ := Except.bind_eq_ok.mp h
    obtain ⟨rest, hrest, h⟩ := Except.bind_eq_ok.mp h
    injection (show Except.ok (items ++ rest) = Except.ok batch from h) with h
    subst h
    have hlen : p.2.length = items.length := by
      rw [← (Except.mapM_eq_ok.mp hitems).length_eq, List.length_map]
    rw [distribute, List.zipIdx_append, List.map_append]
    have hsize : ((items.zipIdx k).map g).length = p.2.length := by
      rw [List.length_map, List.length_zipIdx, hlen]
    rw [List.take_left' hsize, List.drop_left' hsize]
    cases i with
    | zero =>
      obtain rfl := Option.some.inj hp
      exact ⟨items, hitems, rfl⟩
    | succ i =>
      obtain ⟨items', hitems', hget⟩ :=
        getElem?_distribute (k := k + items.length) hrest (i := i) hp
      refine ⟨items', hitems', ?_⟩
      rw [List.getElem?_cons_succ, hget, List.take_succ_cons, List.map_cons, List.sum_cons, hlen,
        Nat.add_assoc]

theorem sum_length_selected {queries : List QueryData}
    {selected : List (QueryData × List BasePlan)}
    (h : queries.mapM (selectBasePlans strategy) = .ok selected) (i : Nat) :
    ((selected.take i).map (·.2.length)).sum = batchStart strategy queries i := by
  have hforall := Except.mapM_eq_ok.mp h
  clear h
  rw [batchStart]
  induction hforall generalizing i with
  | nil => rw [List.take_nil, List.take_nil]; rfl
  | cons hp _ ih =>
    cases i with
    | zero => rfl
    | succ i =>
      obtain ⟨hq, hbases⟩ := selectBasePlans_eq hp
      rw [List.take_succ_cons, List.take_succ_cons, List.map_cons, List.map_cons, List.sum_cons,
        List.sum_cons, ih, baseCount, hbases]

/-- **A step gives every query the answers to its own base plans**, in their order. -/
theorem samplePlansFromFile_query {generate : Answers} {queries : List QueryData}
    {sampled : List SampledQuery}
    (h : samplePlansFromFile patch strategy model generate queries = .ok sampled) :
    sampled.length = queries.length ∧ ∀ i q, queries[i]? = some q → ∃ bases items,
      getBasePlansForSampling q.sampledPlans strategy = .ok bases ∧
      (bases.map fun b => (q, b)).mapM (batchItem patch) = .ok items ∧
      sampled[i]? = some (sampledQuery model (q, bases)
        ((items.zipIdx (batchStart strategy queries i)).map fun p => generate p.2 p.1.1 p.1.2)) := by
  obtain ⟨selected, hselected, h⟩ := Except.bind_eq_ok.mp h
  obtain ⟨batch, hbatch, h⟩ := Except.bind_eq_ok.mp h
  injection (show Except.ok _ = Except.ok sampled from h) with h
  subst h
  constructor
  · have hids := congrArg List.length (map_id_distribute model selected
      (batch.zipIdx.map fun p => generate p.2 p.1.1 p.1.2))
    rw [List.length_map, List.length_map] at hids
    rw [hids, (Except.mapM_eq_ok.mp hselected).length_eq]
  · intro i q hq
    obtain ⟨p, hp, hselect⟩ := Except.getElem?_of_mapM hselected hq
    obtain ⟨rfl, hbases⟩ := selectBasePlans_eq hselect
    obtain ⟨items, hitems, hget⟩ := @getElem?_distribute patch model
      (fun p => generate p.2 p.1.1 p.1.2) selected 0 batch hbatch i p hp
    rw [Nat.zero_add, sum_length_selected hselected] at hget
    exact ⟨p.2, items, hbases, hitems, hget⟩

/-- An item is a base plan of its query. -/
theorem mem_batchOf {queries : List QueryData} {selected : List (QueryData × List BasePlan)}
    (h : queries.mapM (selectBasePlans strategy) = .ok selected) {x : QueryData × BasePlan}
    (hx : x ∈ batchOf selected) : ∃ q ∈ queries, ∃ bases,
      getBasePlansForSampling q.sampledPlans strategy = .ok bases ∧
        ∃ base ∈ bases, x = (q, base) := by
  obtain ⟨p, hp, hx⟩ := List.mem_flatMap.mp hx
  obtain ⟨base, hbase, rfl⟩ := List.mem_map.mp hx
  obtain ⟨q, hq, hselect⟩ := Except.mem_of_mapM h hp
  obtain ⟨rfl, hbases⟩ := selectBasePlans_eq hselect
  exact ⟨p.1, hq, p.2, hbases, base, hbase, rfl⟩

/-- There is a batch when every query has base plans and their patches apply. -/
theorem exists_batch {queries : List QueryData}
    (h : ∀ q ∈ queries, ∃ bases, getBasePlansForSampling q.sampledPlans strategy = .ok bases ∧
      ∀ base ∈ bases, ∃ item, batchItem patch (q, base) = .ok item) :
    ∃ selected batch, queries.mapM (selectBasePlans strategy) = .ok selected ∧
      (batchOf selected).mapM (batchItem patch) = .ok batch := by
  obtain ⟨selected, hselected⟩ := Except.exists_mapM_ok (f := selectBasePlans strategy)
    fun q hq => by
      obtain ⟨bases, hbases, _⟩ := h q hq
      exact ⟨(q, bases), Except.bind_eq_ok.mpr ⟨bases, hbases, rfl⟩⟩
  obtain ⟨batch, hbatch⟩ := Except.exists_mapM_ok (f := batchItem patch) fun x hx => by
    obtain ⟨q, hq, bases, hbases, base, hbase, rfl⟩ := mem_batchOf hselected hx
    obtain ⟨bases', hbases', hitems⟩ := h q hq
    obtain rfl := Except.ok.inj (hbases.symm.trans hbases')
    exact hitems base hbase
  exact ⟨selected, batch, hselected, hbatch⟩

theorem exists_samplePlansFromFile {generate : Answers} {queries : List QueryData}
    (h : ∀ q ∈ queries, ∃ bases, getBasePlansForSampling q.sampledPlans strategy = .ok bases ∧
      ∀ base ∈ bases, ∃ item, batchItem patch (q, base) = .ok item) :
    ∃ sampled, samplePlansFromFile patch strategy model generate queries = .ok sampled := by
  obtain ⟨selected, batch, hselected, hbatch⟩ := exists_batch h
  exact ⟨_, Except.bind_eq_ok.mpr ⟨selected, hselected,
    Except.bind_eq_ok.mpr ⟨batch, hbatch, rfl⟩⟩⟩

end

/-! ## Asking -/

/-- What the model is asked: the arguments of `create_user_prompt`. -/
structure Prompt where
  query : String
  planStructure : Json
  succinctTableInfo : Json

/-- The answer to a sample, by the position of its plan in the batch and its number. -/
abbrev Ask := Nat → Nat → Prompt → GenerationResult

/-- The order in which a batch is submitted, and those in which its plans and the samples of each
plan complete. -/
structure Schedule where
  submitted : Slots.Order
  plans : Slots.Order
  samples : Nat → Slots.Order

/-- `plan[name]`. -/
def planField (plan : Json) (name : String) : Except Fault Json :=
  match plan with
  | .obj fields =>
    match OrdDict.get? fields name with
    | some v => .ok v
    | none => .error (.raised .keyError)
  | _ => .error (.raised .typeError)

/-- The prompt for an item of the batch. -/
def promptOf (item : String × Json) : Except Fault Prompt := do
  let planStructure ← planField item.2 "structure"
  let succinctTableInfo ← planField item.2 "succinct_table_info"
  return { query := item.1, planStructure, succinctTableInfo }

/-- A `ThreadPoolExecutor` needs a worker. -/
def checkPool (maxWorkers : Int) : Except Fault Unit :=
  if maxWorkers ≤ 0 then .error (.raised (.valueError "max_workers must be greater than 0"))
  else .ok ()

/-- `optimize_plan`, of which `ask` gives what `generate_single_sample` returns. -/
def optimizePlan (ask : Nat → Prompt → GenerationResult) (order : Slots.Order) (nSamples : Nat)
    (item : String × Json) : Except Fault (List (Option GenerationResult)) := do
  let prompt ← promptOf item
  checkPool nSamples
  Slots.fill (fun i => .ok (i, ask i prompt)) (Slots.reorder order (List.range nSamples))
    (List.replicate nSamples none)

/-- `optimize_single_query`. -/
def optimizeSingleQuery (ask : Ask) (schedule : Schedule) (nSamples : Nat)
    (call : (String × Json) × Nat) : Except Fault (Nat × List (Option GenerationResult)) := do
  let result ← optimizePlan (ask call.2) (schedule.samples call.2) nSamples call.1
  return (call.2, result)

/-- `optimize_plans_batch`. -/
def optimizePlansBatch (ask : Ask) (schedule : Schedule) (nSamples : Nat) (maxWorkers : Int)
    (queries : List (String × Json)) :
    Except Fault (List (Option (List (Option GenerationResult)))) := do
  checkPool maxWorkers
  Slots.fill (optimizeSingleQuery ask schedule nSamples)
    (Slots.reorder schedule.plans (Slots.reorder schedule.submitted queries.zipIdx))
    (List.replicate queries.length none)

/-! ## Handing the answers out -/

/-- `all_generation_results`, as far as the iterator has not come. -/
abbrev Results := List (Option (List (Option GenerationResult)))

/-- `next(it)`, to be looped over. -/
def nextResults : Results → Except Fault (List (Option GenerationResult) × Results)
  | [] => .error (.raised (.runtimeError "StopIteration"))
  | none :: _ => .error (.raised .typeError)
  | some results :: it => .ok (results, it)

/-- A sample from an answer, where `None` has no attributes. -/
def newSampleFrom (base : BasePlan) : Option GenerationResult → Except Fault SampledPlan
  | some result => .ok (newSampledPlan base result)
  | none => .error (.raised .attributeError)

/-- `final_sampled_plans` of a query. -/
def finalSampledPlans : List BasePlan → Results → Except Fault (List SampledPlan × Results)
  | [], it => .ok ([], it)
  | base :: bases, it => do
    let next ← nextResults it
    let new ← next.1.mapM (newSampleFrom base)
    let rest ← finalSampledPlans bases next.2
    return (new ++ rest.1, rest.2)

/-- The loop over `sampling_results`. -/
def handOut (model : String) : List (QueryData × List BasePlan) → Results →
    Except Fault (List SampledQuery)
  | [], _ => .ok []
  | p :: rest, it => do
    let plans ← finalSampledPlans p.2 it
    let out ← handOut model rest plans.2
    let query := { id := p.1.id, query := p.1.query, plan := p.1.plan, model, sampledPlans := plans.1 }
    return query :: out

/-- `sample_plans_from_file`, with its pools. -/
def samplePlansFromFilePooled (patch : JsonPatch) (strategy : SamplingStrategy) (model : String)
    (ask : Ask) (schedule : Schedule) (nSamples : Nat) (maxWorkers : Int)
    (queries : List QueryData) : Except Fault (List SampledQuery) := do
  let selected ← queries.mapM (selectBasePlans strategy)
  let batch ← (batchOf selected).mapM (batchItem patch)
  let results ← optimizePlansBatch ask schedule nSamples maxWorkers batch
  handOut model selected results

/-! ## What the pools return -/

section

variable {ask : Ask} {schedule : Schedule} {nSamples : Nat} {maxWorkers : Int}

/-- The answers to a prompt, in the order of their numbers. -/
def answersTo (ask : Ask) (nSamples : Nat) (p : Prompt × Nat) : List GenerationResult :=
  (List.range nSamples).map fun j => ask p.2 j p.1

theorem checkPool_of_pos {n : Int} (h : 0 < n) : checkPool n = .ok () := if_neg (by omega)

/-- The samples of a plan come back in the order of their numbers. -/
theorem optimizePlan_eq (hn : 0 < nSamples) (i : Nat) (order : Slots.Order)
    (item : String × Json) : optimizePlan (ask i) order nSamples item =
      (promptOf item).map fun prompt => (answersTo ask nSamples (prompt, i)).map some := by
  unfold optimizePlan
  cases hprompt : promptOf item with
  | error e => rfl
  | ok prompt =>
    rw [Except.ok_bind, checkPool_of_pos (by omega), Except.ok_bind]
    have hown : ∀ k call (r : Nat × GenerationResult), (List.range nSamples)[k]? = some call →
        (Except.ok (call, ask i call prompt) : Except Fault _) = .ok r → r.1 = k := by
      intro k call r hk hr
      obtain ⟨_, hk⟩ := List.getElem?_eq_some_iff.mp hk
      rw [← Except.ok.inj hr, ← hk, List.getElem_range]
    have hfill := (Slots.fill_eq_ok hown (Slots.reorder_perm order (List.range nSamples))).mpr
      ⟨_, Except.mapM_ok fun _ _ => rfl, rfl⟩
    rw [List.length_range] at hfill
    rw [hfill, List.map_map, Except.map, answersTo, List.map_map]
    rfl

/-- **The batch comes back in its own order.** -/
theorem optimizePlansBatch_eq (hn : 0 < nSamples) (hw : 0 < maxWorkers)
    {queries : List (String × Json)} {results : Results} :
    optimizePlansBatch ask schedule nSamples maxWorkers queries = .ok results ↔
      ∃ prompts, queries.mapM promptOf = .ok prompts ∧
        results = prompts.zipIdx.map fun p => some ((answersTo ask nSamples p).map some) := by
  rw [optimizePlansBatch, checkPool_of_pos hw, Except.ok_bind]
  have hcall : ∀ call : (String × Json) × Nat, optimizeSingleQuery ask schedule nSamples call =
      ((promptOf call.1).map fun prompt => (answersTo ask nSamples (prompt, call.2)).map some).map
        fun answers => (call.2, answers) := by
    intro call
    rw [optimizeSingleQuery, optimizePlan_eq hn]
    cases promptOf call.1 <;> rfl
  have hperm := (Slots.reorder_perm schedule.plans _).trans
    (Slots.reorder_perm schedule.submitted queries.zipIdx)
  rw [Slots.fill_zipIdx_eq_ok hcall hperm,
    Except.mapM_zipIdx fun p : Prompt × Nat => (answersTo ask nSamples p).map some]
  simp only [Except.map_eq_ok]
  constructor
  · intro h
    obtain ⟨_, ⟨prompts, hprompts, rfl⟩, rfl⟩ := h
    exact ⟨prompts, hprompts, List.map_map ..⟩
  · intro h
    obtain ⟨prompts, hprompts, rfl⟩ := h
    exact ⟨_, ⟨prompts, hprompts, rfl⟩, (List.map_map ..).symm⟩

end

/-! ## The iterator -/

/-- Answers as the pools leave them. -/
def packed (answers : List (List GenerationResult)) : Results :=
  answers.map fun results => some (results.map some)

theorem finalSampledPlans_packed : ∀ {bases : List BasePlan}
    {answers : List (List GenerationResult)} (it : Results), answers.length = bases.length →
      finalSampledPlans bases (packed answers ++ it) =
        .ok ((bases.zip answers).flatMap fun a => a.2.map (newSampledPlan a.1), it)
  | [], answers, it, h => by
    obtain rfl := List.length_eq_zero_iff.mp h
    rfl
  | base :: bases, [], it, h => absurd h (by simp)
  | base :: bases, results :: answers, it, h => by
    have hnew : (results.map some).mapM (newSampleFrom base) =
        .ok (results.map (newSampledPlan base)) := by
      rw [Except.mapM_eq_ok, List.forall₂_map_left_iff, List.forall₂_map_right_iff,
        List.forall₂_same]
      exact fun _ _ => rfl
    rw [finalSampledPlans, packed, List.map_cons, List.cons_append, nextResults, Except.ok_bind,
      hnew, Except.ok_bind]
    have hrest := finalSampledPlans_packed it (Nat.succ.inj h)
    rw [packed] at hrest
    rw [hrest]
    rfl

/-- **The iterator hands the answers out as they were asked for**, when there are enough. -/
theorem handOut_packed (model : String) : ∀ {selected : List (QueryData × List BasePlan)}
    {answers : List (List GenerationResult)},
    (selected.map (·.2.length)).sum ≤ answers.length →
      handOut model selected (packed answers) = .ok (distribute model selected answers)
  | [], _, _ => rfl
  | p :: rest, answers, h => by
    rw [List.map_cons, List.sum_cons] at h
    have hsplit : packed answers =
        packed (answers.take p.2.length) ++ packed (answers.drop p.2.length) := by
      rw [packed, packed, packed, ← List.map_append, List.take_append_drop]
    have hlen : (answers.take p.2.length).length = p.2.length := List.length_take_of_le (by omega)
    have hrest : (rest.map (·.2.length)).sum ≤ (answers.drop p.2.length).length := by
      rw [List.length_drop]
      omega
    rw [handOut, hsplit, finalSampledPlans_packed _ hlen, Except.ok_bind,
      handOut_packed model hrest]
    rfl

/-! ## The whole function -/

/-- The answers to a prompt, if the plan has one. -/
def generateFor (ask : Ask) (nSamples : Nat) : Answers := fun i query plan =>
  match promptOf (query, plan) with
  | .ok prompt => answersTo ask nSamples (prompt, i)
  | .error _ => []

/-- A query's base plans can be chosen, and each has a prompt. -/
def Answerable (patch : JsonPatch) (strategy : SamplingStrategy) (q : QueryData) : Prop :=
  ∃ bases, getBasePlansForSampling q.sampledPlans strategy = .ok bases ∧
    ∀ base ∈ bases, ∃ prompt, batchItem patch (q, base) >>= promptOf = .ok prompt

section

variable {patch : JsonPatch} {strategy : SamplingStrategy} {model : String} {ask : Ask}
  {schedule : Schedule} {nSamples : Nat} {maxWorkers : Int} {queries : List QueryData}

theorem length_batch {selected : List (QueryData × List BasePlan)} {batch : List (String × Json)}
    (h : (batchOf selected).mapM (batchItem patch) = .ok batch) :
    (selected.map (·.2.length)).sum = batch.length := by
  rw [← (Except.mapM_eq_ok.mp h).length_eq, batchOf, List.length_flatMap]
  simp only [List.length_map]

theorem answers_of_prompts {batch : List (String × Json)} {prompts : List Prompt}
    (h : batch.mapM promptOf = .ok prompts) (k : Nat) :
    (batch.zipIdx k).map (fun p => generateFor ask nSamples p.2 p.1.1 p.1.2) =
      (prompts.zipIdx k).map (answersTo ask nSamples) := by
  have hforall := Except.mapM_eq_ok.mp h
  clear h
  induction hforall generalizing k with
  | nil => rfl
  | cons hp _ ih =>
    rw [List.zipIdx_cons, List.map_cons, List.zipIdx_cons, List.map_cons, ih, generateFor, hp]

/-- Base plans, prompts and answers, one after the other. -/
theorem samplePlansFromFilePooled_eq_ok (hn : 0 < nSamples) (hw : 0 < maxWorkers)
    {out : List SampledQuery} :
    samplePlansFromFilePooled patch strategy model ask schedule nSamples maxWorkers queries =
        .ok out ↔
      ∃ selected batch prompts, queries.mapM (selectBasePlans strategy) = .ok selected ∧
        (batchOf selected).mapM (batchItem patch) = .ok batch ∧
        batch.mapM promptOf = .ok prompts ∧
        out = distribute model selected (prompts.zipIdx.map (answersTo ask nSamples)) := by
  have hout : ∀ {selected batch prompts}, (batchOf selected).mapM (batchItem patch) = .ok batch →
      batch.mapM promptOf = .ok prompts →
      handOut model selected
          (prompts.zipIdx.map fun p => some ((answersTo ask nSamples p).map some)) =
        .ok (distribute model selected (prompts.zipIdx.map (answersTo ask nSamples))) := by
    intro selected batch prompts hbatch hprompts
    have hlen : (selected.map (·.2.length)).sum =
        (prompts.zipIdx.map (answersTo ask nSamples)).length := by
      rw [length_batch hbatch, (Except.mapM_eq_ok.mp hprompts).length_eq, List.length_map,
        List.length_zipIdx]
    rw [← handOut_packed model hlen.le, packed, List.map_map]
    rfl
  constructor
  · intro h
    obtain ⟨selected, hselected, h⟩ := Except.bind_eq_ok.mp h
    obtain ⟨batch, hbatch, h⟩ := Except.bind_eq_ok.mp h
    obtain ⟨results, hresults, h⟩ := Except.bind_eq_ok.mp h
    obtain ⟨prompts, hprompts, rfl⟩ := (optimizePlansBatch_eq hn hw).mp hresults
    rw [hout hbatch hprompts] at h
    exact ⟨selected, batch, prompts, hselected, hbatch, hprompts, (Except.ok.inj h).symm⟩
  · intro h
    obtain ⟨selected, batch, prompts, hselected, hbatch, hprompts, rfl⟩ := h
    refine Except.bind_eq_ok.mpr ⟨selected, hselected, Except.bind_eq_ok.mpr ⟨batch, hbatch, ?_⟩⟩
    exact Except.bind_eq_ok.mpr
      ⟨_, (optimizePlansBatch_eq hn hw).mpr ⟨prompts, hprompts, rfl⟩, hout hbatch hprompts⟩

/-- **With its pools the function does what the loop over the batch does**, if it returns. -/
theorem samplePlansFromFile_eq (hn : 0 < nSamples) (hw : 0 < maxWorkers) {out : List SampledQuery}
    (h : samplePlansFromFilePooled patch strategy model ask schedule nSamples maxWorkers queries =
      .ok out) :
    samplePlansFromFile patch strategy model (generateFor ask nSamples) queries = .ok out := by
  obtain ⟨selected, batch, prompts, hselected, hbatch, hprompts, rfl⟩ :=
    (samplePlansFromFilePooled_eq_ok hn hw).mp h
  refine Except.bind_eq_ok.mpr ⟨selected, hselected, Except.bind_eq_ok.mpr ⟨batch, hbatch, ?_⟩⟩
  rw [answers_of_prompts hprompts]
  rfl

/-- **It returns when every query has base plans and they have prompts**, and only then. -/
theorem exists_samplePlansFromFilePooled (hn : 0 < nSamples) (hw : 0 < maxWorkers) :
    (∃ out, samplePlansFromFilePooled patch strategy model ask schedule nSamples maxWorkers
        queries = .ok out) ↔ ∀ q ∈ queries, Answerable patch strategy q := by
  constructor
  · rintro ⟨out, h⟩ q hq
    obtain ⟨selected, batch, prompts, hselected, hbatch, hprompts, _⟩ :=
      (samplePlansFromFilePooled_eq_ok hn hw).mp h
    obtain ⟨p, hp, hselect⟩ := Except.ok_of_mapM hselected q hq
    obtain ⟨rfl, hbases⟩ := selectBasePlans_eq hselect
    refine ⟨p.2, hbases, fun base hbase => ?_⟩
    have hmem : (p.1, base) ∈ batchOf selected :=
      List.mem_flatMap.mpr ⟨p, hp, List.mem_map_of_mem hbase⟩
    obtain ⟨item, hitem, he⟩ := Except.ok_of_mapM hbatch _ hmem
    obtain ⟨prompt, _, hprompt⟩ := Except.ok_of_mapM hprompts _ hitem
    exact ⟨prompt, Except.bind_eq_ok.mpr ⟨item, he, hprompt⟩⟩
  · intro h
    have hitems : ∀ q ∈ queries, ∃ bases,
        getBasePlansForSampling q.sampledPlans strategy = .ok bases ∧
          ∀ base ∈ bases, ∃ item, batchItem patch (q, base) = .ok item := by
      intro q hq
      obtain ⟨bases, hbases, hprompts⟩ := h q hq
      refine ⟨bases, hbases, fun base hbase => ?_⟩
      obtain ⟨prompt, hprompt⟩ := hprompts base hbase
      obtain ⟨item, hitem, _⟩ := Except.bind_eq_ok.mp hprompt
      exact ⟨item, hitem⟩
    obtain ⟨selected, batch, hselected, hbatch⟩ := exists_batch hitems
    obtain ⟨prompts, hprompts⟩ := Except.exists_mapM_ok (f := promptOf) fun item hitem => by
      obtain ⟨x, hx, he⟩ := Except.mem_of_mapM hbatch hitem
      obtain ⟨q, hq, bases, hbases, base, hbase, rfl⟩ := mem_batchOf hselected hx
      obtain ⟨bases', hbases', hprompts⟩ := h q hq
      obtain rfl := Except.ok.inj (hbases.symm.trans hbases')
      obtain ⟨prompt, hprompt⟩ := hprompts base hbase
      rw [he, Except.ok_bind] at hprompt
      exact ⟨prompt, hprompt⟩
    exact ⟨_, (samplePlansFromFilePooled_eq_ok hn hw).mpr
      ⟨selected, batch, prompts, hselected, hbatch, hprompts, rfl⟩⟩

end

/-! ## Every base plan gets the answers to its own prompt -/

/-- The samples of a query whose base plans start at `start` in the batch: for each base plan in
order the answers to its own prompt, each with the base plan's parent, patches and statistics. -/
structure Aligned (patch : JsonPatch) (strategy : SamplingStrategy) (model : String) (ask : Ask)
    (nSamples start : Nat) (q : QueryData) (bases : List BasePlan) (prompts : List Prompt)
    (sq : SampledQuery) : Prop where
  selected : getBasePlansForSampling q.sampledPlans strategy = .ok bases
  asked : bases.mapM (fun base => batchItem patch (q, base) >>= promptOf) = .ok prompts
  query : sq.id = q.id ∧ sq.query = q.query ∧ sq.plan = q.plan ∧ sq.model = model
  samples : sq.sampledPlans = (bases.zip (prompts.zipIdx start)).flatMap fun p =>
    (List.range nSamples).map fun j => newSampledPlan p.1 (ask p.2.2 j p.2.1)
  count : sq.sampledPlans.length = bases.length * nSamples

/-- **Generated patches land on their own base plan**, whatever the order in which the calls are
submitted and complete; and the function returns exactly when every query has base plans with
prompts. -/
theorem samplePlansFromFile_aligned (patch : JsonPatch) (strategy : SamplingStrategy)
    (model : String) (ask : Ask) (schedule : Schedule) (nSamples : Nat) (maxWorkers : Int)
    (queries : List QueryData) (hn : 0 < nSamples) (hw : 0 < maxWorkers) :
    ((∃ out, samplePlansFromFilePooled patch strategy model ask schedule nSamples maxWorkers
        queries = .ok out) ↔ ∀ q ∈ queries, Answerable patch strategy q) ∧
      ∀ out, samplePlansFromFilePooled patch strategy model ask schedule nSamples maxWorkers
          queries = .ok out →
        out.length = queries.length ∧ ∀ i q, queries[i]? = some q → ∃ bases prompts sq,
          out[i]? = some sq ∧ Aligned patch strategy model ask nSamples
            (batchStart strategy queries i) q bases prompts sq := by
  refine ⟨exists_samplePlansFromFilePooled hn hw, fun out h => ?_⟩
  have hanswerable := (exists_samplePlansFromFilePooled hn hw).mp ⟨out, h⟩
  obtain ⟨hlen, hquery⟩ := samplePlansFromFile_query (samplePlansFromFile_eq hn hw h)
  refine ⟨hlen, fun i q hq => ?_⟩
  obtain ⟨bases, items, hbases, hitems, hget⟩ := hquery i q hq
  obtain ⟨bases', hbases', hprompt⟩ := hanswerable q (List.mem_of_getElem? hq)
  obtain rfl := Except.ok.inj (hbases.symm.trans hbases')
  obtain ⟨prompts, hprompts⟩ := Except.exists_mapM_ok hprompt
  -- the prompts of the base plans are those of the items they became
  have hasked : items.mapM promptOf = .ok prompts :=
    Except.mapM_of_bind (List.mapM_map.symm.trans hitems) hprompts
  rw [answers_of_prompts hasked] at hget
  have hsamples : (sampledQuery model (q, bases) ((prompts.zipIdx
      (batchStart strategy queries i)).map (answersTo ask nSamples))).sampledPlans =
      (bases.zip (prompts.zipIdx (batchStart strategy queries i))).flatMap fun p =>
        (List.range nSamples).map fun j => newSampledPlan p.1 (ask p.2.2 j p.2.1) := by
    rw [sampledQuery, List.zip_map_right, List.flatMap_map]
    simp only [Prod.map, id_eq, answersTo, List.map_map]
    rfl
  refine ⟨bases, prompts, _, hget, hbases, hprompts, ⟨rfl, rfl, rfl, rfl⟩, hsamples, ?_⟩
  have hsize := (Except.mapM_eq_ok.mp hprompts).length_eq
  rw [hsamples, List.length_flatMap]
  simp [hsize]

/-- A sample of the root, without patches. -/
def emptySample (id : Nat) (isValid : Bool) : PlanInfo :=
  { originalPlan .null with
    planType := .optimized
    sampleId := some id
    isValid := isValid }

/-- A query whose root is not among the last samples. -/
def askedQuery (id : Nat) (samples : List PlanInfo) : QueryData where
  id := id
  query := "select * from t"
  plan := .obj [("structure", .obj []), ("succinct_table_info", .obj [])]
  complexity := .int 0
  rowCount := .int 1
  model := "gpt-5"
  sampledPlans := { originalPlan .null with isLast := false } :: samples

/-- The last call first. -/
def lastFirst : Schedule := ⟨fun _ => Fin.revPerm, fun _ => Equiv.refl _, fun _ _ => Fin.revPerm⟩

/-- A query without valid samples, and one with two. -/
def unevenQueries : List QueryData :=
  [askedQuery 0 [emptySample 1 false], askedQuery 1 [emptySample 1 true, emptySample 2 true]]

/-- All valid entries of the last step. -/
def validLast : SamplingStrategy := ⟨.ofLast, .all, true, none, none⟩

/-- The model answers with the position of its question. -/
def echo : Ask := fun i j _ => ⟨noResponse, none, some [.int i, .int j]⟩

/-- A batch that completes backwards: the second query has all of the answers. -/
theorem samplePlansFromFile_aligned_uneven : ∃ bases prompts sq,
    Aligned replacePatch validLast "gpt-5" echo 3 0
        (askedQuery 1 [emptySample 1 true, emptySample 2 true]) bases prompts sq ∧
      sq.sampledPlans.length = 6 := by
  obtain ⟨_, hall⟩ := samplePlansFromFile_aligned replacePatch validLast "gpt-5" echo lastFirst 3 10
    unevenQueries (by decide) (by decide)
  obtain ⟨out, hout⟩ := Except.exists_of_isSome (x := samplePlansFromFilePooled replacePatch
    validLast "gpt-5" echo lastFirst 3 10 unevenQueries) (by decide +kernel)
  obtain ⟨bases, prompts, sq, _, haligned⟩ := (hall out hout).2 1 _ rfl
  have hstart : batchStart validLast unevenQueries 1 = 0 := by decide +kernel
  have hcount : baseCount validLast (askedQuery 1 [emptySample 1 true, emptySample 2 true]) =
      2 := by decide +kernel
  rw [hstart] at haligned
  rw [baseCount, haligned.selected] at hcount
  have hbases : bases.length = 2 := hcount
  exact ⟨bases, prompts, sq, haligned, by rw [haligned.count, hbases]⟩

end DbPlanBench.Sampling
