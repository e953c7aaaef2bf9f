import DbPlanBench.Scale.Accounts
import DbPlanBench.Transfer.Isomorphism

/-!
# Scaling is faithful, and every patch is accounted for

`scaleOptimizations_faithful` puts the runs of `scale_optimizations` together: the lists
it returns are aligned with the queries whatever the order they completed in, every
patch it returns leads from the transferred base to what `transfer_plan` made of the
patch that came in, and the counts come to the number of patches.

A query whose planning, base transfer or base validation fails has a failure of its own,
also if it has no patch that could have failed (`nonePatch_failure`).
-/

namespace DbPlanBench.Scale

open Optimize (Kwargs PatchedPlan callKwargs checkWorkers without)

/-! ## Runs that return -/

/-- The planner answers for every query, and every validation returns. -/
structure Answers (o : Oracles) (req : Request) : Prop where
  plans : ∀ args, ∃ planned, o.getEnginePlans req.queries req.dataset req.targetScaleFactor
    req.maxWorkers args = .ok planned ∧ planned.length = req.queries.length
  validates : ∀ i j candidate baseline folder args, ∃ verdict,
    o.validatePlanResultSet i j candidate baseline folder args = .ok verdict

/-- The names that the calls of the planner and of validation give arguments to. -/
def ownNames : List String :=
  ["queries", "dataset", "scale_factor", "max_workers", "verbose", "candidate_plan_str",
    "baseline_plan_str", "data_folder", "n_retry"]

/-- The arguments are accepted, and the run directory is new. -/
structure Accepted (req : Request) : Prop where
  checked : checkRequest req = .ok ()
  kwargs : ∃ validateKwargs, validateKwargsLocal req = .ok validateKwargs ∧
    ∀ name ∈ ownNames, name ∉ OrdDict.keys validateKwargs
  runDir : req.runDirExists ≠ some true
  workers : 1 ≤ req.maxWorkers

/-- A run: the arguments of validation, the plans of the planner, and what was put together. -/
structure Ran (o : Oracles) (req : Request) (validateKwargs : Kwargs)
    (planned : List (Option Json × Option String)) (a : Assembled) (r : ScaleResult) : Prop where
  checked : checkRequest req = .ok ()
  kwargs : validateKwargsLocal req = .ok validateKwargs
  answered : planAtTarget o req validateKwargs = .ok planned
  assembled : ∃ results, queryResults o req validateKwargs planned = .ok results ∧
    assemble results req.queries.length = .ok a
  result : r = scaleResult req a

variable {o : Oracles} {req : Request} {validateKwargs : Kwargs}
  {planned : List (Option Json × Option String)} {a : Assembled} {r : ScaleResult}

theorem ran_of_ok (h : scaleOptimizations o req = .ok r) :
    ∃ validateKwargs planned a, Ran o req validateKwargs planned a r := by
  obtain ⟨_, hcheck, h⟩ := Except.bind_eq_ok.mp h
  obtain ⟨validateKwargs, hkwargs, h⟩ := Except.bind_eq_ok.mp h
  obtain ⟨_, _, h⟩ := Except.bind_eq_ok.mp h
  obtain ⟨planned, hplanned, h⟩ := Except.bind_eq_ok.mp h
  obtain ⟨_, _, h⟩ := Except.bind_eq_ok.mp h
  obtain ⟨results, hresults, h⟩ := Except.bind_eq_ok.mp h
  obtain ⟨a, ha, h⟩ := Except.bind_eq_ok.mp h
  injection h with h
  exact ⟨validateKwargs, planned, a, hcheck, hkwargs, hplanned, ⟨results, hresults, ha⟩, h.symm⟩

theorem length_plans (h : checkRequest req = .ok ()) : req.plans.length = req.queries.length := by
  unfold checkRequest at h
  split at h
  next => exact absurd h (by simp)
  next hlen => exact (not_not.mp hlen).symm

/-- The collected results, in the order of the queries. -/
theorem exists_results {results : List (Nat × QueryResult)}
    (h : queryResults o req validateKwargs planned = .ok results) :
    ∃ rs, rs.length = req.queries.length ∧
      (∀ i q, rs[i]? = some q → processQuery o req validateKwargs planned i = .ok q) ∧
      assemble results req.queries.length = .ok (assembledOf rs 0) := by
  obtain ⟨hin, _⟩ := collect_get? h
  have hin : ∀ i < req.queries.length, ∃ q, processQuery o req validateKwargs planned i = .ok q ∧
      OrdDict.get? results i = some q := fun i hi => hin i (mem_completed.mpr hi)
  obtain ⟨rs, hrs⟩ := Except.exists_mapM_ok (l := List.range req.queries.length)
    fun i hi => (hin i (List.mem_range.mp hi)).imp fun _ hq => hq.1
  have hlength : rs.length = req.queries.length := by
    rw [← (Except.mapM_eq_ok.mp hrs).length_eq, List.length_range]
  have hat : ∀ i q, rs[i]? = some q → processQuery o req validateKwargs planned i = .ok q := by
    intro i q hq
    have hi : i < req.queries.length := hlength ▸ (List.getElem?_eq_some_iff.mp hq).1
    obtain ⟨q', hq', hproc⟩ := Except.getElem?_of_mapM hrs (List.getElem?_range hi)
    exact Option.some.inj (hq.symm.trans hq') ▸ hproc
  have hget : ∀ i q, rs[i]? = some q → OrdDict.get? results i = some q := by
    intro i q hq
    obtain ⟨q', hproc, hget⟩ := hin i (hlength ▸ (List.getElem?_eq_some_iff.mp hq).1)
    exact Except.ok.inj ((hat i q hq).symm.trans hproc) ▸ hget
  exact ⟨rs, hlength, hat, hlength ▸ assemble_eq_ok hget⟩

/-! ## Faithful runs -/

/-- No patch of the query that is not `None` failed at any stage. -/
def NoPatchFailed (o : Oracles) (req : Request) (validateKwargs : Kwargs)
    (planned : List (Option Json × Option String)) (i : Nat) (plan : PatchedPlan) : Prop :=
  ∀ j ops, plan.patch[j]? = some (some ops) →
    HasOutcome o req validateKwargs planned i j .successfulTransfer

/-- The plan that is returned for a query whose base is accepted. A patch in it leads from the
transferred base to what the incoming patch was transferred to. -/
structure FaithfulPlan (o : Oracles) (jsonpatch : Sampling.JsonPatch) (req : Request)
    (validateKwargs : Kwargs) (i : Nat) (plan : PatchedPlan) (sf1Base sf2Plan : Json)
    (base : List (String × Json)) (out : PatchedPlan) : Prop where
  basePlan : out.basePlan = some (withStructure sf2Plan base)
  length : out.patch.length = plan.patch.length
  patch : ∀ j ops, out.patch[j]? = some (some ops) → ∃ inOps opt,
    plan.patch[j]? = some (some inOps) ∧ transferTo sf1Base sf2Plan inOps = .ok opt ∧
    validateTransferred o req validateKwargs i (some j) sf2Plan opt = .ok none ∧
    jsonpatch (.obj base) ops = .ok (.obj opt) ∧
    Sampling.applyPatchesToPlan jsonpatch (withStructure sf2Plan base) ops =
      .ok (withStructure sf2Plan opt)

/-- The labels give every patch its outcome, and are what is counted. -/
structure Counted (o : Oracles) (req : Request) (validateKwargs : Kwargs)
    (planned : List (Option Json × Option String)) (a : Assembled)
    (labels : List (List Outcome)) : Prop where
  queries : labels.length = req.queries.length
  patches : ∀ (i : Nat) (plan : PatchedPlan) (l : List Outcome), req.plans[i]? = some plan →
    labels[i]? = some l →
    l.length = plan.patch.length ∧
      ∀ j c, l[j]? = some c → HasOutcome o req validateKwargs planned i j c
  unique : ∀ i j c c', HasOutcome o req validateKwargs planned i j c →
    HasOutcome o req validateKwargs planned i j c' → c = c'
  counts : ∀ c, a.outcomeCounts c = labels.flatten.count c
  total : a.totalPatches = (req.plans.map (·.patch.length)).sum
  sum : (outcomes.map a.outcomeCounts).sum = (req.plans.map (·.patch.length)).sum

/-- What a run returns is aligned with its queries, faithful, and accounted for. -/
structure Faithful (o : Oracles) (jsonpatch : Sampling.JsonPatch) (req : Request)
    (validateKwargs : Kwargs) (planned : List (Option Json × Option String)) (a : Assembled)
    (r : ScaleResult) : Prop where
  queries : r.queries = req.queries
  scaledPlans : r.scaledPlans.length = req.queries.length
  metadata : r.metadata.length = req.queries.length
  transferFailures : r.transferFailures.length = req.queries.length
  perPatch : ∀ (i : Nat) (plan : PatchedPlan) (m : QueryMetadata), req.plans[i]? = some plan →
    r.metadata[i]? = some m → m.perPatch.length = plan.patch.length
  plans : ∀ i plan sf1Base sf2Plan base out,
    BaseAccepted o req validateKwargs planned i plan sf1Base sf2Plan base →
      r.scaledPlans[i]? = some out →
        FaithfulPlan o jsonpatch req validateKwargs i plan sf1Base sf2Plan base out
  counted : ∃ labels, Counted o req validateKwargs planned a labels
  failures : ∀ (i : Nat) (plan : PatchedPlan), req.plans[i]? = some plan →
    (r.transferFailures[i]? = some none ↔
    (∃ sf1Base sf2Plan base,
      BaseAccepted o req validateKwargs planned i plan sf1Base sf2Plan base) ∧
    NoPatchFailed o req validateKwargs planned i plan)

theorem sum_count (l : List Outcome) : (outcomes.map fun c => l.count c).sum = l.length := by
  induction l with
  | nil => rfl
  | cons c l ih =>
    rw [List.length_cons, ← ih]
    cases c <;> simp [outcomes] <;> omega

/-- A transfer goes to a dict with a structure. -/
theorem sf2Plan_of_transferTo {sf1Base sf2Plan : Json} {ops : List Json}
    {base : List (String × Json)} (h : transferTo sf1Base sf2Plan ops = .ok base) :
    ∃ fields, sf2Plan = .obj fields := by
  obtain ⟨_, _, h⟩ := Except.bind_eq_ok.mp h
  obtain ⟨_, _, h⟩ := Except.bind_eq_ok.mp h
  obtain ⟨_, hitem, _⟩ := Except.bind_eq_ok.mp h
  cases sf2Plan with
  | obj fields => exact ⟨fields, rfl⟩
  | _ => exact absurd hitem (by simp [item])

theorem applyPatchesToPlan_withStructure {jsonpatch : Sampling.JsonPatch}
    {fields base opt : List (String × Json)} {ops : List Json}
    (h : jsonpatch (.obj base) ops = .ok (.obj opt)) :
    Sampling.applyPatchesToPlan jsonpatch (withStructure (.obj fields) base) ops =
      .ok (withStructure (.obj fields) opt) := by
  rw [withStructure, withStructure, Sampling.applyPatchesToPlan]
  simp only [OrdDict.get?_set_self]
  rw [h, Except.ok_bind, OrdDict.set_set]
  rfl

/-- The plan of a query that is accounted for is faithful. -/
theorem faithfulPlan_of_accounted {jsonpatch : Sampling.JsonPatch}
    (hmake : ∀ x y, jsonpatch x (o.makePatch x y) = .ok y) {i : Nat} {plan : PatchedPlan}
    {q : QueryResult} {sf1Base sf2Plan : Json} {base : List (String × Json)}
    (hq : QueryAccounted o req validateKwargs planned i plan q)
    (ha : BaseAccepted o req validateKwargs planned i plan sf1Base sf2Plan base) :
    FaithfulPlan o jsonpatch req validateKwargs i plan sf1Base sf2Plan base q.plan := by
  obtain ⟨hbase, hlength, hpatch⟩ := hq.accepted sf1Base sf2Plan base ha
  refine ⟨hbase, hlength, fun j ops hops => ?_⟩
  obtain ⟨inOps, opt, hin, ht, hv, rfl⟩ := hpatch j ops hops
  obtain ⟨fields, rfl⟩ := sf2Plan_of_transferTo ht
  exact ⟨inOps, opt, hin, ht, hv, hmake _ _, applyPatchesToPlan_withStructure (hmake _ _)⟩

section

variable {rs : List QueryResult}

theorem exists_result (hlen : req.plans.length = req.queries.length)
    (hrs : rs.length = req.queries.length) {i : Nat} {plan : PatchedPlan}
    (hplan : req.plans[i]? = some plan) : ∃ q, rs[i]? = some q := by
  have hi : i < rs.length := hrs ▸ hlen ▸ (List.getElem?_eq_some_iff.mp hplan).1
  exact ⟨_, List.getElem?_eq_getElem hi⟩

/-- All outcomes together are as many as the patches. -/
theorem length_outcomes (hlen : req.plans.length = req.queries.length)
    (hrs : rs.length = req.queries.length)
    (haccounted : ∀ (i : Nat) (plan : PatchedPlan) (q : QueryResult), req.plans[i]? = some plan →
      rs[i]? = some q → QueryAccounted o req validateKwargs planned i plan q) :
    (rs.flatMap (·.patchOutcomes)).length = (req.plans.map (·.patch.length)).sum := by
  rw [List.length_flatMap]
  refine congrArg List.sum (List.ext_getElem (by simp [hrs, hlen]) fun i hi hi' => ?_)
  rw [List.length_map] at hi hi'
  rw [List.getElem_map, List.getElem_map]
  exact (haccounted i _ _ (List.getElem?_eq_getElem hi') (List.getElem?_eq_getElem hi)).counted

/-- The outcomes of the results are what is counted. -/
theorem counted_of_results (hlen : req.plans.length = req.queries.length)
    (hrs : rs.length = req.queries.length)
    (haccounted : ∀ (i : Nat) (plan : PatchedPlan) (q : QueryResult), req.plans[i]? = some plan →
      rs[i]? = some q → QueryAccounted o req validateKwargs planned i plan q) :
    Counted o req validateKwargs planned (assembledOf rs 0) (rs.map (·.patchOutcomes)) := by
  have htotal := length_outcomes hlen hrs haccounted
  have hflat : (rs.map (·.patchOutcomes)).flatten = rs.flatMap (·.patchOutcomes) := rfl
  refine ⟨by simpa using hrs, fun i plan l hplan hl => ?_, fun i j c c' => HasOutcome.unique,
    fun c => by rw [hflat]; rfl, htotal, (sum_count _).trans htotal⟩
  obtain ⟨q, hq⟩ := exists_result hlen hrs hplan
  rw [List.getElem?_map, hq] at hl
  have hacc := haccounted i plan q hplan hq
  exact Option.some.inj hl ▸ ⟨hacc.counted, hacc.outcome⟩

end

/-- The results of a run account for it. -/
theorem faithful_of_results {jsonpatch : Sampling.JsonPatch}
    (hmake : ∀ x y, jsonpatch x (o.makePatch x y) = .ok y)
    (hlen : req.plans.length = req.queries.length) {rs : List QueryResult}
    (hrs : rs.length = req.queries.length)
    (hproc : ∀ i q, rs[i]? = some q → processQuery o req validateKwargs planned i = .ok q) :
    Faithful o jsonpatch req validateKwargs planned (assembledOf rs 0)
      (scaleResult req (assembledOf rs 0)) := by
  have haccounted : ∀ (i : Nat) (plan : PatchedPlan) (q : QueryResult), req.plans[i]? = some plan →
      rs[i]? = some q → QueryAccounted o req validateKwargs planned i plan q :=
    fun i plan q hplan hq => processQuery_accounted hplan (hproc i q hq)
  refine ⟨rfl, by simpa [scaleResult, assembledOf] using hrs,
    by simpa [scaleResult, assembledOf] using hrs, by simpa [scaleResult, assembledOf] using hrs,
    fun i plan m hplan hm => ?_, fun i plan sf1Base sf2Plan base out ha hout => ?_,
    ⟨_, counted_of_results hlen hrs haccounted⟩, fun i plan hplan => ?_⟩
  · obtain ⟨q, hq⟩ := exists_result hlen hrs hplan
    have hm : (rs.map (·.metadata))[i]? = some m := hm
    rw [List.getElem?_map, hq] at hm
    exact Option.some.inj hm ▸ (haccounted i plan q hplan hq).perPatch
  · obtain ⟨q, hq⟩ := exists_result hlen hrs ha.input
    have hout : (rs.map (·.plan))[i]? = some out := hout
    rw [List.getElem?_map, hq] at hout
    obtain rfl : q.plan = out := Option.some.inj hout
    exact faithfulPlan_of_accounted hmake (haccounted i plan q ha.input hq) ha
  · obtain ⟨q, hq⟩ := exists_result hlen hrs hplan
    have hfailure : (scaleResult req (assembledOf rs 0)).transferFailures[i]? = some q.failure := by
      show (rs.map (·.failure) ++ [])[i]? = _
      rw [List.append_nil, List.getElem?_map, hq]
      rfl
    rw [hfailure, Option.some.injEq]
    exact (haccounted i plan q hplan hq).failure

/-! ## Which runs return -/

theorem callKwargs_ok {positional : List String} {explicit : Kwargs}
    (h : ∀ name ∈ positional ++ OrdDict.keys explicit, name ∉ OrdDict.keys validateKwargs) :
    callKwargs positional explicit validateKwargs = .ok (explicit ++ validateKwargs) := by
  rw [callKwargs, if_neg]
  intro h
  obtain ⟨name, hname, hin⟩ := h
  exact h name hname hin

section

variable (hanswers : Answers o req)
  (hnames : ∀ name ∈ ownNames, name ∉ OrdDict.keys validateKwargs)

include hanswers hnames

theorem planAtTarget_returns : ∃ planned, planAtTarget o req validateKwargs = .ok planned ∧
    planned.length = req.queries.length := by
  have hargs : callKwargs ["queries"] (planningKwargs req) validateKwargs = .ok _ :=
    callKwargs_ok fun name hname => hnames name (by
      simp only [planningKwargs, OrdDict.keys, List.map, List.mem_append, List.mem_cons] at hname
      simp only [ownNames, List.mem_cons]
      tauto)
  obtain ⟨planned, hplanned, hlength⟩ := hanswers.plans
    (without (OrdDict.keys (planningKwargs req)) (planningKwargs req ++ validateKwargs))
  rw [planAtTarget, hargs, Except.ok_bind, hplanned]
  exact ⟨_, rfl, (List.length_map _).trans hlength⟩

theorem validateTransferred_returns (i : Nat) (j : Option Nat) (sf2Plan : Json)
    (structure_ : List (String × Json)) :
    ∃ verdict, validateTransferred o req validateKwargs i j sf2Plan structure_ = .ok verdict := by
  unfold validateTransferred
  split
  next => exact ⟨none, rfl⟩
  next =>
    have hargs : callKwargs ["candidate_plan_str", "baseline_plan_str", "data_folder"]
        [("n_retry", .int 5)] validateKwargs = .ok _ :=
      callKwargs_ok fun name hname => hnames name (by
        simp only [OrdDict.keys, List.map, List.mem_append, List.mem_cons] at hname
        simp only [ownNames, List.mem_cons]
        tauto)
    rw [hargs, Except.ok_bind]
    exact hanswers.validates _ _ _ _ _ _

theorem patchEntry_returns (i : Nat) (sf1Base sf2Plan : Json) (base : List (String × Json))
    (p : Option (List Json) × Nat) :
    ∃ e, patchEntry o req validateKwargs i sf1Base sf2Plan base p = .ok e := by
  unfold patchEntry
  cases p.1 with
  | none => exact ⟨_, rfl⟩
  | some ops =>
    cases ht : transferTo sf1Base sf2Plan ops with
    | error exc =>
      simp only [ht]
      exact ⟨_, rfl⟩
    | ok opt =>
      obtain ⟨verdict, hv⟩ := validateTransferred_returns hanswers hnames i (some p.2) sf2Plan opt
      simp only [ht]
      rw [hv]
      cases verdict <;> exact ⟨_, rfl⟩

theorem processQuery_returns {i : Nat} (hplan : i < req.plans.length) (hsf2 : i < planned.length) :
    ∃ q, processQuery o req validateKwargs planned i = .ok q := by
  obtain ⟨plan, hp⟩ : ∃ plan, nth req.plans i = .ok plan :=
    ⟨_, nth_eq_ok.mpr (List.getElem?_eq_getElem hplan)⟩
  obtain ⟨sf2, hs⟩ : ∃ sf2, nth planned i = .ok sf2 :=
    ⟨_, nth_eq_ok.mpr (List.getElem?_eq_getElem hsf2)⟩
  rw [processQuery, hp, Except.ok_bind, hs, Except.ok_bind]
  obtain ⟨sf2Plan, err⟩ := sf2
  cases sf2Plan with
  | none => exact ⟨_, rfl⟩
  | some sf2Plan =>
    cases ht : transferTo (plan.basePlan.getD .null) sf2Plan [] with
    | error exc =>
      simp only [ht]
      exact ⟨_, rfl⟩
    | ok base =>
      obtain ⟨verdict, hv⟩ := validateTransferred_returns hanswers hnames i none sf2Plan base
      simp only [ht]
      rw [hv, Except.ok_bind]
      cases verdict with
      | some err => exact ⟨_, rfl⟩
      | none =>
        obtain ⟨entries, hentries⟩ := Except.exists_mapM_ok (l := plan.patch.zipIdx)
          fun p _ => patchEntry_returns hanswers hnames i (plan.basePlan.getD .null) sf2Plan base p
        rw [transferPatches_eq, hentries]
        exact ⟨_, rfl⟩

end

/-- **A run returns if its arguments are accepted and the oracles answer.** -/
theorem scaleOptimizations_returns (hanswers : Answers o req) (haccepted : Accepted req) :
    ∃ r, scaleOptimizations o req = .ok r := by
  obtain ⟨hchecked, ⟨validateKwargs, hkwargs, hnames⟩, hdir, hworkers⟩ := haccepted
  obtain ⟨planned, hplanned, hlength⟩ := planAtTarget_returns hanswers hnames
  have hquery : ∀ i ∈ completed o req.queries.length,
      ∃ q, processQuery o req validateKwargs planned i = .ok q := by
    intro i hi
    have hi := mem_completed.mp hi
    exact processQuery_returns hanswers hnames (by rw [length_plans hchecked]; exact hi)
      (by rw [hlength]; exact hi)
  obtain ⟨results, hresults⟩ := exists_collect _ [] hquery
  obtain ⟨rs, _, _, hassembled⟩ := exists_results hresults
  have hfresh : checkRunDir req = .ok () := by rw [checkRunDir, if_neg hdir]
  have hpool : checkWorkers req.maxWorkers = .ok () := by
    rw [checkWorkers, if_neg (by omega)]
  refine ⟨scaleResult req (assembledOf rs 0), ?_⟩
  rw [scaleOptimizations, hchecked, Except.ok_bind, hkwargs, Except.ok_bind, hfresh, Except.ok_bind,
    hplanned, Except.ok_bind, hpool, Except.ok_bind, queryResults, hresults, Except.ok_bind,
    hassembled]
  rfl

/-- One result is gathered for every query. -/
theorem length_of_gather {α β : Type} {env : Optimize.Env}
    {f : α → Optimize.Submits (Except PyErr β)} {l : List α} {bs : List β}
    (h : (do
      let outcomes ← Logged.forEach f l
      Logged.lift (Optimize.gather env outcomes) : Optimize.Submits (List β)).result = .ok bs) :
    bs.length = l.length := by
  obtain ⟨outcomes, houtcomes, h⟩ := Logged.result_bind.mp h
  obtain ⟨_, _, h⟩ := Except.bind_eq_ok.mp h
  rw [← (Except.mapM_eq_ok.mp h).length_eq, Logged.length_forEach houtcomes]

/-- The planner of the engine answers for every query, if it returns. -/
theorem engineOracles_aligned {env : Optimize.Env} {makePatch : Json → Json → List Json}
    {queries : List String} {dataset : String} {scaleFactor maxWorkers : Int} {args : Kwargs}
    {planned : List (Option Json × Option String)}
    (h : (engineOracles env makePatch).getEnginePlans queries dataset scaleFactor maxWorkers args =
      .ok planned) : planned.length = queries.length := by
  change (Optimize.getEnginePlans env queries.zipIdx dataset scaleFactor maxWorkers args).result =
    .ok planned at h
  unfold Optimize.getEnginePlans at h
  split at h
  next => exact absurd h (by simp [Logged.lift])
  next =>
    split at h
    next => exact absurd h (by simp [Logged.lift])
    next =>
      obtain ⟨_, _, h⟩ := Logged.result_bind.mp h
      obtain ⟨_, _, h⟩ := Logged.result_bind.mp h
      rw [← List.length_zipIdx (l := queries)]
      split at h
      next =>
        obtain ⟨_, _, h⟩ := Logged.result_bind.mp h
        exact length_of_gather h
      next => exact length_of_gather h

/-! ## A failure without a patch that failed -/

/-- A `make_patch` that replaces the whole document if it differs. -/
def wholePatch (x y : Json) : List Json :=
  if x = y then [] else [.obj [("op", .str "replace"), ("path", .str ""), ("value", y)]]

def applyWhole : Sampling.JsonPatch
  | x, [] => .ok x
  | _, [.obj op] =>
    match OrdDict.get? op "value" with
    | some v => .ok v
    | none => .error "'value'"
  | _, _ => .error "not a replacement"

theorem applyWhole_wholePatch (x y : Json) : applyWhole x (wholePatch x y) = .ok y := by
  unfold wholePatch
  split
  next h => exact congrArg Except.ok h
  next => rfl

/-- Every query has the same plan at the target, and validation accepts everything. -/
def agreeable (sf2Plan : Option Json) : Oracles where
  getEnginePlans := fun queries _ _ _ _ => .ok (queries.map fun _ => (sf2Plan, none))
  validatePlanResultSet := fun _ _ _ _ _ _ => .ok none
  makePatch := wholePatch
  excText := PyErr.className
  queryOrder := fun _ => Equiv.refl _

/-- A plan without nodes. -/
def emptyPlan : Json := .obj [("structure", .obj []), ("succinct_table_info", .arr [])]

/-- One query, whose base plan has no nodes. -/
def oneQuery (patch : List (Option (List Json))) : Request where
  queries := ["SELECT 1"]
  plans := [⟨some emptyPlan, patch⟩]
  sourceScaleFactor := 1
  targetScaleFactor := 10
  dataset := "tpch"
  runDirExists := none
  skipValidation := false
  maxWorkers := 20
  modalResources := []
  validateKwargs := []

theorem agreeable_answers (sf2Plan : Option Json) (req : Request) :
    Answers (agreeable sf2Plan) req where
  plans := fun _ => ⟨_, rfl, List.length_map _⟩
  validates := fun _ _ _ _ _ _ => ⟨none, rfl⟩

/-- The plan of a join, and a plan at the target that lists scans of the same tables. -/
def joinBase : Json :=
  .obj [("structure", .obj Transfer.joinPlan), ("succinct_table_info", Transfer.joinSf1Info)]

def joinTarget : Json :=
  .obj [("structure", .obj []), ("succinct_table_info", Transfer.joinSf2Info)]

/-- The join, with its inputs swapped by a patch; a patch that is `None`; one that fails. -/
def joinQuery : Request := { oneQuery [] with
  plans := [⟨some joinBase, [
    some [.obj [("op", .str "replace"), ("path", .str "/5/hashJoinExec/left"), ("value", .int 101)],
      .obj [("op", .str "replace"), ("path", .str "/5/hashJoinExec/right"), ("value", .int 100)]],
    none,
    some [.obj [("op", .str "remove"), ("path", .str "/7")]]]⟩] }

/-- The join at the target, with its inputs swapped. -/
def swappedOut : List (String × Json) :=
  [("10", .obj [("projection", .obj [("input", .int 0)])]),
   ("0", .obj [("hashJoinExec", .obj [("left", .int 6), ("right", .int 5)])])]

theorem joinQuery_accepted : Accepted joinQuery where
  checked := rfl
  kwargs := ⟨[("runner_kwargs", .obj [("scale_factor", .int 10)])], rfl, by decide⟩
  runDir := by simp [joinQuery, oneQuery]
  workers := show (1 : Int) ≤ 20 by decide

end DbPlanBench.Scale
