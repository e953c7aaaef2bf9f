import DbPlanBench.Scale.Run

/-!
# Every patch is accounted for

A query leaves `_process_query` at one of five points, and within the loop a patch at
one of four. `HasOutcome` says which of the categories a patch belongs to; it is
decided by the planner, the transfers and the validations alone (`HasOutcome.unique`).

* `transferPatches_eq_ok` — the three lists of the loop come from one list of entries.
* `processQuery_accounted` — what a query returns agrees with the outcomes of its patches.
* `assemble_eq_ok` — the assembly returns the queries' results in order, whatever the order
  they completed in; the induction is on the number of queries that have been added.
-/

namespace DbPlanBench.Scale

open Optimize (Env Kwargs PatchedPlan callKwargs checkWorkers kwarg without)

/-! ## Outcomes -/

section

variable (o : Oracles) (req : Request) (validateKwargs : Kwargs)
  (planned : List (Option Json × Option String))

/-- The query has a plan at the target. -/
structure Planned (i : Nat) (plan : PatchedPlan) (sf1Base sf2Plan : Json) : Prop where
  input : req.plans[i]? = some plan
  sf1 : sf1Base = plan.basePlan.getD .null
  sf2 : ∃ err, planned[i]? = some (some sf2Plan, err)

/-- The base plan is transferred, and validation does not object. -/
structure BaseAccepted (i : Nat) (plan : PatchedPlan) (sf1Base sf2Plan : Json)
    (base : List (String × Json)) : Prop extends Planned req planned i plan sf1Base sf2Plan where
  transferred : transferTo sf1Base sf2Plan [] = .ok base
  validated : validateTransferred o req validateKwargs i none sf2Plan base = .ok none

/-- The outcome of a patch whose base is accepted. -/
inductive PatchOutcome (i j : Nat) (sf1Base sf2Plan : Json) : Option (List Json) → Outcome → Prop
  | skipped : PatchOutcome i j sf1Base sf2Plan none .skippedNonePatch
  | transferFailed {ops : List Json} {exc : PyErr}
      (transferred : transferTo sf1Base sf2Plan ops = .error exc) :
      PatchOutcome i j sf1Base sf2Plan (some ops) .optimizationTransferFailed
  | validationFailed {ops : List Json} {opt : List (String × Json)} {err : String}
      (transferred : transferTo sf1Base sf2Plan ops = .ok opt)
      (validated :
        validateTransferred o req validateKwargs i (some j) sf2Plan opt = .ok (some err)) :
      PatchOutcome i j sf1Base sf2Plan (some ops) .optimizationValidationFailed
  | successful {ops : List Json} {opt : List (String × Json)}
      (transferred : transferTo sf1Base sf2Plan ops = .ok opt)
      (validated : validateTransferred o req validateKwargs i (some j) sf2Plan opt = .ok none) :
      PatchOutcome i j sf1Base sf2Plan (some ops) .successfulTransfer

/-- The outcome of patch `j` of query `i`. -/
inductive HasOutcome (i j : Nat) : Outcome → Prop
  | planningFailed {err : Option String} (sf2 : planned[i]? = some (none, err)) :
      HasOutcome i j .planningFailed
  | baseTransferFailed {plan : PatchedPlan} {sf1Base sf2Plan : Json} {exc : PyErr}
      (sf2 : Planned req planned i plan sf1Base sf2Plan)
      (transferred : transferTo sf1Base sf2Plan [] = .error exc) :
      HasOutcome i j .baseTransferFailed
  | baseValidationFailed {plan : PatchedPlan} {sf1Base sf2Plan : Json} {base : List (String × Json)}
      {err : String} (sf2 : Planned req planned i plan sf1Base sf2Plan)
      (transferred : transferTo sf1Base sf2Plan [] = .ok base)
      (validated : validateTransferred o req validateKwargs i none sf2Plan base = .ok (some err)) :
      HasOutcome i j .baseValidationFailed
  | patch {plan : PatchedPlan} {sf1Base sf2Plan : Json} {base : List (String × Json)}
      {ops : Option (List Json)} {c : Outcome}
      (accepted : BaseAccepted o req validateKwargs planned i plan sf1Base sf2Plan base)
      (there : plan.patch[j]? = some ops)
      (outcome : PatchOutcome o req validateKwargs i j sf1Base sf2Plan ops c) :
      HasOutcome i j c

end

variable {o : Oracles} {req : Request} {validateKwargs : Kwargs}
  {planned : List (Option Json × Option String)} {i j : Nat} {sf1Base sf2Plan : Json}
  {plan : PatchedPlan} {base : List (String × Json)}

theorem Planned.unique {plan' : PatchedPlan} {sf1Base' sf2Plan' : Json}
    (h : Planned req planned i plan sf1Base sf2Plan)
    (h' : Planned req planned i plan' sf1Base' sf2Plan') :
    plan = plan' ∧ sf1Base = sf1Base' ∧ sf2Plan = sf2Plan' := by
  obtain ⟨hinput, hbase, err, hsf2⟩ := h
  obtain ⟨hinput', hbase', err', hsf2'⟩ := h'
  rw [hinput] at hinput'
  rw [hsf2] at hsf2'
  injection hinput' with hplan
  injection hsf2' with hpair
  injection hpair with hsf2 _
  injection hsf2 with hsf2
  exact ⟨hplan, by rw [hbase, hbase', hplan], hsf2⟩

theorem Planned.planned_ne_none {err : Option String}
    (h : Planned req planned i plan sf1Base sf2Plan) : planned[i]? ≠ some (none, err) := by
  obtain ⟨_, _, err', hsf2⟩ := h
  rw [hsf2]
  simp

theorem PatchOutcome.unique {ops : Option (List Json)} {c c' : Outcome}
    (h : PatchOutcome o req validateKwargs i j sf1Base sf2Plan ops c)
    (h' : PatchOutcome o req validateKwargs i j sf1Base sf2Plan ops c') : c = c' := by
  cases h with
  | skipped => cases h'; rfl
  | transferFailed transferred =>
    cases h' with
    | transferFailed => rfl
    | validationFailed transferred' => exact absurd (transferred.symm.trans transferred') (by simp)
    | successful transferred' => exact absurd (transferred.symm.trans transferred') (by simp)
  | validationFailed transferred validated =>
    cases h' with
    | transferFailed transferred' => exact absurd (transferred.symm.trans transferred') (by simp)
    | validationFailed => rfl
    | successful transferred' validated' =>
      obtain rfl := Except.ok.inj (transferred.symm.trans transferred')
      exact absurd (validated.symm.trans validated') (by simp)
  | successful transferred validated =>
    cases h' with
    | transferFailed transferred' => exact absurd (transferred.symm.trans transferred') (by simp)
    | validationFailed transferred' validated' =>
      obtain rfl := Except.ok.inj (transferred.symm.trans transferred')
      exact absurd (validated.symm.trans validated') (by simp)
    | successful => rfl

/-- **A patch has one outcome.** -/
theorem HasOutcome.unique {c c' : Outcome} (h : HasOutcome o req validateKwargs planned i j c)
    (h' : HasOutcome o req validateKwargs planned i j c') : c = c' := by
  cases h with
  | planningFailed sf2 =>
    cases h' with
    | planningFailed => rfl
    | baseTransferFailed p => exact absurd sf2 p.planned_ne_none
    | baseValidationFailed p => exact absurd sf2 p.planned_ne_none
    | patch a => exact absurd sf2 a.planned_ne_none
  | baseTransferFailed p transferred =>
    cases h' with
    | planningFailed sf2 => exact absurd sf2 p.planned_ne_none
    | baseTransferFailed => rfl
    | baseValidationFailed p' transferred' =>
      obtain ⟨rfl, rfl, rfl⟩ := p.unique p'
      exact absurd (transferred.symm.trans transferred') (by simp)
    | patch a =>
      obtain ⟨rfl, rfl, rfl⟩ := p.unique a.toPlanned
      exact absurd (transferred.symm.trans a.transferred) (by simp)
  | baseValidationFailed p transferred validated =>
    cases h' with
    | planningFailed sf2 => exact absurd sf2 p.planned_ne_none
    | baseTransferFailed p' transferred' =>
      obtain ⟨rfl, rfl, rfl⟩ := p.unique p'
      exact absurd (transferred.symm.trans transferred') (by simp)
    | baseValidationFailed => rfl
    | patch a =>
      obtain ⟨rfl, rfl, rfl⟩ := p.unique a.toPlanned
      obtain rfl := Except.ok.inj (transferred.symm.trans a.transferred)
      exact absurd (validated.symm.trans a.validated) (by simp)
  | patch a there outcome =>
    cases h' with
    | planningFailed sf2 => exact absurd sf2 a.planned_ne_none
    | baseTransferFailed p' transferred' =>
      obtain ⟨rfl, rfl, rfl⟩ := p'.unique a.toPlanned
      exact absurd (transferred'.symm.trans a.transferred) (by simp)
    | baseValidationFailed p' transferred' validated' =>
      obtain ⟨rfl, rfl, rfl⟩ := p'.unique a.toPlanned
      obtain rfl := Except.ok.inj (transferred'.symm.trans a.transferred)
      exact absurd (validated'.symm.trans a.validated) (by simp)
    | patch a' there' outcome' =>
      obtain ⟨rfl, rfl, rfl⟩ := a.toPlanned.unique a'.toPlanned
      rw [there] at there'
      injection there' with hops
      exact outcome.unique (hops ▸ outcome')

/-! ## The patches of a query -/

/-- What a round of the loop over the patches appends to the three lists. -/
structure PatchEntry where
  patch : Option (List Json)
  metadata : PatchMetadata
  outcome : Outcome

def PatchLists.add (lists : PatchLists) (e : PatchEntry) : PatchLists :=
  lists.append e.patch e.metadata e.outcome

/-- The entry of a patch. -/
def patchEntry (o : Oracles) (req : Request) (validateKwargs : Kwargs) (i : Nat)
    (sf1Base sf2Plan : Json) (base : List (String × Json)) (p : Option (List Json) × Nat) :
    Except PyErr PatchEntry :=
  match p.1 with
  | none => .ok ⟨none, ⟨"skipped_none", none⟩, .skippedNonePatch⟩
  | some ops =>
    match transferTo sf1Base sf2Plan ops with
    | .error exc =>
      .ok ⟨none, ⟨"transfer_failed", some (o.excText exc)⟩, .optimizationTransferFailed⟩
    | .ok opt =>
      match validateTransferred o req validateKwargs i (some p.2) sf2Plan opt with
      | .error e => .error e
      | .ok (some err) => .ok ⟨none, ⟨"validation_failed", some err⟩, .optimizationValidationFailed⟩
      | .ok none =>
        .ok ⟨some (o.makePatch (.obj base) (.obj opt)), ⟨"transferred", none⟩, .successfulTransfer⟩

theorem transferPatch_eq (lists : PatchLists) (p : Option (List Json) × Nat) :
    transferPatch o req validateKwargs i sf1Base sf2Plan base lists p = do
      let e ← patchEntry o req validateKwargs i sf1Base sf2Plan base p
      return lists.add e := by
  unfold transferPatch patchEntry
  cases p.1 with
  | none => rfl
  | some ops =>
    cases ht : transferTo sf1Base sf2Plan ops with
    | error exc =>
      simp only [ht]
      rfl
    | ok opt =>
      simp only [ht]
      cases validateTransferred o req validateKwargs i (some p.2) sf2Plan opt with
      | error e => rfl
      | ok err => cases err <;> rfl

theorem foldl_addEntry : ∀ (entries : List PatchEntry) (lists : PatchLists),
    entries.foldl PatchLists.add lists =
      { transferredNormalized := lists.transferredNormalized ++ entries.map (·.patch)
        perPatch := lists.perPatch ++ entries.map (·.metadata)
        patchOutcomes := lists.patchOutcomes ++ entries.map (·.outcome) }
  | [], lists => by simp
  | e :: entries, lists => by
    rw [List.foldl_cons, foldl_addEntry entries]
    simp [PatchLists.add, PatchLists.append]

/-- **The three lists of the loop come from one list of entries**, one for each patch. -/
theorem transferPatches_eq : transferPatches o req validateKwargs i plan sf1Base sf2Plan base =
    (plan.patch.zipIdx.mapM (patchEntry o req validateKwargs i sf1Base sf2Plan base)).map
      fun entries =>
        { queryIdx := i
          plan := ⟨some (withStructure sf2Plan base), entries.map (·.patch)⟩
          metadata := ⟨"ok", none, entries.map (·.metadata)⟩
          failure := (entries.map (·.metadata)).findSome? (·.error)
          patchOutcomes := entries.map (·.outcome) } := by
  have hloop : plan.patch.zipIdx.foldlM (transferPatch o req validateKwargs i sf1Base sf2Plan base)
      ⟨[], [], []⟩ = (plan.patch.zipIdx.mapM
        (patchEntry o req validateKwargs i sf1Base sf2Plan base)).map
          (·.foldl PatchLists.add ⟨[], [], []⟩) := by
    rw [← Except.foldlM_eq_mapM]
    exact congrArg (List.foldlM · _ _) (funext fun lists => funext (transferPatch_eq lists))
  rw [transferPatches, hloop]
  cases plan.patch.zipIdx.mapM (patchEntry o req validateKwargs i sf1Base sf2Plan base) with
  | error e => rfl
  | ok entries =>
    simp only [Except.map, Except.ok_bind, foldl_addEntry, List.nil_append]
    rfl

/-- What an entry says about its patch. -/
structure EntryOf (o : Oracles) (req : Request) (validateKwargs : Kwargs) (i : Nat)
    (sf1Base sf2Plan : Json) (base : List (String × Json)) (ops : Option (List Json)) (j : Nat)
    (e : PatchEntry) : Prop where
  outcome : PatchOutcome o req validateKwargs i j sf1Base sf2Plan ops e.outcome
  error : e.metadata.error = none ↔ ops = none ∨ e.outcome = .successfulTransfer
  patch : ∀ out, e.patch = some out → ∃ inOps opt, ops = some inOps ∧
    transferTo sf1Base sf2Plan inOps = .ok opt ∧
    validateTransferred o req validateKwargs i (some j) sf2Plan opt = .ok none ∧
    out = o.makePatch (.obj base) (.obj opt)

theorem patchEntry_spec {ops : Option (List Json)} {e : PatchEntry}
    (h : patchEntry o req validateKwargs i sf1Base sf2Plan base (ops, j) = .ok e) :
    EntryOf o req validateKwargs i sf1Base sf2Plan base ops j e := by
  unfold patchEntry at h
  cases ops with
  | none =>
    injection h with h
    subst h
    exact ⟨.skipped, by simp, fun out hout => absurd hout (by simp)⟩
  | some ops =>
    cases ht : transferTo sf1Base sf2Plan ops with
    | error exc =>
      simp only [ht] at h
      injection h with h
      subst h
      exact ⟨.transferFailed ht, by simp, fun out hout => absurd hout (by simp)⟩
    | ok opt =>
      simp only [ht] at h
      cases hv : validateTransferred o req validateKwargs i (some j) sf2Plan opt with
      | error exc =>
        rw [hv] at h
        exact absurd h (by simp)
      | ok err =>
        rw [hv] at h
        cases err with
        | some err =>
          injection h with h
          subst h
          exact ⟨.validationFailed ht hv, by simp, fun out hout => absurd hout (by simp)⟩
        | none =>
          injection h with h
          subst h
          refine ⟨.successful ht hv, by simp, fun out hout => ?_⟩
          injection hout with hout
          exact ⟨ops, opt, rfl, ht, hv, hout.symm⟩

/-- The entry at a position is that of the patch there. -/
theorem entry_at {entries : List PatchEntry}
    (h : plan.patch.zipIdx.mapM (patchEntry o req validateKwargs i sf1Base sf2Plan base) =
      .ok entries) {ops : Option (List Json)} (hops : plan.patch[j]? = some ops) :
    ∃ e, entries[j]? = some e ∧ EntryOf o req validateKwargs i sf1Base sf2Plan base ops j e := by
  have hat : plan.patch.zipIdx[j]? = some (ops, j) := by
    rw [List.getElem?_zipIdx, hops]
    simp
  obtain ⟨e, he, hentry⟩ := Except.getElem?_of_mapM h hat
  exact ⟨e, he, patchEntry_spec hentry⟩

theorem length_entries {entries : List PatchEntry}
    (h : plan.patch.zipIdx.mapM (patchEntry o req validateKwargs i sf1Base sf2Plan base) =
      .ok entries) : entries.length = plan.patch.length := by
  rw [← (Except.mapM_eq_ok.mp h).length_eq, List.length_zipIdx]

/-- Every entry is that of a patch. -/
theorem patch_at {entries : List PatchEntry}
    (h : plan.patch.zipIdx.mapM (patchEntry o req validateKwargs i sf1Base sf2Plan base) =
      .ok entries) {e : PatchEntry} (he : entries[j]? = some e) :
    ∃ ops, plan.patch[j]? = some ops ∧
      EntryOf o req validateKwargs i sf1Base sf2Plan base ops j e := by
  have hj : j < plan.patch.length := length_entries h ▸ (List.getElem?_eq_some_iff.mp he).1
  have hops := List.getElem?_eq_getElem hj
  obtain ⟨e', he', hentry⟩ := entry_at h hops
  rw [he] at he'
  injection he' with he'
  exact ⟨_, hops, he' ▸ hentry⟩

/-! ## One query -/

theorem nth_eq_ok {α : Type} {l : List α} {k : Nat} {a : α} : nth l k = .ok a ↔ l[k]? = some a := by
  unfold nth
  cases l[k]? <;> simp

/-- What a query returns agrees with the outcomes of its patches. -/
structure QueryAccounted (o : Oracles) (req : Request) (validateKwargs : Kwargs)
    (planned : List (Option Json × Option String)) (i : Nat) (plan : PatchedPlan)
    (r : QueryResult) : Prop where
  counted : r.patchOutcomes.length = plan.patch.length
  outcome : ∀ j c, r.patchOutcomes[j]? = some c → HasOutcome o req validateKwargs planned i j c
  perPatch : r.metadata.perPatch.length = plan.patch.length
  failure : r.failure = none ↔
    (∃ sf1Base sf2Plan base,
      BaseAccepted o req validateKwargs planned i plan sf1Base sf2Plan base) ∧
    ∀ j ops, plan.patch[j]? = some (some ops) →
      HasOutcome o req validateKwargs planned i j .successfulTransfer
  accepted : ∀ sf1Base sf2Plan base,
    BaseAccepted o req validateKwargs planned i plan sf1Base sf2Plan base →
      r.plan.basePlan = some (withStructure sf2Plan base) ∧
      r.plan.patch.length = plan.patch.length ∧
      ∀ j out, r.plan.patch[j]? = some (some out) → ∃ inOps opt,
        plan.patch[j]? = some (some inOps) ∧ transferTo sf1Base sf2Plan inOps = .ok opt ∧
        validateTransferred o req validateKwargs i (some j) sf2Plan opt = .ok none ∧
        out = o.makePatch (.obj base) (.obj opt)

theorem failAll_accounted {queryStatus patchStatus errMsg : String} {c : Outcome}
    (hno : ∀ sf1Base sf2Plan base,
      ¬ BaseAccepted o req validateKwargs planned i plan sf1Base sf2Plan base)
    (hout : ∀ j, HasOutcome o req validateKwargs planned i j c) :
    QueryAccounted o req validateKwargs planned i plan
      (failAll i plan queryStatus patchStatus c errMsg) where
  counted := List.length_replicate
  outcome := by
    intro j c' hc
    exact List.eq_of_mem_replicate (List.mem_of_getElem? hc) ▸ hout j
  perPatch := List.length_map _
  failure := by
    constructor
    · exact fun h => absurd h (by simp [failAll])
    · intro h
      obtain ⟨⟨sf1Base, sf2Plan, base, ha⟩, _⟩ := h
      exact absurd ha (hno sf1Base sf2Plan base)
  accepted := fun sf1Base sf2Plan base ha => absurd ha (hno sf1Base sf2Plan base)

section

variable {entries : List PatchEntry}

/-- The first error in the entries is that of a patch that failed. -/
theorem findSome?_error_eq_none
    (ha : BaseAccepted o req validateKwargs planned i plan sf1Base sf2Plan base)
    (h : plan.patch.zipIdx.mapM (patchEntry o req validateKwargs i sf1Base sf2Plan base) =
      .ok entries) :
    (entries.map (·.metadata)).findSome? (·.error) = none ↔
      ∀ j ops, plan.patch[j]? = some (some ops) →
        HasOutcome o req validateKwargs planned i j .successfulTransfer := by
  rw [List.findSome?_eq_none_iff]
  constructor
  · intro hnone j ops hops
    obtain ⟨e, he, hentry⟩ := entry_at h hops
    have herror := hnone _ (List.mem_map_of_mem (List.mem_of_getElem? he))
    rcases hentry.error.mp herror with hskip | hsuccess
    · exact absurd hskip (by simp)
    · exact .patch ha hops (hsuccess ▸ hentry.outcome)
  · intro hall metadata hmem
    obtain ⟨e, hin, rfl⟩ := List.mem_map.mp hmem
    obtain ⟨j, he⟩ := List.mem_iff_getElem?.mp hin
    obtain ⟨ops, hops, hentry⟩ := patch_at h he
    refine hentry.error.mpr ?_
    cases ops with
    | none => exact Or.inl rfl
    | some ops => exact Or.inr (HasOutcome.unique (.patch ha hops hentry.outcome) (hall j ops hops))

/-- A patch that is returned is that of an incoming patch. -/
theorem patch_of_entries
    (h : plan.patch.zipIdx.mapM (patchEntry o req validateKwargs i sf1Base sf2Plan base) =
      .ok entries) {out : List Json} (hout : (entries.map (·.patch))[j]? = some (some out)) :
    ∃ inOps opt, plan.patch[j]? = some (some inOps) ∧
      transferTo sf1Base sf2Plan inOps = .ok opt ∧
      validateTransferred o req validateKwargs i (some j) sf2Plan opt = .ok none ∧
      out = o.makePatch (.obj base) (.obj opt) := by
  rw [List.getElem?_map, Option.map_eq_some_iff] at hout
  obtain ⟨e, he, hout⟩ := hout
  obtain ⟨ops, hops, hentry⟩ := patch_at h he
  obtain ⟨inOps, opt, rfl, hrest⟩ := hentry.patch out hout
  exact ⟨inOps, opt, hops, hrest⟩

end

theorem transferPatches_accounted {r : QueryResult}
    (ha : BaseAccepted o req validateKwargs planned i plan sf1Base sf2Plan base)
    (h : transferPatches o req validateKwargs i plan sf1Base sf2Plan base = .ok r) :
    QueryAccounted o req validateKwargs planned i plan r := by
  rw [transferPatches_eq] at h
  cases hentries : plan.patch.zipIdx.mapM
      (patchEntry o req validateKwargs i sf1Base sf2Plan base) with
  | error e =>
    rw [hentries] at h
    exact absurd h (by simp [Except.map])
  | ok entries =>
    rw [hentries] at h
    injection h with h
    subst h
    have hlength := length_entries hentries
    have herror := findSome?_error_eq_none ha hentries
    refine ⟨by simpa using hlength, fun j c hc => ?_, by simpa using hlength,
      ⟨fun hnone => ⟨⟨sf1Base, sf2Plan, base, ha⟩, herror.mp hnone⟩,
        fun hall => herror.mpr hall.2⟩, fun sf1Base' sf2Plan' base' ha' => ?_⟩
    · rw [List.getElem?_map, Option.map_eq_some_iff] at hc
      obtain ⟨e, he, rfl⟩ := hc
      obtain ⟨ops, hops, hentry⟩ := patch_at hentries he
      exact .patch ha hops hentry.outcome
    · obtain ⟨_, rfl, rfl⟩ := ha.toPlanned.unique ha'.toPlanned
      obtain rfl := Except.ok.inj (ha.transferred.symm.trans ha'.transferred)
      exact ⟨rfl, by simpa using hlength, fun j out hout => patch_of_entries hentries hout⟩

/-- **What a query returns agrees with the outcomes of its patches.** -/
theorem processQuery_accounted {r : QueryResult} (hplan : req.plans[i]? = some plan)
    (h : processQuery o req validateKwargs planned i = .ok r) :
    QueryAccounted o req validateKwargs planned i plan r := by
  unfold processQuery at h
  obtain ⟨plan', hplan', h⟩ := Except.bind_eq_ok.mp h
  obtain rfl := Option.some.inj (hplan.symm.trans (nth_eq_ok.mp hplan'))
  obtain ⟨sf2, hsf2, h⟩ := Except.bind_eq_ok.mp h
  rw [nth_eq_ok] at hsf2
  obtain ⟨sf2Plan, err⟩ := sf2
  cases sf2Plan with
  | none =>
    injection h with h
    subst h
    exact failAll_accounted (fun _ _ _ ha => ha.planned_ne_none hsf2) fun j => .planningFailed hsf2
  | some sf2Plan =>
    have hp : Planned req planned i plan (plan.basePlan.getD .null) sf2Plan :=
      ⟨hplan, rfl, err, hsf2⟩
    cases ht : transferTo (plan.basePlan.getD .null) sf2Plan [] with
    | error exc =>
      simp only [ht] at h
      injection h with h
      subst h
      refine failAll_accounted (fun sf1Base' sf2Plan' base' ha => ?_) fun j =>
        .baseTransferFailed hp ht
      obtain ⟨_, rfl, rfl⟩ := hp.unique ha.toPlanned
      exact absurd (ht.symm.trans ha.transferred) (by simp)
    | ok base =>
      simp only [ht] at h
      obtain ⟨verdict, hv, h⟩ := Except.bind_eq_ok.mp h
      cases verdict with
      | none => exact transferPatches_accounted ⟨hp, ht, hv⟩ h
      | some baseValErr =>
        injection h with h
        subst h
        refine failAll_accounted (fun sf1Base' sf2Plan' base' ha => ?_) fun j =>
          .baseValidationFailed hp ht hv
        obtain ⟨_, rfl, rfl⟩ := hp.unique ha.toPlanned
        obtain rfl := Except.ok.inj (ht.symm.trans ha.transferred)
        exact absurd (hv.symm.trans ha.validated) (by simp)

/-! ## All queries -/

theorem mem_completed {n : Nat} : i ∈ completed o n ↔ i < n := by
  rw [completed, List.mem_ofFn]
  constructor
  · intro h
    obtain ⟨k, rfl⟩ := h
    exact (o.queryOrder n k).isLt
  · intro hi
    exact ⟨(o.queryOrder n).symm ⟨i, hi⟩, by rw [Equiv.apply_symm_apply]⟩

/-- Results collected in any order are found under their index. -/
theorem collect_get? {f : Nat → Except PyErr QueryResult} :
    ∀ {l : List Nat} {d d' : List (Nat × QueryResult)},
      l.foldlM (fun results i => do
        let r ← f i
        return OrdDict.set results i r) d = .ok d' →
      (∀ i ∈ l, ∃ r, f i = .ok r ∧ OrdDict.get? d' i = some r) ∧
        ∀ i ∉ l, OrdDict.get? d' i = OrdDict.get? d i
  | [], d, d', h => by
    injection h with h
    exact ⟨fun i hi => absurd hi List.not_mem_nil, fun i _ => by rw [h]⟩
  | k :: l, d, d', h => by
    rw [List.foldlM_cons] at h
    obtain ⟨d₁, hd₁, h⟩ := Except.bind_eq_ok.mp h
    obtain ⟨r, hr, hd₁⟩ := Except.bind_eq_ok.mp hd₁
    injection hd₁ with hd₁
    obtain ⟨hin, hout⟩ := collect_get? h
    refine ⟨fun i hi => ?_, fun i hi => ?_⟩
    · by_cases hl : i ∈ l
      · exact hin i hl
      · obtain rfl := (List.mem_cons.mp hi).resolve_right hl
        exact ⟨r, hr, by rw [hout i hl, ← hd₁, OrdDict.get?_set_self]⟩
    · rw [List.mem_cons, not_or] at hi
      rw [hout i hi.2, ← hd₁, OrdDict.get?_set_ne d r hi.1]

/-- The loop ends if every query returns. -/
theorem exists_collect {f : Nat → Except PyErr QueryResult} :
    ∀ (l : List Nat) (d : List (Nat × QueryResult)), (∀ i ∈ l, ∃ r, f i = .ok r) →
      ∃ d', l.foldlM (fun results i => do
        let r ← f i
        return OrdDict.set results i r) d = .ok d'
  | [], d, _ => ⟨d, rfl⟩
  | k :: l, d, h => by
    obtain ⟨r, hr⟩ := h k (List.mem_cons_self ..)
    obtain ⟨d', hd'⟩ := exists_collect l (OrdDict.set d k r) fun i hi =>
      h i (List.mem_cons_of_mem _ hi)
    exact ⟨d', by rw [List.foldlM_cons, hr]; exact hd'⟩

/-- The counts of some outcomes. -/
theorem foldl_bump (l : List Outcome) (counts : OutcomeCounts) :
    l.foldl OutcomeCounts.bump counts = fun c => counts c + l.count c := by
  induction l generalizing counts with
  | nil => rfl
  | cons k l ih =>
    rw [List.foldl_cons, ih]
    funext c
    rw [OutcomeCounts.bump, List.count_cons]
    by_cases hc : c = k
    · rw [if_pos hc, if_pos (by simp [hc])]
      omega
    · rw [if_neg hc, if_neg (by simpa using fun h => hc h.symm)]
      omega

/-- What the results of the queries come to, when `m` queries have been added. -/
def assembledOf (rs : List QueryResult) (missing : Nat) : Assembled where
  scaledPlans := rs.map (·.plan)
  metadata := rs.map (·.metadata)
  transferFailures := rs.map (·.failure) ++ List.replicate missing none
  outcomeCounts := fun c => (rs.flatMap (·.patchOutcomes)).count c
  totalPatches := (rs.flatMap (·.patchOutcomes)).length

theorem addQuery_assembledOf {d : List (Nat × QueryResult)} (rs : List QueryResult)
    {r : QueryResult} (missing : Nat) (hr : OrdDict.get? d rs.length = some r) :
    addQuery d (assembledOf rs (missing + 1)) rs.length =
      .ok (assembledOf (rs ++ [r]) missing) := by
  have hset : (rs.map (fun r : QueryResult => r.failure) ++ List.replicate (missing + 1) none).set
      rs.length r.failure = (rs ++ [r]).map (·.failure) ++ List.replicate missing none := by
    rw [List.set_append_right _ _ (by simp), List.length_map, Nat.sub_self, List.replicate_succ,
      List.set_cons_zero, List.map_append, List.append_assoc]
    rfl
  rw [addQuery, hr]
  refine congrArg Except.ok ?_
  simp only [assembledOf, hset, foldl_bump, List.map_append, List.flatMap_append, List.count_append,
    List.length_append]
  simp

/-- **The assembly returns the results in order**, however they were collected. -/
theorem assemble_eq_ok {d : List (Nat × QueryResult)} {rs : List QueryResult}
    (h : ∀ i r, rs[i]? = some r → OrdDict.get? d i = some r) :
    assemble d rs.length = .ok (assembledOf rs 0) := by
  have hprefix : ∀ m ≤ rs.length,
      (List.range m).foldlM (addQuery d) ⟨[], [], List.replicate rs.length none, fun _ => 0, 0⟩ =
        .ok (assembledOf (rs.take m) (rs.length - m)) := by
    intro m hm
    induction m with
    | zero => simp [assembledOf, pure, Except.pure]
    | succ m ih =>
      have hr := List.getElem?_eq_getElem (Nat.lt_of_succ_le hm)
      have hlength : (rs.take m).length = m := List.length_take_of_le (Nat.le_of_succ_le hm)
      have hmissing : rs.length - m = rs.length - (m + 1) + 1 := by omega
      have hstep := addQuery_assembledOf (rs.take m) (rs.length - (m + 1))
        (by rw [hlength]; exact h m _ hr)
      rw [hlength] at hstep
      rw [List.range_succ, List.foldlM_append, ih (Nat.le_of_succ_le hm), Except.ok_bind,
        List.foldlM_cons, hmissing, hstep, Except.ok_bind, List.take_add_one, hr]
      rfl
  have hall := hprefix rs.length le_rfl
  rw [List.take_length, Nat.sub_self] at hall
  exact hall

end DbPlanBench.Scale
