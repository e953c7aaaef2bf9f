import DbPlanBench.Transfer.Isomorphism

/-!
# When a dangling reference is caught

A reference of the patched SF1 plan that names neither a node nor an SF1 scan
cannot be resolved, and `transfer_plan` means to reject it. It looks for such
references only in the renamed plan, though, where an id that was left as it is may
by then be the id of an SF2 scan or the new id of another node.

`transferPlan_raises_iff` says exactly when a transfer fails with a
`PlanTransferError`, so `danglingRejected_iff` says exactly when a dangling
reference is rejected. In the renamed plan the ids in use are those of the SF2
scans and `newIds`; a dangling reference among them gets through
(`dangling_survives`).
-/

namespace DbPlanBench.Transfer

/-- Some node is stored under the id. -/
def NamesNode (plan : List (String × Json)) (r : Int) : Prop :=
  ∃ p ∈ plan, Py.isdigit p.1 = true ∧ Py.int p.1 = .ok r

/-- Some reference names neither a node nor an SF1 scan. -/
def HasDangling (sf1Info : Json) (plan : List (String × Json)) : Prop :=
  ∃ p ∈ plan, ∃ q ∈ walkRefs p.2, ∃ r,
    toInt q.2 = .ok r ∧ ¬ NamesNode plan r ∧ r ∉ scanIds sf1Info

/-- If the patched plan has a dangling reference, the transfer is refused. -/
def DanglingRejected (sf1Base sf1Info sf2Base sf2Info patch : Json) : Prop :=
  ∀ P, applyJsonPatch sf1Base patch = .ok (.obj P) → HasDangling sf1Info P →
    RaisesPlanTransfer (transferPlan sf1Base sf1Info sf2Base sf2Info patch)

/-- A dict of nodes with one operator each, under digit keys. -/
def IsPlan (j : Json) : Prop := ∃ plan, j = .obj plan ∧ WellShaped plan

/-- The transfer is refused before it gets to the references: a malformed plan, scans that cannot
be paired, embedded scans that cannot be replaced. -/
def RefusedEarly (sf1Base sf1Info sf2Base sf2Info : Json) (P : List (String × Json)) : Prop :=
  ¬ WellShaped P ∨ ¬ IsPlan sf1Base ∨ ¬ IsPlan sf2Base ∨
    RaisesPlanTransfer (buildScanIdMapping sf1Info sf2Info) ∨
    (∃ sm, buildScanIdMapping sf1Info sf2Info = .ok sm) ∧
      ∃ e, rebindParquetScansInStructure P sf2Info "transfer" = .error e

/-- The transfer gets to the references, can read them all, and finds a fault: a key that is no
canonical numeral, a replaced node that is no single operator, or a reference that leads nowhere
in the renamed plan. -/
def RefusedLate (sf1Info sf2Info : Json) (P : List (String × Json)) : Prop :=
  ∃ sm Q, buildScanIdMapping sf1Info sf2Info = .ok sm ∧
    rebindParquetScansInStructure P sf2Info "transfer" = .ok Q ∧ Readable Q ∧
    ((∃ p ∈ Q, ¬ CanonicalKey p.1) ∨ (∃ p ∈ Q, ¬ ∃ op, p.2 = .obj [op]) ∨
      Unresolved Q (planIds Q) (scanIds sf1Info) (scanIds sf2Info)
        (newIds (planIds Q) (scanIds sf2Info)))

/-! ## Stage by stage -/

/-- A check that does not accept refuses with a `PlanTransferError`. -/
theorem raises_validate {j : Json} {stage : String} (h : ¬ IsPlan j) :
    RaisesPlanTransfer (validateStructureDict j stage) := by
  cases hv : validateStructureDict j stage with
  | ok u => exact absurd (validateStructureDict_iff.mp hv) h
  | error e => exact raises_error_iff.mpr (validateStructureDict_error hv)

theorem sf2ScanIds_of_mapping {sf1Info sf2Info : Json} {sm : List (Int × Int)}
    (h : buildScanIdMapping sf1Info sf2Info = .ok sm) :
    ∃ reserved, sf2ScanIds sf2Info = .ok reserved := by
  obtain ⟨_, _, h⟩ := Except.bind_eq_ok.mp h
  obtain ⟨sigs, hsigs, _⟩ := Except.bind_eq_ok.mp h
  exact ⟨OrdDict.keys sigs, by rw [sf2ScanIds, hsigs]; rfl⟩

/-- The new ids depend on which ids are reserved, not on how these are listed. -/
theorem newIds_congr {ids reserved reserved' : List Int} (h : ∀ r, r ∈ reserved ↔ r ∈ reserved') :
    newIds ids reserved' = newIds ids reserved := by
  have hmem : (fun n => decide (n ∈ reserved')) = fun n => decide (n ∈ reserved) :=
    funext fun n => decide_eq_decide.mpr (h n).symm
  have hnot : (fun n => decide (n ∉ reserved')) = fun n => decide (n ∉ reserved) :=
    funext fun n => decide_eq_decide.mpr (not_congr (h n).symm)
  have hused : ∀ x, x ∈ reserved ++ ids ↔ x ∈ reserved' ++ ids := fun x => by
    rw [List.mem_append, List.mem_append, h]
  rw [newIds, newIds, hmem, hnot, Renumber.fresh_congr naturals_injective _ hused]

theorem unresolved_congr {plan : List (String × Json)} {ids sf1Scans s s' new new' : List Int}
    (hs : ∀ r, r ∈ s ↔ r ∈ s') (hn : ∀ r, r ∈ new ↔ r ∈ new') :
    Unresolved plan ids sf1Scans s new ↔ Unresolved plan ids sf1Scans s' new' := by
  simp only [Unresolved, hs, hn]

section

variable {sf1Base sf1Info sf2Base sf2Info patch : Json} {P Q : List (String × Json)}
  {sm : List (Int × Int)} {reserved : List Int}

/-- What follows the assignment of ids. -/
def afterAssign (Q : List (String × Json)) (sm : List (Int × Int)) (reserved : List Int)
    (im : List (Int × Int)) : Except PyErr (List (String × Json)) := do
  let transferred ← (rewritePlanReferences Q im sm "transfer").mapError
    (PyErr.wrap "transfer" "rewrite-references failed")
  validateStructureDict (.obj transferred) "transfer: transferred_structure"
  validateReferences transferred reserved "transfer: transferred_structure"
  checkUnresolvedLeafRefs transferred reserved
  validateStructureDict (.obj transferred) "validation: transferred_structure"
  validateReferences transferred reserved "validation: transferred_structure"
  return transferred

/-- A transfer of plans of the right shape, from the scan mapping on. -/
theorem transferPlan_of_isPlan (hpatch : applyJsonPatch sf1Base patch = .ok (.obj P))
    (hP : WellShaped P) (h1 : IsPlan sf1Base) (h2 : IsPlan sf2Base) :
    transferPlan sf1Base sf1Info sf2Base sf2Info patch = (do
      let sm ← buildScanIdMapping sf1Info sf2Info
      let reserved ← sf2ScanIds sf2Info
      let Q ← (rebindParquetScansInStructure P sf2Info "transfer").mapError
        (PyErr.wrap "transfer" "rebind-parquet-scans failed")
      let im ← assignNewNodeIds Q reserved
      afterAssign Q sm reserved im) := by
  have hP' : ∀ stage, validateStructureDict (.obj P) stage = .ok () := fun stage =>
    validateStructureDict_iff.mpr ⟨P, rfl, hP⟩
  rw [transferPlan, hpatch]
  show (validateStructureDict (.obj P) _ >>= _) = _
  rw [hP', Except.ok_bind, transferCore, validateStructureDict_iff.mpr h1, Except.ok_bind,
    validateStructureDict_iff.mpr h2, Except.ok_bind, hP', Except.ok_bind]
  -- what is left differs in the nesting of the two functions alone
  cases buildScanIdMapping sf1Info sf2Info with
  | error e => rfl
  | ok sm =>
    cases hres : sf2ScanIds sf2Info with
    | error e => rfl
    | ok reserved =>
      simp only [Except.ok_bind, fieldsOf, bind_assoc, pure_bind, afterAssign]

/-- Without a fault, what follows the assignment of ids returns the renamed plan. -/
theorem afterAssign_ok {im : List (Int × Int)} (hd : DigitKeys Q)
    (hnd : (OrdDict.keys Q).Nodup) (hids : nodeIds Q = .ok (planIds Q)) (hr : Readable Q)
    (hm : IdMap (planIds Q) reserved im)
    (hpair : ∀ s1 s2, OrdDict.get? sm s1 = some s2 → s2 ∈ reserved)
    (hsm : ∀ r, r ∈ OrdDict.keys sm ↔ r ∈ scanIds sf1Info) (hc : ∀ p ∈ Q, CanonicalKey p.1)
    (hs : ∀ p ∈ Q, ∃ op, p.2 = .obj [op])
    (hun : ¬ Unresolved Q (planIds Q) (scanIds sf1Info) reserved (im.map Prod.snd)) :
    afterAssign Q sm reserved im = .ok (renamedPlan im sm Q) := by
  have hin : ∀ p ∈ Q, keyId p.1 ∈ planIds Q := fun p hp => List.mem_map_of_mem hp
  have hrw : rewritePlanReferences Q im sm "transfer" = .ok (renamedPlan im sm Q) :=
    (rewritePlanReferences_eq hd hnd hids hr hm _).mpr ⟨hc, rfl⟩
  have hshape : ∀ stage,
      validateStructureDict (.obj (renamedPlan im sm Q)) stage = .ok () := fun stage =>
    validateStructureDict_iff.mpr ⟨_, rfl, (wellShaped_renamedPlan hm hin).mpr hs⟩
  have hidsout : nodeIds (renamedPlan im sm Q) = .ok (Q.map fun p => newId im (keyId p.1)) :=
    (nodeIds_renamedPlan hm hin).2
  have hrout : Readable (renamedPlan im sm Q) := readable_renamedPlan hr
  have hgood := (resolved_renamedPlan hm (fun n => List.mem_map) hpair hsm).mpr hun
  rw [afterAssign, hrw]
  show (validateStructureDict (.obj (renamedPlan im sm Q)) _ >>= _) = _
  rw [hshape, Except.ok_bind, (validateReferences_iff hidsout hrout).1 hgood, Except.ok_bind,
    checkUnresolvedLeafRefs_eq hidsout hrout hgood, Except.ok_bind, hshape, Except.ok_bind,
    (validateReferences_iff hidsout hrout).1 hgood]
  rfl

/-- Once the nodes have their new ids, three faults remain to be found. -/
theorem afterAssign_raises_iff {im : List (Int × Int)} (hd : DigitKeys Q)
    (hnd : (OrdDict.keys Q).Nodup) (hids : nodeIds Q = .ok (planIds Q)) (hr : Readable Q)
    (hm : IdMap (planIds Q) reserved im)
    (hpair : ∀ s1 s2, OrdDict.get? sm s1 = some s2 → s2 ∈ reserved)
    (hsm : ∀ r, r ∈ OrdDict.keys sm ↔ r ∈ scanIds sf1Info) :
    RaisesPlanTransfer (afterAssign Q sm reserved im) ↔
      (∃ p ∈ Q, ¬ CanonicalKey p.1) ∨ (∃ p ∈ Q, ¬ ∃ op, p.2 = .obj [op]) ∨
        Unresolved Q (planIds Q) (scanIds sf1Info) reserved (im.map Prod.snd) := by
  have hin : ∀ p ∈ Q, keyId p.1 ∈ planIds Q := fun p hp => List.mem_map_of_mem hp
  -- the faults in the order in which the stages meet them: rewriting, shapes, references
  by_cases hc : ∀ p ∈ Q, CanonicalKey p.1
  · have hc' : ¬ ∃ p ∈ Q, ¬ CanonicalKey p.1 := by simpa using hc
    rw [or_iff_right hc']
    by_cases hs : ∀ p ∈ Q, ∃ op, p.2 = .obj [op]
    · have hs' : ¬ ∃ p ∈ Q, ¬ ∃ op, p.2 = .obj [op] := by simpa using hs
      rw [or_iff_right hs']
      by_cases hun : Unresolved Q (planIds Q) (scanIds sf1Info) reserved (im.map Prod.snd)
      · refine iff_of_true ?_ hun
        have hrw : rewritePlanReferences Q im sm "transfer" = .ok (renamedPlan im sm Q) :=
          (rewritePlanReferences_eq hd hnd hids hr hm _).mpr ⟨hc, rfl⟩
        have hshape : validateStructureDict (.obj (renamedPlan im sm Q))
            "transfer: transferred_structure" = .ok () :=
          validateStructureDict_iff.mpr ⟨_, rfl, (wellShaped_renamedPlan hm hin).mpr hs⟩
        have hres := resolved_renamedPlan hm (fun n => List.mem_map) hpair hsm
        rw [afterAssign, hrw]
        show RaisesPlanTransfer (validateStructureDict (.obj (renamedPlan im sm Q)) _ >>= _)
        rw [hshape, Except.ok_bind]
        exact raises_bind ((validateReferences_iff (nodeIds_renamedPlan hm hin).2
          (readable_renamedPlan hr)).2 fun h => hres.mp h hun) _
      · rw [afterAssign_ok hd hnd hids hr hm hpair hsm hc hs hun]
        exact iff_of_false (not_raises_ok _) hun
    · refine ⟨fun _ => Or.inl (by simpa using hs), fun _ => ?_⟩
      have hrw : rewritePlanReferences Q im sm "transfer" = .ok (renamedPlan im sm Q) :=
        (rewritePlanReferences_eq hd hnd hids hr hm _).mpr ⟨hc, rfl⟩
      rw [afterAssign, hrw]
      refine raises_bind (raises_validate fun h => ?_) _
      obtain ⟨plan, he, hw⟩ := h
      injection he with he
      exact hs ((wellShaped_renamedPlan hm hin).mp (he ▸ hw))
  · refine ⟨fun _ => Or.inl (by simpa using hc), fun _ => ?_⟩
    cases hrw : rewritePlanReferences Q im sm "transfer" with
    | ok out => exact absurd ((rewritePlanReferences_eq hd hnd hids hr hm out).mp hrw).1 hc
    | error e =>
      rw [afterAssign, hrw]
      exact ⟨_, rfl, PyErr.isPlanTransfer_wrap _ _ e⟩

end

/-- From the rebound plan on, a readable plan is refused exactly for a fault, an unreadable one
fails with a `ValueError`. -/
theorem numberAndRename_raises_iff {sf1Info : Json} {P Q : List (String × Json)} {sf2Info : Json}
    {sm : List (Int × Int)} {reserved : List Int} (hP : WellShaped P)
    (hnd : (OrdDict.keys P).Nodup) (hmap : buildScanIdMapping sf1Info sf2Info = .ok sm)
    (hres : sf2ScanIds sf2Info = .ok reserved)
    (hreb : rebindParquetScansInStructure P sf2Info "transfer" = .ok Q) :
    RaisesPlanTransfer (assignNewNodeIds Q reserved >>= fun im => afterAssign Q sm reserved im) ↔
      RefusedLate sf1Info sf2Info P := by
  obtain ⟨hkeys, ⟨ids, hidsP⟩, _⟩ := rebind_spec hreb
  have hd : DigitKeys Q := by
    rw [DigitKeys, hkeys]
    exact digitKeys_of_wellShaped hP
  have hndQ : (OrdDict.keys Q).Nodup := hkeys ▸ hnd
  have hids : nodeIds Q = .ok (planIds Q) := by
    have hidsQ : nodeIds Q = .ok ids := by
      rw [nodeIds, hkeys]
      exact hidsP
    rw [hidsQ, ((nodeIds_iff hd).mp hidsQ).1, map_keyId_keys]
  have hlate : RefusedLate sf1Info sf2Info P ↔ Readable Q ∧
      ((∃ p ∈ Q, ¬ CanonicalKey p.1) ∨ (∃ p ∈ Q, ¬ ∃ op, p.2 = .obj [op]) ∨
        Unresolved Q (planIds Q) (scanIds sf1Info) (scanIds sf2Info)
          (newIds (planIds Q) (scanIds sf2Info))) := by
    constructor
    · intro h
      obtain ⟨_, Q', _, hreb', h⟩ := h
      have he : Q = Q' := by
        have he := hreb.symm.trans hreb'
        injection he
      exact he ▸ h
    · exact fun h => ⟨sm, Q, hmap, hreb, h⟩
  rw [hlate]
  -- an unreadable reference is a `ValueError` of `_to_int`, which nothing wraps
  by_cases hr : Readable Q
  · obtain ⟨im, him, hm, hvals⟩ := assignNewNodeIds_idMap hids hr reserved
    obtain ⟨hsm, hpair⟩ := buildScanIdMapping_spec hmap
    have hscans := sf2ScanIds_mem hres
    rw [him, Except.ok_bind, afterAssign_raises_iff hd hndQ hids hr hm
      (fun s1 s2 h => (hscans s2).mpr (hpair s1 s2 h).1) hsm]
    -- only distinct ids determine the set of new ones; other keys are refused anyway
    by_cases hc : ∀ p ∈ Q, CanonicalKey p.1
    · have hnew : ∀ r, r ∈ im.map Prod.snd ↔ r ∈ newIds (planIds Q) (scanIds sf2Info) := by
        intro r
        rw [newIds_congr hscans]
        exact hvals (nodup_planIds hndQ hc) r
      rw [unresolved_congr hscans hnew]
      exact ⟨fun h => ⟨hr, h⟩, fun h => h.2⟩
    · have hno : ∃ p ∈ Q, ¬ CanonicalKey p.1 := by simpa using hc
      exact ⟨fun _ => ⟨hr, Or.inl hno⟩, fun _ => Or.inl hno⟩
  · obtain ⟨msg, hmsg⟩ := assignNewNodeIds_error hids hr reserved
    rw [hmsg]
    exact ⟨fun h => absurd (raises_error_iff.mp h) id, fun h => absurd h.1 hr⟩

/-- **When a transfer fails with a `PlanTransferError`.** -/
theorem transferPlan_raises_iff (sf1Base sf1Info sf2Base sf2Info patch : JsonValue)
    {P : List (String × Json)} (hpatch : applyJsonPatch sf1Base patch = .ok (.obj P)) :
    RaisesPlanTransfer (transferPlan sf1Base sf1Info sf2Base sf2Info patch) ↔
      RefusedEarly sf1Base sf1Info sf2Base sf2Info P ∨ RefusedLate sf1Info sf2Info P := by
  have hnd : (OrdDict.keys P).Nodup :=
    (Json.nodupKeys_obj.mp (applyJsonPatch_nodupKeys sf1Base.2 patch.2 hpatch)).1
  -- a malformed plan is refused by the checks that come first
  by_cases hshape : WellShaped P ∧ IsPlan sf1Base ∧ IsPlan sf2Base
  · obtain ⟨hP, h1, h2⟩ := hshape
    have hearly : RefusedEarly sf1Base sf1Info sf2Base sf2Info P ↔
        RaisesPlanTransfer (buildScanIdMapping sf1Info.1 sf2Info.1) ∨
          (∃ sm, buildScanIdMapping sf1Info.1 sf2Info.1 = .ok sm) ∧
            ∃ e, rebindParquetScansInStructure P sf2Info "transfer" = .error e := by
      rw [RefusedEarly, or_iff_right (not_not.mpr hP), or_iff_right (not_not.mpr h1),
        or_iff_right (not_not.mpr h2)]
    rw [transferPlan_of_isPlan hpatch hP h1 h2, hearly]
    cases hmap : buildScanIdMapping sf1Info.1 sf2Info.1 with
    | error e =>
      have hlate : ¬ RefusedLate sf1Info sf2Info P := by
        intro h
        obtain ⟨sm, _, hsm, _⟩ := h
        exact absurd (hmap.symm.trans hsm) (by simp)
      rw [Except.error_bind, raises_error_iff, raises_error_iff]
      refine ⟨fun h => Or.inl (Or.inl h), fun h => ?_⟩
      rcases h with (h | ⟨⟨_, hsm⟩, _⟩) | h
      · exact h
      · exact absurd hsm (by simp)
      · exact absurd h hlate
    | ok sm =>
      obtain ⟨reserved, hres⟩ := sf2ScanIds_of_mapping hmap
      rw [Except.ok_bind, hres, Except.ok_bind]
      cases hreb : rebindParquetScansInStructure P sf2Info.1 "transfer" with
      | error e =>
        refine ⟨fun _ => Or.inl (Or.inr ⟨⟨sm, rfl⟩, e, rfl⟩), fun _ => ?_⟩
        exact ⟨_, rfl, PyErr.isPlanTransfer_wrap _ _ e⟩
      | ok Q =>
        show RaisesPlanTransfer (assignNewNodeIds Q reserved >>= _) ↔ _
        rw [numberAndRename_raises_iff hP hnd hmap hres hreb]
        refine ⟨Or.inr, fun h => ?_⟩
        rcases h with (h | ⟨_, e, he⟩) | h
        · exact absurd h (not_raises_ok sm)
        · exact absurd he (by simp)
        · exact h
  · have hearly : RefusedEarly sf1Base sf1Info sf2Base sf2Info P := by
      rw [RefusedEarly]
      tauto
    refine ⟨fun _ => Or.inl hearly, fun _ => ?_⟩
    have hopt : transferPlan sf1Base sf1Info sf2Base sf2Info patch =
        (validateStructureDict (.obj P) "validation: sf1_opt_structure" >>= fun _ => do
          let transferred ← transferCore sf1Base sf1Info sf2Base sf2Info (.obj P)
          validateStructureDict (.obj transferred) "validation: transferred_structure"
          let reserved ← sf2ScanIds sf2Info
          validateReferences transferred reserved "validation: transferred_structure"
          return transferred) := by
      rw [transferPlan, hpatch]
      rfl
    rw [hopt]
    by_cases hP : IsPlan (.obj P)
    · rw [validateStructureDict_iff.mpr hP, Except.ok_bind]
      refine raises_bind ?_ _
      rw [transferCore]
      by_cases h1 : IsPlan sf1Base
      · rw [validateStructureDict_iff.mpr h1, Except.ok_bind]
        refine raises_bind (raises_validate fun h2 => hshape ⟨?_, h1, h2⟩) _
        obtain ⟨plan, he, hw⟩ := hP
        injection he with he
        exact he ▸ hw
      · exact raises_bind (raises_validate h1) _
    · exact raises_bind (raises_validate hP) _

/-- **A dangling reference is rejected exactly if the transfer is refused for some reason**: before
it gets to the references, or because the renamed plan shows a fault. A dangling reference is such
a fault unless its id is by then that of an SF2 scan or of a renumbered node. -/
theorem danglingRejected_iff (sf1Base sf1Info sf2Base sf2Info patch : JsonValue) :
    DanglingRejected sf1Base sf1Info sf2Base sf2Info patch ↔
      ∀ P, applyJsonPatch sf1Base patch = .ok (.obj P) → HasDangling sf1Info P →
        RefusedEarly sf1Base sf1Info sf2Base sf2Info P ∨ RefusedLate sf1Info sf2Info P := by
  constructor
  · intro h P hpatch hdang
    exact (transferPlan_raises_iff sf1Base sf1Info sf2Base sf2Info patch hpatch).mp
      (h P hpatch hdang)
  · intro h P hpatch hdang
    exact (transferPlan_raises_iff sf1Base sf1Info sf2Base sf2Info patch hpatch).mpr
      (h P hpatch hdang)

/-! ## A dangling reference that survives -/

/-- The projection refers to a node `5` that the plan does not have. -/
def danglingPlan : List (String × Json) := [("10", .obj [("projection", .obj [("input", .int 5)])])]

/-- The reference comes out bound to SF2 scan `5`. -/
theorem dangling_survives :
    transferPlan (.obj danglingPlan) joinSf1Info (.obj []) joinSf2Info (.arr []) =
        .ok danglingPlan ∧
      ¬ DanglingRejected (.obj danglingPlan) joinSf1Info (.obj []) joinSf2Info (.arr []) := by
  have hout : transferPlan (.obj danglingPlan) joinSf1Info (.obj []) joinSf2Info (.arr []) =
      .ok danglingPlan := by decide +kernel
  have hdang : HasDangling joinSf1Info danglingPlan :=
    ⟨_, List.mem_singleton.mpr rfl, ("input", .int 5), List.mem_singleton.mpr rfl, 5, rfl, by
      intro h
      obtain ⟨p, hp, _, hint⟩ := h
      rw [List.mem_singleton.mp hp] at hint
      exact absurd hint (by decide +kernel), by decide⟩
  refine ⟨hout, fun h => ?_⟩
  have hraise := h danglingPlan rfl hdang
  rw [hout] at hraise
  exact not_raises_ok _ hraise

end DbPlanBench.Transfer
