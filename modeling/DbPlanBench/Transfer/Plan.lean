import DbPlanBench.Transfer.Number
import DbPlanBench.Transfer.Patch
import DbPlanBench.Transfer.Scan

/-!
# Transferring a plan

`transfer_plan` carries an optimized SF1 plan over to SF2: patch the SF1 plan,
replace the parquet scans embedded in it, renumber its nodes away from the SF2
scan ids, rename all references, and check the result. Every stage is translated
with the checks it makes and the way its exceptions are wrapped, or are not.

The source compares the serialized inputs before and after to see that none was
changed. The model has no mutation, so these checks cannot fail and are left out,
and so is the check that the inputs can be serialized.
-/

namespace DbPlanBench.Transfer

/-- The fields of a dict. -/
def fieldsOf : Json → List (String × Json)
  | .obj kvs => kvs
  | _ => []

/-! ## Checks -/

/-- One node of `_validate_structure_dict`. -/
def validateNode (stage k : String) (v : Json) : Except PyErr Unit :=
  if Py.isdigit k = false then
    .error (.planTransferError stage "invalid-node-id" [("key", .str k)])
  else
    match v with
    | .obj [_] => .ok ()
    | .obj _ =>
      .error (.planTransferError stage "node-must-have-single-operator" [("node_id", .str k)])
    | _ => .error (.planTransferError stage "node-must-be-dict" [("node_id", .str k)])

/-- The loop of `_validate_structure_dict`. -/
def validateNodes (stage : String) : List (String × Json) → Except PyErr Unit
  | [] => .ok ()
  | (k, v) :: rest => do
    validateNode stage k v
    validateNodes stage rest

/-- `_validate_structure_dict`. -/
def validateStructureDict (structureDict : Json) (stage : String) : Except PyErr Unit :=
  match structureDict with
  | .obj kvs => validateNodes stage kvs
  | _ => .error (.planTransferError stage "structure-must-be-dict" [])

/-- The references that name neither a node nor an SF2 scan, with the node and the field they
stand in. -/
def badRefs (internalIds sf2ScanIds : List Int) :
    List (String × Json) → Except PyErr (List (String × String × Int))
  | [] => .ok []
  | (nid, node) :: rest => do
    let rids ← (walkRefs node).mapM fun r => do return (nid, r.1, ← toInt r.2)
    let bad := rids.filter fun r => r.2.2 ∉ internalIds ∧ r.2.2 ∉ sf2ScanIds
    return bad ++ (← badRefs internalIds sf2ScanIds rest)

/-- The text of a sample of references, as JSON. -/
def badRefsSample (bad : List (String × String × Int)) : Json :=
  .arr ((bad.take 5).map fun r => .arr [.str r.1, .str r.2.1, .int r.2.2])

/-- `_validate_references`. -/
def validateReferences (plan : List (String × Json)) (sf2ScanIds : List Int) (stage : String) :
    Except PyErr Unit := do
  let internalIds ← nodeIds plan
  let bad ← badRefs internalIds sf2ScanIds plan
  if bad.isEmpty then return ()
  else
    throw (.planTransferError stage "dangling-refs"
      [("count", .int bad.length), ("sample", badRefsSample bad)])

/-- Step 6 of `_transfer_plan`, which looks for the same references once more. -/
def checkUnresolvedLeafRefs (plan : List (String × Json)) (sf2ScanIds : List Int) :
    Except PyErr Unit := do
  let internalIds ← nodeIds plan
  let bad ← badRefs internalIds sf2ScanIds plan
  let unresolved := (bad.map fun r => r.2.2).dedup
  if unresolved.isEmpty then return ()
  else
    throw (.planTransferError "transfer" "unresolved-leaf-refs"
      [("count", .int unresolved.length),
        ("sample", .arr (((unresolved.insertionSort (· ≤ ·)).take 10).map .int))])

/-! ## Embedded scans -/

/-- The SF2 scans by signature, those of one signature by id. The ids have been checked to be
integers by `_build_scan_signature_map`. -/
def sf2EntriesBySignature (sf2SuccinctTableInfo : Json) :
    Except PyErr (List (Json × List (Json × Json))) := do
  let entries ← tableInfoEntries sf2SuccinctTableInfo
  let signed ← entries.mapM fun e => do return (e, ← scanNormalizedSignature e.2)
  return (OrdDict.group signed).map fun g =>
    (g.1, g.2.insertionSort fun a b => (a.1.asInt.getD 0) ≤ (b.1.asInt.getD 0))

/-- The node ids in increasing order. -/
def sortedNodeKeys (plan : List (String × Json)) : Except PyErr (List String) := do
  let keyed ← ((OrdDict.keys plan).filter Py.isdigit).mapM fun k => do return (← Py.int k, k)
  return (keyed.insertionSort fun a b => a.1 ≤ b.1).map Prod.snd

/-- The embedded scans by signature. -/
def structScanIdsBySignature (plan : List (String × Json)) :
    Except PyErr (List (Json × List String)) := do
  let nids ← sortedNodeKeys plan
  let scans := nids.filter fun nid => IsParquetScan ((OrdDict.get? plan nid).getD .null)
  let signed ← scans.mapM fun nid => do
    return (nid, ← scanNormalizedSignature ((OrdDict.get? plan nid).getD .null))
  return OrdDict.group signed

/-- An SF2 scan with the predicate of the SF1 scan it replaces, if that has one. -/
def rebindScan (sf1Node sf2ScanNode : Json) : Except PyErr Json :=
  let predicate := getOrNull (fieldsOf ((OrdDict.get? (fieldsOf sf1Node) "parquetScan").getD .null))
    "predicate"
  if predicate = .null then .ok sf2ScanNode
  else
    match sf2ScanNode with
    | .obj node =>
      match (OrdDict.get? node "parquetScan").getD (.obj []) with
      | .obj ps => .ok (.obj (OrdDict.set node "parquetScan" (.obj (OrdDict.set ps "predicate" predicate))))
      | _ => .error .typeError
    | _ => .error .attributeError

/-- The replacement of the scans of one signature. -/
def rebindGroup (plan : List (String × Json)) : List (String × (Json × Json)) →
    List (String × Json) → Except PyErr (List (String × Json))
  | [], out => .ok out
  | (nid, entry) :: rest, out => do
    let node ← rebindScan ((OrdDict.get? plan nid).getD .null) entry.2
    rebindGroup plan rest (OrdDict.set out nid node)

/-- The last loop of `_rebind_parquet_scans_in_structure`. -/
def rebindGroups (plan : List (String × Json)) (sf2BySig : List (Json × List (Json × Json)))
    (stage : String) : List (Json × List String) → List (String × Json) →
    Except PyErr (List (String × Json))
  | [], out => .ok out
  | (sig, nids) :: rest, out =>
    let sf2List := (OrdDict.get? sf2BySig sig).getD []
    if sf2List.length < nids.length then
      .error (.planTransferError stage "rebind-scan-signature-unmatched"
        [("sig", sig), ("struct_count", .int nids.length), ("sf2_count", .int sf2List.length)])
    else do
      let out ← rebindGroup plan (nids.zip sf2List) out
      rebindGroups plan sf2BySig stage rest out

/-- `_rebind_parquet_scans_in_structure`. -/
def rebindParquetScansInStructure (plan : List (String × Json)) (sf2SuccinctTableInfo : Json)
    (stage : String) : Except PyErr (List (String × Json)) := do
  let sf2BySig ← sf2EntriesBySignature sf2SuccinctTableInfo
  let groups ← structScanIdsBySignature plan
  rebindGroups plan sf2BySig stage groups plan

/-! ## Rewriting -/

/-- `old_to_new_key`, whose keys are canonical numerals. -/
def oldToNewKey (internalIdMap : List (Int × Int)) : List (String × String) :=
  internalIdMap.foldl (fun d p => OrdDict.set d (toString p.1) (toString p.2)) []

/-- The new key of a node. -/
def newKey (internalIdMap : List (Int × Int)) (stage oldKey : String) : Except PyErr String :=
  if Py.isdigit oldKey = false then
    .error (.planTransferError stage "non-numeric-node-id" [("key", .str oldKey)])
  else do
    let n ← Py.int oldKey
    if n ∉ OrdDict.keys internalIdMap then
      .error (.planTransferError stage "missing-internal-id-map" [("node_id", .str oldKey)])
    else
      match OrdDict.get? (oldToNewKey internalIdMap) oldKey with
      | some k => .ok k
      | none => .error .keyError

/-- The loop of `_rewrite_plan_references`. -/
def rewriteNodes (internalIdMap scanIdMap : List (Int × Int)) (stage : String) :
    List (String × Json) → List (String × Json) → Except PyErr (List (String × Json))
  | [], newPlan => .ok newPlan
  | (oldKey, node) :: rest, newPlan => do
    let k ← newKey internalIdMap stage oldKey
    let node' ← rewriteObj internalIdMap scanIdMap node
    rewriteNodes internalIdMap scanIdMap stage rest (OrdDict.set newPlan k node')

/-- `_rewrite_plan_references`. -/
def rewritePlanReferences (plan : List (String × Json)) (internalIdMap scanIdMap : List (Int × Int))
    (stage : String) : Except PyErr (List (String × Json)) :=
  rewriteNodes internalIdMap scanIdMap stage plan []

/-! ## The transfer -/

/-- The ids of the SF2 scans. -/
def sf2ScanIds (sf2SuccinctTableInfo : Json) : Except PyErr (List Int) := do
  return OrdDict.keys (← buildScanSignatureMap sf2SuccinctTableInfo)

/-- `_transfer_plan`. -/
def transferCore (sf1BaseStructure sf1SuccinctTableInfo sf2BaseStructure sf2SuccinctTableInfo
    sf1OptStructure : Json) : Except PyErr (List (String × Json)) := do
  validateStructureDict sf1BaseStructure "transfer: sf1_base_structure"
  validateStructureDict sf2BaseStructure "transfer: sf2_base_structure"
  validateStructureDict sf1OptStructure "transfer: sf1_opt_structure"
  let scanIdMap ← buildScanIdMapping sf1SuccinctTableInfo sf2SuccinctTableInfo
  let reserved ← sf2ScanIds sf2SuccinctTableInfo
  let rebasedOpt ← (rebindParquetScansInStructure (fieldsOf sf1OptStructure) sf2SuccinctTableInfo
    "transfer").mapError (PyErr.wrap "transfer" "rebind-parquet-scans failed")
  let internalIdMap ← assignNewNodeIds rebasedOpt reserved
  let transferred ← (rewritePlanReferences rebasedOpt internalIdMap scanIdMap
    "transfer").mapError (PyErr.wrap "transfer" "rewrite-references failed")
  validateStructureDict (.obj transferred) "transfer: transferred_structure"
  validateReferences transferred reserved "transfer: transferred_structure"
  checkUnresolvedLeafRefs transferred reserved
  return transferred

/-- `transfer_plan`. Whatever the patch engine raises is replaced by one `PlanTransferError`. -/
def transferPlan (sf1BaseStructure sf1SuccinctTableInfo sf2BaseStructure sf2SuccinctTableInfo
    sf1Patch : Json) : Except PyErr (List (String × Json)) := do
  let sf1OptStructure ← (applyJsonPatch sf1BaseStructure sf1Patch).mapError fun e =>
    .planTransferError "patch-apply" "failed" [("err", .str e.className)]
  validateStructureDict sf1OptStructure "validation: sf1_opt_structure"
  let transferred ← transferCore sf1BaseStructure sf1SuccinctTableInfo sf2BaseStructure
    sf2SuccinctTableInfo sf1OptStructure
  validateStructureDict (.obj transferred) "validation: transferred_structure"
  let reserved ← sf2ScanIds sf2SuccinctTableInfo
  validateReferences transferred reserved "validation: transferred_structure"
  return transferred

/-! ## The checks decide well-shapedness -/

/-- Every key is a digit string and every node a dict with a single operator. -/
def WellShaped (plan : List (String × Json)) : Prop :=
  ∀ p ∈ plan, Py.isdigit p.1 = true ∧ ∃ op, p.2 = .obj [op]

theorem validateNode_iff {stage k : String} {v : Json} :
    validateNode stage k v = .ok () ↔ Py.isdigit k = true ∧ ∃ op, v = .obj [op] := by
  unfold validateNode
  by_cases hk : Py.isdigit k = false
  · rw [if_pos hk]
    simp [hk]
  · rw [if_neg hk]
    have hk : Py.isdigit k = true := by simpa using hk
    cases v with
    | obj kvs =>
      cases kvs with
      | nil => simp
      | cons p rest =>
        cases rest with
        | nil => simp [hk]
        | cons q rest => simp
    | _ => simp

theorem validateNode_error {stage k : String} {v : Json} {e : PyErr}
    (h : validateNode stage k v = .error e) : e.IsPlanTransfer := by
  unfold validateNode at h
  split at h
  next =>
    injection h with h
    exact h ▸ trivial
  next =>
    split at h
    next => exact absurd h (by simp)
    next =>
      injection h with h
      exact h ▸ trivial
    next =>
      injection h with h
      exact h ▸ trivial

theorem validateNodes_iff {stage : String} {plan : List (String × Json)} :
    validateNodes stage plan = .ok () ↔ WellShaped plan := by
  induction plan with
  | nil => simp [validateNodes, WellShaped]
  | cons p rest ih =>
    obtain ⟨k, v⟩ := p
    rw [validateNodes, Except.bind_eq_ok, WellShaped, List.forall_mem_cons]
    constructor
    · intro h
      obtain ⟨_, hv, hrest⟩ := h
      exact ⟨validateNode_iff.mp hv, ih.mp hrest⟩
    · intro h
      exact ⟨(), validateNode_iff.mpr h.1, ih.mpr h.2⟩

theorem validateNodes_error {stage : String} {e : PyErr} : ∀ {plan : List (String × Json)},
    validateNodes stage plan = .error e → e.IsPlanTransfer
  | [], h => absurd h (by simp [validateNodes])
  | (k, v) :: rest, h => by
    rw [validateNodes] at h
    rcases Except.bind_eq_error.mp h with h | ⟨_, _, h⟩
    · exact validateNode_error h
    · exact validateNodes_error h

/-- `_validate_structure_dict` accepts exactly the well-shaped dicts. -/
theorem validateStructureDict_iff {j : Json} {stage : String} :
    validateStructureDict j stage = .ok () ↔ ∃ plan, j = .obj plan ∧ WellShaped plan := by
  cases j with
  | obj kvs => simp [validateStructureDict, validateNodes_iff]
  | _ => simp [validateStructureDict]

/-- What it raises is a `PlanTransferError`. -/
theorem validateStructureDict_error {j : Json} {stage : String} {e : PyErr}
    (h : validateStructureDict j stage = .error e) : e.IsPlanTransfer := by
  cases j with
  | obj kvs => exact validateNodes_error h
  | _ =>
    injection (show Except.error _ = Except.error e from h) with h
    exact h ▸ trivial

/-- Every key is a digit string. -/
def DigitKeys (plan : List (String × Json)) : Prop := ∀ k ∈ OrdDict.keys plan, Py.isdigit k = true

theorem digitKeys_of_wellShaped {plan : List (String × Json)} (h : WellShaped plan) :
    DigitKeys plan := by
  intro k hk
  obtain ⟨p, hp, rfl⟩ := List.mem_map.mp hk
  exact (h p hp).1

theorem nodeIds_of_digitKeys {plan : List (String × Json)} (h : DigitKeys plan) :
    nodeIds plan = (OrdDict.keys plan).mapM Py.int := by
  rw [nodeIds, List.filter_eq_self.mpr h]

/-! ## Rebinding keeps the keys -/

theorem sortedNodeKeys_spec {plan : List (String × Json)} {nids : List String}
    (h : sortedNodeKeys plan = .ok nids) :
    (∃ ids, nodeIds plan = .ok ids) ∧ ∀ k ∈ nids, k ∈ OrdDict.keys plan := by
  obtain ⟨keyed, hkeyed, h⟩ := Except.bind_eq_ok.mp h
  injection (show Except.ok _ = Except.ok nids from h) with h
  constructor
  · refine Except.exists_mapM_ok fun k hk => ?_
    obtain ⟨q, _, hq⟩ := Except.ok_of_mapM hkeyed k hk
    obtain ⟨n, hn, _⟩ := Except.bind_eq_ok.mp hq
    exact ⟨n, hn⟩
  · intro k hk
    rw [← h] at hk
    obtain ⟨q, hq, rfl⟩ := List.mem_map.mp hk
    obtain ⟨k', hk', hq'⟩ := Except.mem_of_mapM hkeyed ((List.mem_insertionSort _).mp hq)
    obtain ⟨n, _, hq'⟩ := Except.bind_eq_ok.mp hq'
    injection (show Except.ok (n, k') = Except.ok q from hq') with hq'
    rw [← hq']
    exact (List.mem_filter.mp hk').1

theorem filter_isParquetScan {plan : List (String × Json)} (hno : ∀ p ∈ plan, ¬ IsParquetScan p.2)
    {nids : List String} :
    nids.filter (fun nid => IsParquetScan ((OrdDict.get? plan nid).getD .null)) = [] := by
  rw [List.filter_eq_nil_iff]
  intro nid _
  cases hg : OrdDict.get? plan nid with
  | none => exact Bool.false_ne_true
  | some node => simpa using hno _ (OrdDict.mem_of_get? hg)

theorem structScanIdsBySignature_spec {plan : List (String × Json)}
    {groups : List (Json × List String)} (h : structScanIdsBySignature plan = .ok groups) :
    (∃ ids, nodeIds plan = .ok ids) ∧ (∀ g ∈ groups, ∀ nid ∈ g.2, nid ∈ OrdDict.keys plan) ∧
      ((∀ p ∈ plan, ¬ IsParquetScan p.2) → groups = []) := by
  obtain ⟨nids, hnids, h⟩ := Except.bind_eq_ok.mp h
  obtain ⟨signed, hsigned, h⟩ := Except.bind_eq_ok.mp h
  injection (show Except.ok _ = Except.ok groups from h) with h
  obtain ⟨hids, hkeys⟩ := sortedNodeKeys_spec hnids
  refine ⟨hids, fun g hg nid hnid => ?_, fun hno => ?_⟩
  · -- a grouped id was a sorted key of the plan
    rw [← h] at hg
    obtain ⟨k, hk, hq⟩ := Except.mem_of_mapM hsigned ((OrdDict.mem_of_mem_group hg).mp hnid)
    obtain ⟨sig, _, hq⟩ := Except.bind_eq_ok.mp hq
    injection (show Except.ok (k, sig) = Except.ok _ from hq) with hq
    injection hq with hq
    rw [← hq]
    exact hkeys k (List.mem_filter.mp hk).1
  · rw [filter_isParquetScan hno] at hsigned
    injection (show Except.ok [] = Except.ok signed from hsigned) with hsigned
    rw [← h, ← hsigned]
    rfl

theorem rebindGroup_keys {plan : List (String × Json)} :
    ∀ {l : List (String × (Json × Json))} {out out' : List (String × Json)},
      (∀ e ∈ l, e.1 ∈ OrdDict.keys out) → rebindGroup plan l out = .ok out' →
        OrdDict.keys out' = OrdDict.keys out
  | [], out, out', _, h => by
    injection h with h
    rw [h]
  | (nid, entry) :: l, out, out', hl, h => by
    obtain ⟨node, _, h⟩ := Except.bind_eq_ok.mp h
    have hset := OrdDict.keys_set_of_mem node (hl _ (List.mem_cons_self ..))
    have hl' : ∀ e ∈ l, e.1 ∈ OrdDict.keys (OrdDict.set out nid node) := by
      intro e he
      rw [hset]
      exact hl e (List.mem_cons_of_mem _ he)
    exact (rebindGroup_keys hl' h).trans hset

theorem rebindGroups_keys {plan : List (String × Json)} {by2 : List (Json × List (Json × Json))}
    {stage : String} : ∀ {groups : List (Json × List String)} {out out' : List (String × Json)},
      (∀ g ∈ groups, ∀ nid ∈ g.2, nid ∈ OrdDict.keys out) →
        rebindGroups plan by2 stage groups out = .ok out' → OrdDict.keys out' = OrdDict.keys out
  | [], out, out', _, h => by
    injection h with h
    rw [h]
  | (sig, nids) :: groups, out, out', hg, h => by
    rw [rebindGroups] at h
    split at h
    next => exact absurd h (by simp)
    next =>
      obtain ⟨out1, h1, h⟩ := Except.bind_eq_ok.mp h
      have hk1 : OrdDict.keys out1 = OrdDict.keys out := by
        refine rebindGroup_keys (fun e he => ?_) h1
        exact hg _ (List.mem_cons_self ..) _ (List.of_mem_zip he).1
      have hg' : ∀ g ∈ groups, ∀ nid ∈ g.2, nid ∈ OrdDict.keys out1 := by
        intro g hgm nid hn
        rw [hk1]
        exact hg g (List.mem_cons_of_mem _ hgm) nid hn
      exact (rebindGroups_keys hg' h).trans hk1

/-- **Rebinding keeps every node under its key**, can only succeed if the keys can be read, and does
nothing to a plan without embedded scans. -/
theorem rebind_spec {plan rebased : List (String × Json)} {info : Json} {stage : String}
    (h : rebindParquetScansInStructure plan info stage = .ok rebased) :
    OrdDict.keys rebased = OrdDict.keys plan ∧ (∃ ids, nodeIds plan = .ok ids) ∧
      ((∀ p ∈ plan, ¬ IsParquetScan p.2) → rebased = plan) := by
  obtain ⟨by2, _, h⟩ := Except.bind_eq_ok.mp h
  obtain ⟨groups, hgroups, h⟩ := Except.bind_eq_ok.mp h
  obtain ⟨hids, hkeys, hnone⟩ := structScanIdsBySignature_spec hgroups
  refine ⟨rebindGroups_keys hkeys h, hids, fun hno => ?_⟩
  rw [hnone hno] at h
  injection h with h
  exact h.symm

/-- Only embedded scans are listed by signature. -/
theorem isParquetScan_of_structScanIds {plan : List (String × Json)}
    {groups : List (Json × List String)} (h : structScanIdsBySignature plan = .ok groups) :
    ∀ g ∈ groups, ∀ nid ∈ g.2, IsParquetScan ((OrdDict.get? plan nid).getD .null) := by
  obtain ⟨nids, _, h⟩ := Except.bind_eq_ok.mp h
  obtain ⟨signed, hsigned, h⟩ := Except.bind_eq_ok.mp h
  injection (show Except.ok _ = Except.ok groups from h) with h
  intro g hg nid hnid
  rw [← h] at hg
  obtain ⟨k, hk, hq⟩ := Except.mem_of_mapM hsigned ((OrdDict.mem_of_mem_group hg).mp hnid)
  obtain ⟨sig, _, hq⟩ := Except.bind_eq_ok.mp hq
  injection (show Except.ok (k, sig) = Except.ok _ from hq) with hq
  injection hq with hq
  rw [← hq]
  exact of_decide_eq_true (List.mem_filter.mp hk).2

theorem rebindGroup_get? {plan : List (String × Json)} {k : String} :
    ∀ {l : List (String × (Json × Json))} {out out' : List (String × Json)},
      (∀ e ∈ l, e.1 ≠ k) → rebindGroup plan l out = .ok out' →
        OrdDict.get? out' k = OrdDict.get? out k
  | [], out, out', _, h => by
    injection h with h
    rw [h]
  | (nid, entry) :: l, out, out', hl, h => by
    obtain ⟨node, _, h⟩ := Except.bind_eq_ok.mp h
    rw [rebindGroup_get? (fun e he => hl e (List.mem_cons_of_mem _ he)) h, OrdDict.get?_set,
      if_neg (hl _ (List.mem_cons_self ..))]

theorem rebindGroups_get? {plan : List (String × Json)} {by2 : List (Json × List (Json × Json))}
    {stage k : String} : ∀ {groups : List (Json × List String)} {out out' : List (String × Json)},
      (∀ g ∈ groups, k ∉ g.2) → rebindGroups plan by2 stage groups out = .ok out' →
        OrdDict.get? out' k = OrdDict.get? out k
  | [], out, out', _, h => by
    injection h with h
    rw [h]
  | (sig, nids) :: groups, out, out', hg, h => by
    rw [rebindGroups] at h
    split at h
    next => exact absurd h (by simp)
    next =>
      obtain ⟨out1, h1, h⟩ := Except.bind_eq_ok.mp h
      rw [rebindGroups_get? (fun g hgm => hg g (List.mem_cons_of_mem _ hgm)) h]
      refine rebindGroup_get? (fun e he hk => ?_) h1
      exact hg _ (List.mem_cons_self ..) (hk ▸ (List.of_mem_zip he).1)

/-- **Rebinding leaves every node alone that is no embedded scan.** -/
theorem rebind_get? {plan rebased : List (String × Json)} {info : Json} {stage : String}
    (h : rebindParquetScansInStructure plan info stage = .ok rebased) {k : String}
    (hk : ¬ IsParquetScan ((OrdDict.get? plan k).getD .null)) :
    OrdDict.get? rebased k = OrdDict.get? plan k := by
  obtain ⟨by2, _, h⟩ := Except.bind_eq_ok.mp h
  obtain ⟨groups, hgroups, h⟩ := Except.bind_eq_ok.mp h
  exact rebindGroups_get? (fun g hg hnid =>
    hk (isParquetScan_of_structScanIds hgroups g hg k hnid)) h

/-- The SF2 scans are listed by signature as the table info has them. -/
theorem mem_sf2EntriesBySignature {info : Json} {by2 : List (Json × List (Json × Json))}
    (h : sf2EntriesBySignature info = .ok by2) :
    ∃ entries, tableInfoEntries info = .ok entries ∧ ∀ g ∈ by2, ∀ e ∈ g.2, e ∈ entries := by
  obtain ⟨entries, hentries, h⟩ := Except.bind_eq_ok.mp h
  obtain ⟨signed, hsigned, h⟩ := Except.bind_eq_ok.mp h
  injection (show Except.ok _ = Except.ok by2 from h) with h
  refine ⟨entries, hentries, fun g hg e he => ?_⟩
  rw [← h] at hg
  obtain ⟨g', hg', rfl⟩ := List.mem_map.mp hg
  have he := (OrdDict.mem_of_mem_group hg').mp ((List.mem_insertionSort _).mp he)
  obtain ⟨e', he', hq⟩ := Except.mem_of_mapM hsigned he
  obtain ⟨_, _, hq⟩ := Except.bind_eq_ok.mp hq
  injection (show Except.ok _ = Except.ok (e, g'.1) from hq) with hq
  injection hq with hq
  exact hq ▸ he'

/-- The node is an SF2 scan from `entries` that takes the place of a node of the plan. -/
def Replaces (plan : List (String × Json)) (entries : List (Json × Json)) (node : Json) : Prop :=
  ∃ k, ∃ e ∈ entries, rebindScan ((OrdDict.get? plan k).getD .null) e.2 = .ok node

theorem mem_rebindGroup {plan : List (String × Json)} {entries : List (Json × Json)} :
    ∀ {l : List (String × (Json × Json))} {out out' : List (String × Json)},
      (∀ e ∈ l, e.2 ∈ entries) → rebindGroup plan l out = .ok out' →
        ∀ q ∈ out', q ∈ out ∨ Replaces plan entries q.2
  | [], out, out', _, h, q, hq => by
    injection h with h
    exact Or.inl (h ▸ hq)
  | (nid, entry) :: l, out, out', hl, h, q, hq => by
    obtain ⟨node, hnode, h⟩ := Except.bind_eq_ok.mp h
    rcases mem_rebindGroup (fun e he => hl e (List.mem_cons_of_mem _ he)) h q hq with hin | hr
    · rcases OrdDict.mem_set hin with rfl | hin
      · exact Or.inr ⟨nid, entry, hl _ (List.mem_cons_self ..), hnode⟩
      · exact Or.inl hin
    · exact Or.inr hr

theorem mem_rebindGroups {plan : List (String × Json)} {entries : List (Json × Json)}
    {by2 : List (Json × List (Json × Json))} (h2 : ∀ g ∈ by2, ∀ e ∈ g.2, e ∈ entries)
    {stage : String} : ∀ {groups : List (Json × List String)} {out out' : List (String × Json)},
      rebindGroups plan by2 stage groups out = .ok out' →
        ∀ q ∈ out', q ∈ out ∨ Replaces plan entries q.2
  | [], out, out', h, q, hq => by
    injection h with h
    exact Or.inl (h ▸ hq)
  | (sig, nids) :: groups, out, out', h, q, hq => by
    rw [rebindGroups] at h
    split at h
    next => exact absurd h (by simp)
    next =>
      obtain ⟨out1, h1, h⟩ := Except.bind_eq_ok.mp h
      -- replaced in a later group, or in this one
      rcases mem_rebindGroups h2 h q hq with hin | hr
      · refine mem_rebindGroup (fun e he => ?_) h1 q hin
        have hin := (List.of_mem_zip he).2
        cases hg : OrdDict.get? by2 sig with
        | none =>
          rw [hg] at hin
          exact absurd hin List.not_mem_nil
        | some es =>
          rw [hg] at hin
          exact h2 _ (OrdDict.mem_of_get? hg) _ hin
      · exact Or.inr hr

/-- **A node of the rebound plan is a node of the plan or an SF2 scan that replaces one.** -/
theorem mem_rebind {plan rebased : List (String × Json)} {info : Json} {stage : String}
    (h : rebindParquetScansInStructure plan info stage = .ok rebased) :
    ∃ entries, tableInfoEntries info = .ok entries ∧
      ∀ q ∈ rebased, q ∈ plan ∨ Replaces plan entries q.2 := by
  obtain ⟨by2, h2, h⟩ := Except.bind_eq_ok.mp h
  obtain ⟨groups, _, h⟩ := Except.bind_eq_ok.mp h
  obtain ⟨entries, hentries, hmem⟩ := mem_sf2EntriesBySignature h2
  exact ⟨entries, hentries, mem_rebindGroups hmem h⟩

end DbPlanBench.Transfer
