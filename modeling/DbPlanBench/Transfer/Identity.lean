import DbPlanBench.Transfer.Accepted
import DbPlanBench.Transfer.Matching

/-!
# A transfer to the same scale changes nothing

Let SF2 have the scans of SF1, in any order, and let the patch be empty. Then every stage
of a transfer is the identity: no node has the id of a scan, so all nodes keep theirs
(`assignNewNodeIds_keeps`); a scan is paired with itself, also where others have its
signature (`buildScanIdMapping_keeps`); and a reference that is renamed to itself stays
as it is (`renameRefs_eq_self`). How the nodes refer to each other plays no part, so
plans may share sub-plans, be cyclic, and have any number of roots.

What plays a part is that the signatures can be read. A scan without a dict has none,
and then there is no transfer, not even to the same scale (`transferPlan_sameScale_iff`).
-/

namespace DbPlanBench.Transfer

/-- A plan over the scans of a table info. Nothing is said of its shape: it may be cyclic, and a
reference may be nested under `input`, `left` or `right`. -/
structure PlanOver (info : Json) (plan : List (String × Json)) : Prop where
  /-- No object repeats a key. -/
  nodup : (Json.obj plan).NodupKeys
  /-- Every key is a canonical decimal numeral. -/
  canonical : ∀ p ∈ plan, ∃ n : Nat, p.1 = toString n
  /-- Every node is a dict with a single operator. -/
  single : ∀ p ∈ plan, ∃ op, p.2 = .obj [op]
  /-- No key is the id of a scan. -/
  noScanKey : ∀ n ∈ planIds plan, n ∉ scanIds info
  /-- No node is an embedded scan. -/
  noScanNode : ∀ p ∈ plan, ¬ IsParquetScan p.2
  /-- Every reference is an integer that names a node or a scan. -/
  refs : ∀ p ∈ plan, ∀ q ∈ walkRefs p.2, ∃ r, q.2 = .int r ∧ (r ∈ planIds plan ∨ r ∈ scanIds info)

/-! ## Renaming every reference to itself -/

section

variable {σ : Int → Option Int}

theorem renameRef_int {r : Int} (h : σ r = some r) : renameRef σ (.int r) = .int r := by
  rw [renameRef, toInt_int]
  show ((σ r).map Json.int).getD (.int r) = .int r
  rw [h]
  rfl

mutual

/-- A value whose direct references are all renamed to themselves is renamed to itself. -/
theorem renameRefs_eq_self : ∀ v : Json,
    (∀ p ∈ directRefs v, renameRef σ p.2 = p.2) → renameRefs σ v = v
  | .obj kvs, h => congrArg Json.obj (renameRefsFields_eq_self kvs h)
  | .arr xs, h => congrArg Json.arr (renameRefsList_eq_self xs h)
  | .null, _ | .bool _, _ | .int _, _ | .float _, _ | .str _, _ => rfl

theorem renameRefsList_eq_self : ∀ xs : List Json,
    (∀ p ∈ directRefsList xs, renameRef σ p.2 = p.2) → renameRefsList σ xs = xs
  | [], _ => rfl
  | x :: xs, h => by
    rw [directRefsList, List.forall_mem_append] at h
    rw [renameRefsList, renameRefs_eq_self x h.1, renameRefsList_eq_self xs h.2]

theorem renameRefsFields_eq_self : ∀ kvs : List (String × Json),
    (∀ p ∈ directRefsFields kvs, renameRef σ p.2 = p.2) → renameRefsFields σ kvs = kvs
  | [], _ => rfl
  | (k, v) :: kvs, h => by
    rw [directRefsFields, List.forall_mem_append] at h
    obtain ⟨hv, hrest⟩ := h
    rw [renameRefsFields, renameRefsFields_eq_self kvs hrest]
    refine congrArg (fun w => (k, w) :: kvs) ?_
    by_cases hk : k ∈ refKeysScalar
    · rw [if_pos hk] at hv ⊢
      by_cases hi : isIntish v = true
      · rw [if_pos hi] at hv
        exact hv (k, v) (List.mem_singleton.mpr rfl)
      · exact renameRef_of_error (toInt_of_not_isIntish (by simpa using hi))
    · rw [if_neg hk] at hv ⊢
      cases hl : refList? k v with
      | some xs =>
        rw [hl] at hv
        show Json.arr (xs.map (renameRef σ)) = v
        rw [(refList?_eq_some hl).1]
        refine congrArg Json.arr ((List.map_congr_left fun x hx => ?_).trans (List.map_id xs))
        exact hv (k, x) (List.mem_map_of_mem hx)
      | none =>
        rw [hl] at hv
        exact renameRefs_eq_self v hv

end

end

/-! ## The ids of the plan -/

section

variable {info : Json} {P : List (String × Json)}

theorem PlanOver.wellShaped (h : PlanOver info P) : WellShaped P := by
  intro p hp
  obtain ⟨n, hn⟩ := h.canonical p hp
  exact ⟨(canonicalKey_of_numeral hn).1, h.single p hp⟩

theorem PlanOver.canonicalKey (h : PlanOver info P) : ∀ p ∈ P, CanonicalKey p.1 := by
  intro p hp
  obtain ⟨n, hn⟩ := h.canonical p hp
  exact (canonicalKey_of_numeral hn).2.2

theorem PlanOver.nodeIds (h : PlanOver info P) : nodeIds P = .ok (planIds P) :=
  nodeIds_of_numerals h.canonical

theorem PlanOver.readable (h : PlanOver info P) : Readable P := by
  intro p hp q hq
  obtain ⟨r, hr, _⟩ := h.refs p hp q hq
  exact ⟨r, by rw [hr, toInt_int]⟩

/-- No reference is left unresolved, wherever it stands: a node keeps its id, a scan has it. -/
theorem PlanOver.resolved (h : PlanOver info P) {info' : Json}
    (hscans : ∀ r, r ∈ scanIds info ↔ r ∈ scanIds info') :
    ¬ Unresolved P (planIds P) (scanIds info) (scanIds info')
      (newIds (planIds P) (scanIds info')) := by
  intro hun
  obtain ⟨p, hp, q, r, hqr, hscan, hnew, hkind⟩ := hun
  have hwalk : q ∈ walkRefs p.2 := by
    rw [mem_walkRefs]
    rcases hkind with hq | ⟨hq, _⟩
    · exact Or.inr hq
    · exact Or.inl hq
  obtain ⟨r', hr', hin⟩ := h.refs p hp q hwalk
  rw [hr', toInt_int] at hqr
  injection hqr with hqr
  subst hqr
  rcases hin with hin | hin
  · have hkept : r' ∈ (planIds P).filter (· ∉ scanIds info') :=
      List.mem_filter.mpr ⟨hin, by simpa using hscan⟩
    exact hnew (List.mem_append_left _ hkept)
  · exact hscan ((hscans r').mp hin)

/-! ## Every stage is the identity -/

/-- If no id is reserved, every node keeps its own. -/
theorem assignNewNodeIds_keeps {ids reserved : List Int} {m : List (Int × Int)}
    (hids : Transfer.nodeIds P = .ok ids) (hidsnd : ids.Nodup) (hr : Readable P)
    (hfree : ∀ n ∈ ids, n ∉ reserved) (hm : assignNewNodeIds P reserved = .ok m) :
    ∀ n ∈ ids, OrdDict.get? m n = some n := by
  obtain ⟨order, hnd, hmem, horder⟩ := assignNewNodeIds_eq hids hidsnd hr reserved
  rw [Renumber.assign_eq_self naturals hnd fun n hn => hfree n ((hmem n).mp hn), hm] at horder
  injection horder with horder
  intro n hn
  have hkeys : OrdDict.keys (order.zip order) = order := List.map_fst_zip (Nat.le_refl _)
  rw [horder]
  refine OrdDict.get?_of_mem (hkeys.symm ▸ hnd) ?_
  obtain ⟨i, hi⟩ := List.mem_iff_getElem?.mp ((hmem n).mpr hn)
  exact OrderMatching.mem_zip_iff.mpr ⟨i, hi, hi⟩

/-- A table info has enough scans for itself, so every scan is paired with itself: keeping every id
is the one order-preserving matching. -/
theorem buildScanIdMapping_keeps {info' : Json} (h : IsTableInfo info)
    (hread : ReadableScans info) (hr : Reordered info info') :
    ∃ sm, buildScanIdMapping info info' = .ok sm ∧
      ∀ n ∈ scanIds info, OrdDict.get? sm n = some n := by
  obtain ⟨h', hperm⟩ := h.reordered hr
  have hread' : ReadableScans info' := fun e he => hread e (hperm.mem_iff.mpr he)
  have henough : ¬ TooFewScans info info' := by
    intro hfew
    obtain ⟨sig, hlt⟩ := hfew
    rw [signatureCount_perm hperm] at hlt
    exact lt_irrefl _ hlt
  obtain ⟨sm, hsm, hmatch⟩ := buildScanIdMapping_matching h h' hread hread' henough
  have hkeep := (OrderMatching.keep (scanClasses info)).perm (List.Perm.refl _)
    (hperm.filterMap scanClass?)
  refine ⟨sm, hsm, fun n hn => ?_⟩
  rw [hmatch.unique hkeep]
  exact if_pos ((scanClasses_fst h hread).symm ▸ hn)

/-- With signatures, the SF2 scans can be listed by signature. -/
theorem exists_sf2EntriesBySignature (h : IsTableInfo info) (hread : ReadableScans info) :
    ∃ by2, sf2EntriesBySignature info = .ok by2 := by
  have hsigned : ∀ e ∈ scanEntries info, ∃ q, (do
      return (e, ← scanNormalizedSignature e.2) : Except PyErr ((Json × Json) × Json)) = .ok q := by
    intro e he
    obtain ⟨sig, hsig⟩ := scanNormalizedSignature_readable (hread e he)
    exact ⟨(e, sig), by rw [hsig]; rfl⟩
  obtain ⟨signed, hsigned⟩ := Except.exists_mapM_ok hsigned
  rw [sf2EntriesBySignature, tableInfoEntries_eq h, Except.ok_bind, hsigned]
  exact ⟨_, rfl⟩

/-- Without embedded scans there is no signature to tell, and no group. -/
theorem structScanIdsBySignature_eq_nil {ids : List Int} (hids : Transfer.nodeIds P = .ok ids)
    (hno : ∀ p ∈ P, ¬ IsParquetScan p.2) : structScanIdsBySignature P = .ok [] := by
  have hkeyed : ∀ k ∈ (OrdDict.keys P).filter Py.isdigit, ∃ q, (do
      return (← Py.int k, k) : Except PyErr (Int × String)) = .ok q := by
    intro k hk
    obtain ⟨n, _, hn⟩ := Except.ok_of_mapM hids k hk
    exact ⟨(n, k), by rw [hn]; rfl⟩
  obtain ⟨keyed, hkeyed⟩ := Except.exists_mapM_ok hkeyed
  obtain ⟨nids, hnids⟩ : ∃ nids, sortedNodeKeys P = .ok nids :=
    ⟨_, by rw [sortedNodeKeys, hkeyed]; rfl⟩
  rw [structScanIdsBySignature, hnids, Except.ok_bind, filter_isParquetScan hno]
  rfl

/-- A plan without embedded scans is left as it is, if the SF2 scans can be read. -/
theorem rebindParquetScansInStructure_keeps {stage : String} (h : IsTableInfo info)
    (hread : ReadableScans info) {ids : List Int} (hids : Transfer.nodeIds P = .ok ids)
    (hno : ∀ p ∈ P, ¬ IsParquetScan p.2) :
    rebindParquetScansInStructure P info stage = .ok P := by
  obtain ⟨by2, hby2⟩ := exists_sf2EntriesBySignature h hread
  rw [rebindParquetScansInStructure, hby2, Except.ok_bind, structScanIdsBySignature_eq_nil hids hno]
  rfl

/-- A plan whose nodes keep their ids and whose scans keep theirs is renamed to itself. -/
theorem renamedPlan_keeps (h : PlanOver info P) {m sm : List (Int × Int)}
    (hm : ∀ n ∈ planIds P, OrdDict.get? m n = some n)
    (hkeys : ∀ n, n ∈ OrdDict.keys m ↔ n ∈ planIds P)
    (hsm : ∀ n ∈ scanIds info, OrdDict.get? sm n = some n) : renamedPlan m sm P = P := by
  have hkept : ∀ r, r ∈ planIds P ∨ r ∈ scanIds info → idRenaming m sm r = some r := by
    intro r hr
    rw [idRenaming]
    by_cases hin : r ∈ planIds P
    · rw [hm r hin]
      rfl
    · rw [OrdDict.get?_eq_none.mpr fun hk => hin ((hkeys r).mp hk), hsm r (hr.resolve_left hin)]
      rfl
  refine (List.map_congr_left fun p hp => ?_).trans (List.map_id P)
  have hkey : toString (newId m (keyId p.1)) = p.1 := by
    rw [newId, hm _ (List.mem_map_of_mem hp)]
    exact (h.canonicalKey p hp).symm
  have hnode : renameRefs (idRenaming m sm) p.2 = p.2 := by
    refine renameRefs_eq_self p.2 fun q hq => ?_
    obtain ⟨r, hr, hin⟩ := h.refs p hp q ((mem_walkRefs q p.2).mpr (Or.inl hq))
    rw [hr]
    exact renameRef_int (hkept r hin)
  rw [hkey, hnode]
  rfl

/-! ## The transfer -/

/-- **A transfer to the same scale returns the plan as it is**, whatever its shape, if the scans
can be read. -/
theorem transferPlan_keeps {sf2Base info info' : JsonValue} (h : IsTableInfo info)
    (hread : ReadableScans info) (hr : Reordered info info') (h2 : IsPlan sf2Base)
    (hP : PlanOver info P) : transferPlan (.obj P) info sf2Base info' (.arr []) = .ok P := by
  obtain ⟨h', hperm⟩ := h.reordered hr
  have hread' : ReadableScans info' := fun e he => hread e (hperm.mem_iff.mpr he)
  obtain ⟨sm, hsm, hscan⟩ := buildScanIdMapping_keeps h hread hr
  have hscans : ∀ r, r ∈ scanIds info ↔ r ∈ scanIds info' := by
    intro r
    rw [scanIds_eq h, scanIds_eq h']
    exact (hperm.filterMap _).mem_iff
  have hacc : Accepted (.obj P) info sf2Base info' P P sm := {
    shaped := hP.wellShaped
    sf1Plan := ⟨P, rfl, hP.wellShaped⟩
    sf2Plan := h2
    mapped := hsm
    rebound := rebindParquetScansInStructure_keeps h' hread' hP.nodeIds hP.noScanNode
    readable := hP.readable
    canonical := hP.canonicalKey
    single := hP.single
    resolved := hP.resolved hscans }
  obtain ⟨m, hnum⟩ := hacc.exists_numbering
  obtain ⟨reserved, hres, hidmap, hm⟩ := hnum.idMap
  have hfree : ∀ n ∈ planIds P, n ∉ reserved := by
    intro n hn hn'
    exact hP.noScanKey n hn ((hscans n).mpr ((sf2ScanIds_mem hres n).mp hn'))
  have hids := nodup_planIds (Json.nodupKeys_obj.mp hP.nodup).1 hP.canonicalKey
  have hnode := assignNewNodeIds_keeps hP.nodeIds hids hP.readable hfree hm
  rw [transferPlan_eq_ok_iff ⟨.obj P, hP.nodup⟩ info sf2Base info' ⟨.arr [], by decide⟩ rfl]
  exact ⟨P, sm, m, hacc, hnum, (renamedPlan_keeps hP hnode hidmap.mem_keys hscan).symm⟩

/-- **A transfer to the same scale is the identity exactly if every scan has dicts to read its
signature from.** -/
theorem transferPlan_sameScale_iff (sf2Base info info' : JsonValue) (h : IsTableInfo info)
    (hr : Reordered info info') (h2 : IsPlan sf2Base) (hP : PlanOver info P) :
    transferPlan (.obj P) info sf2Base info' (.arr []) = .ok P ↔ ReadableScans info := by
  constructor
  · intro hok
    by_contra hread
    have hmap := buildScanIdMapping_unreadable h (h.reordered hr).1 fun hboth => hread hboth.1
    rw [transferPlan_of_isPlan (P := P) rfl hP.wellShaped ⟨P, rfl, hP.wellShaped⟩ h2, hmap,
      Except.error_bind] at hok
    exact absurd hok (by simp)
  · exact fun hread => transferPlan_keeps h hread hr h2 hP

end

/-! ## A cycle below two roots -/

/-- Two scans of one table. -/
def twinScans : List Json := [tableEntry 100 ["key"], tableEntry 101 ["key"]]

/-- Nodes 2 and 0 refer to each other, and two joins to them and to the scans. -/
def loopPlan : List (String × Json) :=
  [("2", .obj [("unionExec", .obj [("inputs", .arr [.int 0, .int 100])])]),
   ("0", .obj [("filterExec", .obj [("input", .int 2)])]),
   ("9", .obj [("hashJoinExec", .obj [("left", .int 101), ("right", .int 0)])]),
   ("4", .obj [("hashJoinExec", .obj [("left", .int 2), ("right", .int 100)])])]

theorem isTableInfo_twinScans : IsTableInfo (.arr twinScans) where
  accepted := ⟨_, rfl⟩
  integers := List.forall_mem_cons.mpr ⟨⟨100, rfl⟩, List.forall_mem_singleton.mpr ⟨101, rfl⟩⟩
  distinct := by decide

theorem readableScan_baseConf (base : List (String × Json)) :
    ReadableScan (.obj [("parquetScan", .obj [("baseConf", .obj base)])]) := by
  intro kvs hkvs scan hscan
  injection hkvs with hkvs
  rw [← hkvs] at hscan
  injection hscan with hscan
  refine ⟨_, hscan.symm, fun conf hconf => ⟨base, ?_⟩⟩
  injection hconf with hconf
  exact hconf.symm

theorem readableScans_twinScans : ReadableScans (.arr twinScans) :=
  List.forall_mem_cons.mpr ⟨readableScan_baseConf _,
    List.forall_mem_singleton.mpr (readableScan_baseConf _)⟩

/-- The references of a plan, looked up in a list. -/
theorem refs_of_mem {info : Json} {plan : List (String × Json)}
    (h : ∀ p ∈ plan, ∀ q ∈ walkRefs p.2, ∃ r ∈ planIds plan ++ scanIds info, q.2 = .int r) :
    ∀ p ∈ plan, ∀ q ∈ walkRefs p.2,
      ∃ r, q.2 = .int r ∧ (r ∈ planIds plan ∨ r ∈ scanIds info) := by
  intro p hp q hq
  obtain ⟨r, hr, hqr⟩ := h p hp q hq
  exact ⟨r, hqr, List.mem_append.mp hr⟩

theorem planOver_loopPlan : PlanOver (.arr twinScans) loopPlan where
  nodup := by decide
  canonical := List.forall_mem_cons.mpr ⟨⟨2, rfl⟩, List.forall_mem_cons.mpr ⟨⟨0, rfl⟩,
    List.forall_mem_cons.mpr ⟨⟨9, rfl⟩, List.forall_mem_singleton.mpr ⟨4, rfl⟩⟩⟩⟩
  single := List.forall_mem_cons.mpr ⟨⟨_, rfl⟩, List.forall_mem_cons.mpr ⟨⟨_, rfl⟩,
    List.forall_mem_cons.mpr ⟨⟨_, rfl⟩, List.forall_mem_singleton.mpr ⟨_, rfl⟩⟩⟩⟩
  noScanKey := by decide
  noScanNode := by decide
  refs := refs_of_mem (by decide)

/-- With the scans listed the other way round. -/
theorem transferPlan_loopPlan :
    transferPlan (.obj loopPlan) (.arr twinScans) (.obj []) (.arr twinScans.reverse) (.arr []) =
      .ok loopPlan :=
  (transferPlan_sameScale_iff ⟨.obj [], by decide⟩ ⟨.arr twinScans, by decide⟩
    ⟨.arr twinScans.reverse, by decide⟩ isTableInfo_twinScans
    (reordered_arr twinScans.reverse_perm.symm) ⟨[], rfl, fun p hp => absurd hp List.not_mem_nil⟩
    planOver_loopPlan).mpr readableScans_twinScans

/-- A filter over the scan with id 0. -/
def filterPlan : List (String × Json) := [("1", .obj [("filterExec", .obj [("input", .int 0)])])]

theorem planOver_filterPlan : PlanOver (oneScan 0 .null) filterPlan where
  nodup := by decide
  canonical := List.forall_mem_singleton.mpr ⟨1, rfl⟩
  single := List.forall_mem_singleton.mpr ⟨_, rfl⟩
  noScanKey := by decide
  noScanNode := by decide
  refs := refs_of_mem (by decide)

/-- The scan is `null` at both scales. -/
theorem filterPlan_attributeError :
    PlanOver (oneScan 0 .null) filterPlan ∧ IsTableInfo (oneScan 0 .null) ∧
      transferPlan (.obj filterPlan) (oneScan 0 .null) (.obj filterPlan) (oneScan 0 .null)
        (.arr []) = .error .attributeError ∧
      transferPlan (.obj filterPlan) (oneScan 0 .null) (.obj filterPlan) (oneScan 0 .null)
        (.arr []) ≠ .ok filterPlan := by
  have hout : transferPlan (.obj filterPlan) (oneScan 0 .null) (.obj filterPlan)
      (oneScan 0 .null) (.arr []) = .error .attributeError := by decide +kernel
  refine ⟨planOver_filterPlan, isTableInfo_oneScan _ _, hout, ?_⟩
  rw [hout]
  simp

end DbPlanBench.Transfer
