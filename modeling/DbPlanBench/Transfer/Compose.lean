import DbPlanBench.Transfer.Children
import DbPlanBench.Transfer.Identity

/-!
# Transfers compose

A transferred plan is a plan over the SF2 scans, as well formed as the patched one, so it
can be transferred again. What the second transfer returns is determined up to the ids
of its nodes: renaming twice is renaming once (`renameRefs_renameRefs`), and the scans
are paired by the one order-preserving matching, which composes (`OrderMatching.comp`).

* `transferPlan_returns` — a well-formed plan is accepted wherever its scans can be paired.
* `transferPlan_trans` — by way of SF2 to SF3 is directly to SF3, up to the ids of the nodes.
* `transferPlan_roundTrip` — to SF2 and back is the patched plan, up to the ids of its nodes;
  every scan comes back as itself.
-/

namespace DbPlanBench.Transfer

/-! ## Plans up to the ids of their nodes -/

/-- A node `n` goes to `ψ n`, a scan stays. -/
def nodeRenaming (ψ : Int → Int) (ids : List Int) (r : Int) : Option Int :=
  if r ∈ ids then some (ψ r) else none

/-- The plan with its nodes renumbered by `ψ`. -/
def renumbered (ψ : Int → Int) (plan : List (String × Json)) : List (String × Json) :=
  plan.map fun p => (toString (ψ (keyId p.1)), renameRefs (nodeRenaming ψ (planIds plan)) p.2)

/-- Two plans over the scans of a table info are the same but for the ids of their nodes. -/
def SameUpToIds (info : Json) (plan plan' : List (String × Json)) : Prop :=
  ∃ ψ : Int → Int, Set.InjOn ψ {n | n ∈ planIds plan} ∧
    (∀ n ∈ planIds plan, 0 ≤ ψ n ∧ ψ n ∉ scanIds info) ∧ plan' = renumbered ψ plan

/-! ## Renamings that agree -/

section

variable {σ τ : Int → Option Int}

mutual

/-- Renamings that agree on the direct references of a value agree on it. -/
theorem renameRefs_congr : ∀ v : Json,
    (∀ p ∈ directRefs v, renameRef σ p.2 = renameRef τ p.2) → renameRefs σ v = renameRefs τ v
  | .obj kvs, h => congrArg Json.obj (renameRefsFields_congr kvs h)
  | .arr xs, h => congrArg Json.arr (renameRefsList_congr xs h)
  | .null, _ | .bool _, _ | .int _, _ | .float _, _ | .str _, _ => rfl

theorem renameRefsList_congr : ∀ xs : List Json,
    (∀ p ∈ directRefsList xs, renameRef σ p.2 = renameRef τ p.2) →
      renameRefsList σ xs = renameRefsList τ xs
  | [], _ => rfl
  | x :: xs, h => by
    rw [directRefsList, List.forall_mem_append] at h
    rw [renameRefsList, renameRefsList, renameRefs_congr x h.1, renameRefsList_congr xs h.2]

theorem renameRefsFields_congr : ∀ kvs : List (String × Json),
    (∀ p ∈ directRefsFields kvs, renameRef σ p.2 = renameRef τ p.2) →
      renameRefsFields σ kvs = renameRefsFields τ kvs
  | [], _ => rfl
  | (k, v) :: kvs, h => by
    rw [directRefsFields, List.forall_mem_append] at h
    obtain ⟨hv, hrest⟩ := h
    rw [renameRefsFields, renameRefsFields, renameRefsFields_congr kvs hrest]
    refine congrArg (fun w => (k, w) :: renameRefsFields τ kvs) ?_
    by_cases hk : k ∈ refKeysScalar
    · rw [if_pos hk] at hv
      rw [if_pos hk, if_pos hk]
      by_cases hi : isIntish v = true
      · rw [if_pos hi] at hv
        exact hv (k, v) (List.mem_singleton.mpr rfl)
      · -- what is no integer is not renamed
        have herr := toInt_of_not_isIntish (by simpa using hi)
        rw [renameRef_of_error herr, renameRef_of_error herr]
    · rw [if_neg hk] at hv
      rw [if_neg hk, if_neg hk]
      cases hl : refList? k v with
      | some xs =>
        rw [hl] at hv
        refine congrArg Json.arr (List.map_congr_left fun x hx => ?_)
        exact hv (k, x) (List.mem_map_of_mem hx)
      | none =>
        rw [hl] at hv
        exact renameRefs_congr v hv

end

theorem renameRef_congr {r : Int} (h : (σ r).getD r = (τ r).getD r) :
    renameRef σ (.int r) = renameRef τ (.int r) := by
  have hint : ∀ ρ : Int → Option Int, renameRef ρ (.int r) = .int ((ρ r).getD r) := by
    intro ρ
    rw [renameRef, toInt_int]
    show ((ρ r).map Json.int).getD (.int r) = .int ((ρ r).getD r)
    cases ρ r <;> rfl
  rw [hint, hint, h]

theorem isParquetScan_renameRefs (σ : Int → Option Int) (v : Json) :
    IsParquetScan (renameRefs σ v) ↔ IsParquetScan v := by
  cases v with
  | obj kvs =>
    show (OrdDict.get? (renameRefsFields σ kvs) "parquetScan").isSome ↔
      (OrdDict.get? kvs "parquetScan").isSome
    have hsome : ∀ kvs : List (String × Json), (OrdDict.get? kvs "parquetScan").isSome ↔
        "parquetScan" ∈ OrdDict.keys kvs := by
      intro kvs
      rw [Option.isSome_iff_exists]
      exact OrdDict.get?_isSome
    rw [hsome, hsome, keys_renameRefsFields]
  | _ => exact Iff.rfl

end

/-! ## What a transfer returns, and when -/

section

variable (sf1Base sf1Info sf2Base sf2Info patch : JsonValue) {P out : List (String × Json)}

/-- A mapping that was built had signatures, and enough scans of each. -/
theorem paired_of_mapping {info info' : Json} {sm : List (Int × Int)} (h : IsTableInfo info)
    (h' : IsTableInfo info') (hsm : buildScanIdMapping info info' = .ok sm) :
    ReadableScans info ∧ ReadableScans info' ∧ ¬ TooFewScans info info' := by
  have hread : ReadableScans info ∧ ReadableScans info' := by
    by_contra hread
    rw [buildScanIdMapping_unreadable h h' hread] at hsm
    exact absurd hsm (by simp)
  refine ⟨hread.1, hread.2, fun hfew => ?_⟩
  obtain ⟨e, he, _⟩ := buildScanIdMapping_raises h h' hread.1 hread.2 hfew
  rw [hsm] at he
  exact absurd he (by simp)

/-- **A well-formed plan is accepted wherever its scans can be paired.** -/
theorem transferPlan_returns (hpatch : applyJsonPatch sf1Base patch = .ok (.obj P))
    (hw : WellFormedPlan sf1Info P) (h1 : IsPlan sf1Base) (h2 : IsPlan sf2Base)
    (hinfo1 : IsTableInfo sf1Info) (hinfo2 : IsTableInfo sf2Info) (hread1 : ReadableScans sf1Info)
    (hread2 : ReadableScans sf2Info) (hfew : ¬ TooFewScans sf1Info sf2Info) :
    ∃ out, transferPlan sf1Base sf1Info sf2Base sf2Info patch = .ok out := by
  obtain ⟨sm, hsm, _⟩ := buildScanIdMapping_matching hinfo1 hinfo2 hread1 hread2 hfew
  have hkeys := (Json.nodupKeys_obj.mp (applyJsonPatch_nodupKeys sf1Base.2 patch.2 hpatch)).1
  obtain ⟨hids, _, hread⟩ := wellFormedPlan_ids hw hkeys
  have hcanon : ∀ p ∈ P, CanonicalKey p.1 := by
    intro p hp
    obtain ⟨n, hn⟩ := hw.canonical p hp
    exact (canonicalKey_of_numeral hn).2.2
  have hacc : Accepted sf1Base sf1Info sf2Base sf2Info P P sm := {
    shaped := fun p hp => by
      obtain ⟨n, hn⟩ := hw.canonical p hp
      exact ⟨(canonicalKey_of_numeral hn).1, hw.single p hp⟩
    sf1Plan := h1
    sf2Plan := h2
    mapped := hsm
    rebound := rebindParquetScansInStructure_keeps hinfo2 hread2 hids hw.noScanNode
    readable := hread
    canonical := hcanon
    single := hw.single
    resolved := fun hun => by
      -- no reference is nested, and every direct one names a node or an SF1 scan
      obtain ⟨p, hp, q, r, hqr, _, _, hkind⟩ := hun
      rcases hkind with hq | ⟨hq, hnode, hscan⟩
      · rw [hw.noNested p hp] at hq
        exact absurd hq List.not_mem_nil
      · obtain ⟨r', hr', hin⟩ := hw.refs p hp q ((mem_walkRefs q p.2).mpr (Or.inl hq))
        rw [hr', toInt_int] at hqr
        injection hqr with hqr
        subst hqr
        exact hin.elim hnode hscan }
  obtain ⟨m, hnum⟩ := hacc.exists_numbering
  exact ⟨_, (transferPlan_eq_ok_iff sf1Base sf1Info sf2Base sf2Info patch hpatch _).mpr
    ⟨P, sm, m, hacc, hnum, rfl⟩⟩

/-- A transferred plan with its new ids. -/
structure Transferred (sf1Info sf2Info : Json) (P out : List (String × Json)) (φ : Int → Int)
    (sm : List (Int × Int)) : Prop where
  mapped : buildScanIdMapping sf1Info sf2Info = .ok sm
  injective : Set.InjOn φ {n | n ∈ planIds P}
  fresh : ∀ n ∈ planIds P, 0 ≤ φ n ∧ φ n ∉ scanIds sf2Info
  eq : out = P.map fun p => (toString (φ (keyId p.1)),
    renameRefs (transferId φ (planIds P) sm) p.2)

theorem exists_transferred (hpatch : applyJsonPatch sf1Base patch = .ok (.obj P))
    (hw : WellFormedPlan sf1Info P)
    (h : transferPlan sf1Base sf1Info sf2Base sf2Info patch = .ok out) :
    ∃ φ sm, Transferred sf1Info sf2Info P out φ sm := by
  obtain ⟨Q, sm, m, hacc, hnum, hout⟩ :=
    (transferPlan_eq_ok_iff sf1Base sf1Info sf2Base sf2Info patch hpatch out).mp h
  -- without embedded scans nothing is rebound
  have hQ : Q = P := (rebind_spec hacc.rebound).2.2 hw.noScanNode
  subst hQ
  obtain ⟨reserved, hres, hidmap, _⟩ := hnum.idMap
  refine ⟨newId m, sm, hacc.mapped, fun a ha b hb he => newId_injective hidmap ha hb he,
    fun n hn => ⟨newId_nonneg hidmap hn, fun hn' => ?_⟩, ?_⟩
  · exact newId_fresh hidmap hn ((sf2ScanIds_mem hres _).mpr hn')
  · rw [hout, renamedPlan, idRenaming_eq_transferId hidmap]

end

/-! ## A transferred plan is a plan over the SF2 scans -/

section

variable {sf1Info sf2Info sf3Info : Json} {P out : List (String × Json)} {φ : Int → Int}
  {sm : List (Int × Int)}

theorem transferId_of_mem {ids : List Int} {r : Int} (h : r ∈ ids) :
    transferId φ ids sm r = some (φ r) := if_pos h

theorem transferId_of_not_mem {ids : List Int} {r : Int} (h : r ∉ ids) :
    transferId φ ids sm r = OrdDict.get? sm r := if_neg h

theorem keyId_toString {n : Int} (h : 0 ≤ n) : keyId (toString n) = n :=
  keyId_of_int (Py.int_toString_int h).2

theorem mem_planIds {plan : List (String × Json)} {p : String × Json} (hp : p ∈ plan) :
    keyId p.1 ∈ planIds plan := List.mem_map_of_mem hp

theorem Transferred.planIds_eq (h : Transferred sf1Info sf2Info P out φ sm) :
    planIds out = (planIds P).map φ := by
  rw [h.eq, planIds, planIds, List.map_map, List.map_map]
  refine List.map_congr_left fun p hp => ?_
  exact keyId_toString (h.fresh _ (mem_planIds hp)).1

/-- Where an id of the plan goes: a node to a node, a scan to a scan. -/
theorem Transferred.transferId_spec (h : Transferred sf1Info sf2Info P out φ sm) {r : Int}
    (hr : r ∈ planIds P ∨ r ∈ scanIds sf1Info) : ∃ s, transferId φ (planIds P) sm r = some s ∧
      (s ∈ planIds out ∨ s ∈ scanIds sf2Info) := by
  by_cases hin : r ∈ planIds P
  · rw [transferId_of_mem hin]
    exact ⟨φ r, rfl, Or.inl (h.planIds_eq ▸ List.mem_map_of_mem hin)⟩
  · rw [transferId_of_not_mem hin]
    obtain ⟨hkeys, hpair⟩ := buildScanIdMapping_spec h.mapped
    obtain ⟨s, hs⟩ := OrdDict.get?_isSome.mpr ((hkeys r).mpr (hr.resolve_left hin))
    exact ⟨s, hs, Or.inr (hpair r s hs).1⟩

/-- **A transferred plan is well formed over the SF2 scans.** -/
theorem Transferred.wellFormed (h : Transferred sf1Info sf2Info P out φ sm)
    (hw : WellFormedPlan sf1Info P) : WellFormedPlan sf2Info out := by
  have hout : ∀ q ∈ out, ∃ p ∈ P, q = (toString (φ (keyId p.1)),
      renameRefs (transferId φ (planIds P) sm) p.2) := by
    intro q hq
    rw [h.eq] at hq
    obtain ⟨p, hp, he⟩ := List.mem_map.mp hq
    exact ⟨p, hp, he.symm⟩
  refine ⟨fun q hq => ?_, fun q hq => ?_, fun n hn => ?_, fun q hq => ?_, fun q hq w hw' => ?_,
    fun q hq => ?_⟩
  · obtain ⟨p, hp, rfl⟩ := hout q hq
    have hnn := (h.fresh _ (mem_planIds hp)).1
    refine ⟨(φ (keyId p.1)).toNat, ?_⟩
    nth_rewrite 1 [← Int.toNat_of_nonneg hnn]
    rfl
  · obtain ⟨p, hp, rfl⟩ := hout q hq
    obtain ⟨op, hop⟩ := hw.single p hp
    exact ⟨(op.1, renamedField (transferId φ (planIds P) sm) op.1 op.2), by rw [hop]; rfl⟩
  · rw [h.planIds_eq] at hn
    obtain ⟨n', hn', rfl⟩ := List.mem_map.mp hn
    exact (h.fresh n' hn').2
  · obtain ⟨p, hp, rfl⟩ := hout q hq
    rw [isParquetScan_renameRefs]
    exact hw.noScanNode p hp
  · obtain ⟨p, hp, rfl⟩ := hout q hq
    rw [walkRefs_renameRefs (hw.noNested p hp)] at hw'
    obtain ⟨w', hmem, rfl⟩ := List.mem_map.mp hw'
    obtain ⟨r, hr, hin⟩ := hw.refs p hp w' hmem
    obtain ⟨s, hs, hsin⟩ := h.transferId_spec hin
    refine ⟨s, ?_, hsin⟩
    show renameRef _ w'.2 = .int s
    rw [hr, renameRef, toInt_int]
    show ((transferId φ (planIds P) sm r).map Json.int).getD (.int r) = .int s
    rw [hs]
    rfl
  · obtain ⟨p, hp, rfl⟩ := hout q hq
    rw [nestedRefs_renameRefs]
    exact hw.noNested p hp

theorem Transferred.nodupKeys (h : Transferred sf1Info sf2Info P out φ sm)
    (hw : WellFormedPlan sf1Info P) (hP : (Json.obj P).NodupKeys) : (Json.obj out).NodupKeys := by
  rw [Json.nodupKeys_obj] at hP ⊢
  have hids : (planIds P).Nodup := nodup_planIds hP.1 fun p hp => by
    obtain ⟨n, hn⟩ := hw.canonical p hp
    exact (canonicalKey_of_numeral hn).2.2
  constructor
  · refine List.Nodup.of_map keyId ?_
    rw [map_keyId_keys, h.planIds_eq]
    exact hids.map_on fun a ha b hb he => h.injective ha hb he
  · intro q hq
    rw [h.eq] at hq
    obtain ⟨p, hp, rfl⟩ := List.mem_map.mp hq
    exact nodupKeys_renameRefs _ _ (hP.2 p hp)

/-! ## Two transfers in a row -/

variable {out' : List (String × Json)} {φ' : Int → Int} {sm' : List (Int × Int)}

/-- **A plan that was transferred twice**: its nodes got their ids from the two transfers, its scans
were replaced one after the other. -/
theorem Transferred.comp (h : Transferred sf1Info sf2Info P out φ sm)
    (h' : Transferred sf2Info sf3Info out out' φ' sm') (hw : WellFormedPlan sf1Info P)
    {sm'' : List (Int × Int)} (hsm : ∀ r ∈ scanIds sf1Info, OrdDict.get? sm'' r =
      (OrdDict.get? sm r).bind (OrdDict.get? sm')) :
    out' = P.map fun p => (toString (φ' (φ (keyId p.1))),
      renameRefs (transferId (φ' ∘ φ) (planIds P) sm'') p.2) := by
  rw [h'.eq, h.eq, List.map_map]
  refine List.map_congr_left fun p hp => Prod.ext ?_ ?_
  · show toString (φ' (keyId (toString (φ (keyId p.1))))) = toString (φ' (φ (keyId p.1)))
    rw [keyId_toString (h.fresh _ (mem_planIds hp)).1]
  · show renameRefs (transferId φ' (planIds _) sm') (renameRefs (transferId φ (planIds P) sm) p.2) =
      renameRefs (transferId (φ' ∘ φ) (planIds P) sm'') p.2
    rw [← h.eq, renameRefs_renameRefs]
    refine renameRefs_congr p.2 fun q hq => ?_
    obtain ⟨r, hr, hin⟩ := hw.refs p hp q ((mem_walkRefs q p.2).mpr (Or.inl hq))
    rw [hr]
    refine renameRef_congr (congrArg (fun o : Option Int => o.getD r) ?_)
    rw [renameThen]
    by_cases hnode : r ∈ planIds P
    · -- a node of the plan is a node of the first result
      have hout : φ r ∈ planIds out := h.planIds_eq ▸ List.mem_map_of_mem hnode
      rw [transferId_of_mem hnode, transferId_of_mem hnode]
      show some ((transferId φ' (planIds out) sm' (φ r)).getD (φ r)) = _
      rw [transferId_of_mem hout]
      rfl
    · -- a scan of SF1 is replaced by a scan of SF2, which is no node of the first result
      have hscan := hin.resolve_left hnode
      obtain ⟨hkeys, hpair⟩ := buildScanIdMapping_spec h.mapped
      obtain ⟨s, hs⟩ := OrdDict.get?_isSome.mpr ((hkeys r).mpr hscan)
      have hs2 := (hpair r s hs).1
      obtain ⟨t, ht⟩ := OrdDict.get?_isSome.mpr (((buildScanIdMapping_spec h'.mapped).1 s).mpr hs2)
      have hout : s ∉ planIds out := fun hmem => (h.wellFormed hw).noScanKey s hmem hs2
      rw [transferId_of_not_mem hnode, transferId_of_not_mem hnode, hs, hsm r hscan, hs]
      show some ((transferId φ' (planIds out) sm' s).getD s) = OrdDict.get? sm' s
      rw [transferId_of_not_mem hout, ht]
      rfl

/-- Renumbering the nodes of a transferred plan. -/
theorem Transferred.renumbered_eq (h : Transferred sf1Info sf2Info P out φ sm)
    (hw : WellFormedPlan sf1Info P) {ψ χ : Int → Int} (hψ : ∀ n ∈ planIds P, ψ (φ n) = χ n) :
    renumbered ψ out = P.map fun p => (toString (χ (keyId p.1)),
      renameRefs (transferId χ (planIds P) sm) p.2) := by
  rw [renumbered, h.eq, List.map_map]
  refine List.map_congr_left fun p hp => Prod.ext ?_ ?_
  · show toString (ψ (keyId (toString (φ (keyId p.1))))) = toString (χ (keyId p.1))
    rw [keyId_toString (h.fresh _ (mem_planIds hp)).1, hψ _ (mem_planIds hp)]
  · show renameRefs (nodeRenaming ψ (planIds _)) (renameRefs (transferId φ (planIds P) sm) p.2) =
      renameRefs (transferId χ (planIds P) sm) p.2
    rw [← h.eq, renameRefs_renameRefs]
    refine renameRefs_congr p.2 fun q hq => ?_
    obtain ⟨r, hr, hin⟩ := hw.refs p hp q ((mem_walkRefs q p.2).mpr (Or.inl hq))
    rw [hr]
    refine renameRef_congr (congrArg (fun o : Option Int => o.getD r) ?_)
    rw [renameThen]
    by_cases hnode : r ∈ planIds P
    · have hout : φ r ∈ planIds out := h.planIds_eq ▸ List.mem_map_of_mem hnode
      rw [transferId_of_mem hnode, transferId_of_mem hnode]
      show some ((nodeRenaming ψ (planIds out) (φ r)).getD (φ r)) = some (χ r)
      rw [nodeRenaming, if_pos hout, ← hψ r hnode]
      rfl
    · obtain ⟨hkeys, hpair⟩ := buildScanIdMapping_spec h.mapped
      obtain ⟨s, hs⟩ := OrdDict.get?_isSome.mpr ((hkeys r).mpr (hin.resolve_left hnode))
      have hout : s ∉ planIds out :=
        fun hmem => (h.wellFormed hw).noScanKey s hmem (hpair r s hs).1
      rw [transferId_of_not_mem hnode, transferId_of_not_mem hnode, hs]
      show some ((nodeRenaming ψ (planIds out) s).getD s) = some s
      rw [nodeRenaming, if_neg hout]
      rfl

/-- **The scan mapping by way of SF2 is the one to SF3.** -/
theorem buildScanIdMapping_comp (h1 : IsTableInfo sf1Info) (h2 : IsTableInfo sf2Info)
    (h3 : IsTableInfo sf3Info) (hsm : buildScanIdMapping sf1Info sf2Info = .ok sm)
    (hsm' : buildScanIdMapping sf2Info sf3Info = .ok sm') :
    ∃ sm'', buildScanIdMapping sf1Info sf3Info = .ok sm'' ∧
      ∀ r, OrdDict.get? sm'' r = (OrdDict.get? sm r).bind (OrdDict.get? sm') := by
  obtain ⟨hread1, hread2, hfew⟩ := paired_of_mapping h1 h2 hsm
  obtain ⟨_, hread3, hfew'⟩ := paired_of_mapping h2 h3 hsm'
  have hfew'' : ¬ TooFewScans sf1Info sf3Info := by
    intro hlt
    obtain ⟨sig, hlt⟩ := hlt
    have h12 := not_lt.mp fun hlt => hfew ⟨sig, hlt⟩
    have h23 := not_lt.mp fun hlt => hfew' ⟨sig, hlt⟩
    omega
  obtain ⟨m, hm, hmatch⟩ := buildScanIdMapping_matching h1 h2 hread1 hread2 hfew
  obtain ⟨m', hm', hmatch'⟩ := buildScanIdMapping_matching h2 h3 hread2 hread3 hfew'
  obtain ⟨m'', hm'', hmatch''⟩ := buildScanIdMapping_matching h1 h3 hread1 hread3 hfew''
  rw [hsm] at hm
  rw [hsm'] at hm'
  injection hm with hm
  injection hm' with hm'
  subst hm hm'
  exact ⟨m'', hm'', fun r => congrFun (hmatch''.unique (hmatch.comp hmatch')) r⟩

/-- A scan that goes to SF2 comes back as itself. -/
theorem buildScanIdMapping_inverse (h1 : IsTableInfo sf1Info) (h2 : IsTableInfo sf2Info)
    (hsm : buildScanIdMapping sf1Info sf2Info = .ok sm)
    (hsm' : buildScanIdMapping sf2Info sf1Info = .ok sm') {r s : Int}
    (hr : OrdDict.get? sm r = some s) : OrdDict.get? sm' s = some r := by
  obtain ⟨hread1, hread2, hfew⟩ := paired_of_mapping h1 h2 hsm
  obtain ⟨_, _, hfew'⟩ := paired_of_mapping h2 h1 hsm'
  obtain ⟨m, hm, hmatch⟩ := buildScanIdMapping_matching h1 h2 hread1 hread2 hfew
  obtain ⟨m', hm', hmatch'⟩ := buildScanIdMapping_matching h2 h1 hread2 hread1 hfew'
  rw [hsm] at hm
  rw [hsm'] at hm'
  injection hm with hm
  injection hm' with hm'
  subst hm hm'
  exact hmatch.inverse hmatch' hr

/-- The new ids of two transfers in a row are distinct and no scans. -/
theorem Transferred.comp_ids (h : Transferred sf1Info sf2Info P out φ sm)
    (h' : Transferred sf2Info sf3Info out out' φ' sm') :
    Set.InjOn (φ' ∘ φ) {n | n ∈ planIds P} ∧
      ∀ n ∈ planIds P, 0 ≤ (φ' ∘ φ) n ∧ (φ' ∘ φ) n ∉ scanIds sf3Info := by
  have hmem : ∀ n ∈ planIds P, φ n ∈ planIds out := fun n hn =>
    h.planIds_eq ▸ List.mem_map_of_mem hn
  constructor
  · intro a ha b hb he
    exact h.injective ha hb (h'.injective (hmem a ha) (hmem b hb) he)
  · exact fun n hn => h'.fresh _ (hmem n hn)

end

/-! ## To SF2 and back, and on to SF3 -/

section

variable (sf1Base sf1Info sf2Base sf2Info sf3Base sf3Info patch : JsonValue)
  {P out : List (String × Json)}

/-- What a transfer that returned tells of its inputs. -/
theorem isPlan_of_transferPlan (hpatch : applyJsonPatch sf1Base patch = .ok (.obj P))
    (h : transferPlan sf1Base sf1Info sf2Base sf2Info patch = .ok out) :
    IsPlan sf1Base ∧ IsPlan sf2Base := by
  obtain ⟨_, _, _, hacc, _⟩ :=
    (transferPlan_eq_ok_iff sf1Base sf1Info sf2Base sf2Info patch hpatch out).mp h
  exact ⟨hacc.sf1Plan, hacc.sf2Plan⟩

/-- A transferred plan can be transferred on. -/
theorem exists_second_transfer (hpatch : applyJsonPatch sf1Base patch = .ok (.obj P))
    (hw : WellFormedPlan sf1Info P) (hinfo1 : IsTableInfo sf1Info) (hinfo2 : IsTableInfo sf2Info)
    (hinfo3 : IsTableInfo sf3Info) (hread3 : ReadableScans sf3Info)
    (hfew : ¬ TooFewScans sf2Info sf3Info) (h3 : IsPlan sf3Base)
    (h : transferPlan sf1Base sf1Info sf2Base sf2Info patch = .ok out) :
    ∃ φ sm out' φ' sm', transferPlan (.obj out) sf2Info sf3Base sf3Info (.arr []) = .ok out' ∧
      Transferred sf1Info sf2Info P out φ sm ∧ Transferred sf2Info sf3Info out out' φ' sm' := by
  obtain ⟨φ, sm, ht⟩ := exists_transferred sf1Base sf1Info sf2Base sf2Info patch hpatch hw h
  have hnodup := ht.nodupKeys hw (applyJsonPatch_nodupKeys sf1Base.2 patch.2 hpatch)
  have hw2 := ht.wellFormed hw
  obtain ⟨_, hread2, _⟩ := paired_of_mapping hinfo1 hinfo2 ht.mapped
  have hplan : IsPlan (.obj out) := ⟨out, rfl, fun p hp => by
    obtain ⟨n, hn⟩ := hw2.canonical p hp
    exact ⟨(canonicalKey_of_numeral hn).1, hw2.single p hp⟩⟩
  obtain ⟨out', hout'⟩ := transferPlan_returns ⟨.obj out, hnodup⟩ sf2Info sf3Base sf3Info
    ⟨.arr [], by decide⟩ rfl hw2 hplan h3 hinfo2 hinfo3 hread2 hread3 hfew
  obtain ⟨φ', sm', ht'⟩ := exists_transferred ⟨.obj out, hnodup⟩ sf2Info sf3Base sf3Info
    ⟨.arr [], by decide⟩ rfl hw2 hout'
  exact ⟨φ, sm, out', φ', sm', hout', ht, ht'⟩

/-- **By way of SF2 is as good as directly.** A plan that was transferred to SF2 can be transferred
on to SF3 if there are enough scans, and then it could have been transferred to SF3 at once; the
two results are the same but for the ids of their nodes. -/
theorem transferPlan_trans (hpatch : applyJsonPatch sf1Base patch = .ok (.obj P))
    (hw : WellFormedPlan sf1Info P) (hinfo1 : IsTableInfo sf1Info) (hinfo2 : IsTableInfo sf2Info)
    (hinfo3 : IsTableInfo sf3Info) (hread3 : ReadableScans sf3Info)
    (hfew : ¬ TooFewScans sf2Info sf3Info) (h3 : IsPlan sf3Base)
    (h : transferPlan sf1Base sf1Info sf2Base sf2Info patch = .ok out) :
    ∃ onward direct, transferPlan (.obj out) sf2Info sf3Base sf3Info (.arr []) = .ok onward ∧
      transferPlan sf1Base sf1Info sf3Base sf3Info patch = .ok direct ∧
      SameUpToIds sf3Info direct onward := by
  obtain ⟨φ, sm, onward, φ', sm', honward, ht, ht'⟩ := exists_second_transfer sf1Base sf1Info
    sf2Base sf2Info sf3Base sf3Info patch hpatch hw hinfo1 hinfo2 hinfo3 hread3 hfew h3 h
  -- the direct transfer pairs the scans in the same way
  obtain ⟨sm'', hsm'', hcomp⟩ := buildScanIdMapping_comp hinfo1 hinfo2 hinfo3 ht.mapped ht'.mapped
  obtain ⟨hread1, _, hfew''⟩ := paired_of_mapping hinfo1 hinfo3 hsm''
  have h1 := (isPlan_of_transferPlan sf1Base sf1Info sf2Base sf2Info patch hpatch h).1
  obtain ⟨direct, hdirect⟩ := transferPlan_returns sf1Base sf1Info sf3Base sf3Info patch hpatch hw
    h1 h3 hinfo1 hinfo3 hread1 hread3 hfew''
  obtain ⟨φ₃, sm₃, ht₃⟩ := exists_transferred sf1Base sf1Info sf3Base sf3Info patch hpatch hw hdirect
  have hsm₃ : sm'' = sm₃ := by
    have he := hsm''.symm.trans ht₃.mapped
    injection he
  subst hsm₃
  obtain ⟨hinj, hfresh⟩ := ht.comp_ids ht'
  -- a node of the direct result goes where its origin went by way of SF2
  obtain ⟨β, hback⟩ : ∃ β : Int → Int, ∀ n ∈ planIds P, β (φ₃ n) = n :=
    ⟨_, fun n hn => ht₃.injective.leftInvOn_invFunOn hn⟩
  have hids : ∀ k ∈ planIds direct, ∃ n ∈ planIds P, φ₃ n = k := by
    intro k hk
    rw [ht₃.planIds_eq] at hk
    exact List.mem_map.mp hk
  refine ⟨onward, direct, honward, hdirect, φ' ∘ φ ∘ β, fun a ha b hb he => ?_, fun k hk => ?_, ?_⟩
  · obtain ⟨n, hn, rfl⟩ := hids a ha
    obtain ⟨m, hm, rfl⟩ := hids b hb
    simp only [Function.comp_apply, hback n hn, hback m hm] at he
    rw [hinj hn hm he]
  · obtain ⟨n, hn, rfl⟩ := hids k hk
    simp only [Function.comp_apply, hback n hn]
    exact hfresh n hn
  · rw [ht₃.renumbered_eq hw (χ := φ' ∘ φ) fun n hn => by simp [hback n hn]]
    exact ht.comp ht' hw fun r _ => hcomp r

end

/-- The SF3 scans of the join take the ids of its two nodes. -/
def joinSf3Info : Json := .arr [tableEntry 10 ["key", "col_a"], tableEntry 0 ["key", "col_b"]]

theorem isTableInfo_joinSf1 : IsTableInfo joinSf1Info where
  accepted := ⟨_, rfl⟩
  integers := List.forall_mem_cons.mpr ⟨⟨100, rfl⟩, List.forall_mem_singleton.mpr ⟨101, rfl⟩⟩
  distinct := by decide

theorem isTableInfo_joinSf2 : IsTableInfo joinSf2Info where
  accepted := ⟨_, rfl⟩
  integers := List.forall_mem_cons.mpr ⟨⟨5, rfl⟩, List.forall_mem_singleton.mpr ⟨6, rfl⟩⟩
  distinct := by decide

theorem isTableInfo_joinSf3 : IsTableInfo joinSf3Info where
  accepted := ⟨_, rfl⟩
  integers := List.forall_mem_cons.mpr ⟨⟨10, rfl⟩, List.forall_mem_singleton.mpr ⟨0, rfl⟩⟩
  distinct := by decide

/-- The join by way of SF2: the ids of its nodes are those of scans at SF2 and at SF3. -/
theorem transferPlan_trans_join : ∃ onward direct,
    transferPlan (.obj joinOut) joinSf2Info (.obj []) joinSf3Info (.arr []) = .ok onward ∧
      transferPlan (.obj joinPlan) joinSf1Info (.obj []) joinSf3Info (.arr []) = .ok direct ∧
      SameUpToIds joinSf3Info direct onward := by
  have hmap : buildScanIdMapping joinSf2Info joinSf3Info = .ok [(5, 10), (6, 0)] := by
    decide +kernel
  obtain ⟨_, hread3, hfew⟩ := paired_of_mapping isTableInfo_joinSf2 isTableInfo_joinSf3 hmap
  exact transferPlan_trans ⟨.obj joinPlan, by decide⟩ ⟨joinSf1Info, by decide⟩ ⟨.obj [], by decide⟩
    ⟨joinSf2Info, by decide⟩ ⟨.obj [], by decide⟩ ⟨joinSf3Info, by decide⟩ ⟨.arr [], by decide⟩ rfl
    joinPlan_wellFormed isTableInfo_joinSf1 isTableInfo_joinSf2 isTableInfo_joinSf3 hread3 hfew
    ⟨[], rfl, fun _ h => absurd h List.not_mem_nil⟩ joinPlan_transferred

section

variable (sf1Base sf1Info sf2Base sf2Info patch : JsonValue) {P out : List (String × Json)}

/-- **To SF2 and back.** If SF1 has a scan for every SF2 scan, a transferred plan can be transferred
back, and comes back as the patched plan but for the ids of its nodes: every operator with its
configuration, every edge, and every scan as itself. -/
theorem transferPlan_roundTrip (hpatch : applyJsonPatch sf1Base patch = .ok (.obj P))
    (hw : WellFormedPlan sf1Info P) (hinfo1 : IsTableInfo sf1Info) (hinfo2 : IsTableInfo sf2Info)
    (hfew : ¬ TooFewScans sf2Info sf1Info)
    (h : transferPlan sf1Base sf1Info sf2Base sf2Info patch = .ok out) :
    ∃ back, transferPlan (.obj out) sf2Info sf1Base sf1Info (.arr []) = .ok back ∧
      SameUpToIds sf1Info P back := by
  have h1 := (isPlan_of_transferPlan sf1Base sf1Info sf2Base sf2Info patch hpatch h).1
  obtain ⟨φ₀, sm₀, ht₀⟩ := exists_transferred sf1Base sf1Info sf2Base sf2Info patch hpatch hw h
  obtain ⟨hread1, _, _⟩ := paired_of_mapping hinfo1 hinfo2 ht₀.mapped
  obtain ⟨φ, sm, back, φ', sm', hback, ht, ht'⟩ := exists_second_transfer sf1Base sf1Info sf2Base
    sf2Info sf1Base sf1Info patch hpatch hw hinfo1 hinfo2 hinfo1 hread1 hfew h1 h
  obtain ⟨sm'', hsm'', hcomp⟩ := buildScanIdMapping_comp hinfo1 hinfo2 hinfo1 ht.mapped ht'.mapped
  obtain ⟨hinj, hfresh⟩ := ht.comp_ids ht'
  refine ⟨back, hback, φ' ∘ φ, hinj, hfresh, ?_⟩
  rw [ht.comp ht' hw fun r _ => hcomp r, renumbered]
  refine List.map_congr_left fun p hp => Prod.ext rfl (renameRefs_congr p.2 fun q hq => ?_)
  obtain ⟨r, hr, hin⟩ := hw.refs p hp q ((mem_walkRefs q p.2).mpr (Or.inl hq))
  rw [hr]
  refine renameRef_congr ?_
  by_cases hnode : r ∈ planIds P
  · rw [transferId_of_mem hnode, nodeRenaming, if_pos hnode]
  · obtain ⟨s, hs⟩ := OrdDict.get?_isSome.mpr
      (((buildScanIdMapping_spec ht.mapped).1 r).mpr (hin.resolve_left hnode))
    rw [transferId_of_not_mem hnode, nodeRenaming, if_neg hnode, hcomp r, hs]
    show (OrdDict.get? sm' s).getD r = r
    rw [buildScanIdMapping_inverse hinfo1 hinfo2 ht.mapped ht'.mapped hs]
    rfl

end

/-- The join, transferred to SF2 and back. -/
theorem transferPlan_roundTrip_join : ∃ back,
    transferPlan (.obj joinOut) joinSf2Info (.obj joinPlan) joinSf1Info (.arr []) = .ok back ∧
      SameUpToIds joinSf1Info joinPlan back := by
  have hmap : buildScanIdMapping joinSf2Info joinSf1Info = .ok [(5, 100), (6, 101)] := by
    decide +kernel
  obtain ⟨_, _, hfew⟩ := paired_of_mapping isTableInfo_joinSf2 isTableInfo_joinSf1 hmap
  exact transferPlan_roundTrip ⟨.obj joinPlan, by decide⟩ ⟨joinSf1Info, by decide⟩
    ⟨.obj [], by decide⟩ ⟨joinSf2Info, by decide⟩ ⟨.arr [], by decide⟩ rfl joinPlan_wellFormed
    isTableInfo_joinSf1 isTableInfo_joinSf2 hfew joinPlan_transferred

end DbPlanBench.Transfer
