import DbPlanBench.Lib.Unfold
import DbPlanBench.Transfer.Rewrite
import Mathlib.Data.Set.Function

/-!
# A transferred plan is a renumbered copy

For a well-formed patched plan, a transfer that returns has renumbered its nodes
injectively, away from the SF2 scan ids, and has replaced every reference once:
by the new id of the node it names or by the SF2 scan paired with the scan it
names (`transferPlan_isomorphic`). So the unfolding of the result from any node is
the unfolding of the patched plan with its scans replaced.
-/

namespace DbPlanBench.Transfer

/-! ## What a transfer that returns has been through -/

theorem sf2ScanIds_mem {info : Json} {reserved : List Int} (h : sf2ScanIds info = .ok reserved) :
    ∀ r, r ∈ reserved ↔ r ∈ scanIds info := by
  obtain ⟨sigs, hsigs, h⟩ := Except.bind_eq_ok.mp h
  injection (show Except.ok _ = Except.ok reserved from h) with h
  rw [← h]
  exact (buildScanSignatureMap_keys hsigs).2

/-- The stages of a transfer that returned. -/
structure Stages (sf1Base sf1Info sf2Base sf2Info patch : Json) (P rebased : List (String × Json))
    (scanIdMap internalIdMap : List (Int × Int)) (reserved : List Int)
    (out : List (String × Json)) : Prop where
  patched : applyJsonPatch sf1Base patch = .ok (.obj P)
  shaped : WellShaped P
  mapped : buildScanIdMapping sf1Info sf2Info = .ok scanIdMap
  scans : sf2ScanIds sf2Info = .ok reserved
  rebound : rebindParquetScansInStructure P sf2Info "transfer" = .ok rebased
  numbered : assignNewNodeIds rebased reserved = .ok internalIdMap
  rewritten : rewritePlanReferences rebased internalIdMap scanIdMap "transfer" = .ok out

theorem stages_of_transferPlan {sf1Base sf1Info sf2Base sf2Info patch : Json}
    {out : List (String × Json)}
    (h : transferPlan sf1Base sf1Info sf2Base sf2Info patch = .ok out) :
    ∃ P rebased sm im reserved,
      Stages sf1Base sf1Info sf2Base sf2Info patch P rebased sm im reserved out := by
  -- `transfer_plan`: patch, shape, core, and three checks of the result
  obtain ⟨opt, hopt, h⟩ := Except.bind_eq_ok.mp h
  obtain ⟨_, hshape, h⟩ := Except.bind_eq_ok.mp h
  obtain ⟨P, rfl, hP⟩ := validateStructureDict_iff.mp hshape
  obtain ⟨transferred, hcore, h⟩ := Except.bind_eq_ok.mp h
  obtain ⟨_, _, h⟩ := Except.bind_eq_ok.mp h
  obtain ⟨_, _, h⟩ := Except.bind_eq_ok.mp h
  obtain ⟨_, _, h⟩ := Except.bind_eq_ok.mp h
  injection (show Except.ok transferred = Except.ok out from h) with h
  subst h
  obtain ⟨_, _, hcore⟩ := Except.bind_eq_ok.mp hcore
  obtain ⟨_, _, hcore⟩ := Except.bind_eq_ok.mp hcore
  obtain ⟨_, _, hcore⟩ := Except.bind_eq_ok.mp hcore
  -- the core checks three shapes first; then come its five stages
  obtain ⟨sm, hsm, hcore⟩ := Except.bind_eq_ok.mp hcore
  obtain ⟨reserved, hres, hcore⟩ := Except.bind_eq_ok.mp hcore
  obtain ⟨rebased, hreb, hcore⟩ := Except.bind_eq_ok.mp hcore
  obtain ⟨im, him, hcore⟩ := Except.bind_eq_ok.mp hcore
  obtain ⟨out', hrw, hcore⟩ := Except.bind_eq_ok.mp hcore
  obtain ⟨_, _, hcore⟩ := Except.bind_eq_ok.mp hcore
  obtain ⟨_, _, hcore⟩ := Except.bind_eq_ok.mp hcore
  obtain ⟨_, _, hcore⟩ := Except.bind_eq_ok.mp hcore
  injection (show Except.ok out' = Except.ok transferred from hcore) with hcore
  subst hcore
  exact ⟨P, rebased, sm, im, reserved, Except.mapError_eq_ok.mp hopt, hP, hsm, hres,
    Except.mapError_eq_ok.mp hreb, him, Except.mapError_eq_ok.mp hrw⟩

/-! ## Well-formed plans -/

/-- The ids of the nodes. -/
def planIds (plan : List (String × Json)) : List Int := plan.map fun p => keyId p.1

/-- A patched plan as the optimizer is meant to produce it. -/
structure WellFormedPlan (sf1Info : Json) (plan : List (String × Json)) : Prop where
  /-- Every key is a canonical decimal numeral. -/
  canonical : ∀ p ∈ plan, ∃ n : Nat, p.1 = toString n
  /-- Every node is a dict with a single operator. -/
  single : ∀ p ∈ plan, ∃ op, p.2 = .obj [op]
  /-- No key is the id of an SF1 scan. -/
  noScanKey : ∀ n ∈ planIds plan, n ∉ scanIds sf1Info
  /-- No node is an embedded scan. -/
  noScanNode : ∀ p ∈ plan, ¬ IsParquetScan p.2
  /-- Every reference is an integer that names a node or an SF1 scan. -/
  refs : ∀ p ∈ plan, ∀ q ∈ walkRefs p.2, ∃ r, q.2 = .int r ∧ (r ∈ planIds plan ∨ r ∈ scanIds sf1Info)
  /-- No reference is nested inside a value under `input`, `left` or `right`. -/
  noNested : ∀ p ∈ plan, nestedRefs p.2 = []

/-- What becomes of an id: a node's new number, or the SF2 scan paired with a scan. -/
def transferId (φ : Int → Int) (ids : List Int) (scanIdMap : List (Int × Int)) (r : Int) :
    Option Int :=
  if r ∈ ids then some (φ r) else OrdDict.get? scanIdMap r

/-- A plan as a graph: a node is labelled with itself less its references. -/
def planGraph (plan : List (String × Json)) : Unfold.Graph Int Json := fun r =>
  (OrdDict.get? (plan.map fun p => (keyId p.1, p.2)) r).map fun v =>
    (renameRefs (fun _ => some 0) v, (walkRefs v).map fun q => (toInt q.2).toOption.getD 0)

mutual

theorem walkRefs_eq_directRefs : ∀ v : Json, nestedRefs v = [] → walkRefs v = directRefs v
  | .obj kvs, h => walkRefsFields_eq_directRefs kvs h
  | .arr xs, h => walkRefsList_eq_directRefs xs h
  | .null, _ | .bool _, _ | .int _, _ | .float _, _ | .str _, _ => rfl

theorem walkRefsList_eq_directRefs : ∀ xs : List Json,
    nestedRefsList xs = [] → walkRefsList xs = directRefsList xs
  | [], _ => rfl
  | x :: xs, h => by
    rw [nestedRefsList, List.append_eq_nil_iff] at h
    rw [walkRefsList, directRefsList, walkRefs_eq_directRefs x h.1,
      walkRefsList_eq_directRefs xs h.2]

theorem walkRefsFields_eq_directRefs : ∀ kvs : List (String × Json),
    nestedRefsFields kvs = [] → walkRefsFields kvs = directRefsFields kvs
  | [], _ => rfl
  | (k, v) :: kvs, h => by
    rw [nestedRefsFields, List.append_eq_nil_iff] at h
    rw [walkRefsFields, directRefsFields, walkRefsFields_eq_directRefs kvs h.2]
    refine congrArg (· ++ _) ?_
    have hv := h.1
    -- the two walks part at a scalar field whose value is no integer
    by_cases hk : k ∈ refKeysScalar
    · rw [if_pos hk] at hv ⊢
      by_cases hi : isIntish v = true
      · rw [if_pos ⟨hk, hi⟩, if_pos hi]
      · rw [if_neg hi] at hv
        rw [if_neg (fun h => hi h.2), if_neg hi, refList?_of_scalar hk]
        exact hv
    · rw [if_neg hk] at hv ⊢
      rw [if_neg (fun h => hk h.1)]
      cases hl : refList? k v with
      | some xs => rfl
      | none =>
        rw [hl] at hv
        exact walkRefs_eq_directRefs v hv

end

/-- The references of a renamed node without nested ones. -/
theorem walkRefs_renameRefs {σ : Int → Option Int} {v : Json} (h : nestedRefs v = []) :
    walkRefs (renameRefs σ v) = (walkRefs v).map fun q => (q.1, renameRef σ q.2) := by
  rw [walkRefs_eq_directRefs _ ((nestedRefs_renameRefs σ v).trans h), directRefs_renameRefs,
    walkRefs_eq_directRefs v h]

/-! ## The ids of a plan -/

theorem map_keyId_keys (plan : List (String × Json)) :
    (OrdDict.keys plan).map keyId = planIds plan := by
  rw [OrdDict.keys, List.map_map]
  rfl

theorem planIds_of_keys {P Q : List (String × Json)} (h : OrdDict.keys Q = OrdDict.keys P) :
    planIds Q = planIds P := by
  rw [← map_keyId_keys, ← map_keyId_keys, h]

/-- With distinct canonical keys the ids are distinct. -/
theorem nodup_planIds {plan : List (String × Json)} (hnd : (OrdDict.keys plan).Nodup)
    (hc : ∀ p ∈ plan, CanonicalKey p.1) : (planIds plan).Nodup := by
  refine List.Nodup.map_on (fun p hp q hq he => ?_) (List.Nodup.of_map _ hnd)
  exact List.inj_on_of_nodup_map hnd hp hq ((hc p hp).trans (he ▸ (hc q hq).symm))

/-- With canonical keys the ids are those the code computes. -/
theorem nodeIds_of_numerals {plan : List (String × Json)}
    (hc : ∀ p ∈ plan, ∃ n : Nat, p.1 = toString n) : nodeIds plan = .ok (planIds plan) := by
  have hkeys : ∀ k ∈ OrdDict.keys plan, Py.isdigit k = true ∧ Py.int k = .ok (keyId k) := by
    intro k hk
    obtain ⟨p, hp, rfl⟩ := List.mem_map.mp hk
    obtain ⟨n, hn⟩ := hc p hp
    have hcanon := canonicalKey_of_numeral hn
    exact ⟨hcanon.1, hcanon.2.1⟩
  rw [nodeIds_iff fun k hk => (hkeys k hk).1, map_keyId_keys]
  exact ⟨rfl, fun k hk => (hkeys k hk).2⟩

/-! ## The isomorphism -/

/-- A lookup by id, when the ids are distinct. -/
theorem planGraph_of_mem {plan : List (String × Json)} (hnd : (planIds plan).Nodup)
    {p : String × Json} (hp : p ∈ plan) :
    planGraph plan (keyId p.1) = some (renameRefs (fun _ => some 0) p.2,
      (walkRefs p.2).map fun q => (toInt q.2).toOption.getD 0) := by
  have hkeys : (OrdDict.keys (plan.map fun p => (keyId p.1, p.2))).Nodup := by
    rw [OrdDict.keys, List.map_map]
    exact hnd
  have hmem : (keyId p.1, p.2) ∈ plan.map fun p => (keyId p.1, p.2) :=
    List.mem_map.mpr ⟨p, hp, rfl⟩
  rw [planGraph, OrdDict.get?_of_mem hkeys hmem]
  rfl

theorem planGraph_eq_none {plan : List (String × Json)} {r : Int} :
    planGraph plan r = none ↔ r ∉ planIds plan := by
  rw [planGraph, Option.map_eq_none_iff, OrdDict.get?_eq_none, OrdDict.keys, List.map_map]
  rfl

/-- Blanking the references of a renamed node forgets the renaming. -/
theorem blank_renameRefs (σ : Int → Option Int) (v : Json) :
    renameRefs (fun _ => some 0) (renameRefs σ v) = renameRefs (fun _ => some 0) v := by
  rw [renameRefs_renameRefs]
  refine congrArg (renameRefs · v) (funext fun r => ?_)
  rw [renameThen]
  cases σ r <;> rfl

section

variable {sf1Info : Json} {P : List (String × Json)} {reserved : List Int}
  {m sm : List (Int × Int)}

theorem idRenaming_eq_transferId (hm : IdMap (planIds P) reserved m) :
    idRenaming m sm = transferId (newId m) (planIds P) sm := by
  funext r
  rw [idRenaming, transferId]
  by_cases hr : r ∈ planIds P
  · rw [if_pos hr, get?_eq_newId hm hr]
    rfl
  · rw [if_neg hr, OrdDict.get?_eq_none.mpr (fun h => hr ((hm.mem_keys r).mp h))]
    rfl

theorem planIds_renamedPlan (hm : IdMap (planIds P) reserved m) :
    planIds (renamedPlan m sm P) = (planIds P).map (newId m) := by
  rw [planIds, planIds, renamedPlan, List.map_map, List.map_map]
  refine List.map_congr_left fun p hp => ?_
  exact keyId_of_int (Py.int_toString_int (newId_nonneg hm (List.mem_map_of_mem hp))).2

theorem nodup_planIds_renamedPlan (hm : IdMap (planIds P) reserved m) (hnd : (planIds P).Nodup) :
    (planIds (renamedPlan m sm P)).Nodup := by
  rw [planIds_renamedPlan hm]
  exact hnd.map_on fun a ha b hb he => newId_injective hm ha hb he

/-- Where an id of the patched plan goes. -/
theorem transferId_getD (φ : Int → Int) (ids : List Int) (r : Int) :
    (transferId φ ids sm r).getD r = if r ∈ ids then φ r else (OrdDict.get? sm r).getD r := by
  rw [transferId]
  split <;> rfl

/-- The renamed plan, node by node: what a node's references become, and what a scan becomes. -/
theorem carries_renamedPlan (hw : WellFormedPlan sf1Info P) (hm : IdMap (planIds P) reserved m)
    (hnd : (planIds P).Nodup) (hsm : ∀ r, r ∈ OrdDict.keys sm ↔ r ∈ scanIds sf1Info)
    (hpair : ∀ s1 s2, OrdDict.get? sm s1 = some s2 → s2 ∈ reserved) :
    Unfold.Carries {r | r ∈ planIds P ∨ r ∈ scanIds sf1Info}
      (fun r => (transferId (newId m) (planIds P) sm r).getD r) (planGraph P)
      (planGraph (renamedPlan m sm P)) (fun s => (OrdDict.get? sm s).getD s) id where
  node := by
    intro x _ label next hx
    have hxin : x ∈ planIds P := by
      by_contra hx'
      rw [planGraph_eq_none.mpr hx'] at hx
      exact absurd hx (by simp)
    obtain ⟨p, hp, rfl⟩ := List.mem_map.mp hxin
    rw [planGraph_of_mem hnd hp] at hx
    injection hx with hx
    injection hx with hlabel hnext
    have hp' : (toString (newId m (keyId p.1)), renameRefs (idRenaming m sm) p.2) ∈
        renamedPlan m sm P := List.mem_map.mpr ⟨p, hp, rfl⟩
    have hkey : keyId (toString (newId m (keyId p.1))) = newId m (keyId p.1) :=
      keyId_of_int (Py.int_toString_int (newId_nonneg hm hxin)).2
    have hnode := planGraph_of_mem (nodup_planIds_renamedPlan hm hnd) hp'
    rw [hkey, idRenaming_eq_transferId hm, blank_renameRefs,
      walkRefs_renameRefs (hw.noNested p hp)] at hnode
    constructor
    · rw [transferId_getD, if_pos hxin, hnode, ← hlabel, ← hnext, List.map_map, List.map_map]
      refine congrArg some (Prod.ext rfl (List.map_congr_left fun q hq => ?_))
      obtain ⟨r, hr, _⟩ := hw.refs p hp q hq
      have hq : toInt q.2 = .ok r := by rw [hr, toInt_int]
      show (toInt (renameRef _ q.2)).toOption.getD 0 = (transferId (newId m) (planIds P) sm
        ((toInt q.2).toOption.getD 0)).getD ((toInt q.2).toOption.getD 0)
      rw [toInt_renameRef hq, hq]
      rfl
    · intro y hy
      rw [← hnext] at hy
      obtain ⟨q, hq, rfl⟩ := List.mem_map.mp hy
      obtain ⟨r, hr, hin⟩ := hw.refs p hp q hq
      show (toInt q.2).toOption.getD 0 ∈ planIds P ∨ (toInt q.2).toOption.getD 0 ∈ scanIds sf1Info
      rw [hr]
      exact hin
  leaf := by
    intro x hxS hx
    have hxout : x ∉ planIds P := planGraph_eq_none.mp hx
    obtain ⟨s, hs⟩ := OrdDict.get?_isSome.mpr ((hsm x).mpr (hxS.resolve_left hxout))
    rw [transferId_getD, if_neg hxout]
    refine ⟨?_, rfl⟩
    -- an SF2 scan is not among the new ids
    rw [planGraph_eq_none, planIds_renamedPlan hm, hs]
    intro hmem
    obtain ⟨n, hn, hne⟩ := List.mem_map.mp hmem
    have hne : newId m n = s := hne
    exact newId_fresh hm hn (hne ▸ hpair x s hs)

end

/-- The ids of a well-formed patched plan: readable, distinct, and those the code computes. -/
theorem wellFormedPlan_ids {sf1Info : Json} {P : List (String × Json)}
    (hw : WellFormedPlan sf1Info P) (hnd : (OrdDict.keys P).Nodup) :
    nodeIds P = .ok (planIds P) ∧ (planIds P).Nodup ∧ Readable P := by
  refine ⟨nodeIds_of_numerals hw.canonical, nodup_planIds hnd fun p hp => ?_, fun p hp q hq => ?_⟩
  · obtain ⟨n, hn⟩ := hw.canonical p hp
    exact (canonicalKey_of_numeral hn).2.2
  · obtain ⟨r, hr, _⟩ := hw.refs p hp q hq
    exact ⟨r, by rw [hr, toInt_int]⟩

/-- **A transferred plan is a renumbered copy of the patched plan, with its scans replaced.** -/
theorem transferPlan_isomorphic (sf1Base sf1Info sf2Base sf2Info patch : JsonValue)
    {P out : List (String × Json)} (hpatch : applyJsonPatch sf1Base patch = .ok (.obj P))
    (hw : WellFormedPlan sf1Info P)
    (h : transferPlan sf1Base sf1Info sf2Base sf2Info patch = .ok out) :
    ∃ (scanIdMap : List (Int × Int)) (φ : Int → Int),
      buildScanIdMapping sf1Info sf2Info = .ok scanIdMap ∧
      Set.InjOn φ {n | n ∈ planIds P} ∧
      (∀ n ∈ planIds P, 0 ≤ φ n ∧ φ n ∉ scanIds sf2Info) ∧
      out = P.map (fun p => (toString (φ (keyId p.1)),
        renameRefs (transferId φ (planIds P) scanIdMap) p.2)) ∧
      (OrdDict.keys out).Nodup ∧
      ∀ (depth : Nat) (k : Int), k ∈ planIds P →
        Unfold.unfold (planGraph out) id depth (φ k) =
          Unfold.unfold (planGraph P) (fun s => (OrdDict.get? scanIdMap s).getD s) depth k := by
  obtain ⟨P', rebased, sm, m, reserved, hs⟩ := stages_of_transferPlan h
  have hP : P' = P := by
    have he := hs.patched.symm.trans hpatch
    injection he with he
    injection he
  subst hP
  have hnumbered := hs.numbered
  have hrewritten := hs.rewritten
  rw [(rebind_spec hs.rebound).2.2 hw.noScanNode] at hnumbered hrewritten
  -- the patched plan is a dict, so its keys are distinct
  have hkeys : (OrdDict.keys P').Nodup :=
    (Json.nodupKeys_obj.mp (applyJsonPatch_nodupKeys sf1Base.2 patch.2 hpatch)).1
  have hd := digitKeys_of_wellShaped hs.shaped
  obtain ⟨hids, hnd, hread⟩ := wellFormedPlan_ids hw hkeys
  obtain ⟨m', hm', hm, _⟩ := assignNewNodeIds_idMap hids hread reserved
  have he : m' = m := by
    have he := hm'.symm.trans hnumbered
    injection he
  subst he
  obtain ⟨_, hout⟩ := (rewritePlanReferences_eq hd hkeys hids hread hm out).mp hrewritten
  obtain ⟨hsm, hpair⟩ := buildScanIdMapping_spec hs.mapped
  refine ⟨sm, newId m', hs.mapped, fun a ha b hb he => newId_injective hm ha hb he,
    fun n hn => ⟨newId_nonneg hm hn, fun hn' => ?_⟩, ?_, ?_, fun depth k hk => ?_⟩
  · exact newId_fresh hm hn ((sf2ScanIds_mem hs.scans _).mpr hn')
  · rw [hout, renamedPlan, idRenaming_eq_transferId hm]
  · have hoids : (planIds (renamedPlan m' sm P')).Nodup := nodup_planIds_renamedPlan hm hnd
    rw [← hout] at hoids
    refine List.Nodup.of_map keyId ?_
    rw [OrdDict.keys, List.map_map]
    exact hoids
  · have hcarry := carries_renamedPlan hw hm hnd hsm fun s1 s2 h12 =>
      (sf2ScanIds_mem hs.scans s2).mpr (hpair s1 s2 h12).1
    have hunfold := Unfold.unfold_map hcarry depth k (Or.inl hk)
    rw [transferId_getD, if_pos hk, ← hout] at hunfold
    exact hunfold

/-! ## A join of two scans -/

/-- A scan of a table with the given columns, as an entry of a table info. -/
def tableEntry (sid : Int) (columns : List String) : Json :=
  .obj [("id", .int sid), ("node", .obj [("parquetScan", .obj [("baseConf", .obj [
    ("schema", .obj [("columns", .arr (columns.map .str))])])])])]

/-- The patched SF1 plan: a projection over a join of two scans. -/
def joinPlan : List (String × Json) :=
  [("10", .obj [("projection", .obj [("input", .int 5)])]),
   ("5", .obj [("hashJoinExec", .obj [("left", .int 100), ("right", .int 101)])])]

def joinSf1Info : Json := .arr [tableEntry 100 ["key", "col_a"], tableEntry 101 ["key", "col_b"]]

/-- The SF2 scans take the id of the join. -/
def joinSf2Info : Json := .arr [tableEntry 5 ["key", "col_a"], tableEntry 6 ["key", "col_b"]]

theorem joinPlan_wellFormed : WellFormedPlan joinSf1Info joinPlan where
  canonical := List.forall_mem_cons.mpr ⟨⟨10, rfl⟩, List.forall_mem_singleton.mpr ⟨5, rfl⟩⟩
  single := List.forall_mem_cons.mpr ⟨⟨_, rfl⟩, List.forall_mem_singleton.mpr ⟨_, rfl⟩⟩
  noScanKey := by decide
  noScanNode := by decide
  refs := by
    refine List.forall_mem_cons.mpr ⟨List.forall_mem_singleton.mpr ⟨5, rfl, Or.inl ?_⟩,
      List.forall_mem_singleton.mpr (List.forall_mem_cons.mpr ⟨⟨100, rfl, Or.inr ?_⟩,
        List.forall_mem_singleton.mpr ⟨101, rfl, Or.inr ?_⟩⟩)⟩
    · decide
    · decide
    · decide
  noNested := by decide

/-- The join is renumbered to `0`, its scans become those of SF2. -/
def joinOut : List (String × Json) :=
  [("10", .obj [("projection", .obj [("input", .int 0)])]),
   ("0", .obj [("hashJoinExec", .obj [("left", .int 5), ("right", .int 6)])])]

theorem joinPlan_transferred :
    transferPlan (.obj joinPlan) joinSf1Info (.obj []) joinSf2Info (.arr []) = .ok joinOut := by
  decide +kernel

/-- The transfer of the join is such a copy. -/
theorem transferPlan_isomorphic_join : ∃ (scanIdMap : List (Int × Int)) (φ : Int → Int),
    buildScanIdMapping joinSf1Info joinSf2Info = .ok scanIdMap ∧
      Set.InjOn φ {n | n ∈ planIds joinPlan} ∧
      joinOut = joinPlan.map (fun p => (toString (φ (keyId p.1)),
        renameRefs (transferId φ (planIds joinPlan) scanIdMap) p.2)) := by
  obtain ⟨sm, φ, hsm, hφ, _, hout, _⟩ := transferPlan_isomorphic ⟨.obj joinPlan, by decide⟩
    ⟨joinSf1Info, by decide⟩ ⟨.obj [], by decide⟩ ⟨joinSf2Info, by decide⟩ ⟨.arr [], by decide⟩
    rfl joinPlan_wellFormed joinPlan_transferred
  exact ⟨sm, φ, hsm, hφ, hout⟩

end DbPlanBench.Transfer
