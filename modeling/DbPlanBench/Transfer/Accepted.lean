import DbPlanBench.Transfer.Dangling
import DbPlanBench.Transfer.Positions

/-!
# The transfers that return

`transferPlan_eq_ok_iff` says which transfers return and what: the rebound plan with
its nodes renumbered and its references renamed. `Accepted` lists what the stages
require of their inputs, none of it about the new ids of single nodes.
-/

namespace DbPlanBench.Transfer

/-- What a transfer requires of the patched plan `P`, which is `Q` once its embedded scans are
replaced, and of the pairing of scans. -/
structure Accepted (sf1Base sf1Info sf2Base sf2Info : Json) (P Q : List (String × Json))
    (scanIdMap : List (Int × Int)) : Prop where
  shaped : WellShaped P
  sf1Plan : IsPlan sf1Base
  sf2Plan : IsPlan sf2Base
  mapped : buildScanIdMapping sf1Info sf2Info = .ok scanIdMap
  rebound : rebindParquetScansInStructure P sf2Info "transfer" = .ok Q
  readable : Readable Q
  canonical : ∀ p ∈ Q, CanonicalKey p.1
  single : ∀ p ∈ Q, ∃ op, p.2 = .obj [op]
  resolved : ¬ Unresolved Q (planIds Q) (scanIds sf1Info) (scanIds sf2Info)
    (newIds (planIds Q) (scanIds sf2Info))

variable {sf1Base sf1Info sf2Base sf2Info : Json} {P Q : List (String × Json)}
  {sm : List (Int × Int)}

theorem Accepted.digitKeys (h : Accepted sf1Base sf1Info sf2Base sf2Info P Q sm) : DigitKeys Q := by
  rw [DigitKeys, (rebind_spec h.rebound).1]
  exact digitKeys_of_wellShaped h.shaped

theorem Accepted.nodup_keys (h : Accepted sf1Base sf1Info sf2Base sf2Info P Q sm)
    (hnd : (OrdDict.keys P).Nodup) : (OrdDict.keys Q).Nodup := by
  rw [(rebind_spec h.rebound).1]
  exact hnd

theorem Accepted.nodeIds (h : Accepted sf1Base sf1Info sf2Base sf2Info P Q sm) :
    nodeIds Q = .ok (planIds Q) := by
  obtain ⟨hkeys, ⟨ids, hids⟩, _⟩ := rebind_spec h.rebound
  have hidsQ : Transfer.nodeIds Q = .ok ids := by
    rw [Transfer.nodeIds, hkeys]
    exact hids
  rw [hidsQ, ((nodeIds_iff h.digitKeys).mp hidsQ).1, map_keyId_keys]

/-- The new ids of an accepted plan. -/
structure Numbering (sf2Info : Json) (Q : List (String × Json)) (m : List (Int × Int)) : Prop where
  idMap : ∃ reserved, sf2ScanIds sf2Info = .ok reserved ∧ IdMap (planIds Q) reserved m ∧
    assignNewNodeIds Q reserved = .ok m

theorem Accepted.exists_numbering (h : Accepted sf1Base sf1Info sf2Base sf2Info P Q sm) :
    ∃ m, Numbering sf2Info Q m := by
  obtain ⟨reserved, hres⟩ := sf2ScanIds_of_mapping h.mapped
  obtain ⟨m, hm, hidmap, _⟩ := assignNewNodeIds_idMap h.nodeIds h.readable reserved
  exact ⟨m, ⟨reserved, hres, hidmap, hm⟩⟩

/-- **Which transfers return, and what.** -/
theorem transferPlan_eq_ok_iff (sf1Base sf1Info sf2Base sf2Info patch : JsonValue)
    {P : List (String × Json)} (hpatch : applyJsonPatch sf1Base patch = .ok (.obj P))
    (out : List (String × Json)) :
    transferPlan sf1Base sf1Info sf2Base sf2Info patch = .ok out ↔
      ∃ Q sm m, Accepted sf1Base sf1Info sf2Base sf2Info P Q sm ∧ Numbering sf2Info Q m ∧
        out = renamedPlan m sm Q := by
  have hnd : (OrdDict.keys P).Nodup :=
    (Json.nodupKeys_obj.mp (applyJsonPatch_nodupKeys sf1Base.2 patch.2 hpatch)).1
  constructor
  · intro h
    obtain ⟨P', Q, sm, m, reserved, hs⟩ := stages_of_transferPlan h
    have hP : P' = P := by
      have he := hs.patched.symm.trans hpatch
      injection he with he
      injection he
    subst hP
    -- a transfer that returned was not refused
    have hno : ¬ (RefusedEarly sf1Base sf1Info sf2Base sf2Info P' ∨
        RefusedLate sf1Info sf2Info P') := by
      rw [← transferPlan_raises_iff sf1Base sf1Info sf2Base sf2Info patch hpatch, h]
      exact not_raises_ok out
    rw [not_or, RefusedEarly, RefusedLate] at hno
    obtain ⟨hearly, hlate⟩ := hno
    push Not at hearly
    have hread : Readable Q := by
      by_contra hr
      have hids : ∃ ids, Transfer.nodeIds Q = .ok ids := by
        obtain ⟨hkeys, ⟨ids, hids⟩, _⟩ := rebind_spec hs.rebound
        exact ⟨ids, by rw [Transfer.nodeIds, hkeys]; exact hids⟩
      obtain ⟨ids, hids⟩ := hids
      obtain ⟨msg, hmsg⟩ := assignNewNodeIds_error hids hr reserved
      rw [hs.numbered] at hmsg
      exact absurd hmsg (by simp)
    have hfault := fun hf => hlate ⟨sm, Q, hs.mapped, hs.rebound, hread, hf⟩
    have hacc : Accepted sf1Base sf1Info sf2Base sf2Info P' Q sm := {
      shaped := hs.shaped
      sf1Plan := hearly.2.1
      sf2Plan := hearly.2.2.1
      mapped := hs.mapped
      rebound := hs.rebound
      readable := hread
      canonical := by
        intro p hp
        by_contra hc
        exact hfault (Or.inl ⟨p, hp, hc⟩)
      single := by
        intro p hp
        by_contra hc
        exact hfault (Or.inr (Or.inl ⟨p, hp, hc⟩))
      resolved := fun hu => hfault (Or.inr (Or.inr hu)) }
    obtain ⟨m', hm', hidmap, _⟩ := assignNewNodeIds_idMap hacc.nodeIds hread reserved
    have he : m' = m := by
      have he := hm'.symm.trans hs.numbered
      injection he
    subst he
    have hout := ((rewritePlanReferences_eq hacc.digitKeys (hacc.nodup_keys hnd) hacc.nodeIds hread
      hidmap out).mp hs.rewritten).2
    exact ⟨Q, sm, m', hacc, ⟨reserved, hs.scans, hidmap, hm'⟩, hout⟩
  · intro h
    obtain ⟨Q, sm, m, hacc, ⟨reserved, hres, hidmap, hm⟩, rfl⟩ := h
    obtain ⟨hsm, hpair⟩ := buildScanIdMapping_spec hacc.mapped
    have hscans := sf2ScanIds_mem hres
    have hndQ := hacc.nodup_keys hnd
    have hvals : ∀ r, r ∈ m.map Prod.snd ↔ r ∈ newIds (planIds Q) (scanIds sf2Info) := by
      obtain ⟨m', hm', _, hvals⟩ := assignNewNodeIds_idMap hacc.nodeIds hacc.readable reserved
      have he : m' = m := by
        have he := hm'.symm.trans hm
        injection he
      intro r
      rw [newIds_congr hscans, ← he]
      exact hvals (nodup_planIds hndQ hacc.canonical) r
    have hun : ¬ Unresolved Q (planIds Q) (scanIds sf1Info) reserved (m.map Prod.snd) := by
      rw [unresolved_congr hscans hvals]
      exact hacc.resolved
    rw [transferPlan_of_isPlan hpatch hacc.shaped hacc.sf1Plan hacc.sf2Plan, hacc.mapped,
      Except.ok_bind, hres, Except.ok_bind, hacc.rebound]
    show (assignNewNodeIds Q reserved >>= _) = _
    rw [hm, Except.ok_bind]
    exact afterAssign_ok hacc.digitKeys hndQ hacc.nodeIds hacc.readable hidmap
      (fun s1 s2 h => (hscans s2).mpr (hpair s1 s2 h).1) hsm hacc.canonical hacc.single hun

end DbPlanBench.Transfer
