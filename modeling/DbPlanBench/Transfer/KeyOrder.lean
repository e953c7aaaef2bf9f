import DbPlanBench.Transfer.Accepted
import DbPlanBench.Transfer.PatchOrder
import DbPlanBench.Transfer.WalkOrder

/-!
# Transfers and the order of fields

Two runs of `transfer_plan` on documents that differ in the order of object fields only.
Whether a transfer is accepted does not depend on that order (`Accepted.rearranged`), nor
does what the nodes are, but their new ids may: a node whose id belongs to an SF2 scan
takes the first free number, so it matters which of two such nodes comes first, and the
traversal visits the children of a node in the order in which its fields are listed.

* `sameOutcome_iff_sameTurns` — both runs have the same outcome exactly if the nodes that
  cannot keep their ids come in the same order in both.
* `sameOutcome_of_disjoint`, `sameOutcome_of_childRefs` — so they do where no node has the id
  of an SF2 scan, and where the operators list their references in the same order.
* `sameStructure_iff_sameOutcome` — comparing the structures alone comes to the same.
* `joinPair_outcomes` — a join whose left side is listed first, and one whose right side is.
-/

namespace DbPlanBench.Transfer

open Except

/-! ## Plans that are accepted -/

section

variable {plan plan' : List (String × Json)}

/-- A single operator stays one. -/
theorem SameValue.single {a b : Json} (h : SameValue a b) (ha : ∃ op, a = .obj [op]) :
    ∃ op, b = .obj [op] := by
  obtain ⟨op, rfl⟩ := ha
  obtain ⟨kvs, rfl⟩ := h.exists_obj
  obtain ⟨op', rfl⟩ := List.length_eq_one_iff.mp h.length_eq.symm
  exact ⟨op', rfl⟩

theorem wellShaped_congr (h : SamePlan plan plan') (hw : WellShaped plan) : WellShaped plan' := by
  intro p hp
  obtain ⟨q, hq, hk, hv⟩ := h.same.symm.exists_field hp
  obtain ⟨hdigit, hop⟩ := hw q hq
  exact ⟨hk ▸ hdigit, hv.symm.single hop⟩

theorem isPlan_congr {j j' : Json} (h : Rearranged j j') (hj : IsPlan j) : IsPlan j' := by
  obtain ⟨plan, rfl, hw⟩ := hj
  obtain ⟨plan', rfl, h⟩ := h.exists_obj
  exact ⟨plan', rfl, wellShaped_congr h hw⟩

theorem readable_congr (h : SamePlan plan plan') (hr : Readable plan) : Readable plan' := by
  intro p hp r hrp
  obtain ⟨q, hq, _, hv⟩ := h.same.symm.exists_field hp
  exact hr q hq r ((mem_walkRefs_congr hv r).mp hrp)

theorem canonicalKeys_congr (h : SamePlan plan plan') (hc : ∀ p ∈ plan, CanonicalKey p.1) :
    ∀ p ∈ plan', CanonicalKey p.1 := by
  intro p hp
  obtain ⟨q, hq, hk, _⟩ := h.same.symm.exists_field hp
  exact hk ▸ hc q hq

theorem mem_newIds_perm {ids ids' : List Int} (h : ids.Perm ids') (reserved : List Int) (n : Int) :
    n ∈ newIds ids reserved ↔ n ∈ newIds ids' reserved := by
  have hused : ∀ x, x ∈ reserved ++ ids' ↔ x ∈ reserved ++ ids := fun x => by
    rw [List.mem_append, List.mem_append, h.mem_iff]
  rw [newIds, newIds, List.mem_append, List.mem_append, (h.filter _).mem_iff, h.countP_eq,
    Renumber.fresh_congr naturals_injective _ hused]

/-- What is unresolved in one plan is so in the other. -/
theorem unresolved_of_samePlan (h : SamePlan plan plan') {ids ids' s1 s2 new new' : List Int}
    (hids : ∀ r, r ∈ ids ↔ r ∈ ids') (hnew : ∀ r, r ∈ new ↔ r ∈ new')
    (hun : Unresolved plan' ids' s1 s2 new') : Unresolved plan ids s1 s2 new := by
  obtain ⟨p, hp, q, r, hqr, hs2, hn, hkind⟩ := hun
  obtain ⟨p', hp', _, hv⟩ := h.same.symm.exists_field hp
  refine ⟨p', hp', q, r, hqr, hs2, mt (hnew r).mp hn, ?_⟩
  rw [hids]
  exact hkind.imp (mem_nestedRefs_congr hv q).mp fun hd => ⟨(mem_directRefs_congr hv q).mp hd.1, hd.2⟩

end

section

variable {sf1Base sf1Base' sf1Info sf1Info' sf2Base sf2Base' sf2Info sf2Info' : Json}
  {P P' Q : List (String × Json)} {sm : List (Int × Int)}

theorem Accepted.numerals (h : Accepted sf1Base sf1Info sf2Base sf2Info P Q sm) :
    ∀ p ∈ Q, ∃ n : Nat, p.1 = toString n := by
  intro p hp
  have hid : keyId p.1 ∈ planIds Q := List.mem_map_of_mem hp
  obtain ⟨n, hn⟩ := Int.eq_ofNat_of_zero_le (nodeIds_nonneg h.nodeIds _ hid)
  exact ⟨n, (h.canonical p hp).trans (hn ▸ rfl)⟩

/-- **Whether a plan is accepted does not depend on the order of fields.** -/
theorem Accepted.rearranged (h : Accepted sf1Base sf1Info sf2Base sf2Info P Q sm)
    (hb1 : Rearranged sf1Base sf1Base') (hi1 : Rearranged sf1Info sf1Info')
    (hb2 : Rearranged sf2Base sf2Base') (hi2 : Rearranged sf2Info sf2Info') (hP : SamePlan P P') :
    ∃ Q', Accepted sf1Base' sf1Info' sf2Base' sf2Info' P' Q' sm ∧ SamePlan Q Q' := by
  have hnumerals : ∀ p ∈ P, ∃ n : Nat, p.1 = toString n := by
    intro p hp
    have hk : p.1 ∈ OrdDict.keys Q := (rebind_spec h.rebound).1 ▸ List.mem_map_of_mem hp
    obtain ⟨q, hq, hqp⟩ := List.mem_map.mp hk
    exact hqp ▸ h.numerals q hq
  obtain ⟨Q', hQ', hQ⟩ := (rebind_agree hP hnumerals hi2 "transfer").left h.rebound
  obtain ⟨sm', hsm', rfl⟩ := (buildScanIdMapping_agree hi1 hi2).left h.mapped
  have hids := planIds_perm hQ
  refine ⟨Q', ?_, hQ⟩
  exact {
    shaped := wellShaped_congr hP h.shaped
    sf1Plan := isPlan_congr hb1 h.sf1Plan
    sf2Plan := isPlan_congr hb2 h.sf2Plan
    mapped := hsm'
    rebound := hQ'
    readable := readable_congr hQ h.readable
    canonical := canonicalKeys_congr hQ h.canonical
    single := by
      intro p hp
      obtain ⟨q, hq, _, hv⟩ := hQ.same.symm.exists_field hp
      exact hv.symm.single (h.single q hq)
    resolved := by
      rw [← scanIds_congr hi1, ← scanIds_congr hi2]
      exact fun hun => h.resolved (unresolved_of_samePlan hQ (fun _ => hids.mem_iff)
        (mem_newIds_perm hids _) hun) }

end

/-! ## Two transfers -/

/-- The arguments of `transfer_plan`. -/
structure Inputs where
  sf1Base : JsonValue
  sf1Info : JsonValue
  sf2Base : JsonValue
  sf2Info : JsonValue
  patch : JsonValue

namespace Inputs

/-- The transfer. -/
def transfer (x : Inputs) : Except PyErr (List (String × Json)) :=
  transferPlan x.sf1Base x.sf1Info x.sf2Base x.sf2Info x.patch

/-- The new ids that the transfer assigns, by the old ones, as far as it gets. -/
def assignedIds (x : Inputs) : Except PyErr (List (Int × Int)) := do
  let sf1OptStructure ← applyJsonPatch x.sf1Base x.patch
  let reserved ← sf2ScanIds x.sf2Info
  let rebasedOpt ←
    rebindParquetScansInStructure (fieldsOf sf1OptStructure) x.sf2Info "transfer"
  assignNewNodeIds rebasedOpt reserved

/-- The inputs differ in the order of object fields at most. -/
structure Rearranged (x y : Inputs) : Prop where
  sf1Base : SameValue x.sf1Base y.sf1Base
  sf1Info : SameValue x.sf1Info y.sf1Info
  sf2Base : SameValue x.sf2Base y.sf2Base
  sf2Info : SameValue x.sf2Info y.sf2Info
  patch : SameValue x.patch y.patch

/-- Both transfers fail, or both return the same structure and give every node the same id. -/
def SameOutcome (x y : Inputs) : Prop :=
  Agree (fun out out' => SameValue (.obj out) (.obj out') ∧
      Agree (fun m m' => ∀ n, OrdDict.get? m n = OrdDict.get? m' n) x.assignedIds y.assignedIds)
    x.transfer y.transfer

/-- The transfer is accepted: the patched plan is `P`, which is `Q` with its embedded scans replaced,
and the scans are paired by `sm`. -/
structure Accepts (x : Inputs) (P Q : List (String × Json)) (sm : List (Int × Int)) : Prop where
  patched : applyJsonPatch x.sf1Base x.patch = .ok (.obj P)
  accepted : Accepted x.sf1Base x.sf1Info x.sf2Base x.sf2Info P Q sm

/-- The nodes that cannot keep their ids, in the order in which they are numbered: their ids belong
to SF2 scans, or to the first free numbers that earlier ones took for this reason. -/
def displaced (x : Inputs) (Q : List (String × Json)) : List Int :=
  Renumber.displaced naturals (scanIds x.sf2Info) [] (numberingOrder Q)

/-- If both transfers are accepted, they number the nodes that cannot keep their ids in the same
order. -/
def SameTurns (x y : Inputs) : Prop :=
  ∀ P Q sm P' Q' sm', x.Accepts P Q sm → y.Accepts P' Q' sm' → x.displaced Q = y.displaced Q'

/-- The new ids of an accepted plan. -/
def numbering (x : Inputs) (Q : List (String × Json)) : List (Int × Int) :=
  Renumber.pairs naturals (scanIds x.sf2Info) (numberingOrder Q)

section

variable {x y : Inputs} {P P' Q Q' : List (String × Json)} {sm sm' : List (Int × Int)}

theorem Rearranged.symm (h : x.Rearranged y) : y.Rearranged x :=
  ⟨h.sf1Base.symm, h.sf1Info.symm, h.sf2Base.symm, h.sf2Info.symm, h.patch.symm⟩

theorem Accepts.nodup_keys (h : x.Accepts P Q sm) : (OrdDict.keys Q).Nodup :=
  h.accepted.nodup_keys
    (Json.nodupKeys_obj.mp (applyJsonPatch_nodupKeys x.sf1Base.2 x.patch.2 h.patched)).1

theorem Accepts.nodup_planIds (h : x.Accepts P Q sm) : (planIds Q).Nodup :=
  Transfer.nodup_planIds h.nodup_keys h.accepted.canonical

/-- There is one accepted plan at most. -/
theorem Accepts.unique (h : x.Accepts P Q sm) (h' : x.Accepts P' Q' sm') : Q = Q' ∧ sm = sm' := by
  have hP := Json.obj.inj (Except.ok.inj (h.patched.symm.trans h'.patched))
  subst hP
  exact ⟨Except.ok.inj (h.accepted.rebound.symm.trans h'.accepted.rebound),
    Except.ok.inj (h.accepted.mapped.symm.trans h'.accepted.mapped)⟩

/-- **If one transfer is accepted, so is the other**, with the same plan up to the order of
fields. -/
theorem Accepts.rearranged (hxy : x.Rearranged y) (h : x.Accepts P Q sm) :
    ∃ P' Q', y.Accepts P' Q' sm ∧ SamePlan Q Q' := by
  have hpatch := applyJsonPatch_agree ⟨x.sf1Base.2, y.sf1Base.2, hxy.sf1Base⟩
    ⟨x.patch.2, y.patch.2, hxy.patch⟩
  obtain ⟨opt', hopt', hopt⟩ := hpatch.left h.patched
  obtain ⟨P', rfl, hP⟩ := hopt.exists_obj
  obtain ⟨Q', hQ', hQ⟩ := h.accepted.rearranged ⟨x.sf1Base.2, y.sf1Base.2, hxy.sf1Base⟩
    ⟨x.sf1Info.2, y.sf1Info.2, hxy.sf1Info⟩ ⟨x.sf2Base.2, y.sf2Base.2, hxy.sf2Base⟩
    ⟨x.sf2Info.2, y.sf2Info.2, hxy.sf2Info⟩ hP
  exact ⟨P', Q', ⟨hopt', hQ'⟩, hQ⟩

/-- The nodes of an accepted plan are numbered in the order of the walk. -/
theorem Accepts.assignNewNodeIds (h : x.Accepts P Q sm) : ∃ reserved,
    sf2ScanIds x.sf2Info = .ok reserved ∧
      Transfer.assignNewNodeIds Q reserved = .ok (x.numbering Q) := by
  obtain ⟨reserved, hres⟩ := sf2ScanIds_of_mapping h.accepted.mapped
  refine ⟨reserved, hres, ?_⟩
  rw [assignNewNodeIds_eq_pairs h.nodup_keys h.accepted.numerals h.accepted.readable, numbering,
    Renumber.pairs, Renumber.pairs,
    Renumber.assign_congr naturals_injective _ fun n => (sf2ScanIds_mem hres n).symm]

theorem Accepts.assignedIds (h : x.Accepts P Q sm) : x.assignedIds = .ok (x.numbering Q) := by
  obtain ⟨reserved, hres, hassign⟩ := h.assignNewNodeIds
  rw [Inputs.assignedIds, h.patched, Except.ok_bind, hres, Except.ok_bind, fieldsOf,
    h.accepted.rebound, Except.ok_bind, hassign]

theorem Accepts.idMap (h : x.Accepts P Q sm) :
    IdMap (planIds Q) (scanIds x.sf2Info) (x.numbering Q) := by
  obtain ⟨reserved, hres, hassign⟩ := h.assignNewNodeIds
  obtain ⟨m, hm, hidmap, _⟩ := assignNewNodeIds_idMap h.accepted.nodeIds h.accepted.readable reserved
  have he : m = x.numbering Q := Except.ok.inj (hm.symm.trans hassign)
  subst he
  exact { hidmap with
    fresh := fun p hp => mt (sf2ScanIds_mem hres p.2).mpr (hidmap.fresh p hp) }

/-- What an accepted transfer returns. -/
theorem Accepts.transfer (h : x.Accepts P Q sm) :
    x.transfer = .ok (renamedPlan (x.numbering Q) sm Q) := by
  obtain ⟨m, hm⟩ := h.accepted.exists_numbering
  obtain ⟨reserved, hres, _, hassign⟩ := hm.idMap
  obtain ⟨reserved', hres', hassign'⟩ := h.assignNewNodeIds
  have hreserved := Except.ok.inj (hres.symm.trans hres')
  subst hreserved
  have he : m = x.numbering Q := Except.ok.inj (hassign.symm.trans hassign')
  subst he
  exact (transferPlan_eq_ok_iff _ _ _ _ _ h.patched _).mpr ⟨Q, sm, _, h.accepted, hm, rfl⟩

/-- A transfer that returns has been accepted. -/
theorem exists_accepts {out : List (String × Json)} (h : x.transfer = .ok out) :
    ∃ P Q sm, x.Accepts P Q sm := by
  obtain ⟨P, _, _, _, _, hs⟩ := stages_of_transferPlan h
  obtain ⟨Q, sm, _, hacc, _⟩ := (transferPlan_eq_ok_iff _ _ _ _ _ hs.patched out).mp h
  exact ⟨P, Q, sm, hs.patched, hacc⟩

end

end Inputs

/-! ## When the outcomes agree -/

/-- Fields in another order make the same value. -/
theorem sameValue_of_fields_perm {kvs kvs' : List (String × Json)} (hnd : (OrdDict.keys kvs).Nodup)
    (h : (kvs.map canonicalField).Perm (kvs'.map canonicalField)) :
    SameValue (.obj kvs) (.obj kvs') := by
  have hkeys : ∀ l : List (String × Json), OrdDict.keys (l.map canonicalField) = OrdDict.keys l := by
    intro l
    rw [OrdDict.keys, OrdDict.keys, List.map_map]
    rfl
  have hget : ∀ (l : List (String × Json)) (k : String),
      OrdDict.get? (l.map canonicalField) k = (OrdDict.get? l k).map canonical :=
    fun l k => OrdDict.get?_map_snd canonical l k
  have hnd' : (OrdDict.keys kvs').Nodup := by
    rw [← hkeys] at hnd ⊢
    exact (h.map Prod.fst).nodup_iff.mp hnd
  refine (sameValue_obj hnd hnd').mpr fun k => ?_
  rw [← hget, ← hget, OrdDict.get?_perm ((hkeys kvs).symm ▸ hnd) h]

/-- A renamed plan in canonical form is the plan in canonical form, renamed. -/
theorem renamedPlan_canonicalField (m sm : List (Int × Int)) (plan : List (String × Json)) :
    (renamedPlan m sm plan).map canonicalField = renamedPlan m sm (plan.map canonicalField) := by
  rw [renamedPlan, renamedPlan, List.map_map, List.map_map]
  refine List.map_congr_left fun p _ => ?_
  exact congrArg (Prod.mk _) (renameRefs_canonical _ p.2).symm

/-- The new ids enter a renamed plan by lookups alone. -/
theorem renamedPlan_congr {m m' : List (Int × Int)}
    (h : ∀ n, OrdDict.get? m n = OrdDict.get? m' n) (sm : List (Int × Int))
    (plan : List (String × Json)) : renamedPlan m sm plan = renamedPlan m' sm plan := by
  have hid : newId m = newId m' := funext fun n => by rw [newId, newId, h n]
  have hσ : idRenaming m sm = idRenaming m' sm := funext fun r => by rw [idRenaming, idRenaming, h r]
  rw [renamedPlan, renamedPlan, hid, hσ]

theorem nodup_keys_renamedPlan {plan : List (String × Json)} {reserved : List Int}
    {m : List (Int × Int)} (hm : IdMap (planIds plan) reserved m) (hnd : (planIds plan).Nodup)
    (sm : List (Int × Int)) : (OrdDict.keys (renamedPlan m sm plan)).Nodup :=
  List.Nodup.of_map keyId ((map_keyId_keys _).symm ▸ nodup_planIds_renamedPlan hm hnd)

/-- Plans that differ in the order of fields, renamed in one way. -/
theorem sameValue_renamedPlan {plan plan' : List (String × Json)} (h : SamePlan plan plan')
    {reserved : List Int} {m : List (Int × Int)} (hm : IdMap (planIds plan) reserved m)
    (hnd : (planIds plan).Nodup) (sm : List (Int × Int)) :
    SameValue (.obj (renamedPlan m sm plan)) (.obj (renamedPlan m sm plan')) := by
  refine sameValue_of_fields_perm (nodup_keys_renamedPlan hm hnd sm) ?_
  rw [renamedPlan_canonicalField, renamedPlan_canonicalField]
  exact h.same.fields_perm.map _

namespace Inputs

section

variable {x y : Inputs} {P P' Q Q' : List (String × Json)} {sm sm' : List (Int × Int)}

/-- **The nodes are given the same ids exactly if those that cannot keep theirs come in the same
order.** -/
theorem numbering_agree_iff (hxy : x.Rearranged y) (h : x.Accepts P Q sm) (h' : y.Accepts P' Q' sm')
    (hQ : SamePlan Q Q') :
    (∀ n, OrdDict.get? (x.numbering Q) n = OrdDict.get? (y.numbering Q') n) ↔
      x.displaced Q = y.displaced Q' := by
  have hscans : scanIds x.sf2Info = scanIds y.sf2Info :=
    scanIds_congr ⟨x.sf2Info.2, y.sf2Info.2, hxy.sf2Info⟩
  rw [OrdDict.forall_get?_eq_iff h.idMap.nodup h'.idMap.nodup]
  have hperm := (List.perm_ext_iff_of_nodup (numberingOrder_nodup h.nodup_planIds)
    (numberingOrder_nodup h'.nodup_planIds)).mpr fun n => by
      rw [mem_numberingOrder, mem_numberingOrder, (planIds_perm hQ).mem_iff]
  exact Renumber.assign_agree_iff naturals_injective (numberingOrder_nodup h.nodup_planIds) hperm
    fun n => by rw [hscans]

/-- The outcomes of two accepted transfers. -/
theorem sameOutcome_of_accepts (hxy : x.Rearranged y) (h : x.Accepts P Q sm)
    (h' : y.Accepts P' Q' sm) (hQ : SamePlan Q Q') :
    x.SameOutcome y ↔ x.displaced Q = y.displaced Q' := by
  rw [SameOutcome, h.transfer, h'.transfer, agree_ok, h.assignedIds, h'.assignedIds, agree_ok,
    ← numbering_agree_iff hxy h h' hQ]
  refine and_iff_right_of_imp fun hids => ?_
  rw [← renamedPlan_congr hids]
  exact sameValue_renamedPlan hQ h.idMap h.nodup_planIds sm

/-- **A transfer does not depend on the order of fields exactly if that order does not change the
turns** of the nodes that cannot keep their ids. -/
theorem sameOutcome_iff_sameTurns (x y : Inputs) (hxy : x.Rearranged y) :
    x.SameOutcome y ↔ x.SameTurns y := by
  by_cases hacc : ∃ P Q sm, x.Accepts P Q sm
  · obtain ⟨P, Q, sm, h⟩ := hacc
    obtain ⟨P', Q', h', hQ⟩ := h.rearranged hxy
    rw [sameOutcome_of_accepts hxy h h' hQ]
    constructor
    · intro hturns P₁ Q₁ sm₁ P₂ Q₂ sm₂ h₁ h₂
      rw [← (h.unique h₁).1, ← (h'.unique h₂).1]
      exact hturns
    · exact fun hturns => hturns _ _ _ _ _ _ h h'
  · -- neither transfer returns
    have hx : ∀ out, x.transfer ≠ .ok out := fun out hout => hacc (exists_accepts hout)
    have hy : ∀ out, y.transfer ≠ .ok out := fun out hout => by
      obtain ⟨P', Q', sm, h'⟩ := exists_accepts hout
      obtain ⟨P, Q, h, _⟩ := h'.rearranged hxy.symm
      exact hacc ⟨P, Q, sm, h⟩
    refine iff_of_true (agree_of_forall (fun out h => absurd h (hx out)) fun out h => absurd h (hy out)) ?_
    exact fun P Q sm _ _ _ h _ => absurd ⟨P, Q, sm, h⟩ hacc

theorem displaced_of_disjoint (h : ∀ n ∈ planIds Q, n ∉ scanIds x.sf2Info) : x.displaced Q = [] :=
  Renumber.displaced_eq_nil (fun _ hn => absurd hn List.not_mem_nil)
    fun n hn => h n ((mem_numberingOrder Q n).mp hn)

theorem sameOutcome_of_sameTurns (hxy : x.Rearranged y) (hturns : x.SameTurns y) :
    x.SameOutcome y := by
  by_cases hacc : ∃ P Q sm, x.Accepts P Q sm
  · obtain ⟨P, Q, sm, h⟩ := hacc
    obtain ⟨P', Q', h', hQ⟩ := h.rearranged hxy
    rw [sameOutcome_of_accepts hxy h h' hQ]
    exact hturns _ _ _ _ _ _ h h'
  · refine agree_of_forall (fun out hout => absurd (exists_accepts hout) hacc) fun out hout => ?_
    obtain ⟨P', Q', sm, h'⟩ := exists_accepts hout
    obtain ⟨P, Q, h, _⟩ := h'.rearranged hxy.symm
    exact absurd ⟨P, Q, sm, h⟩ hacc

/-- **Where no node has the id of an SF2 scan** the order of fields does not matter. -/
theorem sameOutcome_of_disjoint (hxy : x.Rearranged y)
    (h : ∀ P Q sm, x.Accepts P Q sm → ∀ n ∈ planIds Q, n ∉ scanIds x.sf2Info) : x.SameOutcome y := by
  have hscans : scanIds x.sf2Info = scanIds y.sf2Info :=
    scanIds_congr ⟨x.sf2Info.2, y.sf2Info.2, hxy.sf2Info⟩
  refine sameOutcome_of_sameTurns hxy fun P Q sm P' Q' sm' hx hy => ?_
  obtain ⟨P₁, Q₁, hy₁, hQ⟩ := hx.rearranged hxy
  obtain ⟨rfl, _⟩ := hy.unique hy₁
  rw [displaced_of_disjoint (h P Q sm hx), displaced_of_disjoint fun n hn => ?_]
  rw [← hscans]
  exact h P Q sm hx n ((planIds_perm hQ).mem_iff.mpr hn)

/-- **Where the operators list their references in the same order** the order of other fields does
not matter. -/
theorem sameOutcome_of_childRefs (hxy : x.Rearranged y)
    (h : ∀ P Q sm P' Q' sm', x.Accepts P Q sm → y.Accepts P' Q' sm' → childRefs Q = childRefs Q') :
    x.SameOutcome y := by
  have hscans : scanIds x.sf2Info = scanIds y.sf2Info :=
    scanIds_congr ⟨x.sf2Info.2, y.sf2Info.2, hxy.sf2Info⟩
  refine sameOutcome_of_sameTurns hxy fun P Q sm P' Q' sm' hx hy => ?_
  obtain ⟨P₁, Q₁, hy₁, hQ⟩ := hx.rearranged hxy
  have hkids := h P Q sm P' Q' sm' hx hy
  obtain ⟨rfl, _⟩ := hy.unique hy₁
  rw [displaced, displaced, numberingOrder, numberingOrder, walkRefsWithin, walkRefsWithin, turns,
    turns, hscans, hkids, hQ.same.length_eq, walkStarts_congr hQ, sorted_congr (planIds_perm hQ)]

end

end Inputs

/-! ## When the structures agree -/

/-- No operator is named like a field that holds one reference. (The references in the configuration of
such an operator are visited by the traversal but not renamed.) -/
def PlainOperators (plan : List (String × Json)) : Prop :=
  ∀ p ∈ plan, ∀ op conf, p.2 = .obj [(op, conf)] → op ∉ refKeysScalar

/-- What stands in a configuration under a reference field is a direct reference. -/
theorem mem_directRefsFields_of_mem_confRefs {x : Json} : ∀ {kvs : List (String × Json)},
    x ∈ confRefs (.obj kvs) → ∃ k, (k, x) ∈ directRefsFields kvs
  | [], h => absurd h (by simp [confRefs])
  | (k, v) :: kvs, h => by
    rw [confRefs_cons, List.mem_append] at h
    rw [directRefsFields]
    rcases h with h | h
    · refine ⟨k, List.mem_append_left _ ?_⟩
      rw [confRefs, List.flatMap_cons, List.flatMap_nil, List.append_nil] at h
      by_cases hk : k ∈ refKeysScalar
      · rw [if_pos hk]
        by_cases hv : isIntish v = true
        · rw [if_pos ⟨hk, hv⟩] at h
          rw [if_pos hv, List.mem_singleton.mp h]
          exact List.mem_singleton_self _
        · rw [if_neg (fun hs => hv hs.2), refList?_of_scalar hk] at h
          exact absurd h List.not_mem_nil
      · rw [if_neg (fun hs => hk hs.1)] at h
        rw [if_neg hk]
        cases hl : refList? k v with
        | some xs =>
          rw [hl] at h
          exact List.mem_map_of_mem h
        | none =>
          rw [hl] at h
          exact absurd h List.not_mem_nil
    · obtain ⟨k', hk'⟩ := mem_directRefsFields_of_mem_confRefs h
      exact ⟨k', List.mem_append_right _ hk'⟩

/-- The references that the traversal follows are renamed. -/
theorem mem_directRefs_of_operatorRefs {op : String} (hop : op ∉ refKeysScalar) {conf x : Json}
    (hx : x ∈ operatorRefs (.obj [(op, conf)])) : ∃ k, (k, x) ∈ directRefs (.obj [(op, conf)]) := by
  cases conf with
  | obj kvs =>
    have hl : refList? op (.obj kvs) = none := by
      rw [refList?]
      split <;> rfl
    obtain ⟨k, hk⟩ := mem_directRefsFields_of_mem_confRefs (x := x) hx
    refine ⟨k, ?_⟩
    rw [directRefs, directRefsFields, if_neg hop, hl, directRefsFields, List.append_nil, directRefs]
    exact hk
  | _ => exact absurd hx List.not_mem_nil

/-- Two renamings that give a value the same result give its references the same ids. -/
theorem renaming_agrees_of_sameValue {σ σ' : Int → Option Int} {v v' : Json} (hv : SameValue v v')
    (h : SameValue (renameRefs σ v) (renameRefs σ' v')) {k : String} {x : Json} {r : Int}
    (hx : (k, x) ∈ directRefs v) (hr : toInt x = .ok r) : (σ r).getD r = (σ' r).getD r := by
  have hsame : renameRefs σ (canonical v) = renameRefs σ' (canonical v) := by
    rw [renameRefs_canonical, h, ← renameRefs_canonical, ← hv]
  have hmap := congrArg directRefs hsame
  rw [directRefs_renameRefs, directRefs_renameRefs] at hmap
  have hx := List.map_inj_left.mp hmap (k, x) ((mem_directRefs_canonical (k, x) v).mpr hx)
  have hx := congrArg toInt (congrArg Prod.snd hx)
  rw [toInt_renameRef hr, toInt_renameRef hr] at hx
  exact Except.ok.inj hx

/-- The node of a renamed plan under a new id. -/
theorem get?_renamedPlan {plan : List (String × Json)} {reserved : List Int} {m : List (Int × Int)}
    (hm : IdMap (planIds plan) reserved m) (hnd : (planIds plan).Nodup) (sm : List (Int × Int))
    {p : String × Json} (hp : p ∈ plan) :
    OrdDict.get? (renamedPlan m sm plan) (toString (newId m (keyId p.1))) =
      some (renameRefs (idRenaming m sm) p.2) :=
  OrdDict.get?_of_mem (nodup_keys_renamedPlan hm hnd sm) (List.mem_map.mpr ⟨p, hp, rfl⟩)

namespace Inputs

section

variable {x y : Inputs} {P P' Q Q' : List (String × Json)} {sm : List (Int × Int)}

theorem Accepts.newId_of_mem (h : x.Accepts P Q sm) {p : Int × Int} (hp : p ∈ x.numbering Q) :
    p.2 = newId (x.numbering Q) p.1 := by
  rw [newId, OrdDict.get?_of_mem h.idMap.nodup hp]
  rfl

/-- Equal structures lead from a node with the same id in both to children with the same ids. -/
theorem children_agree (h : x.Accepts P Q sm) (h' : y.Accepts P' Q' sm) (hQ : SamePlan Q Q')
    (hplain : PlainOperators Q)
    (hsame : SameValue (.obj (renamedPlan (x.numbering Q) sm Q))
      (.obj (renamedPlan (y.numbering Q') sm Q'))) {a b : Int}
    (ha : newId (x.numbering Q) a = newId (y.numbering Q') a) (hb : b ∈ childIds Q a) :
    newId (x.numbering Q) b = newId (y.numbering Q') b := by
  obtain ⟨hbQ, p, hp, rfl, r, hr, hrb⟩ := (mem_childIds h.nodup_planIds a b).mp hb
  obtain ⟨p', hp', hk, hv⟩ := hQ.same.exists_field hp
  have hbQ' : b ∈ planIds Q' := (planIds_perm hQ).mem_iff.mp hbQ
  -- the two copies of the node stand under one key
  have hnodes := (sameValue_obj (nodup_keys_renamedPlan h.idMap h.nodup_planIds sm)
    (nodup_keys_renamedPlan h'.idMap h'.nodup_planIds sm)).mp hsame
      (toString (newId (x.numbering Q) (keyId p.1)))
  rw [get?_renamedPlan h.idMap h.nodup_planIds sm hp, ha, ← hk,
    get?_renamedPlan h'.idMap h'.nodup_planIds sm hp'] at hnodes
  obtain ⟨⟨op, conf⟩, hop⟩ := h.accepted.single p hp
  have hdirect : ∃ k, (k, r) ∈ directRefs p.2 := by
    rw [hop] at hr ⊢
    exact mem_directRefs_of_operatorRefs (hplain p hp op conf hop) hr
  obtain ⟨k, hkr⟩ := hdirect
  have hagree := renaming_agrees_of_sameValue hv (Option.some.inj hnodes) hkr hrb
  rw [idRenaming, idRenaming, get?_eq_newId h.idMap hbQ, get?_eq_newId h'.idMap hbQ'] at hagree
  exact hagree

/-- **Equal structures have equal ids**, so it makes no difference whether only the structures are
compared. -/
theorem ids_agree_of_sameValue (hxy : x.Rearranged y) (h : x.Accepts P Q sm) (h' : y.Accepts P' Q' sm)
    (hQ : SamePlan Q Q') (hplain : PlainOperators Q) (hnum : NumbersFirst Q)
    (hnum' : NumbersFirst Q')
    (hsame : SameValue (.obj (renamedPlan (x.numbering Q) sm Q))
      (.obj (renamedPlan (y.numbering Q') sm Q'))) (n : Int) :
    OrdDict.get? (x.numbering Q) n = OrdDict.get? (y.numbering Q') n := by
  have hscans : scanIds x.sf2Info = scanIds y.sf2Info :=
    scanIds_congr ⟨x.sf2Info.2, y.sf2Info.2, hxy.sf2Info⟩
  have hids := fun n => (planIds_perm hQ).mem_iff (a := n)
  have hpairs : ∀ (z : Inputs) (R : List (String × Json)), NumbersFirst R →
      z.numbering R = Renumber.pairs naturals (scanIds z.sf2Info) (depthFirst R) :=
    fun z R hR => by rw [numbering, numberingOrder_eq_depthFirst hR]
  by_cases hn : n ∈ planIds Q
  · have hagree := Renumber.names_agree_of_blocks naturals_injective
      (depthFirst_blocks hQ h.nodup_planIds) (S := fun a => a ∈ planIds Q)
      (fun a _ ha b hb => ⟨childIds_subset Q a b hb, children_agree h h' hQ hplain hsame ha hb⟩)
      (depthFirst_spec Q).1 (fun r => by rw [hscans]) (fun a ha => ((depthFirst_spec Q).2 a).mp ha)
      (fun p hp => h.newId_of_mem (hpairs x Q hnum ▸ hp))
      (fun p hp => h'.newId_of_mem (hpairs y Q' hnum' ▸ hp)) n
      (((depthFirst_spec Q).2 n).mpr hn)
    rw [get?_eq_newId h.idMap hn, get?_eq_newId h'.idMap ((hids n).mp hn), hagree]
  · rw [OrdDict.get?_eq_none.mpr (mt (h.idMap.mem_keys n).mp hn),
      OrdDict.get?_eq_none.mpr (mt (h'.idMap.mem_keys n).mp (mt (hids n).mpr hn))]

/-- **The structures agree exactly if the outcomes do**, unless an operator is named like a field that
holds a reference, or refers to a node by `true` or `false`. -/
theorem sameStructure_iff_sameOutcome (hxy : x.Rearranged y)
    (hplain : ∀ P Q sm, x.Accepts P Q sm → PlainOperators Q) (hnum : ∀ P Q sm, x.Accepts P Q sm →
      ∀ p ∈ Q, ∀ r ∈ operatorRefs p.2, isBoolean r = false) :
    Agree (fun out out' => SameValue (.obj out) (.obj out')) x.transfer y.transfer ↔
      x.SameOutcome y := by
  constructor
  · intro h
    refine h.imp fun out out' hout hout' hsame => ⟨hsame, ?_⟩
    obtain ⟨P, Q, sm, hx⟩ := exists_accepts hout
    obtain ⟨P', Q', hy, hQ⟩ := hx.rearranged hxy
    rw [hx.transfer] at hout
    rw [hy.transfer] at hout'
    rw [← Except.ok.inj hout, ← Except.ok.inj hout'] at hsame
    rw [hx.assignedIds, hy.assignedIds]
    have hnum' : ∀ p ∈ Q', ∀ r ∈ operatorRefs p.2, isBoolean r = false := by
      intro p hp r hr
      obtain ⟨q, hq, _, hv⟩ := hQ.same.symm.exists_field hp
      exact hnum P Q sm hx q hq r ((mem_operatorRefs_congr hv r).mp hr)
    exact ids_agree_of_sameValue hxy hx hy hQ (hplain P Q sm hx)
      (numbersFirst_of_numbers (hnum P Q sm hx)) (numbersFirst_of_numbers hnum') hsame
  · exact fun h => h.imp fun _ _ _ _ hsame => hsame.1

end

end Inputs

/-! ## The two sides of a join -/

/-- A join of two projections, with this configuration. -/
def joinOfProjections (join : List (String × Json)) : List (String × Json) :=
  [("1", .obj [("projection", .obj [("input", .int 100)])]),
   ("2", .obj [("projection", .obj [("input", .int 101)])]),
   ("3", .obj [("hashJoinExec", .obj join)])]

def leftFirst : Json := .obj (joinOfProjections [("left", .int 1), ("right", .int 2)])

def rightFirst : Json := .obj (joinOfProjections [("right", .int 2), ("left", .int 1)])

/-- The SF2 scans take the ids of both projections. -/
def collidingSf2Info : Json := .arr [tableEntry 1 ["key", "col_a"], tableEntry 2 ["key", "col_b"]]

theorem nodupKeys_leftFirst : leftFirst.NodupKeys := by decide

theorem nodupKeys_rightFirst : rightFirst.NodupKeys := by decide

theorem nodupKeys_joinInfo :
    joinSf1Info.NodupKeys ∧ joinSf2Info.NodupKeys ∧ collidingSf2Info.NodupKeys := by decide

theorem leftFirst_sameValue : SameValue leftFirst rightFirst := by decide +kernel

/-- The transfer of a join without a patch. -/
def joinInputs (plan sf2Info : JsonValue) : Inputs where
  sf1Base := plan
  sf1Info := ⟨joinSf1Info, nodupKeys_joinInfo.1⟩
  sf2Base := plan
  sf2Info := sf2Info
  patch := ⟨.arr [], trivial⟩

/-- The same join twice, written left side first and right side first. -/
def joinPair (sf2Info : JsonValue) : Inputs × Inputs :=
  (joinInputs ⟨leftFirst, nodupKeys_leftFirst⟩ sf2Info,
    joinInputs ⟨rightFirst, nodupKeys_rightFirst⟩ sf2Info)

theorem joinPair_rearranged (sf2Info : JsonValue) :
    (joinPair sf2Info).1.Rearranged (joinPair sf2Info).2 :=
  ⟨leftFirst_sameValue, rfl, leftFirst_sameValue, rfl, rfl⟩

/-- The join, with new ids. -/
def transferredJoin (first second : String) (join : List (String × Json)) : List (String × Json) :=
  [(first, .obj [("projection", .obj [("input", .int 1)])]),
   (second, .obj [("projection", .obj [("input", .int 2)])]),
   ("4", .obj [("hashJoinExec", .obj join)])]

/-- The projection that is visited first becomes node 0, the other one node 3. -/
theorem joinPair_outcomes :
    let pair := joinPair ⟨collidingSf2Info, nodupKeys_joinInfo.2.2⟩
    pair.1.Rearranged pair.2 ∧
      pair.1.transfer = .ok (transferredJoin "0" "3" [("left", .int 0), ("right", .int 3)]) ∧
      pair.2.transfer = .ok (transferredJoin "3" "0" [("right", .int 0), ("left", .int 3)]) ∧
      ¬ pair.1.SameOutcome pair.2 := by
  have h1 : (joinPair ⟨collidingSf2Info, nodupKeys_joinInfo.2.2⟩).1.transfer =
      .ok (transferredJoin "0" "3" [("left", .int 0), ("right", .int 3)]) := by decide +kernel
  have h2 : (joinPair ⟨collidingSf2Info, nodupKeys_joinInfo.2.2⟩).2.transfer =
      .ok (transferredJoin "3" "0" [("right", .int 0), ("left", .int 3)]) := by decide +kernel
  refine ⟨joinPair_rearranged _, h1, h2, fun h => ?_⟩
  rw [Inputs.SameOutcome, h1, h2, agree_ok] at h
  exact absurd h.1 (by decide +kernel)

/-- With other SF2 scans all nodes keep their ids, whichever side comes first. -/
theorem sameOutcome_iff_sameTurns_join :
    (joinPair ⟨joinSf2Info, nodupKeys_joinInfo.2.1⟩).1.SameOutcome
      (joinPair ⟨joinSf2Info, nodupKeys_joinInfo.2.1⟩).2 := by
  have hids : ∀ {plan : JsonValue} {join P Q : List (String × Json)} {sm : List (Int × Int)},
      plan.1 = .obj (joinOfProjections join) →
        (joinInputs plan ⟨joinSf2Info, nodupKeys_joinInfo.2.1⟩).Accepts P Q sm →
          ∀ n ∈ planIds Q, n ∉ scanIds joinSf2Info := by
    intro plan join P Q sm hplan h
    have hP : P = joinOfProjections join := by
      have hpatched : applyJsonPatch plan.1 (.arr []) = .ok (.obj P) := h.patched
      rw [hplan] at hpatched
      exact (Json.obj.inj (Except.ok.inj hpatched)).symm
    rw [planIds_of_keys (rebind_spec h.accepted.rebound).1, hP]
    exact (by decide +kernel : ∀ n ∈ ["1", "2", "3"].map keyId, n ∉ scanIds joinSf2Info)
  refine (Inputs.sameOutcome_iff_sameTurns _ _ (joinPair_rearranged _)).mpr
    fun P Q sm P' Q' sm' hx hy => ?_
  rw [Inputs.displaced_of_disjoint (hids rfl hx), Inputs.displaced_of_disjoint (hids rfl hy)]

end DbPlanBench.Transfer
