import DbPlanBench.Engine.Decode
import DbPlanBench.Transfer.Accepted

/-!
# Ids that name both a node and a scan

The decoder collects the nodes of `structure` and then the scans of
`full_table_info` into one map, so an id that is both stands for the scan.
`_rewrite_plan_references` looks an id up among the nodes first. A reference to a
node that shadows an SF1 scan is therefore the scan at SF1, and the node at SF2.

`shadowKept_iff` says which references keep their meaning: those that are not
renamed at all, if the scan happens to keep its id.
-/

namespace DbPlanBench.Transfer

/-- What an id stands for. -/
inductive Target where
  | scan (id : Int)
  | node (id : Int)
  | missing
deriving DecidableEq

/-- What the decoder makes of an id, from the ids in the table info and those in `structure`. -/
def denotes (scans nodes : List Int) (r : Int) : Target :=
  if r ∈ scans then .scan r else if r ∈ nodes then .node r else .missing

open Engine in
theorem denotes_eq_scan {scans nodes : List Int} {r s : Int} :
    denotes scans nodes r = .scan s ↔ r = s ∧ r ∈ scans := by
  unfold denotes
  split
  next h => simp [h]
  next h =>
    split
    next => simp [h]
    next => simp [h]

/-- Every reference to `r` in the patched plan denotes the SF2 scan paired with `r` in the result.
An embedded scan is replaced as a whole and has no references of its own. -/
def ShadowKept (sf1Info sf2Info : Json) (P out : List (String × Json)) (r : Int) : Prop :=
  ∀ (i : Nat) p, P[i]? = some p → ¬ IsParquetScan p.2 →
    ∀ e ∈ readAt p.2, toInt e.2.2 = .ok r →
      ∃ scanIdMap q y x s, buildScanIdMapping sf1Info sf2Info = .ok scanIdMap ∧
        OrdDict.get? scanIdMap r = some s ∧ out[i]? = some q ∧ valueAt q.2 e.1 = some y ∧
        toInt y = .ok x ∧ denotes (scanIds sf2Info) (planIds out) x = .scan s

/-- No reference to `r` is renamed, and one that is nested is to a scan that keeps its id. -/
def ShadowHarmless (P : List (String × Json)) (scanIdMap : List (Int × Int)) (r : Int) : Prop :=
  ∀ p ∈ P, ¬ IsParquetScan p.2 → (∀ q ∈ directRefs p.2, toInt q.2 ≠ .ok r) ∧
    ∀ q ∈ nestedRefs p.2, toInt q.2 = .ok r → OrdDict.get? scanIdMap r = some r

/-! ## The rebound plan, node by node -/

theorem getElem?_rebound {P Q : List (String × Json)} {info : Json} {stage : String}
    (h : rebindParquetScansInStructure P info stage = .ok Q) (hnd : (OrdDict.keys P).Nodup)
    {i : Nat} {p : String × Json} (hp : P[i]? = some p) (hscan : ¬ IsParquetScan p.2) :
    Q[i]? = some p := by
  have hkeys := (rebind_spec h).1
  have hpmem : p ∈ P := List.mem_of_getElem? hp
  have hget : OrdDict.get? P p.1 = some p.2 := OrdDict.get?_of_mem hnd hpmem
  have hgetQ : OrdDict.get? Q p.1 = some p.2 := by
    rw [rebind_get? h (by rw [hget]; exact hscan), hget]
  have hkeyi : (OrdDict.keys Q)[i]? = some p.1 := by
    rw [hkeys, OrdDict.keys, List.getElem?_map, hp]
    rfl
  rw [OrdDict.keys, List.getElem?_map, Option.map_eq_some_iff] at hkeyi
  obtain ⟨q, hq, hk⟩ := hkeyi
  have hqget := OrdDict.get?_of_mem (hkeys ▸ hnd) (List.mem_of_getElem? hq)
  rw [hk, hgetQ] at hqget
  injection hqget with hv
  rw [hq]
  exact congrArg some (Prod.ext hk hv.symm)

/-- A node of the result: where an accepted plan has a node of its own, the renamed node. -/
theorem getElem?_renamedPlan {P Q : List (String × Json)} {m sm : List (Int × Int)} {info : Json}
    {stage : String} (h : rebindParquetScansInStructure P info stage = .ok Q)
    (hnd : (OrdDict.keys P).Nodup) {i : Nat} {p : String × Json} (hp : P[i]? = some p)
    (hscan : ¬ IsParquetScan p.2) : (renamedPlan m sm Q)[i]? =
      some (toString (newId m (keyId p.1)), renameRefs (idRenaming m sm) p.2) := by
  rw [renamedPlan, List.getElem?_map, getElem?_rebound h hnd hp hscan]
  rfl

theorem mem_planIds_of_namesNode {P Q : List (String × Json)} (h : OrdDict.keys Q = OrdDict.keys P)
    {r : Int} (hr : NamesNode P r) : r ∈ planIds Q := by
  obtain ⟨p, hp, _, hint⟩ := hr
  rw [← map_keyId_keys, h, ← keyId_of_int hint]
  exact List.mem_map_of_mem (List.mem_map_of_mem hp)

/-- On a transfer that returns, a shadowed id keeps its meaning exactly if it is harmless. -/
theorem shadowKept_renamedPlan {sf1Base sf1Info sf2Base sf2Info : Json}
    {P Q : List (String × Json)} {sm m : List (Int × Int)} {r : Int}
    (hacc : Accepted sf1Base sf1Info sf2Base sf2Info P Q sm) (hnum : Numbering sf2Info Q m)
    (hnd : (OrdDict.keys P).Nodup) (hnode : NamesNode P r) :
    ShadowKept sf1Info sf2Info P (renamedPlan m sm Q) r ↔ ShadowHarmless P sm r := by
  obtain ⟨reserved, hres, hidmap, _⟩ := hnum.idMap
  have hscans := sf2ScanIds_mem hres
  have hmem : r ∈ planIds Q := mem_planIds_of_namesNode (rebind_spec hacc.rebound).1 hnode
  have hread : ∀ {v : Json} {q : String × Json}, q ∈ walkRefs v → ∃ e ∈ readAt v, e.2 = q := by
    intro v q hq
    rw [← readAt_eq] at hq
    obtain ⟨e, he, heq⟩ := List.mem_map.mp hq
    exact ⟨e, he, heq⟩
  have hrenamed : ∀ {v : Json} {e : Placed}, e ∈ renamedAt v → e.2 ∈ directRefs v := by
    intro v e he
    rw [← renamedAt_eq]
    exact List.mem_map_of_mem he
  constructor
  · intro h p hp hscan
    obtain ⟨i, hi⟩ := List.mem_iff_getElem?.mp hp
    -- a renamed reference to `r` is to a node afterwards, whose id is that of no scan
    have hdirect : ∀ q ∈ directRefs p.2, toInt q.2 ≠ .ok r := by
      intro q hq hr
      have hq' := hq
      rw [← renamedAt_eq] at hq'
      obtain ⟨e, he, rfl⟩ := List.mem_map.mp hq'
      have heread := (renamedAt_sublist p.2).subset he
      obtain ⟨_, q', y, x, s, _, _, hout, hy, hx, hden⟩ := h i p hi hscan e heread hr
      rw [getElem?_renamedPlan hacc.rebound hnd hi hscan] at hout
      injection hout with hout
      subst hout
      rw [valueAt_renameRefs _ heread, if_pos (show e ∈ renamedAt p.2 from he)] at hy
      injection hy with hy
      rw [← hy, toInt_renameRef hr, idRenaming, get?_eq_newId hidmap hmem] at hx
      injection (show Except.ok (newId m r) = Except.ok x from hx) with hx
      have hxs := (denotes_eq_scan.mp hden).2
      exact newId_fresh hidmap hmem ((hscans _).mpr (hx ▸ hxs))
    refine ⟨hdirect, fun q hq hr => ?_⟩
    obtain ⟨e, he, rfl⟩ := hread ((mem_walkRefs q p.2).mpr (Or.inr hq))
    obtain ⟨sm', q', y, x, s, hsm', hs, hout, hy, hx, hden⟩ := h i p hi hscan e he hr
    rw [getElem?_renamedPlan hacc.rebound hnd hi hscan] at hout
    injection hout with hout
    subst hout
    rw [valueAt_renameRefs _ he, if_neg (fun hmem => hdirect _ (hrenamed hmem) hr)] at hy
    injection hy with hy
    rw [← hy, hr] at hx
    injection hx with hx
    have hsm : sm = sm' := by
      have hsm := hacc.mapped.symm.trans hsm'
      injection hsm
    rw [hsm, hs, ← (denotes_eq_scan.mp hden).1, hx]
  · intro h i p hi hscan e he hr
    obtain ⟨hdirect, hnested⟩ := h p (List.mem_of_getElem? hi) hscan
    have hwalk : e.2 ∈ walkRefs p.2 := by
      rw [← readAt_eq]
      exact List.mem_map_of_mem he
    have hkeeps : OrdDict.get? sm r = some r := by
      rcases (mem_walkRefs e.2 p.2).mp hwalk with hd | hn
      · exact absurd hr (hdirect _ hd)
      · exact hnested _ hn hr
    have hsf2 := ((buildScanIdMapping_spec hacc.mapped).2 r r hkeeps).1
    refine ⟨sm, _, e.2.2, r, r, hacc.mapped, hkeeps,
      getElem?_renamedPlan hacc.rebound hnd hi hscan, ?_, hr, denotes_eq_scan.mpr ⟨rfl, hsf2⟩⟩
    rw [valueAt_renameRefs _ he, if_neg (fun hmem => hdirect _ (hrenamed hmem) hr)]

theorem namesNode_canonical {plan : List (String × Json)} {n : Nat} {node : Json}
    (h : (toString n, node) ∈ plan) : NamesNode plan n :=
  ⟨_, h, Py.isdigit_toString n, Py.int_toString n⟩

/-- A projection under the id of SF1 scan 100, which nothing refers to. -/
def unusedShadow : List (String × Json) := [("100", .obj [("projection", .obj [("input", .int 101)])])]

/-- A second projection refers to id 100: at SF1 that is the scan. -/
def shadowPlan : List (String × Json) :=
  [("100", .obj [("projection", .obj [("input", .int 101)])]),
   ("1", .obj [("projection", .obj [("input", .int 100)])])]

/-- Its transfer: the reference is left to the projection. -/
def shadowOut : List (String × Json) :=
  [("100", .obj [("projection", .obj [("input", .int 6)])]),
   ("1", .obj [("projection", .obj [("input", .int 100)])])]

end DbPlanBench.Transfer
