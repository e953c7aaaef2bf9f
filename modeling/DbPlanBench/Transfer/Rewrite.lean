import DbPlanBench.Transfer.Plan

/-!
# The last stages of a transfer

What is left once the nodes have their new ids: writing the renamed plan
(`rewritePlanReferences_eq`) and checking it (`validateReferences_iff`,
`checkUnresolvedLeafRefs_eq`). Both are described by what they are about: the
renamed plan, and whether every reference in it is resolved.
-/

namespace DbPlanBench.Transfer

/-- The id a key stands for. -/
def keyId (k : String) : Int :=
  match Py.int k with
  | .ok n => n
  | .error _ => 0

/-- The key is the numeral that `str` gives for its id: no leading zeros, only ASCII digits. -/
def CanonicalKey (k : String) : Prop := k = toString (keyId k)

/-- The new id of a node. -/
def newId (m : List (Int × Int)) (n : Int) : Int := (OrdDict.get? m n).getD n

/-- The plan with its nodes renumbered and its references renamed. -/
def renamedPlan (m sm : List (Int × Int)) (plan : List (String × Json)) : List (String × Json) :=
  plan.map fun p => (toString (newId m (keyId p.1)), renameRefs (idRenaming m sm) p.2)

/-! ## Keys -/

theorem keyId_of_int {k : String} {n : Int} (h : Py.int k = .ok n) : keyId k = n := by
  rw [keyId, h]

/-- A numeral is a digit string that is read as its number and is the key of that number. -/
theorem canonicalKey_of_numeral {k : String} {n : Nat} (h : k = toString n) :
    Py.isdigit k = true ∧ Py.int k = .ok (keyId k) ∧ CanonicalKey k := by
  have hint := Py.int_toString n
  rw [← h] at hint
  have hid := keyId_of_int hint
  refine ⟨h ▸ Py.isdigit_toString n, hid ▸ hint, ?_⟩
  rw [CanonicalKey, hid, h]
  rfl

/-- With digit keys, the node ids are the ids of the keys, all of them readable. -/
theorem nodeIds_iff {plan : List (String × Json)} (hd : DigitKeys plan) {ids : List Int} :
    nodeIds plan = .ok ids ↔
      ids = (OrdDict.keys plan).map keyId ∧ ∀ k ∈ OrdDict.keys plan, Py.int k = .ok (keyId k) := by
  rw [nodeIds_of_digitKeys hd]
  constructor
  · intro h
    have hread : ∀ k ∈ OrdDict.keys plan, Py.int k = .ok (keyId k) := by
      intro k hk
      obtain ⟨n, _, hn⟩ := Except.ok_of_mapM h k hk
      rw [keyId_of_int hn, hn]
    have hmap := Except.mapM_ok hread
    rw [h] at hmap
    injection hmap with hmap
    exact ⟨hmap, hread⟩
  · intro h
    rw [h.1]
    exact Except.mapM_ok h.2

variable {ids reserved : List Int} {m : List (Int × Int)}

theorem get?_eq_newId (hm : IdMap ids reserved m) {n : Int} (hn : n ∈ ids) :
    OrdDict.get? m n = some (newId m n) := by
  obtain ⟨v, hv⟩ := OrdDict.get?_isSome.mpr ((hm.mem_keys n).mpr hn)
  rw [newId, hv]
  rfl

theorem newId_mem (hm : IdMap ids reserved m) {n : Int} (hn : n ∈ ids) : (n, newId m n) ∈ m :=
  OrdDict.mem_of_get? (get?_eq_newId hm hn)

theorem newId_injective (hm : IdMap ids reserved m) {a b : Int} (ha : a ∈ ids) (hb : b ∈ ids)
    (h : newId m a = newId m b) : a = b := by
  have hp := List.inj_on_of_nodup_map hm.values_nodup (newId_mem hm ha) (newId_mem hm hb) h
  exact congrArg Prod.fst hp

theorem newId_nonneg (hm : IdMap ids reserved m) {n : Int} (hn : n ∈ ids) : 0 ≤ newId m n :=
  hm.nonneg _ (newId_mem hm hn)

theorem newId_fresh (hm : IdMap ids reserved m) {n : Int} (hn : n ∈ ids) : newId m n ∉ reserved :=
  hm.fresh _ (newId_mem hm hn)

theorem mem_values_iff (hm : IdMap ids reserved m) (v : Int) :
    v ∈ m.map Prod.snd ↔ ∃ n ∈ ids, newId m n = v := by
  constructor
  · intro hv
    obtain ⟨⟨n, w⟩, hp, rfl⟩ := List.mem_map.mp hv
    have hn := (hm.mem_keys n).mp (OrdDict.mem_keys_of_mem hp)
    refine ⟨n, hn, ?_⟩
    rw [newId, OrdDict.get?_of_mem hm.nodup hp]
    rfl
  · intro h
    obtain ⟨n, hn, rfl⟩ := h
    exact List.mem_map_of_mem (newId_mem hm hn)

/-- The key table pairs the numerals of old and new ids. -/
theorem oldToNewKey_eq (hm : IdMap ids reserved m) :
    oldToNewKey m = m.map fun p => (toString p.1, toString p.2) := by
  rw [oldToNewKey, OrdDict.foldl_set_fresh (fun p : Int × Int => toString p.1)
    (fun p => toString p.2) m [] ?_ (fun x _ => by simp), List.nil_append]
  refine List.Nodup.map_on (fun p hp q hq he => ?_) (List.Nodup.of_map _ hm.nodup)
  have hpn := hm.key_nonneg _ (OrdDict.mem_keys_of_mem hp)
  have hqn := hm.key_nonneg _ (OrdDict.mem_keys_of_mem hq)
  exact List.inj_on_of_nodup_map hm.nodup hp hq (Py.toString_int_injective hpn hqn he)

/-- A canonical key gets the numeral of its new id, any other key is not found. -/
theorem newKey_eq (hm : IdMap ids reserved m) {stage k : String} (hd : Py.isdigit k = true)
    (hk : Py.int k = .ok (keyId k)) (hin : keyId k ∈ ids) (out : String) :
    newKey m stage k = .ok out ↔ CanonicalKey k ∧ out = toString (newId m (keyId k)) := by
  have hmem := newId_mem hm hin
  rw [newKey, if_neg (by simp [hd]), hk, Except.ok_bind,
    if_neg (not_not.mpr ((hm.mem_keys _).mpr hin)), oldToNewKey_eq hm]
  have hnn := hm.key_nonneg _ ((hm.mem_keys _).mpr hin)
  have hnd : (OrdDict.keys (m.map fun p => (toString p.1, toString p.2))).Nodup := by
    rw [← oldToNewKey_eq hm, oldToNewKey]
    exact OrdDict.nodup_keys_foldl_set (fun p : Int × Int => toString p.1) _ m [] List.nodup_nil
  by_cases hc : CanonicalKey k
  · -- the table has the numerals of the ids; a key such as `01` is none of them
    have hget : OrdDict.get? (m.map fun p => (toString p.1, toString p.2)) k =
        some (toString (newId m (keyId k))) := by
      refine OrdDict.get?_of_mem hnd (List.mem_map.mpr ⟨_, hmem, ?_⟩)
      rw [← hc]
    rw [hget]
    exact ⟨fun h => ⟨hc, by injection h with h; exact h.symm⟩, fun h => by rw [h.2]⟩
  · have hget : OrdDict.get? (m.map fun p => (toString p.1, toString p.2)) k = none := by
      rw [OrdDict.get?_eq_none]
      intro hmemk
      obtain ⟨q, hq, he⟩ := List.mem_map.mp hmemk
      obtain ⟨p, hp, rfl⟩ := List.mem_map.mp hq
      have hp0 := hm.key_nonneg _ (OrdDict.mem_keys_of_mem hp)
      have hr := (Py.int_toString_int hp0).2
      have he : toString p.1 = k := he
      rw [he, hk] at hr
      injection hr with hr
      exact hc (by rw [CanonicalKey, hr, he])
    rw [hget]
    exact ⟨fun h => absurd h (by simp), fun h => absurd h.1 hc⟩

/-! ## The renamed plan -/

theorem rewriteNodes_ok (hm : IdMap ids reserved m) {sm : List (Int × Int)} {stage : String} :
    ∀ {plan : List (String × Json)} (acc : List (String × Json)), Readable plan →
      (∀ p ∈ plan, Py.isdigit p.1 = true ∧ Py.int p.1 = .ok (keyId p.1) ∧ keyId p.1 ∈ ids) →
      (∀ p ∈ plan, CanonicalKey p.1) →
      rewriteNodes m sm stage plan acc = .ok (plan.foldl (fun d p => OrdDict.set d
        (toString (newId m (keyId p.1))) (renameRefs (idRenaming m sm) p.2)) acc)
  | [], acc, _, _, _ => rfl
  | (k, v) :: plan, acc, hr, hk, hc => by
    have hkey := hk _ (List.mem_cons_self ..)
    have hnew : newKey m stage k = .ok (toString (newId m (keyId k))) :=
      (newKey_eq hm hkey.1 hkey.2.1 hkey.2.2 _).mpr ⟨hc _ (List.mem_cons_self ..), rfl⟩
    have hobj := rewriteObj_eq m sm v fun p hp =>
      hr _ (List.mem_cons_self ..) p ((mem_walkRefs p v).mpr (Or.inl hp))
    rw [rewriteNodes, hnew, Except.ok_bind, hobj, Except.ok_bind, List.foldl_cons]
    exact rewriteNodes_ok hm _ (fun p hp => hr p (List.mem_cons_of_mem _ hp))
      (fun p hp => hk p (List.mem_cons_of_mem _ hp)) fun p hp => hc p (List.mem_cons_of_mem _ hp)

/-- Only canonical keys are rewritten. -/
theorem canonicalKey_of_rewriteNodes (hm : IdMap ids reserved m) {sm : List (Int × Int)}
    {stage : String} : ∀ {plan acc out : List (String × Json)},
      (∀ p ∈ plan, Py.isdigit p.1 = true ∧ Py.int p.1 = .ok (keyId p.1) ∧ keyId p.1 ∈ ids) →
      rewriteNodes m sm stage plan acc = .ok out → ∀ p ∈ plan, CanonicalKey p.1
  | [], _, _, _, _, _, h => absurd h List.not_mem_nil
  | (k, v) :: plan, acc, out, hk, h, p, hp => by
    obtain ⟨k', hk', h⟩ := Except.bind_eq_ok.mp h
    obtain ⟨v', _, h⟩ := Except.bind_eq_ok.mp h
    have hkey := hk _ (List.mem_cons_self ..)
    rcases List.mem_cons.mp hp with rfl | hp
    · exact ((newKey_eq hm hkey.1 hkey.2.1 hkey.2.2 _).mp hk').1
    · exact canonicalKey_of_rewriteNodes hm (fun q hq => hk q (List.mem_cons_of_mem _ hq)) h p hp

/-- **The rewriting stage returns the renamed plan**, and fails only on keys that are not
canonical. -/
theorem rewritePlanReferences_eq {plan : List (String × Json)} {sm : List (Int × Int)}
    {stage : String} (hd : DigitKeys plan) (hnd : (OrdDict.keys plan).Nodup)
    (hids : nodeIds plan = .ok ids) (hr : Readable plan) (hm : IdMap ids reserved m)
    (out : List (String × Json)) :
    rewritePlanReferences plan m sm stage = .ok out ↔
      (∀ p ∈ plan, CanonicalKey p.1) ∧ out = renamedPlan m sm plan := by
  obtain ⟨hidseq, hint⟩ := (nodeIds_iff hd).mp hids
  have hmem : ∀ p ∈ plan, keyId p.1 ∈ ids := by
    intro p hp
    rw [hidseq]
    exact List.mem_map_of_mem (List.mem_map_of_mem hp)
  have hkeys : ∀ p ∈ plan,
      Py.isdigit p.1 = true ∧ Py.int p.1 = .ok (keyId p.1) ∧ keyId p.1 ∈ ids := by
    intro p hp
    have hk : p.1 ∈ OrdDict.keys plan := List.mem_map_of_mem hp
    exact ⟨hd _ hk, hint _ hk, hmem p hp⟩
  have hok : (∀ p ∈ plan, CanonicalKey p.1) →
      rewritePlanReferences plan m sm stage = .ok (renamedPlan m sm plan) := by
    intro hc
    rw [rewritePlanReferences, rewriteNodes_ok hm [] hr hkeys hc, OrdDict.foldl_set_fresh
      (fun p : String × Json => toString (newId m (keyId p.1))) _ plan [] ?_ (fun x _ => by simp),
      List.nil_append]
    · rfl
    · -- distinct canonical keys have distinct ids, and those get distinct new ids
      refine List.Nodup.map_on (fun p hp q hq he => ?_) (List.Nodup.of_map _ hnd)
      have hid := newId_injective hm (hmem p hp) (hmem q hq)
        (Py.toString_int_injective (newId_nonneg hm (hmem p hp)) (newId_nonneg hm (hmem q hq)) he)
      exact List.inj_on_of_nodup_map hnd hp hq ((hc p hp).trans (hid ▸ (hc q hq).symm))
  constructor
  · intro h
    have hc := canonicalKey_of_rewriteNodes hm hkeys h
    rw [hok hc] at h
    injection h with h
    exact ⟨hc, h.symm⟩
  · intro h
    rw [h.2, hok h.1]

/-! ## The checks -/

/-- The computation fails with a `PlanTransferError`. -/
def RaisesPlanTransfer {α : Type} (x : Except PyErr α) : Prop :=
  ∃ e, x = .error e ∧ e.IsPlanTransfer

theorem raises_bind {α β : Type} {x : Except PyErr α} (h : RaisesPlanTransfer x)
    (f : α → Except PyErr β) : RaisesPlanTransfer (x >>= f) := by
  obtain ⟨e, he, hp⟩ := h
  exact ⟨e, by rw [he]; rfl, hp⟩

theorem not_raises_ok {α : Type} (a : α) : ¬ RaisesPlanTransfer (.ok a : Except PyErr α) := by
  intro h
  obtain ⟨e, he, _⟩ := h
  exact absurd he (by simp)

theorem raises_error_iff {α : Type} {e : PyErr} :
    RaisesPlanTransfer (.error e : Except PyErr α) ↔ e.IsPlanTransfer := by
  constructor
  · intro h
    obtain ⟨e', he, hp⟩ := h
    injection he with he
    exact he ▸ hp
  · exact fun h => ⟨e, rfl, h⟩

/-- Every reference names a node or a scan. -/
def Resolved (ids scans : List Int) (plan : List (String × Json)) : Prop :=
  ∀ p ∈ plan, ∀ q ∈ walkRefs p.2, ∀ r, toInt q.2 = .ok r → r ∈ ids ∨ r ∈ scans

/-- The search for bad references succeeds on readable plans, and finds none in a resolved one. -/
theorem badRefs_eq (ids scans : List Int) : ∀ {plan : List (String × Json)}, Readable plan →
    ∃ bad, badRefs ids scans plan = .ok bad ∧ (bad = [] ↔ Resolved ids scans plan)
  | [], _ => ⟨[], rfl, by simp [Resolved]⟩
  | (nid, node) :: plan, hr => by
    obtain ⟨bad, hbad, hiff⟩ :=
      badRefs_eq ids scans fun p hp => hr p (List.mem_cons_of_mem _ hp)
    have hread : ∀ q ∈ walkRefs node, ∃ t, (do return (nid, q.1, ← toInt q.2) :
        Except PyErr (String × String × Int)) = .ok t := by
      intro q hq
      obtain ⟨n, hn⟩ := hr _ (List.mem_cons_self ..) q hq
      exact ⟨(nid, q.1, n), by rw [hn]; rfl⟩
    obtain ⟨rids, hrids⟩ := Except.exists_mapM_ok hread
    refine ⟨_, by rw [badRefs, hrids, Except.ok_bind, hbad]; rfl, ?_⟩
    rw [List.append_eq_nil_iff, hiff, Resolved, Resolved, List.forall_mem_cons,
      List.filter_eq_nil_iff]
    -- a node's references are good exactly if the list of its bad ones is empty
    refine and_congr ⟨fun h q hq r hqr => ?_, fun h t ht => ?_⟩ (Iff.refl _)
    · obtain ⟨t, ht, hqt⟩ := Except.ok_of_mapM hrids q hq
      rw [hqr] at hqt
      injection (show Except.ok (nid, q.1, r) = Except.ok t from hqt) with hqt
      have hgood := h t ht
      rw [← hqt] at hgood
      simp only [decide_eq_true_eq, not_and, not_not] at hgood
      by_cases hi : r ∈ ids
      · exact Or.inl hi
      · exact Or.inr (hgood hi)
    · obtain ⟨q, hq, hqt⟩ := Except.mem_of_mapM hrids ht
      obtain ⟨n, hn, hqt⟩ := Except.bind_eq_ok.mp hqt
      injection (show Except.ok (nid, q.1, n) = Except.ok t from hqt) with hqt
      subst hqt
      simp only [decide_eq_true_eq, not_and, not_not]
      intro hi
      exact (h q hq n hn).resolve_left hi

/-- `_validate_references` accepts exactly the resolved plans; what it raises otherwise is a
`PlanTransferError`. -/
theorem validateReferences_iff {plan : List (String × Json)} {ids scans : List Int} {stage : String}
    (hids : nodeIds plan = .ok ids) (hr : Readable plan) :
    (Resolved ids scans plan → validateReferences plan scans stage = .ok ()) ∧
      (¬ Resolved ids scans plan → RaisesPlanTransfer (validateReferences plan scans stage)) := by
  obtain ⟨bad, hbad, hiff⟩ := badRefs_eq ids scans hr
  rw [validateReferences, hids, Except.ok_bind, hbad, Except.ok_bind, ← hiff]
  cases bad with
  | nil => exact ⟨fun _ => rfl, fun h => absurd rfl h⟩
  | cons t bad => exact ⟨fun h => absurd h (by simp), fun _ => ⟨_, rfl, trivial⟩⟩

/-- The last step of `_transfer_plan` has nothing left to find in a resolved plan. -/
theorem checkUnresolvedLeafRefs_eq {plan : List (String × Json)} {ids scans : List Int}
    (hids : nodeIds plan = .ok ids) (hr : Readable plan) (hres : Resolved ids scans plan) :
    checkUnresolvedLeafRefs plan scans = .ok () := by
  obtain ⟨bad, hbad, hiff⟩ := badRefs_eq ids scans hr
  rw [checkUnresolvedLeafRefs, hids, Except.ok_bind, hbad, Except.ok_bind, hiff.mpr hres]
  rfl

/-! ## The checks on the renamed plan -/

/-- Some reference leads nowhere after the renaming. A direct one that names no node and no SF1
scan keeps its id, and so does every nested one; `new` are the ids of the renumbered nodes. -/
def Unresolved (plan : List (String × Json)) (ids sf1Scans sf2Scans new : List Int) : Prop :=
  ∃ p ∈ plan, ∃ q r, toInt q.2 = .ok r ∧ r ∉ sf2Scans ∧ r ∉ new ∧
    (q ∈ nestedRefs p.2 ∨ q ∈ directRefs p.2 ∧ r ∉ ids ∧ r ∉ sf1Scans)

theorem mem_walkRefs_renamed {σ : Int → Option Int} {v : Json} {q : String × Json} :
    q ∈ walkRefs (renameRefs σ v) ↔
      (∃ q' ∈ directRefs v, q = (q'.1, renameRef σ q'.2)) ∨ q ∈ nestedRefs v := by
  rw [mem_walkRefs, directRefs_renameRefs, nestedRefs_renameRefs, List.mem_map]
  refine or_congr ⟨fun h => ?_, fun h => ?_⟩ (Iff.refl _)
  · obtain ⟨q', hq', he⟩ := h
    exact ⟨q', hq', he.symm⟩
  · obtain ⟨q', hq', he⟩ := h
    exact ⟨q', hq', he.symm⟩

theorem readable_renamedPlan {sm : List (Int × Int)} {plan : List (String × Json)}
    (hr : Readable plan) : Readable (renamedPlan m sm plan) := by
  intro p hp q hq
  obtain ⟨p', hp', rfl⟩ := List.mem_map.mp hp
  rcases mem_walkRefs_renamed.mp hq with ⟨q', hq', rfl⟩ | hq
  · obtain ⟨r, hr⟩ := hr p' hp' q' ((mem_walkRefs _ _).mpr (Or.inl hq'))
    exact ⟨_, toInt_renameRef hr⟩
  · exact hr p' hp' q ((mem_walkRefs _ _).mpr (Or.inr hq))

/-- The node ids of the renamed plan are the new ids. -/
theorem nodeIds_renamedPlan (hm : IdMap ids reserved m) {sm : List (Int × Int)}
    {plan : List (String × Json)} (hin : ∀ p ∈ plan, keyId p.1 ∈ ids) :
    DigitKeys (renamedPlan m sm plan) ∧
      nodeIds (renamedPlan m sm plan) = .ok (plan.map fun p => newId m (keyId p.1)) := by
  have hd : DigitKeys (renamedPlan m sm plan) := by
    intro k hk
    obtain ⟨p, hp, rfl⟩ := List.mem_map.mp hk
    obtain ⟨p', hp', rfl⟩ := List.mem_map.mp hp
    exact (Py.int_toString_int (newId_nonneg hm (hin p' hp'))).1
  refine ⟨hd, ?_⟩
  rw [nodeIds_of_digitKeys hd, Except.mapM_eq_ok, OrdDict.keys, renamedPlan, List.map_map,
    List.forall₂_map_left_iff, List.forall₂_map_right_iff, List.forall₂_same]
  exact fun p hp => (Py.int_toString_int (newId_nonneg hm (hin p hp))).2

/-- **The renamed plan is resolved exactly if no reference of the plan is left unresolved.** -/
theorem resolved_renamedPlan (hm : IdMap ids reserved m) {sm : List (Int × Int)}
    {plan : List (String × Json)} (hids : ∀ n, n ∈ ids ↔ ∃ p ∈ plan, keyId p.1 = n)
    (hsm : ∀ s1 s2, OrdDict.get? sm s1 = some s2 → s2 ∈ reserved) {sf1Scans : List Int}
    (hsf1 : ∀ r, r ∈ OrdDict.keys sm ↔ r ∈ sf1Scans) :
    Resolved (plan.map fun p => newId m (keyId p.1)) reserved (renamedPlan m sm plan) ↔
      ¬ Unresolved plan ids sf1Scans reserved (m.map Prod.snd) := by
  have hvals : ∀ v, v ∈ plan.map (fun p => newId m (keyId p.1)) ↔ v ∈ m.map Prod.snd := by
    intro v
    rw [mem_values_iff hm, List.mem_map]
    constructor
    · intro h
      obtain ⟨p, hp, rfl⟩ := h
      exact ⟨_, (hids _).mpr ⟨p, hp, rfl⟩, rfl⟩
    · intro h
      obtain ⟨n, hn, rfl⟩ := h
      obtain ⟨p, hp, rfl⟩ := (hids n).mp hn
      exact ⟨p, hp, rfl⟩
  constructor
  · -- an unresolved reference comes through as it is, and is neither a new id nor an SF2 scan
    intro hres hun
    obtain ⟨p, hp, q, r, hqr, hscan, hnew, hkind⟩ := hun
    have hp' : (toString (newId m (keyId p.1)), renameRefs (idRenaming m sm) p.2) ∈
        renamedPlan m sm plan := List.mem_map.mpr ⟨p, hp, rfl⟩
    have hno : ∀ q', q' ∈ walkRefs (renameRefs (idRenaming m sm) p.2) → toInt q'.2 ≠ .ok r := by
      intro q' hq' he
      rcases hres _ hp' q' hq' r he with h | h
      · exact hnew ((hvals r).mp h)
      · exact hscan h
    rcases hkind with hq | ⟨hq, hri, hrs⟩
    · exact hno q (mem_walkRefs_renamed.mpr (Or.inr hq)) hqr
    · refine hno _ (mem_walkRefs_renamed.mpr (Or.inl ⟨q, hq, rfl⟩)) ?_
      have hnone : idRenaming m sm r = none := by
        rw [idRenaming, OrdDict.get?_eq_none.mpr (fun h => hri ((hm.mem_keys r).mp h)),
          OrdDict.get?_eq_none.mpr (fun h => hrs ((hsf1 r).mp h))]
        rfl
      rw [toInt_renameRef hqr, hnone]
      rfl
  · intro hun p hp q hq r hqr
    obtain ⟨p', hp', rfl⟩ := List.mem_map.mp hp
    rw [hvals]
    by_contra hout
    rw [not_or] at hout
    -- a bad reference of the result was renamed, or is a nested one
    rcases mem_walkRefs_renamed.mp hq with ⟨q', hq', rfl⟩ | hq
    · cases hq'r : toInt q'.2 with
      | error e =>
        rw [renameRef_of_error hq'r, hq'r] at hqr
        exact absurd hqr (by simp)
      | ok r' =>
        rw [toInt_renameRef hq'r] at hqr
        injection hqr with hqr
        -- `id_map` comes first, then the scan mapping, then the id itself
        by_cases hi : r' ∈ ids
        · rw [idRenaming, get?_eq_newId hm hi] at hqr
          have hqr : newId m r' = r := hqr
          exact hout.1 (hqr ▸ List.mem_map_of_mem (newId_mem hm hi))
        · have hni := OrdDict.get?_eq_none.mpr (fun h => hi ((hm.mem_keys r').mp h))
          rw [idRenaming, hni] at hqr
          cases hs : OrdDict.get? sm r' with
          | some s =>
            rw [hs] at hqr
            have hqr : s = r := hqr
            exact hout.2 (hqr ▸ hsm r' s hs)
          | none =>
            rw [hs] at hqr
            have hqr : r' = r := hqr
            subst hqr
            exact hun ⟨p', hp', q', r', hq'r, hout.2, hout.1, Or.inr ⟨hq', hi, fun h =>
              OrdDict.get?_eq_none.mp hs ((hsf1 r').mpr h)⟩⟩
    · exact hun ⟨p', hp', q, r, hqr, hout.2, hout.1, Or.inl hq⟩

/-- Renaming keeps the operators: the renamed plan is well shaped exactly if the nodes were. -/
theorem wellShaped_renamedPlan (hm : IdMap ids reserved m) {sm : List (Int × Int)}
    {plan : List (String × Json)} (hin : ∀ p ∈ plan, keyId p.1 ∈ ids) :
    WellShaped (renamedPlan m sm plan) ↔ ∀ p ∈ plan, ∃ op, p.2 = .obj [op] := by
  constructor
  · intro h p hp
    obtain ⟨_, op, hop⟩ := h _ (List.mem_map.mpr ⟨p, hp, rfl⟩)
    cases hv : p.2 with
    | obj kvs =>
      rw [hv] at hop
      cases kvs with
      | nil => exact absurd hop (by simp [renameRefs, renameRefsFields])
      | cons a kvs =>
        cases kvs with
        | nil => exact ⟨a, rfl⟩
        | cons b kvs => exact absurd hop (by simp [renameRefs, renameRefsFields])
    | _ =>
      rw [hv] at hop
      exact absurd hop (by simp [renameRefs])
  · intro h p hp
    obtain ⟨p', hp', rfl⟩ := List.mem_map.mp hp
    obtain ⟨op, hop⟩ := h p' hp'
    refine ⟨(Py.int_toString_int (newId_nonneg hm (hin p' hp'))).1, ?_⟩
    rw [hop]
    exact ⟨_, rfl⟩

end DbPlanBench.Transfer
