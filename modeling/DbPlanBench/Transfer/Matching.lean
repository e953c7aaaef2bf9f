import DbPlanBench.Lib.OrderMatching
import DbPlanBench.Transfer.Rewrite

/-!
# The scan mapping is the one order-preserving matching

`_build_scan_id_mapping` groups the scans of either plan by signature, sorts the ids of
every group and pairs them position by position. So it fails if some signature occurs
more often in SF1, and otherwise returns the matching of `Lib/OrderMatching`: of the
ids of one signature the smallest SF2 ids are used, in increasing order. There is only
one such matching, which is why the order of the entries does not matter.

All of this needs signatures. `_scan_normalized_signature` asks whether `baseConf` is a
dict before it reads the schema, and then reads the projection and the constraints from
whatever it is, so a scan without a dict there ends with an `AttributeError`
(`pairsInOrder_iff`).
-/

namespace DbPlanBench.Transfer

/-! ## Tables and their signatures -/

/-- The entries of a table info, each as its id and node. -/
def scanEntries (succinctTableInfo : Json) : List (Json × Json) :=
  match tableInfoEntries succinctTableInfo with
  | .ok es => es
  | .error _ => []

/-- A table info whose ids are integers, no two of them the same. -/
structure IsTableInfo (succinctTableInfo : Json) : Prop where
  accepted : ∃ es, tableInfoEntries succinctTableInfo = .ok es
  integers : ∀ e ∈ scanEntries succinctTableInfo, ∃ n, e.1.asInt = some n
  distinct : (scanIds succinctTableInfo).Nodup

/-- If the node is a scan, its configuration is a dict, and so is `baseConf` if it is there. -/
def ReadableScan (node : Json) : Prop :=
  ∀ kvs, node = .obj kvs → ∀ scan, OrdDict.get? kvs "parquetScan" = some scan →
    ∃ ps, scan = .obj ps ∧ ∀ conf, OrdDict.get? ps "baseConf" = some conf → ∃ base, conf = .obj base

/-- Every scan of a table info is readable. -/
def ReadableScans (succinctTableInfo : Json) : Prop :=
  ∀ e ∈ scanEntries succinctTableInfo, ReadableScan e.2

/-- The id and the signature of an entry that has both. -/
def scanClass? (e : Json × Json) : Option (Int × Json) := do
  let n ← e.1.asInt
  let sig ← (scanNormalizedSignature e.2).toOption
  return (n, sig)

/-- The ids of a table info with their signatures. -/
def scanClasses (succinctTableInfo : Json) : List (Int × Json) :=
  (scanEntries succinctTableInfo).filterMap scanClass?

/-- How often a signature occurs. -/
def signatureCount (succinctTableInfo sig : Json) : Nat :=
  (scanEntries succinctTableInfo).countP fun e => (scanNormalizedSignature e.2).toOption = some sig

/-- The same entries in another order. -/
def Reordered (succinctTableInfo succinctTableInfo' : Json) : Prop :=
  ∃ es es', tableInfoEntries succinctTableInfo = .ok es ∧
    tableInfoEntries succinctTableInfo' = .ok es' ∧ es.Perm es'

/-- Some signature occurs more often in SF1 than in SF2. -/
def TooFewScans (sf1Succinct sf2Succinct : Json) : Prop :=
  ∃ sig, signatureCount sf2Succinct sig < signatureCount sf1Succinct sig

/-- The mapping is refused exactly if SF2 has too few scans of a signature, and otherwise is the
order-preserving matching, however the entries are ordered. -/
structure PairsInOrder (sf1Succinct sf2Succinct : Json) : Prop where
  raises : RaisesPlanTransfer (buildScanIdMapping sf1Succinct sf2Succinct) ↔
    TooFewScans sf1Succinct sf2Succinct
  returns : ¬ TooFewScans sf1Succinct sf2Succinct →
    ∃ mapping, buildScanIdMapping sf1Succinct sf2Succinct = .ok mapping ∧
      (∀ n, (OrdDict.get? mapping n).isSome ↔ n ∈ scanIds sf1Succinct) ∧
      OrderMatching (scanClasses sf1Succinct) (scanClasses sf2Succinct) (OrdDict.get? mapping) ∧
      ∀ sf1Succinct' sf2Succinct', Reordered sf1Succinct sf1Succinct' →
        Reordered sf2Succinct sf2Succinct' →
          ∃ mapping', buildScanIdMapping sf1Succinct' sf2Succinct' = .ok mapping' ∧
            ∀ n, OrdDict.get? mapping' n = OrdDict.get? mapping n

/-! ## The signature map -/

section

variable {node info : Json} {es : List (Json × Json)} {d : List (Int × Json)}

theorem scanNormalizedSignature_readable (h : ReadableScan node) :
    ∃ sig, scanNormalizedSignature node = .ok sig := by
  cases node with
  | obj kvs =>
    rw [scanNormalizedSignature]
    cases hs : OrdDict.get? kvs "parquetScan" with
    | none => exact ⟨_, rfl⟩
    | some scan =>
      obtain ⟨ps, rfl, hconf⟩ := h kvs rfl scan hs
      cases hb : OrdDict.get? ps "baseConf" with
      | none => simp [hb]
      | some conf =>
        obtain ⟨base, rfl⟩ := hconf conf hb
        simp [hb]
  | _ => exact ⟨_, rfl⟩

/-- Without a dict to read from there is no `get`. -/
theorem scanNormalizedSignature_unreadable (h : ¬ ReadableScan node) :
    scanNormalizedSignature node = .error .attributeError := by
  rw [ReadableScan] at h
  push Not at h
  obtain ⟨kvs, rfl, scan, hs, h⟩ := h
  rw [scanNormalizedSignature, hs]
  cases scan with
  | obj ps =>
    obtain ⟨conf, hb, hconf⟩ := h ps rfl
    cases conf with
    | obj base => exact absurd rfl (hconf base)
    | _ => simp [hb]
  | _ => rfl

/-- The loop stores the entries in order, if it can tell their signatures. -/
theorem scanSignatures_readable : ∀ {es : List (Json × Json)} {d : List (Int × Json)},
    (∀ e ∈ es, ∃ n, e.1.asInt = some n) → (∀ e ∈ es, ReadableScan e.2) →
      scanSignatures es d =
        .ok ((es.filterMap scanClass?).foldl (fun d p => OrdDict.set d p.1 p.2) d)
  | [], d, _, _ => rfl
  | (sid, node) :: es, d, hint, hread => by
    obtain ⟨n, hn⟩ := hint _ (List.mem_cons_self ..)
    obtain ⟨sig, hsig⟩ := scanNormalizedSignature_readable (hread _ (List.mem_cons_self ..))
    have hclass : scanClass? (sid, node) = some (n, sig) := by
      rw [scanClass?, hn, hsig]
      rfl
    rw [scanSignatures, hn, List.filterMap_cons_some hclass, List.foldl_cons]
    show (scanNormalizedSignature node >>= _) = _
    rw [hsig, Except.ok_bind]
    exact scanSignatures_readable (fun e he => hint e (List.mem_cons_of_mem _ he))
      fun e he => hread e (List.mem_cons_of_mem _ he)

/-- The loop stops at a scan without a dict. -/
theorem scanSignatures_unreadable : ∀ {es : List (Json × Json)} {d : List (Int × Json)},
    (∀ e ∈ es, ∃ n, e.1.asInt = some n) → (∃ e ∈ es, ¬ ReadableScan e.2) →
      scanSignatures es d = .error .attributeError
  | [], _, _, h => by
    obtain ⟨e, he, _⟩ := h
    exact absurd he List.not_mem_nil
  | (sid, node) :: es, d, hint, h => by
    obtain ⟨n, hn⟩ := hint _ (List.mem_cons_self ..)
    rw [scanSignatures, hn]
    show (scanNormalizedSignature node >>= _) = _
    by_cases hread : ReadableScan node
    · obtain ⟨sig, hsig⟩ := scanNormalizedSignature_readable hread
      rw [hsig, Except.ok_bind]
      obtain ⟨e, he, hbad⟩ := h
      rcases List.mem_cons.mp he with rfl | he
      · exact absurd hread hbad
      · exact scanSignatures_unreadable (fun e he => hint e (List.mem_cons_of_mem _ he))
          ⟨e, he, hbad⟩
    · rw [scanNormalizedSignature_unreadable hread, Except.error_bind]

theorem tableInfoEntries_eq (h : IsTableInfo info) :
    tableInfoEntries info = .ok (scanEntries info) := by
  obtain ⟨es, hes⟩ := h.accepted
  rw [scanEntries, hes]

theorem scanIds_eq (h : IsTableInfo info) :
    scanIds info = (scanEntries info).filterMap (·.1.asInt) := by
  rw [scanIds, tableInfoEntries_eq h]

/-- Where every signature can be told, every id has one. -/
theorem scanClasses_fst (h : IsTableInfo info) (hread : ReadableScans info) :
    (scanClasses info).map Prod.fst = scanIds info := by
  rw [scanIds_eq h, scanClasses, List.map_filterMap]
  refine List.filterMap_congr fun e he => ?_
  obtain ⟨n, hn⟩ := h.integers e he
  obtain ⟨sig, hsig⟩ := scanNormalizedSignature_readable (hread e he)
  rw [scanClass?, hn, hsig]
  rfl

theorem signatureCount_eq (h : IsTableInfo info) (sig : Json) :
    signatureCount info sig = (scanClasses info).countP (·.2 = sig) := by
  rw [signatureCount, scanClasses, List.countP_filterMap]
  refine List.countP_congr fun e he => ?_
  obtain ⟨n, hn⟩ := h.integers e he
  rw [scanClass?, hn]
  cases (scanNormalizedSignature e.2).toOption <;> simp

theorem buildScanSignatureMap_readable (h : IsTableInfo info)
    (hread : ReadableScans info) :
    buildScanSignatureMap info = .ok (scanClasses info) := by
  have hnodup : ((scanClasses info).map Prod.fst).Nodup := by
    rw [scanClasses_fst h hread]
    exact h.distinct
  rw [buildScanSignatureMap, tableInfoEntries_eq h, Except.ok_bind,
    scanSignatures_readable h.integers hread]
  refine congrArg Except.ok ?_
  refine (OrdDict.foldl_set_fresh Prod.fst Prod.snd (scanClasses info) [] hnodup
    fun p _ => List.not_mem_nil).trans ?_
  rw [List.nil_append]
  exact List.map_id _

theorem buildScanSignatureMap_unreadable (h : IsTableInfo info)
    (hread : ¬ ReadableScans info) :
    buildScanSignatureMap info = .error .attributeError := by
  rw [ReadableScans] at hread
  push Not at hread
  rw [buildScanSignatureMap, tableInfoEntries_eq h, Except.ok_bind,
    scanSignatures_unreadable h.integers hread]

end

/-! ## Pairing the groups -/

section

variable {sigs sigs' : List (Int × Json)} {g g' : List (Json × List Int)} {m : List (Int × Int)}

theorem lookup_idsBySignature (sigs : List (Int × Json)) (sig : Json) :
    (OrdDict.get? (idsBySignature sigs) sig).getD [] = OrderMatching.classIds sigs sig := by
  rw [idsBySignature, OrdDict.get?_map_snd, OrderMatching.classIds, ← OrdDict.get?_group]
  cases OrdDict.get? (OrdDict.group sigs) sig <;> rfl

theorem nodup_keys_idsBySignature (sigs : List (Int × Json)) :
    (OrdDict.keys (idsBySignature sigs)).Nodup := by
  have hkeys : OrdDict.keys (idsBySignature sigs) = OrdDict.keys (OrdDict.group sigs) := by
    simp [idsBySignature, OrdDict.keys, Function.comp_def]
  rw [hkeys]
  exact OrdDict.nodup_keys_group sigs

/-- A group holds the ids of its signature in increasing order. -/
theorem group_eq_classIds {p : Json × List Int} (h : p ∈ idsBySignature sigs) :
    p.2 = OrderMatching.classIds sigs p.1 := by
  rw [← lookup_idsBySignature, OrdDict.get?_of_mem (nodup_keys_idsBySignature sigs) h]
  rfl

/-- An id stands in one group, once. -/
theorem nodup_groups (h : (sigs.map Prod.fst).Nodup) :
    ((idsBySignature sigs).flatMap (·.2)).Nodup := by
  rw [List.nodup_flatMap]
  constructor
  · intro p hp
    rw [group_eq_classIds hp]
    exact (OrderMatching.classIds_increasing h p.1).imp fun hlt => hlt.ne
  · refine List.Pairwise.imp_of_mem (fun {p q} hp hq hne => ?_)
      (List.pairwise_map.mp (nodup_keys_idsBySignature sigs))
    intro n hnp hnq
    have hnp := (mem_idsBySignature hp).mp hnp
    exact hne (OrderMatching.class_unique h hnp ((mem_idsBySignature hq).mp hnq))

/-- With enough scans in every group, the loop stores the pairs of all groups. -/
theorem pairScans_eq_ok : ∀ {g : List (Json × List Int)} {m : List (Int × Int)},
    (∀ p ∈ g, p.2.length ≤ ((OrdDict.get? g' p.1).getD []).length) →
      (OrdDict.keys m ++ g.flatMap (·.2)).Nodup →
        pairScans g' g m = .ok (m ++ g.flatMap fun p => p.2.zip ((OrdDict.get? g' p.1).getD []))
  | [], m, _, _ => by
    rw [pairScans]
    simp
  | (sig, ids) :: g, m, hlen, hnodup => by
    have hle := hlen _ (List.mem_cons_self ..)
    rw [pairScans, if_neg (by simpa using hle)]
    rw [List.flatMap_cons, ← List.append_assoc, List.nodup_append] at hnodup
    obtain ⟨hhead, hrest, hdisj⟩ := hnodup
    obtain ⟨_, hids, hfresh⟩ := List.nodup_append.mp hhead
    have hfst : (ids.zip ((OrdDict.get? g' sig).getD [])).map Prod.fst = ids :=
      List.map_fst_zip hle
    have hset : (ids.zip ((OrdDict.get? g' sig).getD [])).foldl
        (fun m (p : Int × Int) => OrdDict.set m p.1 p.2) m =
          m ++ ids.zip ((OrdDict.get? g' sig).getD []) := by
      have happend := OrdDict.foldl_set_fresh Prod.fst Prod.snd
        (ids.zip ((OrdDict.get? g' sig).getD [])) m (hfst.symm ▸ hids) fun p hp hmem =>
          hfresh p.1 hmem p.1 (List.of_mem_zip hp).1 rfl
      exact happend.trans (congrArg (m ++ ·) (List.map_id _))
    have hkeys : OrdDict.keys (m ++ ids.zip ((OrdDict.get? g' sig).getD [])) =
        OrdDict.keys m ++ ids := by
      rw [OrdDict.keys_append]
      exact congrArg _ hfst
    rw [hset, pairScans_eq_ok (fun p hp => hlen p (List.mem_cons_of_mem _ hp))
      (by rw [hkeys]; exact List.nodup_append.mpr ⟨hhead, hrest, hdisj⟩), List.flatMap_cons,
      List.append_assoc]

/-- The pairs of all groups have the ids of the groups as their keys. -/
theorem keys_pairs : ∀ {g : List (Json × List Int)},
    (∀ p ∈ g, p.2.length ≤ ((OrdDict.get? g' p.1).getD []).length) →
      OrdDict.keys (g.flatMap fun p => p.2.zip ((OrdDict.get? g' p.1).getD [])) =
        g.flatMap (·.2)
  | [], _ => rfl
  | p :: g, hlen => by
    rw [List.flatMap_cons, List.flatMap_cons, OrdDict.keys_append,
      keys_pairs fun q hq => hlen q (List.mem_cons_of_mem _ hq)]
    exact congrArg (· ++ _) (List.map_fst_zip (hlen p (List.mem_cons_self ..)))

/-- A group that is larger in SF1 stops the loop. -/
theorem pairScans_raises : ∀ {g : List (Json × List Int)} {m : List (Int × Int)},
    (∃ p ∈ g, ((OrdDict.get? g' p.1).getD []).length < p.2.length) →
      RaisesPlanTransfer (pairScans g' g m)
  | [], _, h => by
    obtain ⟨p, hp, _⟩ := h
    exact absurd hp List.not_mem_nil
  | (sig, ids) :: g, m, h => by
    rw [pairScans]
    split
    next => exact ⟨_, rfl, trivial⟩
    next hlen =>
      obtain ⟨p, hp, hlt⟩ := h
      rcases List.mem_cons.mp hp with rfl | hp
      · exact absurd hlt hlen
      · exact pairScans_raises ⟨p, hp, hlt⟩

end

/-! ## The mapping -/

section

variable {sf1Succinct sf2Succinct : Json}

theorem tooFewScans_iff (h1 : IsTableInfo sf1Succinct) (h2 : IsTableInfo sf2Succinct) :
    TooFewScans sf1Succinct sf2Succinct ↔
      ∃ sig, (OrderMatching.classIds (scanClasses sf2Succinct) sig).length <
        (OrderMatching.classIds (scanClasses sf1Succinct) sig).length := by
  refine exists_congr fun sig => ?_
  rw [signatureCount_eq h1, signatureCount_eq h2, OrderMatching.length_classIds,
    OrderMatching.length_classIds]

/-- With signatures, the mapping is the loop over the groups. -/
theorem buildScanIdMapping_readable (h1 : IsTableInfo sf1Succinct)
    (h2 : IsTableInfo sf2Succinct) (hread1 : ReadableScans sf1Succinct)
    (hread2 : ReadableScans sf2Succinct) :
    buildScanIdMapping sf1Succinct sf2Succinct =
      pairScans (idsBySignature (scanClasses sf2Succinct))
        (idsBySignature (scanClasses sf1Succinct)) [] := by
  rw [buildScanIdMapping, buildScanSignatureMap_readable h1 hread1, Except.ok_bind,
    buildScanSignatureMap_readable h2 hread2, Except.ok_bind]

/-- Without a signature the mapping ends with an `AttributeError`. -/
theorem buildScanIdMapping_unreadable (h1 : IsTableInfo sf1Succinct)
    (h2 : IsTableInfo sf2Succinct)
    (hread : ¬ (ReadableScans sf1Succinct ∧ ReadableScans sf2Succinct)) :
    buildScanIdMapping sf1Succinct sf2Succinct = .error .attributeError := by
  rw [buildScanIdMapping]
  by_cases hread1 : ReadableScans sf1Succinct
  · rw [buildScanSignatureMap_readable h1 hread1, Except.ok_bind,
      buildScanSignatureMap_unreadable h2 fun hread2 => hread ⟨hread1, hread2⟩, Except.error_bind]
  · rw [buildScanSignatureMap_unreadable h1 hread1, Except.error_bind]

theorem buildScanIdMapping_raises (h1 : IsTableInfo sf1Succinct)
    (h2 : IsTableInfo sf2Succinct) (hread1 : ReadableScans sf1Succinct)
    (hread2 : ReadableScans sf2Succinct) (h : TooFewScans sf1Succinct sf2Succinct) :
    RaisesPlanTransfer (buildScanIdMapping sf1Succinct sf2Succinct) := by
  obtain ⟨sig, hlt⟩ := (tooFewScans_iff h1 h2).mp h
  -- a signature with more scans than none is a group of SF1
  obtain ⟨n, hn⟩ := List.exists_mem_of_length_pos (Nat.zero_lt_of_lt hlt)
  obtain ⟨ids, hin, _⟩ := exists_mem_idsBySignature (OrderMatching.mem_classIds.mp hn)
  have hids : ids = OrderMatching.classIds (scanClasses sf1Succinct) sig := group_eq_classIds hin
  rw [buildScanIdMapping_readable h1 h2 hread1 hread2]
  refine pairScans_raises ⟨(sig, ids), hin, ?_⟩
  rw [lookup_idsBySignature, hids]
  exact hlt

/-- **With enough scans of every signature the mapping is the order-preserving matching.** -/
theorem buildScanIdMapping_matching (h1 : IsTableInfo sf1Succinct)
    (h2 : IsTableInfo sf2Succinct) (hread1 : ReadableScans sf1Succinct)
    (hread2 : ReadableScans sf2Succinct) (h : ¬ TooFewScans sf1Succinct sf2Succinct) :
    ∃ mapping, buildScanIdMapping sf1Succinct sf2Succinct = .ok mapping ∧
      OrderMatching (scanClasses sf1Succinct) (scanClasses sf2Succinct)
        (OrdDict.get? mapping) := by
  rw [tooFewScans_iff h1 h2] at h
  push Not at h
  have hnd1 : ((scanClasses sf1Succinct).map Prod.fst).Nodup :=
    scanClasses_fst h1 hread1 ▸ h1.distinct
  have hnd2 : ((scanClasses sf2Succinct).map Prod.fst).Nodup :=
    scanClasses_fst h2 hread2 ▸ h2.distinct
  have hlen : ∀ p ∈ idsBySignature (scanClasses sf1Succinct), p.2.length ≤
      ((OrdDict.get? (idsBySignature (scanClasses sf2Succinct)) p.1).getD []).length := by
    intro p hp
    rw [group_eq_classIds hp, lookup_idsBySignature]
    exact h p.1
  have hok := pairScans_eq_ok (m := []) hlen (nodup_groups hnd1)
  have hkeys := (keys_pairs hlen).symm ▸ nodup_groups hnd1
  rw [List.nil_append] at hok
  rw [buildScanIdMapping_readable h1 h2 hread1 hread2]
  refine ⟨_, hok, OrderMatching.of_zip hnd1 hnd2 h fun a t => ⟨fun hat => ?_, fun hat => ?_⟩⟩
  · obtain ⟨p, hp, hat⟩ := List.mem_flatMap.mp (OrdDict.mem_of_get? hat)
    rw [group_eq_classIds hp, lookup_idsBySignature] at hat
    exact ⟨p.1, hat⟩
  · obtain ⟨sig, hat⟩ := hat
    have ha := (List.of_mem_zip hat).1
    obtain ⟨ids, hin, _⟩ := exists_mem_idsBySignature (OrderMatching.mem_classIds.mp ha)
    have hids : ids = OrderMatching.classIds (scanClasses sf1Succinct) sig := group_eq_classIds hin
    refine OrdDict.get?_of_mem hkeys (List.mem_flatMap.mpr ⟨(sig, ids), hin, ?_⟩)
    rw [lookup_idsBySignature, hids]
    exact hat

/-! ## Reordered entries -/

variable {info info' : Json}

theorem IsTableInfo.reordered (h : IsTableInfo info) (hr : Reordered info info') :
    IsTableInfo info' ∧ (scanEntries info).Perm (scanEntries info') := by
  obtain ⟨es, es', hes, hes', hperm⟩ := hr
  have hperm' : (scanEntries info).Perm (scanEntries info') := by
    rw [scanEntries, scanEntries, hes, hes']
    exact hperm
  refine ⟨⟨⟨es', hes'⟩, fun e he => h.integers e (hperm'.mem_iff.mpr he), ?_⟩, hperm'⟩
  have hids : scanIds info' = (scanEntries info').filterMap (·.1.asInt) := by
    rw [scanIds, scanEntries, hes']
  rw [hids, ← (hperm'.filterMap _).nodup_iff, ← scanIds_eq h]
  exact h.distinct

/-- A list of entries may be put in any order. -/
theorem reordered_arr {es es' : List Json} (h : es.Perm es') : Reordered (.arr es) (.arr es') :=
  ⟨_, _, rfl, rfl, h.filterMap _⟩

theorem signatureCount_perm (h : (scanEntries info).Perm (scanEntries info')) (sig : Json) :
    signatureCount info sig = signatureCount info' sig := h.countP_eq _

/-! ## When the scans are paired in order -/

theorem not_pairsInOrder (h : buildScanIdMapping sf1Succinct sf2Succinct = .error .attributeError) :
    ¬ PairsInOrder sf1Succinct sf2Succinct := by
  intro hp
  by_cases hfew : TooFewScans sf1Succinct sf2Succinct
  · have hraises := hp.raises.mpr hfew
    rw [h] at hraises
    exact raises_error_iff.mp hraises
  · obtain ⟨mapping, hm, _⟩ := hp.returns hfew
    rw [h] at hm
    exact absurd hm (by simp)

/-- **The scans are paired in order exactly if every scan has dicts to read its signature from.** -/
theorem pairsInOrder_iff (h1 : IsTableInfo sf1Succinct) (h2 : IsTableInfo sf2Succinct) :
    PairsInOrder sf1Succinct sf2Succinct ↔
      ReadableScans sf1Succinct ∧ ReadableScans sf2Succinct := by
  constructor
  · intro hp
    by_contra hread
    exact not_pairsInOrder (buildScanIdMapping_unreadable h1 h2 hread) hp
  · intro hread
    obtain ⟨hread1, hread2⟩ := hread
    refine ⟨⟨fun hraises => ?_, buildScanIdMapping_raises h1 h2 hread1 hread2⟩, fun hfew => ?_⟩
    · by_contra hfew
      obtain ⟨mapping, hm, _⟩ := buildScanIdMapping_matching h1 h2 hread1 hread2 hfew
      obtain ⟨e, he, _⟩ := hraises
      rw [hm] at he
      exact absurd he (by simp)
    · obtain ⟨mapping, hm, hmatch⟩ := buildScanIdMapping_matching h1 h2 hread1 hread2 hfew
      refine ⟨mapping, hm, fun n => ?_, hmatch, fun sf1Succinct' sf2Succinct' hr1 hr2 => ?_⟩
      · rw [hmatch.defined n, scanClasses_fst h1 hread1]
      · obtain ⟨h1', hperm1⟩ := h1.reordered hr1
        obtain ⟨h2', hperm2⟩ := h2.reordered hr2
        have hfew' : ¬ TooFewScans sf1Succinct' sf2Succinct' := fun hfew' => by
          obtain ⟨sig, hlt⟩ := hfew'
          rw [← signatureCount_perm hperm1, ← signatureCount_perm hperm2] at hlt
          exact hfew ⟨sig, hlt⟩
        obtain ⟨mapping', hm', hmatch'⟩ := buildScanIdMapping_matching h1' h2'
          (fun e he => hread1 e (hperm1.mem_iff.mpr he))
          (fun e he => hread2 e (hperm2.mem_iff.mpr he)) hfew'
        -- both are the one matching of the same two sets
        have heq := hmatch'.unique (hmatch.perm (hperm1.filterMap _) (hperm2.filterMap _))
        exact ⟨mapping', hm', fun n => congrFun heq n⟩

/-- One scan with an id, its configuration, and nothing else. -/
def oneScan (n : Int) (conf : Json) : Json :=
  .arr [.obj [("id", .int n), ("node", .obj [("parquetScan", conf)])]]

theorem isTableInfo_oneScan (n : Int) (conf : Json) : IsTableInfo (oneScan n conf) where
  accepted := ⟨_, rfl⟩
  integers := by
    intro e he
    exact ⟨n, by rw [List.mem_singleton.mp he]; rfl⟩
  distinct := List.nodup_singleton n

theorem readableScans_oneScan (n : Int) {ps : List (String × Json)}
    (h : ∀ conf, OrdDict.get? ps "baseConf" = some conf → ∃ base, conf = .obj base) :
    ReadableScans (oneScan n (.obj ps)) := by
  intro e he kvs hkvs scan hscan
  rw [List.mem_singleton.mp he] at hkvs
  injection hkvs with hkvs
  rw [← hkvs] at hscan
  injection hscan with hscan
  exact ⟨ps, hscan.symm, h⟩

theorem pairsInOrder_oneScan :
    PairsInOrder (oneScan 100 (.obj [("baseConf", .obj [])])) (oneScan 200 (.obj [])) :=
  (pairsInOrder_iff (isTableInfo_oneScan _ _) (isTableInfo_oneScan _ _)).mpr
    ⟨readableScans_oneScan 100 fun conf h => ⟨[], by injection h with h; exact h.symm⟩,
      readableScans_oneScan 200 fun conf h => absurd h (by simp)⟩

/-- A scan that is `null`. -/
theorem nullScan_attributeError :
    IsTableInfo (oneScan 0 .null) ∧
      buildScanIdMapping (oneScan 0 .null) (oneScan 0 .null) = .error .attributeError ∧
      ¬ PairsInOrder (oneScan 0 .null) (oneScan 0 .null) :=
  ⟨isTableInfo_oneScan _ _, rfl, not_pairsInOrder rfl⟩

end

end DbPlanBench.Transfer
