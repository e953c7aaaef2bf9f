import DbPlanBench.Lib.Except
import DbPlanBench.Py.Err
import Mathlib.Data.List.Sort
import Mathlib.Order.Defs.LinearOrder

/-!
# Scan signatures and the scan mapping

The table info of a plan lists its scans, each with an id and its node. The ids of
two plans have nothing to do with each other, so `_build_scan_id_mapping` pairs
the scans of SF1 with those of SF2 by a signature of the node, and within one
signature by increasing id.

The signature is the text `json.dumps(..., sort_keys=True)` of a few chosen fields.
Two such texts are equal exactly when the values are equal up to the order of
object fields, so the model keeps the value with its fields sorted (`canonical`)
in place of the text.
-/

namespace DbPlanBench.Transfer

/-! ## Canonical JSON -/

/-- `sort_keys=True` for one object. -/
def sortFields (kvs : List (String × Json)) : List (String × Json) :=
  kvs.insertionSort (·.1 ≤ ·.1)

mutual

/-- `_json_dumps_canonical`, as a value instead of a text. -/
def canonical : Json → Json
  | .obj kvs => .obj (sortFields (canonicalFields kvs))
  | .arr xs => .arr (canonicalList xs)
  | v => v
termination_by structural v => v

def canonicalList : List Json → List Json
  | [] => []
  | x :: xs => canonical x :: canonicalList xs
termination_by structural xs => xs

def canonicalFields : List (String × Json) → List (String × Json)
  | [] => []
  | (k, v) :: kvs => (k, canonical v) :: canonicalFields kvs
termination_by structural kvs => kvs

end

/-! ## Table info -/

/-- The id and the node of an entry that has both. -/
def tableInfoEntry? : Json → Option (Json × Json)
  | .obj e =>
    match OrdDict.get? e "id", OrdDict.get? e "node" with
    | some sid, some node => some (sid, node)
    | _, _ => none
  | _ => none

/-- `_table_info_entries`, each entry as its id and node. -/
def tableInfoEntries : Json → Except PyErr (List (Json × Json))
  | .null => .ok []
  | .arr es => .ok (es.filterMap tableInfoEntry?)
  | .obj kvs =>
    match OrdDict.get? kvs "entries" with
    | some (.arr es) => .ok (es.filterMap tableInfoEntry?)
    | _ => .error (.planTransferError "transfer" "succinct_table_info must be list" [])
  | _ => .error (.planTransferError "transfer" "succinct_table_info must be list" [])

/-! ## Signatures -/

/-- `d.get(k, None)`. -/
def getOrNull (kvs : List (String × Json)) (k : String) : Json := (OrdDict.get? kvs k).getD .null

/-- `base.get("schema", {})` and, if that is a dict, its columns. -/
def schemaColumns (base : List (String × Json)) : Json :=
  match (OrdDict.get? base "schema").getD (.obj []) with
  | .obj schema => getOrNull schema "columns"
  | _ => .null

/-- The part of a scan that its signature keeps. -/
def normalizedScan (ps base : List (String × Json)) : Json :=
  .obj [("op", .str "parquetScan"),
    ("baseConf", .obj [
      ("schema.columns", schemaColumns base),
      ("projection", getOrNull base "projection"),
      ("constraints", getOrNull base "constraints")]),
    ("predicate", getOrNull ps "predicate")]

/-- `isinstance(node, dict) and "parquetScan" in node`. -/
def IsParquetScan : Json → Prop
  | .obj kvs => (OrdDict.get? kvs "parquetScan").isSome
  | _ => False

instance (node : Json) : Decidable (IsParquetScan node) := by
  cases node <;> (unfold IsParquetScan; infer_instance)

/-- `_scan_normalized_signature`. A scan whose configuration is no dict has no `get`. -/
def scanNormalizedSignature (scanNode : Json) : Except PyErr Json :=
  match scanNode with
  | .obj kvs =>
    match OrdDict.get? kvs "parquetScan" with
    | none => .ok (canonical scanNode)
    | some (.obj ps) =>
      match (OrdDict.get? ps "baseConf").getD (.obj []) with
      | .obj base => .ok (canonical (normalizedScan ps base))
      | _ => .error .attributeError
    | some _ => .error .attributeError
  | _ => .ok (canonical scanNode)

/-- The loop of `_build_scan_signature_map`. -/
def scanSignatures : List (Json × Json) → List (Int × Json) → Except PyErr (List (Int × Json))
  | [], sigById => .ok sigById
  | (sid, node) :: es, sigById =>
    match sid.asInt with
    | none => .error (.planTransferError "transfer" "succinct_table_info entry.id must be int" [])
    | some n => do
      let sig ← scanNormalizedSignature node
      scanSignatures es (OrdDict.set sigById n sig)

/-- `_build_scan_signature_map`. -/
def buildScanSignatureMap (succinctTableInfo : Json) : Except PyErr (List (Int × Json)) := do
  scanSignatures (← tableInfoEntries succinctTableInfo) []

/-! ## The mapping -/

/-- The reverse map of a signature map: signature to sorted ids. -/
def idsBySignature (sigById : List (Int × Json)) : List (Json × List Int) :=
  (OrdDict.group sigById).map fun p => (p.1, p.2.insertionSort (· ≤ ·))

/-- The loop of `_build_scan_id_mapping` over the signatures of SF1. -/
def pairScans (sf2BySig : List (Json × List Int)) :
    List (Json × List Int) → List (Int × Int) → Except PyErr (List (Int × Int))
  | [], mapping => .ok mapping
  | (sig, sf1Ids) :: rest, mapping =>
    let sf2Ids := (OrdDict.get? sf2BySig sig).getD []
    if sf2Ids.length < sf1Ids.length then
      .error (.planTransferError "transfer" "scan-signature-unmatched"
        [("sig", sig), ("sf1_count", .int sf1Ids.length), ("sf2_count", .int sf2Ids.length)])
    else
      pairScans sf2BySig rest
        ((sf1Ids.zip sf2Ids).foldl (fun m p => OrdDict.set m p.1 p.2) mapping)

/-- `_build_scan_id_mapping`. -/
def buildScanIdMapping (sf1Succinct sf2Succinct : Json) : Except PyErr (List (Int × Int)) := do
  let sf1Sig ← buildScanSignatureMap sf1Succinct
  let sf2Sig ← buildScanSignatureMap sf2Succinct
  pairScans (idsBySignature sf2Sig) (idsBySignature sf1Sig) []

/-! ## What the signature map holds -/

/-- The ids of a table info that are integers. -/
def scanIds (succinctTableInfo : Json) : List Int :=
  match tableInfoEntries succinctTableInfo with
  | .ok es => es.filterMap (·.1.asInt)
  | .error _ => []

/-- The node stored last under an id, which is the one a dictionary keeps. -/
def lastNode? : List (Json × Json) → Int → Option Json
  | [], _ => none
  | (sid, node) :: es, n => (lastNode? es n).or (if sid.asInt = some n then some node else none)

/-- The node of a scan. -/
def scanNode? (succinctTableInfo : Json) (n : Int) : Option Json :=
  match tableInfoEntries succinctTableInfo with
  | .ok es => lastNode? es n
  | .error _ => none

/-- One entry of the loop. -/
theorem scanSignatures_cons {sid node : Json} {es : List (Json × Json)} {d d' : List (Int × Json)}
    (h : scanSignatures ((sid, node) :: es) d = .ok d') :
    ∃ n sig, sid.asInt = some n ∧ scanNormalizedSignature node = .ok sig ∧
      scanSignatures es (OrdDict.set d n sig) = .ok d' := by
  rw [scanSignatures] at h
  cases hn : sid.asInt with
  | none =>
    rw [hn] at h
    exact absurd h (by simp)
  | some n =>
    rw [hn] at h
    obtain ⟨sig, hsig, h⟩ := Except.bind_eq_ok.mp h
    exact ⟨n, sig, rfl, hsig, h⟩

/-- Every signature the loop ends with is that of the last node with the id. -/
theorem scanSignatures_get? : ∀ {es : List (Json × Json)} {d d' : List (Int × Json)},
    scanSignatures es d = .ok d' → ∀ {n : Int} {sig : Json}, OrdDict.get? d' n = some sig →
      (∃ node, lastNode? es n = some node ∧ scanNormalizedSignature node = .ok sig) ∨
        (lastNode? es n = none ∧ OrdDict.get? d n = some sig)
  | [], d, d', h, n, sig, hs => by
    injection h with h
    exact Or.inr ⟨rfl, h ▸ hs⟩
  | (sid, node) :: es, d, d', h, n, sig, hs => by
    obtain ⟨m, sig', hm, hsig', h⟩ := scanSignatures_cons h
    rw [lastNode?, hm]
    rcases scanSignatures_get? h hs with ⟨node', hl, hn⟩ | ⟨hl, hd⟩
    · exact Or.inl ⟨node', by rw [hl]; rfl, hn⟩
    · rw [hl]
      by_cases hmn : m = n
      · rw [if_pos (by rw [hmn])]
        rw [hmn, OrdDict.get?_set_self] at hd
        injection hd with hd
        exact Or.inl ⟨node, rfl, hd ▸ hsig'⟩
      · rw [if_neg (fun e => hmn (Option.some.inj e))]
        rw [OrdDict.get?_set_ne d sig' (fun e => hmn e.symm)] at hd
        exact Or.inr ⟨rfl, hd⟩

theorem scanSignatures_keys : ∀ {es : List (Json × Json)} {d d' : List (Int × Json)},
    scanSignatures es d = .ok d' → ∀ n : Int,
      n ∈ OrdDict.keys d' ↔ n ∈ OrdDict.keys d ∨ n ∈ es.filterMap (·.1.asInt)
  | [], d, d', h, n => by
    injection h with h
    rw [h]
    simp
  | (sid, node) :: es, d, d', h, n => by
    obtain ⟨m, sig, hm, _, h⟩ := scanSignatures_cons h
    have hcons : ((sid, node) :: es).filterMap (·.1.asInt) = m :: es.filterMap (·.1.asInt) :=
      List.filterMap_cons_some hm
    rw [scanSignatures_keys h n, OrdDict.mem_keys_set, hcons, List.mem_cons, or_assoc,
      or_left_comm]

theorem scanSignatures_nodup : ∀ {es : List (Json × Json)} {d d' : List (Int × Json)},
    scanSignatures es d = .ok d' → (OrdDict.keys d).Nodup → (OrdDict.keys d').Nodup
  | [], d, d', h, hd => by
    injection h with h
    exact h ▸ hd
  | (sid, node) :: es, d, d', h, hd => by
    obtain ⟨m, sig, _, _, h⟩ := scanSignatures_cons h
    exact scanSignatures_nodup h (OrdDict.nodup_keys_set m sig hd)

/-- The signature map has the integer ids of the table info as its keys, each once. -/
theorem buildScanSignatureMap_keys {info : Json} {sigs : List (Int × Json)}
    (h : buildScanSignatureMap info = .ok sigs) :
    (OrdDict.keys sigs).Nodup ∧ ∀ n, n ∈ OrdDict.keys sigs ↔ n ∈ scanIds info := by
  obtain ⟨es, hes, h⟩ := Except.bind_eq_ok.mp h
  refine ⟨scanSignatures_nodup h List.nodup_nil, fun n => ?_⟩
  rw [scanSignatures_keys h n, scanIds, hes]
  simp

/-- A signature in the map is that of the scan's node. -/
theorem buildScanSignatureMap_get? {info : Json} {sigs : List (Int × Json)}
    (h : buildScanSignatureMap info = .ok sigs) {n : Int} {sig : Json}
    (hs : OrdDict.get? sigs n = some sig) :
    ∃ node, scanNode? info n = some node ∧ scanNormalizedSignature node = .ok sig := by
  obtain ⟨es, hes, h⟩ := Except.bind_eq_ok.mp h
  rw [scanNode?, hes]
  rcases scanSignatures_get? h hs with hnode | ⟨_, hd⟩
  · exact hnode
  · exact absurd hd (by simp)

/-! ## What the mapping pairs -/

theorem mem_idsBySignature {sigs : List (Int × Json)} {sig : Json} {ids : List Int}
    (h : (sig, ids) ∈ idsBySignature sigs) {n : Int} : n ∈ ids ↔ (n, sig) ∈ sigs := by
  obtain ⟨⟨sig', ids'⟩, hg, he⟩ := List.mem_map.mp h
  injection he with hsig hids
  rw [← hids, ← hsig, List.mem_insertionSort]
  exact OrdDict.mem_of_mem_group hg

theorem exists_mem_idsBySignature {sigs : List (Int × Json)} {sig : Json} {n : Int}
    (h : (n, sig) ∈ sigs) : ∃ ids, (sig, ids) ∈ idsBySignature sigs ∧ n ∈ ids := by
  obtain ⟨ids, hg, hn⟩ := OrdDict.exists_mem_group h
  exact ⟨_, List.mem_map_of_mem hg, (List.mem_insertionSort _).mpr hn⟩

/-- The ids of one signature, whether it occurs or not. -/
theorem mem_lookup_idsBySignature {sigs : List (Int × Json)} {sig : Json} {n : Int}
    (h : n ∈ (OrdDict.get? (idsBySignature sigs) sig).getD []) : (n, sig) ∈ sigs := by
  cases hg : OrdDict.get? (idsBySignature sigs) sig with
  | none =>
    rw [hg] at h
    exact absurd h List.not_mem_nil
  | some ids =>
    rw [hg] at h
    exact (mem_idsBySignature (OrdDict.mem_of_get? hg)).mp h

theorem mem_foldl_set {ps : List (Int × Int)} {m : List (Int × Int)} {p : Int × Int}
    (hp : OrdDict.get? (ps.foldl (fun m q => OrdDict.set m q.1 q.2) m) p.1 = some p.2) :
    p ∈ ps ∨ OrdDict.get? m p.1 = some p.2 := by
  induction ps generalizing m with
  | nil => exact Or.inr hp
  | cons q ps ih =>
    rw [List.foldl_cons] at hp
    rcases ih hp with hin | hset
    · exact Or.inl (List.mem_cons_of_mem _ hin)
    · by_cases hq : p.1 = q.1
      · rw [hq, OrdDict.get?_set_self] at hset
        injection hset with hset
        exact Or.inl (List.mem_cons.mpr (Or.inl (Prod.ext hq hset.symm)))
      · rw [OrdDict.get?_set_ne m q.2 hq] at hset
        exact Or.inr hset

theorem mem_keys_foldl_set {ps : List (Int × Int)} {m : List (Int × Int)} {n : Int} :
    n ∈ OrdDict.keys (ps.foldl (fun m q => OrdDict.set m q.1 q.2) m) ↔
      n ∈ OrdDict.keys m ∨ n ∈ ps.map Prod.fst := by
  induction ps generalizing m with
  | nil => simp
  | cons q ps ih =>
    rw [List.foldl_cons, ih, OrdDict.mem_keys_set, List.map_cons, List.mem_cons, or_assoc,
      or_left_comm]

/-- What the loop pairs was paired before or has its two ids under one signature. -/
theorem pairScans_get? {g2 : List (Json × List Int)} :
    ∀ {g1 : List (Json × List Int)} {m m' : List (Int × Int)}, pairScans g2 g1 m = .ok m' →
      ∀ {s1 s2 : Int}, OrdDict.get? m' s1 = some s2 → OrdDict.get? m s1 = some s2 ∨
        ∃ sig ids, (sig, ids) ∈ g1 ∧ s1 ∈ ids ∧ s2 ∈ (OrdDict.get? g2 sig).getD []
  | [], m, m', h, s1, s2, hs => by
    injection h with h
    exact Or.inl (h ▸ hs)
  | (sig, ids) :: g1, m, m', h, s1, s2, hs => by
    rw [pairScans] at h
    split at h
    next => exact absurd h (by simp)
    next =>
      rcases pairScans_get? h hs with hm | ⟨sig', ids', hin, h1, h2⟩
      · rcases mem_foldl_set (p := (s1, s2)) hm with hz | hm
        · have hz := List.of_mem_zip hz
          exact Or.inr ⟨sig, ids, List.mem_cons_self .., hz.1, hz.2⟩
        · exact Or.inl hm
      · exact Or.inr ⟨sig', ids', List.mem_cons_of_mem _ hin, h1, h2⟩

theorem pairScans_keys {g2 : List (Json × List Int)} :
    ∀ {g1 : List (Json × List Int)} {m m' : List (Int × Int)}, pairScans g2 g1 m = .ok m' →
      ∀ n, n ∈ OrdDict.keys m' ↔ n ∈ OrdDict.keys m ∨ ∃ sig ids, (sig, ids) ∈ g1 ∧ n ∈ ids
  | [], m, m', h, n => by
    injection h with h
    rw [h]
    simp
  | (sig, ids) :: g1, m, m', h, n => by
    rw [pairScans] at h
    split at h
    next => exact absurd h (by simp)
    next hlen =>
      -- the group has as many scans on both sides, so all of its SF1 scans get a pair
      rw [pairScans_keys h n, mem_keys_foldl_set, List.map_fst_zip (by omega), or_assoc]
      refine or_congr (Iff.refl _) ⟨fun hn => ?_, fun hn => ?_⟩
      · rcases hn with hn | ⟨sig', ids', hin, hn⟩
        · exact ⟨sig, ids, List.mem_cons_self .., hn⟩
        · exact ⟨sig', ids', List.mem_cons_of_mem _ hin, hn⟩
      · obtain ⟨sig', ids', hin, hn⟩ := hn
        rcases List.mem_cons.mp hin with he | hin
        · injection he with _ hids
          exact Or.inl (hids ▸ hn)
        · exact Or.inr ⟨sig', ids', hin, hn⟩

/-- **The mapping is defined on the scans of SF1, leads to scans of SF2, and pairs scans of one
signature.** -/
theorem buildScanIdMapping_spec {sf1 sf2 : Json} {m : List (Int × Int)}
    (h : buildScanIdMapping sf1 sf2 = .ok m) :
    (∀ r, r ∈ OrdDict.keys m ↔ r ∈ scanIds sf1) ∧
      ∀ s1 s2, OrdDict.get? m s1 = some s2 → s2 ∈ scanIds sf2 ∧ ∃ n1 n2 sig,
        scanNode? sf1 s1 = some n1 ∧ scanNode? sf2 s2 = some n2 ∧
          scanNormalizedSignature n1 = .ok sig ∧ scanNormalizedSignature n2 = .ok sig := by
  obtain ⟨sigs1, h1, h⟩ := Except.bind_eq_ok.mp h
  obtain ⟨sigs2, h2, h⟩ := Except.bind_eq_ok.mp h
  obtain ⟨hnd1, hkeys1⟩ := buildScanSignatureMap_keys h1
  obtain ⟨hnd2, hkeys2⟩ := buildScanSignatureMap_keys h2
  refine ⟨fun r => ?_, fun s1 s2 hs => ?_⟩
  · rw [pairScans_keys h r, ← hkeys1 r]
    constructor
    · intro hr
      rcases hr with hr | ⟨sig, ids, hin, hr⟩
      · exact absurd hr (by simp)
      · exact OrdDict.mem_keys_of_mem ((mem_idsBySignature hin).mp hr)
    · intro hr
      obtain ⟨sig, hsig⟩ := OrdDict.get?_isSome.mpr hr
      obtain ⟨ids, hin, hr⟩ := exists_mem_idsBySignature (OrdDict.mem_of_get? hsig)
      exact Or.inr ⟨sig, ids, hin, hr⟩
  · rcases pairScans_get? h hs with hs | ⟨sig, ids, hin, hs1, hs2⟩
    · exact absurd hs (by simp)
    · -- both stand in a group of one signature
      have hm1 := (mem_idsBySignature hin).mp hs1
      have hm2 := mem_lookup_idsBySignature hs2
      obtain ⟨n1, hn1, hsig1⟩ := buildScanSignatureMap_get? h1 (OrdDict.get?_of_mem hnd1 hm1)
      obtain ⟨n2, hn2, hsig2⟩ := buildScanSignatureMap_get? h2 (OrdDict.get?_of_mem hnd2 hm2)
      exact ⟨(hkeys2 s2).mp (OrdDict.mem_keys_of_mem hm2), n1, n2, sig, hn1, hn2, hsig1, hsig2⟩

end DbPlanBench.Transfer
