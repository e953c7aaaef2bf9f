import DbPlanBench.Transfer.Scan

/-!
# What a pairing of scans guarantees

Two scans are paired when their signatures are equal. The signature keeps the
schema's columns, the projection, the constraints and the predicate, so paired
parquet scans agree on these (`buildScanIdMapping_pairs_agree`). It leaves out the
files, the limit and the output ordering, and two tables may well have the same
columns: the Join Order Benchmark has `comp_cast_type` and `company_type`, both
`(id, kind)`. Nothing else in the pairing looks at the table, so scans of the two
can be paired crosswise (`pairing_crosses_tables`).
-/

namespace DbPlanBench.Transfer

/-- The configuration of a parquet scan: the fields of `parquetScan` and of its `baseConf`. -/
structure ScanConf where
  ps : List (String × Json)
  base : List (String × Json)

/-- The configuration of a parquet scan node, if it is well formed. -/
def scanConf? : Json → Option ScanConf
  | .obj kvs =>
    match OrdDict.get? kvs "parquetScan" with
    | some (.obj ps) =>
      match (OrdDict.get? ps "baseConf").getD (.obj []) with
      | .obj base => some ⟨ps, base⟩
      | _ => none
    | _ => none
  | _ => none

/-- The elements of a list field. -/
def listField (k : String) : Json → List Json
  | .obj kvs =>
    match OrdDict.get? kvs k with
    | some (.arr xs) => xs
    | _ => []
  | _ => []

/-- The path of a file, less the folders it lies in. -/
def fileName? : Json → Option (List Char)
  | .obj kvs =>
    match OrdDict.get? kvs "path" with
    | some (.str path) => (path.toList.splitOn '/').getLast?
    | _ => none
  | _ => none

namespace ScanConf

/-- The names of the files a scan reads. -/
def fileNames (c : ScanConf) : List (List Char) :=
  ((listField "fileGroups" (.obj c.base)).flatMap (listField "files")).filterMap fileName?

/-- The two scans agree on what the signature keeps, up to the order of object fields. -/
structure AgreeOnSignature (c c' : ScanConf) : Prop where
  columns : canonical (schemaColumns c.base) = canonical (schemaColumns c'.base)
  projection : canonical (getOrNull c.base "projection") = canonical (getOrNull c'.base "projection")
  constraints :
    canonical (getOrNull c.base "constraints") = canonical (getOrNull c'.base "constraints")
  predicate : canonical (getOrNull c.ps "predicate") = canonical (getOrNull c'.ps "predicate")

/-- The two scans agree on everything that decides which rows of their table they return. -/
structure SameRows (c c' : ScanConf) : Prop extends AgreeOnSignature c c' where
  table : c.fileNames = c'.fileNames
  limit : canonical (getOrNull c.base "limit") = canonical (getOrNull c'.base "limit")
  outputOrdering :
    canonical (getOrNull c.base "outputOrdering") = canonical (getOrNull c'.base "outputOrdering")

end ScanConf

/-! ## What the signature determines -/

/-- A signed parquet scan is well formed, and its signature is that of the chosen fields. -/
theorem scanConf?_of_signature {node sig : Json} (hp : IsParquetScan node)
    (h : scanNormalizedSignature node = .ok sig) :
    ∃ c, scanConf? node = some c ∧ sig = canonical (normalizedScan c.ps c.base) := by
  cases node with
  | obj kvs =>
    rw [IsParquetScan] at hp
    simp only [scanNormalizedSignature] at h
    unfold scanConf?
    cases hps : OrdDict.get? kvs "parquetScan" with
    | none =>
      rw [hps] at hp
      exact absurd hp (by simp)
    | some scan =>
      rw [hps] at h
      cases scan with
      | obj ps =>
        cases hb : (OrdDict.get? ps "baseConf").getD (.obj []) with
        | obj base =>
          simp only [hb] at h
          injection h with h
          exact ⟨⟨ps, base⟩, by simp only [hps, hb], h.symm⟩
        | _ =>
          simp only [hb] at h
          exact absurd h (by simp)
      | _ => exact absurd h (by simp)
  | _ => exact hp.elim

/-- The signature with its fields in their sorted order. -/
theorem canonical_normalizedScan (ps base : List (String × Json)) :
    canonical (normalizedScan ps base) =
      .obj [("baseConf", .obj [
          ("constraints", canonical (getOrNull base "constraints")),
          ("projection", canonical (getOrNull base "projection")),
          ("schema.columns", canonical (schemaColumns base))]),
        ("op", .str "parquetScan"),
        ("predicate", canonical (getOrNull ps "predicate"))] := by
  simp [normalizedScan, canonical, canonicalFields, sortFields, List.orderedInsert]

/-- Equal signatures mean agreement on all that is signed. -/
theorem agree_of_signature {c c' : ScanConf}
    (h : canonical (normalizedScan c.ps c.base) = canonical (normalizedScan c'.ps c'.base)) :
    c.AgreeOnSignature c' := by
  rw [canonical_normalizedScan, canonical_normalizedScan] at h
  simp only [Json.obj.injEq, List.cons.injEq, Prod.mk.injEq, true_and, and_true] at h
  exact ⟨h.1.2.2, h.1.2.1, h.1.1, h.2⟩

/-- **Paired parquet scans agree on columns, projection, constraints and predicate.** -/
theorem buildScanIdMapping_pairs_agree {sf1 sf2 : Json} {m : List (Int × Int)}
    (h : buildScanIdMapping sf1 sf2 = .ok m) {s1 s2 : Int} (hs : OrdDict.get? m s1 = some s2) :
    ∃ n1 n2, scanNode? sf1 s1 = some n1 ∧ scanNode? sf2 s2 = some n2 ∧
      (IsParquetScan n1 → IsParquetScan n2 →
        ∃ c1 c2, scanConf? n1 = some c1 ∧ scanConf? n2 = some c2 ∧ c1.AgreeOnSignature c2) := by
  obtain ⟨_, n1, n2, sig, hn1, hn2, h1, h2⟩ := (buildScanIdMapping_spec h).2 s1 s2 hs
  refine ⟨n1, n2, hn1, hn2, fun hp1 hp2 => ?_⟩
  obtain ⟨c1, hc1, he1⟩ := scanConf?_of_signature hp1 h1
  obtain ⟨c2, hc2, he2⟩ := scanConf?_of_signature hp2 h2
  exact ⟨c1, c2, hc1, hc2, agree_of_signature (he1.symm.trans he2)⟩

/-! ## What it does not -/

/-- A scan of a table with the columns `id` and `kind`, as in the table info of a JOB query. -/
def jobTypeScan (sid : Int) (path : String) (limit outputOrdering : Json) : Json :=
  .obj [("id", .int sid), ("node", .obj [("parquetScan", .obj [("baseConf", .obj [
    ("fileGroups", .arr [.obj [("files", .arr [.obj [("path", .str path)]])]]),
    ("limit", limit),
    ("outputOrdering", outputOrdering),
    ("projection", .arr [.int 0, .int 1]),
    ("schema", .obj [("columns", .arr [
      .obj [("arrowType", .obj [("INT64", .obj [])]), ("name", .str "id")],
      .obj [("arrowType", .obj [("UTF8", .obj [])]), ("name", .str "kind")]])])])])])]

/-- SF1 numbers `comp_cast_type` first. -/
def jobSf1 : Json := .arr
  [jobTypeScan 5 "sf1/comp_cast_type.parquet" (.obj [("limit", .int 10)]) (.arr [.str "id"]),
   jobTypeScan 8 "sf1/company_type.parquet" .null (.arr [])]

/-- SF2 numbers `company_type` first. -/
def jobSf2 : Json := .arr
  [jobTypeScan 4 "sf2/company_type.parquet" .null (.arr []),
   jobTypeScan 7 "sf2/comp_cast_type.parquet" .null (.arr [])]

/-- The fields of the node of a scan. -/
def scanConfOf? (info : Json) (n : Int) : Option ScanConf := (scanNode? info n).bind scanConf?

/-- Paired scans need not read the same table, nor have the same limit and output ordering. -/
theorem pairing_crosses_tables :
    buildScanIdMapping jobSf1 jobSf2 = .ok [(5, 4), (8, 7)] ∧
      ∃ c1 c2, scanConfOf? jobSf1 5 = some c1 ∧ scanConfOf? jobSf2 4 = some c2 ∧
        c1.fileNames = ["comp_cast_type.parquet".toList] ∧
        c2.fileNames = ["company_type.parquet".toList] ∧
        canonical (getOrNull c1.base "limit") ≠ canonical (getOrNull c2.base "limit") ∧
        canonical (getOrNull c1.base "outputOrdering") ≠
          canonical (getOrNull c2.base "outputOrdering") ∧
        ¬ c1.SameRows c2 := by
  have hmap : buildScanIdMapping jobSf1 jobSf2 = .ok [(5, 4), (8, 7)] := by decide +kernel
  refine ⟨hmap, _, _, rfl, rfl, by decide, by decide, by decide, by decide, fun hsame => ?_⟩
  exact absurd hsame.table (by decide)

/-- The pairing of `jobSf1` with `jobSf2` still agrees on what is signed. -/
theorem buildScanIdMapping_pairs_agree_job : ∃ n1 n2,
    scanNode? jobSf1 5 = some n1 ∧ scanNode? jobSf2 4 = some n2 ∧
      ∃ c1 c2, scanConf? n1 = some c1 ∧ scanConf? n2 = some c2 ∧ c1.AgreeOnSignature c2 := by
  have hmap : buildScanIdMapping jobSf1 jobSf2 = .ok [(5, 4), (8, 7)] := by decide +kernel
  obtain ⟨n1, n2, hn1, hn2, hag⟩ :=
    buildScanIdMapping_pairs_agree hmap
      (show OrdDict.get? [((5 : Int), (4 : Int)), (8, 7)] 5 = some 4 from rfl)
  refine ⟨n1, n2, hn1, hn2, hag ?_ ?_⟩
  · injection hn1 with hn1
    exact hn1 ▸ rfl
  · injection hn2 with hn2
    exact hn2 ▸ rfl

end DbPlanBench.Transfer
