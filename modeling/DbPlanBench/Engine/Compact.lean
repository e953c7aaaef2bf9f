import DbPlanBench.Engine.Succinct
import DbPlanBench.Lib.FirstCome

/-!
# The compact form of a parquet scan

`succinct_table_info` shows parquet scans in a compact form: without options and column
statistics, with short columns, and with each file once. A file that is scanned in several
byte ranges is in several file groups, and a group is left out as a whole when one of its
files is in a group that is kept before it; the kept groups lose their ranges. So no file is
in two kept groups, but a file is lost when all its groups start with the rest of another
one (`rangeSplit_loses`).

`serde_json`'s way to print a value and Rust's way to read a floating-point number are
parameters; a floating-point number is never a count.

* `compactParquetScanStats_groups` — the file groups of the compact form.
* `compaction_spec` — which groups are kept, and which files.
-/

namespace DbPlanBench.Engine

/-- `format!("{value}")`, and the JSON of what `s.parse::<f64>()` reads. -/
structure Serde where
  display : Json → String
  parseF64 : String → Option Json

/-! ## Access to a value -/

/-- `value.get(k)`. -/
def field? (v : Json) (k : String) : Option Json :=
  match v with
  | .obj m => OrdDict.get? m k
  | _ => none

/-- `if let Some(x) = value.get_mut(k) { … }`. -/
def modifyField (k : String) (f : Json → Json) : Json → Json
  | .obj m =>
    match OrdDict.get? m k with
    | some x => .obj (OrdDict.set m k (f x))
    | none => .obj m
  | v => v

/-- `value.as_object_mut()` and `remove`. -/
def removeField (k : String) : Json → Json
  | .obj m => .obj (OrdDict.erase m k)
  | v => v

/-! ## Statistics -/

/-- `s.parse::<u64>()`. -/
def parseU64 (s : String) : Option Nat := (parseUsize s).toOption

/-- `s.parse::<i64>()`. -/
def parseI64 (s : String) : Option Int :=
  match s.toList with
  | '-' :: digits =>
    if digits ≠ [] ∧ digits.all (·.isDigit) ∧ Nat.ofDigitChars 10 digits 0 ≤ 2 ^ 63 then
      some (-(Nat.ofDigitChars 10 digits 0 : Nat))
    else none
  | _ => ((parseU64 s).filter (· < 2 ^ 63)).map Nat.cast

/-- `parse_numeric_value`. -/
def parseNumericValue (serde : Serde) (val : Json) : Json :=
  match val with
  | .str s =>
    match parseU64 s, parseI64 s, serde.parseF64 s with
    | some n, _, _ => .int n
    | none, some n, _ => .int n
    | none, none, some x => x
    | none, none, none => val
  | _ => val

/-- The fields of `extract_typed_value`, and whether their values are numeric. -/
def typedFields : List (String × Bool) := [
  ("int64Value", true), ("uint64Value", true), ("int32Value", true), ("uint32Value", true),
  ("float32Value", true), ("float64Value", true), ("utf8Value", false), ("utf8ViewValue", false),
  ("binaryValue", false), ("boolValue", false), ("date32Value", true), ("date64Value", true),
  ("timestampValue", true), ("decimal128Value", false), ("decimal256Value", false),
  ("time32Value", true), ("time64Value", true), ("durationValue", true), ("intervalValue", false)]

/-- `extract_typed_value`. -/
def extractTypedValue (serde : Serde) (val : Json) : Json :=
  (typedFields.findSome? fun p =>
    (field? val p.1).map fun v => if p.2 then parseNumericValue serde v else v).getD val

/-- A count of the statistics under its short name. -/
def compactCount (serde : Serde) (name short : String) (m : List (String × Json)) :
    List (String × Json) :=
  match OrdDict.get? m name with
  | none => m
  | some v =>
    match asU64 (extractTypedValue serde (index v "val")) with
    | some n => mapInsert (OrdDict.erase m name) short (.int n)
    | none => OrdDict.erase m name

/-- `compact_statistics`. -/
def compactStatistics (serde : Serde) : Json → Json
  | .obj m => .obj (compactCount serde "totalByteSize" "total_bytes"
      (compactCount serde "numRows" "n_rows" (OrdDict.erase m "columnStats")))
  | v => v

/-! ## Columns -/

/-- `extract_arrow_type`. -/
def extractArrowType (serde : Serde) (arrowType : Option Json) : String :=
  match arrowType with
  | some (.obj ((typeName, typeConfig) :: _)) =>
    if typeName = "DECIMAL" then
      match field? typeConfig "precision", field? typeConfig "scale" with
      | some precision, some scale =>
        "DECIMAL(" ++ serde.display precision ++ "," ++ serde.display scale ++ ")"
      | _, _ => "DECIMAL"
    else typeName
  | _ => "UNKNOWN"

/-- A column as `[name, type, nullable]`; one that has no name, or does not say whether it may be
null, is left out. -/
def compactColumn (serde : Serde) (column : Json) : Option Json :=
  match field? column "name", field? column "nullable" with
  | some name, some nullable =>
    some (.arr [name, .str (extractArrowType serde (field? column "arrowType")), nullable])
  | _, _ => none

/-- `compact_schema`. -/
def compactSchema (serde : Serde) (schema : Json) : Json :=
  modifyField "columns" (fun columns =>
    match columns with
    | .arr cs => .arr (cs.filterMap (compactColumn serde))
    | v => v) schema

/-! ## File groups -/

/-- `file.get("path").and_then(|p| p.as_str())`. -/
def filePath (file : Json) : Option String :=
  match field? file "path" with
  | some (.str path) => some path
  | _ => none

/-- `file_group.get("files")`, if it is an array. -/
def groupFiles (group : Json) : Option (List Json) :=
  match field? group "files" with
  | some (.arr files) => some files
  | _ => none

/-- The paths of the files of a group. -/
def groupPaths (group : Json) : List String := ((groupFiles group).getD []).filterMap filePath

/-- A file of a group that is kept. -/
def compactFile (serde : Serde) (file : Json) : Json :=
  modifyField "statistics" (compactStatistics serde)
    (if (filePath file).isSome then removeField "range" file else file)

/-- A group that is kept. -/
def compactGroup (serde : Serde) (group : Json) : Json :=
  modifyField "files" (fun files =>
    match files with
    | .arr fs => .arr (fs.map (compactFile serde))
    | v => v) group

/-- `seen_file_paths` and `kept_file_groups`. -/
structure KeptGroups where
  seenFilePaths : List String
  keptFileGroups : List Json

/-- The loop over the file groups. -/
def keepGroup (serde : Serde) (kept : KeptGroups) (group : Json) : KeptGroups :=
  match groupFiles group with
  | none => kept
  | some files =>
    if files.any fun file => (filePath file).any (· ∈ kept.seenFilePaths) then kept
    else ⟨kept.seenFilePaths ++ files.filterMap filePath,
      kept.keptFileGroups ++ [compactGroup serde group]⟩

/-- `*file_groups_array = kept_file_groups`. -/
def compactFileGroups (serde : Serde) : Json → Json
  | .arr groups => .arr (groups.foldl (keepGroup serde) ⟨[], []⟩).keptFileGroups
  | v => v

/-- `compact_parquet_scan_stats`. -/
def compactParquetScanStats (serde : Serde) (parquetScan : Json) : Json :=
  modifyField "baseConf" (fun baseConf =>
      modifyField "fileGroups" (compactFileGroups serde)
        (modifyField "statistics" (compactStatistics serde)
          (modifyField "schema" (compactSchema serde) baseConf)))
    (removeField "parquetOptions" parquetScan)

/-- `compacted_node` of a parquet scan. -/
def compactNode (serde : Serde) (rawNode : Json) : Json :=
  modifyField "parquetScan" (compactParquetScanStats serde) rawNode

/-- The file groups of a scan. -/
def fileGroups (parquetScan : Json) : List Json :=
  asArray (index (index parquetScan "baseConf") "fileGroups")

/-- The paths in the groups that are kept of these groups. -/
def keptPaths (serde : Serde) (groups : List Json) : List String :=
  (groups.foldl (keepGroup serde) ⟨[], []⟩).keptFileGroups.flatMap groupPaths

section

variable {serde : Serde}

/-! ## Fields that change -/

theorem field?_modifyField_self (k : String) (f : Json → Json) (v : Json) :
    field? (modifyField k f v) k = (field? v k).map f := by
  cases v with
  | obj m =>
    rw [modifyField, field?]
    cases h : OrdDict.get? m k with
    | none => exact h
    | some x => exact OrdDict.get?_set_self m k (f x)
  | _ => rfl

theorem field?_modifyField_ne {k j : String} (hj : j ≠ k) (f : Json → Json) (v : Json) :
    field? (modifyField k f v) j = field? v j := by
  cases v with
  | obj m =>
    rw [modifyField]
    cases OrdDict.get? m k with
    | none => rfl
    | some x => exact OrdDict.get?_set_ne m (f x) hj
  | _ => rfl

theorem field?_removeField_ne {k j : String} (hj : j ≠ k) (v : Json) :
    field? (removeField k v) j = field? v j := by
  cases v with
  | obj m => exact OrdDict.get?_erase_ne m hj
  | _ => rfl

theorem index_eq (v : Json) (k : String) : index v k = (field? v k).getD .null := by
  cases v <;> rfl

/-! ## Groups that are kept -/

theorem filePath_compactFile (serde : Serde) (file : Json) :
    filePath (compactFile serde file) = filePath file := by
  have hpath : field? (compactFile serde file) "path" = field? file "path" := by
    rw [compactFile, field?_modifyField_ne (by decide)]
    split
    next => exact field?_removeField_ne (by decide) file
    next => rfl
  unfold filePath
  rw [hpath]

/-- **A kept group has its paths.** -/
theorem groupPaths_compactGroup (serde : Serde) (group : Json) :
    groupPaths (compactGroup serde group) = groupPaths group := by
  have hfiles : groupFiles (compactGroup serde group) =
      (groupFiles group).map fun files => files.map (compactFile serde) := by
    rw [groupFiles, groupFiles, compactGroup, field?_modifyField_self]
    cases field? group "files" with
    | none => rfl
    | some v => cases v <;> rfl
  rw [groupPaths, groupPaths, hfiles]
  cases groupFiles group with
  | none => rfl
  | some files =>
    rw [Option.map_some, Option.getD_some, Option.getD_some, List.filterMap_map]
    exact List.filterMap_congr fun file _ => filePath_compactFile serde file

/-- The loop keeps what is new. -/
theorem foldl_keepGroup : ∀ (groups : List Json) (kept : KeptGroups),
    (∀ g ∈ groups, ∃ files, groupFiles g = some files) →
      groups.foldl (keepGroup serde) kept = ⟨kept.seenFilePaths ++
          (FirstCome.keep groupPaths kept.seenFilePaths groups).flatMap groupPaths,
        kept.keptFileGroups ++
          (FirstCome.keep groupPaths kept.seenFilePaths groups).map (compactGroup serde)⟩
  | [], kept, _ => by
    rw [FirstCome.keep, List.flatMap_nil, List.map_nil, List.append_nil, List.append_nil]
    rfl
  | g :: groups, kept, h => by
    obtain ⟨files, hfiles⟩ := h g (List.mem_cons_self ..)
    have hpaths : groupPaths g = files.filterMap filePath := by rw [groupPaths, hfiles]; rfl
    have hany : (files.any fun file => (filePath file).any (· ∈ kept.seenFilePaths)) =
        (groupPaths g).any (· ∈ kept.seenFilePaths) := by
      rw [hpaths, List.any_filterMap]
      refine congrArg (files.any ·) (funext fun file => ?_)
      cases filePath file <;> rfl
    have hrest := fun kept' => foldl_keepGroup groups kept' fun g' hg' =>
      h g' (List.mem_cons_of_mem _ hg')
    rw [List.foldl_cons, hrest, keepGroup, hfiles, FirstCome.keep]
    dsimp only
    rw [hany]
    split
    next => rfl
    next =>
      rw [List.flatMap_cons, List.map_cons, ← hpaths, List.append_assoc, List.append_assoc]
      rfl

/-- **The file groups of the compact form.** -/
theorem compactParquetScanStats_groups (serde : Serde) (scan : Json) :
    fileGroups (compactParquetScanStats serde scan) =
      ((fileGroups scan).foldl (keepGroup serde) ⟨[], []⟩).keptFileGroups := by
  rw [fileGroups, fileGroups, index_eq, index_eq, index_eq, index_eq, compactParquetScanStats,
    field?_modifyField_self, field?_removeField_ne (by decide)]
  cases field? scan "baseConf" with
  | none => rfl
  | some conf =>
    rw [Option.map_some, Option.getD_some, Option.getD_some, field?_modifyField_self,
      field?_modifyField_ne (by decide), field?_modifyField_ne (by decide)]
    cases field? conf "fileGroups" with
    | none => rfl
    | some v => cases v <;> rfl

end

/-- **Which groups are kept, and which files**: some of the groups in their order, no two of them with
a path in common; and a path is kept when a group that has it has no path that is kept before. -/
structure Compacts (serde : Serde) (groups out : List Json) : Prop where
  order : ∃ kept : List Json, kept.Sublist groups ∧ out = kept.map (compactGroup serde) ∧
    out.map groupPaths = kept.map groupPaths
  disjoint : out.Pairwise fun g h => ∀ path ∈ groupPaths g, path ∉ groupPaths h
  paths : ∀ path, path ∈ out.flatMap groupPaths ↔ ∃ before g, before ++ [g] <+: groups ∧
    path ∈ groupPaths g ∧ ∀ p ∈ groupPaths g, p ∉ keptPaths serde before

theorem compaction_spec (serde : Serde) (scan : Json)
    (h : ∀ g ∈ fileGroups scan, ∃ files, groupFiles g = some files) :
    Compacts serde (fileGroups scan) (fileGroups (compactParquetScanStats serde scan)) := by
  have hout : ∀ groups, (∀ g ∈ groups, ∃ files, groupFiles g = some files) →
      (groups.foldl (keepGroup serde) ⟨[], []⟩).keptFileGroups =
        (FirstCome.keep groupPaths [] groups).map (compactGroup serde) := by
    intro groups hgroups
    rw [foldl_keepGroup groups _ hgroups]
    rfl
  have hsame : ∀ kept : List Json,
      (kept.map (compactGroup serde)).map groupPaths = kept.map groupPaths := by
    intro kept
    rw [List.map_map]
    exact List.map_congr_left fun g _ => groupPaths_compactGroup serde g
  have htaken : ∀ groups, (∀ g ∈ groups, ∃ files, groupFiles g = some files) →
      keptPaths serde groups = FirstCome.taken groupPaths groups := by
    intro groups hgroups
    rw [keptPaths, hout groups hgroups, List.flatMap_def, hsame, ← List.flatMap_def,
      FirstCome.taken]
  have hgroups := compactParquetScanStats_groups serde scan
  refine ⟨⟨_, FirstCome.keep_sublist _ [], hgroups.trans (hout _ h), ?_⟩, ?_, fun path => ?_⟩
  · rw [hgroups, hout _ h, hsame]
  · rw [hgroups, hout _ h, List.pairwise_map]
    refine (FirstCome.keep_pairwise _ _).imp fun hdisjoint path hpath => ?_
    rw [groupPaths_compactGroup] at hpath ⊢
    exact hdisjoint path hpath
  · have hkept : (fileGroups (compactParquetScanStats serde scan)).flatMap groupPaths =
        FirstCome.taken groupPaths (fileGroups scan) := by
      rw [hgroups]
      exact htaken _ h
    rw [hkept, FirstCome.mem_taken_iff]
    constructor
    · rintro ⟨before, g, hpre, hpath, hfree⟩
      refine ⟨before, g, hpre, hpath, fun p hp => ?_⟩
      rw [htaken before fun g' hg' => h g' (hpre.subset (List.mem_append_left _ hg'))]
      exact hfree p hp
    · rintro ⟨before, g, hpre, hpath, hfree⟩
      refine ⟨before, g, hpre, hpath, fun p hp => ?_⟩
      rw [← htaken before fun g' hg' => h g' (hpre.subset (List.mem_append_left _ hg'))]
      exact hfree p hp

/-- A file of a range-split scan. -/
def rangeFile (path : String) (start stop : Int) : Json :=
  .obj [("path", .str path), ("range", .obj [("end", .int stop), ("start", .int start)])]

/-- Two files in two groups of equal size. -/
def rangeSplitScan : Json :=
  .obj [("baseConf", .obj [("fileGroups", .arr [
    .obj [("files", .arr [rangeFile "a.parquet" 0 55])],
    .obj [("files", .arr [rangeFile "a.parquet" 55 100, rangeFile "b.parquet" 0 10])]])])]

/-- Numbers are not shown, and no text is one. -/
def noSerde : Serde := ⟨fun _ => "", fun _ => none⟩

theorem rangeSplit_compacts : Compacts noSerde (fileGroups rangeSplitScan)
    (fileGroups (compactParquetScanStats noSerde rangeSplitScan)) := by
  have hfiles : ∀ g ∈ fileGroups rangeSplitScan, (groupFiles g).isSome = true := by decide +kernel
  exact compaction_spec noSerde rangeSplitScan fun g hg => Option.isSome_iff_exists.mp (hfiles g hg)

/-- The second group starts with the rest of the first file, and the second file is lost with it. -/
theorem rangeSplit_loses :
    ¬ ∀ path ∈ (fileGroups rangeSplitScan).flatMap groupPaths,
      ∃ g ∈ fileGroups (compactParquetScanStats noSerde rangeSplitScan), path ∈ groupPaths g := by
  intro h
  obtain ⟨g, hg, hpath⟩ := h "b.parquet" (by decide +kernel)
  have hno : ∀ g ∈ fileGroups (compactParquetScanStats noSerde rangeSplitScan),
      "b.parquet" ∉ groupPaths g := by decide +kernel
  exact hno g hg hpath

end DbPlanBench.Engine
