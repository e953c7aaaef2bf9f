import DbPlanBench.Transfer.Accepted
import DbPlanBench.Transfer.Matching

/-!
# The exceptions that escape

`transfer_plan` documents one exception, `PlanTransferError`, and wraps what the patch
engine, the rebinding of scans and the rewriting of references raise. Two stages run
bare on data that nothing has checked: the signatures of the table infos, where a scan
without a dict ends with an `AttributeError`, and the assignment of node ids, where a
reference that `str.isdigit` takes and `int` refuses ends with a `ValueError`.

* `buildScanIdMapping_attributeError_iff` — which table infos do the former.
* `transferPlan_escapes` — no other exception escapes.
* `errorContract_iff` — the contract holds exactly if neither happens.
-/

namespace DbPlanBench.Transfer

/-- The transfer returns, or fails with the documented exception. -/
def ErrorContract (sf1Base sf1Info sf2Base sf2Info patch : Json) : Prop :=
  (∃ out, transferPlan sf1Base sf1Info sf2Base sf2Info patch = .ok out) ∨
    RaisesPlanTransfer (transferPlan sf1Base sf1Info sf2Base sf2Info patch)

/-! ## Signatures -/

/-- The first entry with a fault has an integer id and is a scan that cannot be read. -/
def StopsAtScan : List (Json × Json) → Prop
  | [] => False
  | e :: es => (∃ n, e.1.asInt = some n) ∧ (ReadableScan e.2 → StopsAtScan es)

/-- No entry of the table info has a fault. -/
structure Faultless (succinctTableInfo : Json) : Prop where
  accepted : ∃ es, tableInfoEntries succinctTableInfo = .ok es
  integers : ∀ e ∈ scanEntries succinctTableInfo, ∃ n, e.1.asInt = some n
  readable : ReadableScans succinctTableInfo

/-- The signatures stop at a scan that cannot be read, in SF1 or, if SF1 has no fault, in SF2. -/
def MeetsUnreadableScan (sf1Info sf2Info : Json) : Prop :=
  StopsAtScan (scanEntries sf1Info) ∨ Faultless sf1Info ∧ StopsAtScan (scanEntries sf2Info)

variable {info sf1Info sf2Info : Json}

theorem stopsAtScan_iff : ∀ {es : List (Json × Json)} {d : List (Int × Json)},
    scanSignatures es d = .error .attributeError ↔ StopsAtScan es
  | [], d => by simp [scanSignatures, StopsAtScan]
  | (sid, node) :: es, d => by
    rw [scanSignatures, StopsAtScan]
    cases hn : sid.asInt with
    | none => simp
    | some n =>
      show (scanNormalizedSignature node >>= _) = _ ↔ _
      by_cases hread : ReadableScan node
      · obtain ⟨sig, hsig⟩ := scanNormalizedSignature_readable hread
        rw [hsig, Except.ok_bind, stopsAtScan_iff]
        exact ⟨fun h => ⟨⟨n, rfl⟩, fun _ => h⟩, fun h => h.2 hread⟩
      · rw [scanNormalizedSignature_unreadable hread, Except.error_bind]
        exact iff_of_true rfl ⟨⟨n, rfl⟩, fun h => absurd h hread⟩

/-- The loop fails with one of two exceptions. -/
theorem scanSignatures_failsIn : ∀ (es : List (Json × Json)) (d : List (Int × Json)),
    (scanSignatures es d).FailsIn fun e => e.IsPlanTransfer ∨ e = .attributeError
  | [], d => .ok d
  | (sid, node) :: es, d => by
    rw [scanSignatures]
    cases sid.asInt with
    | none => exact .error (Or.inl trivial)
    | some n =>
      refine Except.FailsIn.bind ?_ fun sig _ => scanSignatures_failsIn es _
      by_cases hread : ReadableScan node
      · obtain ⟨sig, hsig⟩ := scanNormalizedSignature_readable hread
        rw [hsig]
        exact .ok sig
      · rw [scanNormalizedSignature_unreadable hread]
        exact .error (Or.inr rfl)

theorem tableInfoEntries_failsIn (info : Json) :
    (tableInfoEntries info).FailsIn PyErr.IsPlanTransfer := by
  unfold tableInfoEntries
  split
  next => exact .ok _
  next => exact .ok _
  next =>
    split
    next => exact .ok _
    next => exact .error trivial
  next => exact .error trivial

theorem buildScanSignatureMap_failsIn (info : Json) :
    (buildScanSignatureMap info).FailsIn fun e => e.IsPlanTransfer ∨ e = .attributeError :=
  Except.FailsIn.bind (fun e he => Or.inl (tableInfoEntries_failsIn info e he))
    fun es _ => scanSignatures_failsIn es []

theorem buildScanSignatureMap_attributeError_iff :
    buildScanSignatureMap info = .error .attributeError ↔ StopsAtScan (scanEntries info) := by
  rw [buildScanSignatureMap, scanEntries]
  cases hes : tableInfoEntries info with
  | error e =>
    have he := tableInfoEntries_failsIn info e hes
    refine iff_of_false (fun h => ?_) id
    rw [Except.error_bind] at h
    injection h with h
    rw [h] at he
    exact he
  | ok es => exact stopsAtScan_iff

/-- A loop that ends has found no fault. -/
theorem faultless_of_scanSignatures : ∀ {es : List (Json × Json)} {d d' : List (Int × Json)},
    scanSignatures es d = .ok d' → ∀ e ∈ es, (∃ n, e.1.asInt = some n) ∧ ReadableScan e.2
  | [], _, _, _, _, he => absurd he List.not_mem_nil
  | (sid, node) :: es, d, d', h, e, he => by
    obtain ⟨n, sig, hn, hsig, h⟩ := scanSignatures_cons h
    rcases List.mem_cons.mp he with rfl | he
    · refine ⟨⟨n, hn⟩, by_contra fun hread => ?_⟩
      rw [scanNormalizedSignature_unreadable hread] at hsig
      exact absurd hsig (by simp)
    · exact faultless_of_scanSignatures h e he

/-- The signatures can be told exactly if no entry has a fault. -/
theorem faultless_iff : (∃ sigs, buildScanSignatureMap info = .ok sigs) ↔ Faultless info := by
  constructor
  · intro h
    obtain ⟨sigs, h⟩ := h
    obtain ⟨es, hes, h⟩ := Except.bind_eq_ok.mp h
    have hentries : scanEntries info = es := by rw [scanEntries, hes]
    have hall := faultless_of_scanSignatures h
    rw [← hentries] at hall
    exact ⟨⟨es, hes⟩, fun e he => (hall e he).1, fun e he => (hall e he).2⟩
  · intro h
    obtain ⟨es, hes⟩ := h.accepted
    have hentries : scanEntries info = es := by rw [scanEntries, hes]
    rw [buildScanSignatureMap, hes, Except.ok_bind]
    exact ⟨_, scanSignatures_readable (fun e he => h.integers e (hentries ▸ he))
      fun e he => h.readable e (hentries ▸ he)⟩

/-! ## The scan mapping -/

theorem pairScans_failsIn (g' : List (Json × List Int)) : ∀ (g : List (Json × List Int))
    (m : List (Int × Int)), (pairScans g' g m).FailsIn PyErr.IsPlanTransfer
  | [], m => .ok m
  | (sig, ids) :: g, m => by
    rw [pairScans]
    split
    next => exact .error trivial
    next => exact pairScans_failsIn g' g _

theorem buildScanIdMapping_failsIn (sf1Info sf2Info : Json) :
    (buildScanIdMapping sf1Info sf2Info).FailsIn fun e => e.IsPlanTransfer ∨ e = .attributeError :=
  (buildScanSignatureMap_failsIn sf1Info).bind fun _ _ =>
    (buildScanSignatureMap_failsIn sf2Info).bind fun _ _ e he =>
      Or.inl (pairScans_failsIn _ _ _ e he)

/-- **The mapping ends with an `AttributeError` exactly if it meets a scan that it cannot read.** -/
theorem buildScanIdMapping_attributeError_iff :
    buildScanIdMapping sf1Info sf2Info = .error .attributeError ↔
      MeetsUnreadableScan sf1Info sf2Info := by
  rw [MeetsUnreadableScan, ← faultless_iff, ← buildScanSignatureMap_attributeError_iff,
    ← buildScanSignatureMap_attributeError_iff, buildScanIdMapping, Except.bind_eq_error]
  refine or_congr (Iff.refl _) ⟨fun h => ?_, fun h => ?_⟩
  · obtain ⟨sigs, hsigs, h⟩ := h
    refine ⟨⟨sigs, hsigs⟩, ?_⟩
    rcases Except.bind_eq_error.mp h with h | ⟨sigs', _, h⟩
    · exact h
    · exact absurd (pairScans_failsIn _ _ _ _ h) id
  · obtain ⟨⟨sigs, hsigs⟩, h⟩ := h
    exact ⟨sigs, hsigs, by rw [h, Except.error_bind]⟩

/-- A mapping that neither returns nor raises `PlanTransferError` has met such a scan. -/
theorem mapping_contract_iff :
    ((∃ sm, buildScanIdMapping sf1Info sf2Info = .ok sm) ∨
      RaisesPlanTransfer (buildScanIdMapping sf1Info sf2Info)) ↔
        ¬ MeetsUnreadableScan sf1Info sf2Info := by
  rw [← buildScanIdMapping_attributeError_iff]
  cases h : buildScanIdMapping sf1Info sf2Info with
  | ok sm => simp
  | error e =>
    rw [raises_error_iff, Except.error.injEq]
    rcases buildScanIdMapping_failsIn sf1Info sf2Info e h with he | rfl
    · exact iff_of_true (Or.inr he) fun heq => by
        rw [heq] at he
        exact he
    · exact iff_of_false (fun h => h.elim (fun ⟨_, h⟩ => absurd h (by simp)) id) fun h => h rfl

/-! ## The transfer -/

/-- The references of the patched plan, once its scans are those of SF2, are read by `int`. -/
def ReferencesReadable (sf1Info sf2Info : Json) (P : List (String × Json)) : Prop :=
  ∀ sm Q, buildScanIdMapping sf1Info sf2Info = .ok sm →
    rebindParquetScansInStructure P sf2Info "transfer" = .ok Q → Readable Q

section

variable {sf1Base sf1Info sf2Base sf2Info patch : JsonValue} {P : List (String × Json)}

/-- A patch that does not apply is refused, and so is a patched plan that is no dict. -/
theorem errorContract_of_no_plan
    (h : ∀ P, applyJsonPatch sf1Base patch ≠ .ok (.obj P)) :
    ErrorContract sf1Base sf1Info sf2Base sf2Info patch := by
  refine Or.inr ?_
  cases hpatch : applyJsonPatch sf1Base.1 patch.1 with
  | error e =>
    rw [transferPlan, hpatch]
    exact ⟨_, rfl, trivial⟩
  | ok sf1Opt =>
    rw [transferPlan, hpatch]
    refine raises_bind (x := validateStructureDict sf1Opt _) (raises_validate fun hplan => ?_) _
    obtain ⟨P, rfl, _⟩ := hplan
    exact h P hpatch

/-- A transfer of well-shaped plans that keeps to its exception has met no unreadable scan. -/
theorem not_meetsUnreadableScan (hpatch : applyJsonPatch sf1Base patch = .ok (.obj P))
    (hP : WellShaped P) (h1 : IsPlan sf1Base) (h2 : IsPlan sf2Base)
    (h : ErrorContract sf1Base sf1Info sf2Base sf2Info patch) :
    ¬ MeetsUnreadableScan sf1Info sf2Info := by
  intro hmeets
  have hmap := buildScanIdMapping_attributeError_iff.mpr hmeets
  rw [ErrorContract, transferPlan_of_isPlan hpatch hP h1 h2, hmap, Except.error_bind,
    raises_error_iff] at h
  rcases h with ⟨out, h⟩ | h
  · exact absurd h (by simp)
  · exact h

/-- And it has read every reference. -/
theorem referencesReadable_of_contract (hpatch : applyJsonPatch sf1Base patch = .ok (.obj P))
    (hP : WellShaped P) (h1 : IsPlan sf1Base) (h2 : IsPlan sf2Base)
    (h : ErrorContract sf1Base sf1Info sf2Base sf2Info patch) :
    ReferencesReadable sf1Info sf2Info P := by
  intro sm Q hmap hreb
  have hrebound : ∀ {Q'}, rebindParquetScansInStructure P sf2Info.1 "transfer" = .ok Q' → Q' = Q :=
    fun hreb' => Except.ok.inj (hreb'.symm.trans hreb)
  rcases h with ⟨out, h⟩ | h
  · obtain ⟨Q', _, _, hacc, _⟩ :=
      (transferPlan_eq_ok_iff sf1Base sf1Info sf2Base sf2Info patch hpatch out).mp h
    exact hrebound hacc.rebound ▸ hacc.readable
  · rcases (transferPlan_raises_iff sf1Base sf1Info sf2Base sf2Info patch hpatch).mp h with
      hearly | ⟨_, Q', _, hreb', hread, _⟩
    · rcases hearly with hno | hno | hno | hno | ⟨_, e, he⟩
      · exact absurd hP hno
      · exact absurd h1 hno
      · exact absurd h2 hno
      · rw [hmap] at hno
        exact absurd hno (not_raises_ok sm)
      · rw [hreb] at he
        exact absurd he (by simp)
    · exact hrebound hreb' ▸ hread

/-- Without either, a transfer returns or is refused. -/
theorem errorContract_of_readable (hpatch : applyJsonPatch sf1Base patch = .ok (.obj P))
    (hP : WellShaped P) (h1 : IsPlan sf1Base) (h2 : IsPlan sf2Base)
    (hscans : ¬ MeetsUnreadableScan sf1Info sf2Info)
    (hrefs : ReferencesReadable sf1Info sf2Info P) :
    ErrorContract sf1Base sf1Info sf2Base sf2Info patch := by
  have hraises := transferPlan_raises_iff sf1Base sf1Info sf2Base sf2Info patch hpatch
  have hreturns := transferPlan_eq_ok_iff sf1Base sf1Info sf2Base sf2Info patch hpatch
  rcases mapping_contract_iff.mpr hscans with ⟨sm, hmap⟩ | hmap
  · cases hreb : rebindParquetScansInStructure P sf2Info.1 "transfer" with
    | error e =>
      have hearly : RefusedEarly sf1Base.1 sf1Info.1 sf2Base.1 sf2Info.1 P :=
        Or.inr (Or.inr (Or.inr (Or.inr ⟨⟨sm, hmap⟩, e, hreb⟩)))
      exact Or.inr (hraises.mpr (Or.inl hearly))
    | ok Q =>
      have hread := hrefs sm Q hmap hreb
      by_cases hlate : RefusedLate sf1Info.1 sf2Info.1 P
      · exact Or.inr (hraises.mpr (Or.inr hlate))
      · have hfault := fun hf => hlate ⟨sm, Q, hmap, hreb, hread, hf⟩
        have hacc : Accepted sf1Base.1 sf1Info.1 sf2Base.1 sf2Info.1 P Q sm := {
          shaped := hP
          sf1Plan := h1
          sf2Plan := h2
          mapped := hmap
          rebound := hreb
          readable := hread
          canonical := fun p hp => by_contra fun hc => hfault (Or.inl ⟨p, hp, hc⟩)
          single := fun p hp => by_contra fun hc => hfault (Or.inr (Or.inl ⟨p, hp, hc⟩))
          resolved := fun hu => hfault (Or.inr (Or.inr hu)) }
        obtain ⟨m, hm⟩ := hacc.exists_numbering
        exact Or.inl ⟨_, (hreturns _).mpr ⟨Q, sm, m, hacc, hm, rfl⟩⟩
  · exact Or.inr (hraises.mpr (Or.inl (Or.inr (Or.inr (Or.inr (Or.inl hmap))))))

/-- A malformed plan is refused. -/
theorem errorContract_of_misshapen (hpatch : applyJsonPatch sf1Base patch = .ok (.obj P))
    (h : ¬ (WellShaped P ∧ IsPlan sf1Base ∧ IsPlan sf2Base)) :
    ErrorContract sf1Base sf1Info sf2Base sf2Info patch := by
  have hearly : RefusedEarly sf1Base sf1Info sf2Base sf2Info P := by
    rw [RefusedEarly]
    tauto
  exact Or.inr ((transferPlan_raises_iff sf1Base sf1Info sf2Base sf2Info patch hpatch).mpr
    (Or.inl hearly))

/-- A reference that cannot be read is a `ValueError`. -/
theorem valueError_of_unreadable (hpatch : applyJsonPatch sf1Base patch = .ok (.obj P))
    (hP : WellShaped P) (h1 : IsPlan sf1Base) (h2 : IsPlan sf2Base)
    (h : ¬ ReferencesReadable sf1Info sf2Info P) :
    ∃ msg, transferPlan sf1Base sf1Info sf2Base sf2Info patch = .error (.valueError msg) := by
  rw [ReferencesReadable] at h
  push Not at h
  obtain ⟨sm, Q, hmap, hreb, hread⟩ := h
  obtain ⟨reserved, hres⟩ := sf2ScanIds_of_mapping hmap
  obtain ⟨hkeys, ⟨ids, hids⟩, _⟩ := rebind_spec hreb
  have hidsQ : nodeIds Q = .ok ids := by
    rw [nodeIds, hkeys]
    exact hids
  obtain ⟨msg, hmsg⟩ := assignNewNodeIds_error hidsQ hread reserved
  refine ⟨msg, ?_⟩
  rw [transferPlan_of_isPlan hpatch hP h1 h2, hmap, Except.ok_bind, hres, Except.ok_bind, hreb]
  show (assignNewNodeIds Q reserved >>= _) = _
  rw [hmsg, Except.error_bind]

/-- **Only two other exceptions escape.** -/
theorem transferPlan_escapes (h : ¬ ErrorContract sf1Base sf1Info sf2Base sf2Info patch) :
    transferPlan sf1Base sf1Info sf2Base sf2Info patch = .error .attributeError ∨
      ∃ msg, transferPlan sf1Base sf1Info sf2Base sf2Info patch = .error (.valueError msg) := by
  by_cases hplan : ∃ P, applyJsonPatch sf1Base patch = .ok (.obj P)
  · obtain ⟨P, hpatch⟩ := hplan
    obtain ⟨hP, h1, h2⟩ := by_contra fun hshape => h (errorContract_of_misshapen hpatch hshape)
    by_cases hscans : MeetsUnreadableScan sf1Info sf2Info
    · refine Or.inl ?_
      rw [transferPlan_of_isPlan hpatch hP h1 h2, buildScanIdMapping_attributeError_iff.mpr hscans,
        Except.error_bind]
    · exact Or.inr (valueError_of_unreadable hpatch hP h1 h2 fun hrefs =>
        h (errorContract_of_readable hpatch hP h1 h2 hscans hrefs))
  · exact absurd (errorContract_of_no_plan fun P hpatch => hplan ⟨P, hpatch⟩) h

end

/-- **When a transfer keeps to its exception.** A patch that does not apply, a malformed patched
plan and malformed base plans are refused as documented; for the others no scan without a dict may
be met, and no reference that `int` refuses. -/
theorem errorContract_iff (sf1Base sf1Info sf2Base sf2Info patch : JsonValue) :
    ErrorContract sf1Base sf1Info sf2Base sf2Info patch ↔
      ∀ P, applyJsonPatch sf1Base patch = .ok (.obj P) → WellShaped P → IsPlan sf1Base →
        IsPlan sf2Base → ¬ MeetsUnreadableScan sf1Info sf2Info ∧
          ReferencesReadable sf1Info sf2Info P := by
  constructor
  · exact fun h P hpatch hP h1 h2 => ⟨not_meetsUnreadableScan hpatch hP h1 h2 h,
      referencesReadable_of_contract hpatch hP h1 h2 h⟩
  · intro h
    by_cases hplan : ∃ P, applyJsonPatch sf1Base patch = .ok (.obj P)
    · obtain ⟨P, hpatch⟩ := hplan
      by_cases hshape : WellShaped P ∧ IsPlan sf1Base ∧ IsPlan sf2Base
      · obtain ⟨hP, h1, h2⟩ := hshape
        obtain ⟨hscans, hrefs⟩ := h P hpatch hP h1 h2
        exact errorContract_of_readable hpatch hP h1 h2 hscans hrefs
      · exact errorContract_of_misshapen hpatch hshape
    · exact errorContract_of_no_plan fun P hpatch => hplan ⟨P, hpatch⟩

/-! ## Two exceptions that escape -/

/-- A projection whose input is a superscript two, a digit to `isdigit` but not to `int`. -/
def superscriptPlan : Json := .obj [("0", .obj [("projection", .obj [("input", .str "²")])])]

/-- An `AttributeError` from a scan that is `null`, and a `ValueError` from a reference. -/
theorem escaping_exceptions :
    transferPlan (.obj []) (oneScan 0 .null) (.obj []) (.arr []) (.arr []) =
        .error .attributeError ∧
      ¬ ErrorContract (.obj []) (oneScan 0 .null) (.obj []) (.arr []) (.arr []) ∧
      transferPlan superscriptPlan (.arr []) (.obj []) (.arr []) (.arr []) =
        .error (.valueError "invalid literal for int() with base 10") ∧
      ¬ ErrorContract superscriptPlan (.arr []) (.obj []) (.arr []) (.arr []) := by
  have hscan : transferPlan (.obj []) (oneScan 0 .null) (.obj []) (.arr []) (.arr []) =
      .error .attributeError := by decide +kernel
  have href : transferPlan superscriptPlan (.arr []) (.obj []) (.arr []) (.arr []) =
      .error (.valueError "invalid literal for int() with base 10") := by decide +kernel
  refine ⟨hscan, ?_, href, ?_⟩
  · rw [ErrorContract, hscan, raises_error_iff]
    intro h
    rcases h with ⟨out, h⟩ | h
    · exact absurd h (by simp)
    · exact h
  · rw [ErrorContract, href, raises_error_iff]
    intro h
    rcases h with ⟨out, h⟩ | h
    · exact absurd h (by simp)
    · exact h

end DbPlanBench.Transfer
