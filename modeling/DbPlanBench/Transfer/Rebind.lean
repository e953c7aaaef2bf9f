import DbPlanBench.Transfer.Isomorphism
import DbPlanBench.Transfer.Matching
import DbPlanBench.Transfer.Pairing

/-!
# Rebinding embedded scans

`_rebind_parquet_scans_in_structure` groups the scans of a plan by signature, and the SF2
entries as well; it sorts both groups by id and puts the SF2 scans in the place of those of
the plan, position by position. So it fails if some signature has too few SF2 entries, and
otherwise binds every scan to an entry of its signature, those of one signature to
different ones.

Two things can go wrong. A scan without a dict has no signature, and the `AttributeError` is
not caught. And an entry need not be a scan: a node that looks like the text of a
signature has that signature, and when a predicate is carried over to it, it becomes a scan
without columns (`rebind_iff`).
-/

namespace DbPlanBench.Transfer

/-! ## Scans of a signature -/

/-- The node is a scan with this signature. -/
def isScanOf (sig node : Json) : Bool :=
  decide (IsParquetScan node) && decide ((scanNormalizedSignature node).toOption = some sig)

/-- The embedded scans with a signature. -/
def embeddedScans (plan : List (String × Json)) (sig : Json) : List String :=
  OrdDict.keys (plan.filter fun p => isScanOf sig p.2)

/-- The SF2 entries with a signature, by increasing id. -/
def sf2Scans (info sig : Json) : List (Json × Json) :=
  ((scanEntries info).filter fun e => (scanNormalizedSignature e.2).toOption = some sig).insertionSort
    fun a b => (a.1.asInt.getD 0) ≤ (b.1.asInt.getD 0)

/-- A table info with integers as ids, which `_build_scan_signature_map` has checked. -/
structure IntegerIds (info : Json) : Prop where
  accepted : ∃ es, tableInfoEntries info = .ok es
  integers : ∀ e ∈ scanEntries info, ∃ n, e.1.asInt = some n

/-- Some signature has more embedded scans than SF2 entries. -/
def TooManyScans (plan : List (String × Json)) (info : Json) : Prop :=
  ∃ sig, signatureCount info sig < (embeddedScans plan sig).length

/-- The node is an SF2 scan in the place of `node`: the scan of the entry with the predicate of
`node`, and all three have the same signature. -/
def ReboundTo (node : Json) (entry : Json × Json) (new : Json) : Prop :=
  ∃ sig, scanNormalizedSignature node = .ok sig ∧ scanNormalizedSignature entry.2 = .ok sig ∧
    rebindScan node entry.2 = .ok new ∧ scanNormalizedSignature new = .ok sig

/-- **What rebinding returns**: the same keys, the other nodes unchanged, and every scan replaced by
one of SF2, those of one signature by different ones. -/
structure Rebound (plan : List (String × Json)) (info : Json) (out : List (String × Json)) : Prop where
  keys : OrdDict.keys out = OrdDict.keys plan
  others : ∀ k node, OrdDict.get? plan k = some node → ¬ IsParquetScan node →
    OrdDict.get? out k = some node
  scans : ∃ bound : String → Json × Json,
    (∀ k node, OrdDict.get? plan k = some node → IsParquetScan node →
      ∃ new, OrdDict.get? out k = some new ∧ ReboundTo node (bound k) new) ∧
    ∀ sig, ((embeddedScans plan sig).map bound).Subperm (scanEntries info)

/-- Rebinding is refused exactly if there are too many scans, and otherwise it rebinds them. -/
structure RebindsScans (plan : List (String × Json)) (info : Json) (stage : String) : Prop where
  raises : RaisesPlanTransfer (rebindParquetScansInStructure plan info stage) ↔ TooManyScans plan info
  returns : ¬ TooManyScans plan info →
    ∃ out, rebindParquetScansInStructure plan info stage = .ok out ∧ Rebound plan info out

/-- A signature without a predicate, or with nothing else: that of an entry that is no scan stays as it
is when the predicate is carried over to it. -/
def PlainSignature (sig : Json) : Prop :=
  ∃ constraints projection columns predicate, sig = .obj [
      ("baseConf", .obj [("constraints", constraints), ("projection", projection),
        ("schema.columns", columns)]),
      ("op", .str "parquetScan"), ("predicate", predicate)] ∧
    (predicate = .null ∨ constraints = .null ∧ projection = .null ∧ columns = .null)

/-- The SF2 entries that are used for a signature are scans, or keep their signature all the same. -/
def UsesScans (plan : List (String × Json)) (info : Json) : Prop :=
  ∀ sig, ∀ e ∈ (sf2Scans info sig).take (embeddedScans plan sig).length,
    IsParquetScan e.2 ∨ PlainSignature sig

/-! ## One scan -/

section

variable {node entry sig : Json}

theorem scanConf?_eq_some {c : ScanConf} (h : scanConf? node = some c) :
    ∃ kvs, node = .obj kvs ∧ OrdDict.get? kvs "parquetScan" = some (.obj c.ps) ∧
      (OrdDict.get? c.ps "baseConf").getD (.obj []) = .obj c.base := by
  unfold scanConf? at h
  split at h
  next kvs =>
    split at h
    next ps hps =>
      split at h
      next base hbase =>
        injection h with h
        subst h
        exact ⟨kvs, rfl, hps, hbase⟩
      next => exact absurd h (by simp)
    next => exact absurd h (by simp)
  next => exact absurd h (by simp)

/-- The signature of a scan, from its configuration. -/
theorem signature_of_scan {kvs ps base : List (String × Json)}
    (hps : OrdDict.get? kvs "parquetScan" = some (.obj ps))
    (hbase : (OrdDict.get? ps "baseConf").getD (.obj []) = .obj base) :
    scanNormalizedSignature (.obj kvs) = .ok (canonical (normalizedScan ps base)) := by
  simp only [scanNormalizedSignature, hps, hbase]

theorem getOrNull_set_self (d : List (String × Json)) (k : String) (v : Json) :
    getOrNull (OrdDict.set d k v) k = v := by
  rw [getOrNull, OrdDict.get?_set_self]
  rfl

theorem canonical_eq_null {v : Json} : canonical v = .null ↔ v = .null := by
  cases v <;> simp [canonical]

/-- What looks like the signature of a scan is a dict. -/
theorem exists_fields_of_canonical {kvs : List (String × Json)} (h : canonical node = .obj kvs) :
    ∃ fields, node = .obj fields := by
  cases node with
  | obj fields => exact ⟨fields, rfl⟩
  | _ => simp [canonical] at h

theorem isParquetScan_iff {kvs : List (String × Json)} :
    IsParquetScan (.obj kvs) ↔ ∃ scan, OrdDict.get? kvs "parquetScan" = some scan := by
  rw [IsParquetScan, Option.isSome_iff_exists]

/-- **A scan is replaced by an entry of its signature**, and the signature stays, unless the entry is
no scan and gets a predicate. -/
theorem rebindScan_ok (hp : IsParquetScan node) (hnode : scanNormalizedSignature node = .ok sig)
    (hentry : scanNormalizedSignature entry = .ok sig) :
    ∃ new, rebindScan node entry = .ok new ∧
      (scanNormalizedSignature new = .ok sig ↔ IsParquetScan entry ∨ PlainSignature sig) := by
  obtain ⟨c, hc, hsig⟩ := scanConf?_of_signature hp hnode
  obtain ⟨kvs, rfl, hps, hbase⟩ := scanConf?_eq_some hc
  rw [canonical_normalizedScan] at hsig
  have hfields : fieldsOf ((OrdDict.get? (fieldsOf (.obj kvs)) "parquetScan").getD .null) = c.ps := by
    rw [fieldsOf, hps]
    rfl
  unfold rebindScan
  simp only [hfields]
  by_cases hnull : getOrNull c.ps "predicate" = .null
  · -- nothing is carried over
    rw [if_pos hnull]
    have hplain : PlainSignature sig := ⟨_, _, _, _, hsig, Or.inl (canonical_eq_null.mpr hnull)⟩
    exact ⟨entry, rfl, iff_of_true hentry (Or.inr hplain)⟩
  · rw [if_neg hnull]
    by_cases hentryScan : IsParquetScan entry
    · obtain ⟨c', hc', hsig'⟩ := scanConf?_of_signature hentryScan hentry
      obtain ⟨kvs', rfl, hps', hbase'⟩ := scanConf?_eq_some hc'
      simp only [hps', Option.getD_some]
      refine ⟨_, rfl, iff_of_true ?_ (Or.inl hentryScan)⟩
      have hbase'' : (OrdDict.get? (OrdDict.set c'.ps "predicate" (getOrNull c.ps "predicate"))
          "baseConf").getD (.obj []) = .obj c'.base := by
        rw [OrdDict.get?_set_ne _ _ (by decide), hbase']
      rw [signature_of_scan (OrdDict.get?_set_self ..) hbase'']
      -- the predicate is the one that the entry has
      rw [canonical_normalizedScan] at hsig' ⊢
      rw [hsig'] at hsig
      simp only [Json.obj.injEq, List.cons.injEq, Prod.mk.injEq, true_and, and_true] at hsig
      rw [hsig', getOrNull_set_self, ← hsig.2]
    · obtain ⟨fields, rfl⟩ : ∃ fields, entry = .obj fields := by
        have hcanonical : canonical entry = sig := by
          cases entry with
          | obj fields =>
            rw [isParquetScan_iff, ← Option.isSome_iff_exists, Option.not_isSome_iff_eq_none] at hentryScan
            simpa only [scanNormalizedSignature, hentryScan, Except.ok.injEq] using hentry
          | _ => simpa [scanNormalizedSignature] using hentry
        exact exists_fields_of_canonical (hcanonical.trans hsig)
      rw [isParquetScan_iff, ← Option.isSome_iff_exists, Option.not_isSome_iff_eq_none] at hentryScan
      simp only [hentryScan, Option.getD_none]
      refine ⟨_, rfl, ?_⟩
      rw [@signature_of_scan _ _ [] (OrdDict.get?_set_self ..) rfl, canonical_normalizedScan, hsig]
      have hno : ¬ IsParquetScan (.obj fields) := by
        rw [isParquetScan_iff, hentryScan]
        simp
      rw [or_iff_right hno]
      constructor
      · intro h
        injection h with h
        simp only [Json.obj.injEq, List.cons.injEq, Prod.mk.injEq, true_and, and_true] at h
        exact ⟨_, _, _, _, rfl, Or.inr ⟨h.1.1.symm, h.1.2.1.symm, h.1.2.2.symm⟩⟩
      · intro h
        obtain ⟨constraints, projection, columns, predicate, heq, hplain⟩ := h
        simp only [Json.obj.injEq, List.cons.injEq, Prod.mk.injEq, true_and, and_true] at heq
        rcases hplain with hpred | ⟨h1, h2, h3⟩
        · exact absurd (canonical_eq_null.mp (heq.2.trans hpred)) hnull
        · rw [heq.1.1, heq.1.2.1, heq.1.2.2, h1, h2, h3]
          rfl

end

/-! ## The scans by signature -/

section

variable {plan : List (String × Json)} {info : Json}

/-- The keys of a plan in the order of their numbers. -/
def sortedKeys (plan : List (String × Json)) : List String :=
  (((OrdDict.keys plan).map fun k => (keyId k, k)).insertionSort fun a b => a.1 ≤ b.1).map Prod.snd

/-- The embedded scans with a signature, in the order of their numbers. -/
def sortedScans (plan : List (String × Json)) (sig : Json) : List String :=
  (sortedKeys plan).filter fun nid => isScanOf sig ((OrdDict.get? plan nid).getD .null)

theorem sortedKeys_perm (plan : List (String × Json)) :
    (sortedKeys plan).Perm (OrdDict.keys plan) := by
  refine ((List.perm_insertionSort _ _).map _).trans (List.Perm.of_eq ?_)
  rw [List.map_map]
  exact List.map_id _

theorem sortedNodeKeys_of_numerals (hc : ∀ p ∈ plan, ∃ n : Nat, p.1 = toString n) :
    sortedNodeKeys plan = .ok (sortedKeys plan) := by
  have hkeys : ∀ k ∈ OrdDict.keys plan, Py.isdigit k = true ∧ Py.int k = .ok (keyId k) := by
    intro k hk
    obtain ⟨p, hp, rfl⟩ := List.mem_map.mp hk
    obtain ⟨n, hn⟩ := hc p hp
    obtain ⟨hdigit, hint, _⟩ := canonicalKey_of_numeral hn
    exact ⟨hdigit, hint⟩
  have hmap : (OrdDict.keys plan).mapM (fun k => do return (← Py.int k, k) : String → Except PyErr _) =
      .ok ((OrdDict.keys plan).map fun k => (keyId k, k)) :=
    Except.mapM_ok fun k hk => by rw [(hkeys k hk).2]; rfl
  rw [sortedNodeKeys, List.filter_eq_self.mpr fun k hk => (hkeys k hk).1, hmap]
  rfl

/-- The order of the numbers is one of the scans. -/
theorem sortedScans_perm (hnd : (OrdDict.keys plan).Nodup) (sig : Json) :
    (sortedScans plan sig).Perm (embeddedScans plan sig) := by
  have hfilter : (OrdDict.keys plan).filter (fun nid =>
      isScanOf sig ((OrdDict.get? plan nid).getD .null)) = embeddedScans plan sig := by
    rw [embeddedScans, OrdDict.keys, OrdDict.keys, List.filter_map]
    refine congrArg _ (List.filter_congr fun p hp => ?_)
    rw [Function.comp_apply, OrdDict.get?_of_mem hnd (show (p.1, p.2) ∈ plan from hp)]
    rfl
  exact hfilter ▸ (sortedKeys_perm plan).filter _

theorem nodup_sortedScans (hnd : (OrdDict.keys plan).Nodup) (sig : Json) :
    (sortedScans plan sig).Nodup :=
  ((sortedKeys_perm plan).nodup_iff.mpr hnd).filter _

theorem isScanOf_iff {sig node : Json} :
    isScanOf sig node = true ↔ IsParquetScan node ∧ scanNormalizedSignature node = .ok sig := by
  rw [isScanOf, Bool.and_eq_true, decide_eq_true_iff, decide_eq_true_iff]
  refine and_congr_right fun _ => ?_
  cases scanNormalizedSignature node <;> simp [Except.toOption]

theorem length_sf2Scans (info sig : Json) : (sf2Scans info sig).length = signatureCount info sig := by
  rw [sf2Scans, List.length_insertionSort, signatureCount, List.countP_eq_length_filter]

theorem signature_of_mem_sf2Scans {sig : Json} {e : Json × Json} (he : e ∈ sf2Scans info sig) :
    scanNormalizedSignature e.2 = .ok sig := by
  rw [sf2Scans, List.mem_insertionSort, List.mem_filter] at he
  have hsig := of_decide_eq_true he.2
  cases h : scanNormalizedSignature e.2 with
  | ok s =>
    rw [h] at hsig
    exact congrArg Except.ok (Option.some.inj hsig)
  | error err =>
    rw [h] at hsig
    exact absurd hsig (by simp [Except.toOption])

/-- Values that are paired with their signatures, and grouped by them. -/
theorem get?_group_signed {α : Type} (node : α → Json) {l : List α}
    (h : ∀ a ∈ l, ReadableScan (node a)) :
    ∃ signed, l.mapM (fun a => do return (a, ← scanNormalizedSignature (node a)) :
        α → Except PyErr (α × Json)) = .ok signed ∧
      ∀ sig, (OrdDict.get? (OrdDict.group signed) sig).getD [] =
        l.filter fun a => (scanNormalizedSignature (node a)).toOption = some sig := by
  refine ⟨l.map fun a => (a, (scanNormalizedSignature (node a)).toOption.getD .null),
    Except.mapM_ok fun a ha => ?_, fun sig => ?_⟩
  · obtain ⟨sig, hsig⟩ := scanNormalizedSignature_readable (h a ha)
    rw [hsig]
    rfl
  · rw [OrdDict.get?_group, List.filter_map, List.map_map]
    have hfilter : l.filter ((fun q : α × Json => decide (q.2 = sig)) ∘ fun a =>
        (a, (scanNormalizedSignature (node a)).toOption.getD .null)) =
        l.filter fun a => (scanNormalizedSignature (node a)).toOption = some sig := by
      refine List.filter_congr fun a ha => ?_
      obtain ⟨sig', hsig'⟩ := scanNormalizedSignature_readable (h a ha)
      rw [Function.comp_apply, hsig']
      exact decide_eq_decide.mpr (by simp [Except.toOption])
    rw [hfilter]
    exact List.map_id _

/-- The SF2 entries by signature, when all scans can be read. -/
theorem sf2EntriesBySignature_readable (hentries : tableInfoEntries info = .ok (scanEntries info))
    (hread : ReadableScans info) : ∃ by2, sf2EntriesBySignature info = .ok by2 ∧
      ∀ sig, (OrdDict.get? by2 sig).getD [] = sf2Scans info sig := by
  obtain ⟨signed, hsigned, hget⟩ := get?_group_signed Prod.snd hread
  refine ⟨_, by rw [sf2EntriesBySignature, hentries, Except.ok_bind, hsigned]; rfl, fun sig => ?_⟩
  rw [OrdDict.get?_map_snd fun es : List (Json × Json) =>
    es.insertionSort fun a b => (a.1.asInt.getD 0) ≤ (b.1.asInt.getD 0), sf2Scans, ← hget]
  cases OrdDict.get? (OrdDict.group signed) sig <;> rfl

/-- The embedded scans by signature. -/
theorem structScanIdsBySignature_readable (hc : ∀ p ∈ plan, ∃ n : Nat, p.1 = toString n)
    (hread : ∀ p ∈ plan, ReadableScan p.2) :
    ∃ groups, structScanIdsBySignature plan = .ok groups ∧ (OrdDict.keys groups).Nodup ∧
      (∀ g ∈ groups, g.2 = sortedScans plan g.1) ∧
      ∀ sig k, k ∈ sortedScans plan sig → (sig, sortedScans plan sig) ∈ groups := by
  have hnode : ∀ nid, ReadableScan ((OrdDict.get? plan nid).getD .null) := by
    intro nid
    cases hget : OrdDict.get? plan nid with
    | some node => exact hread _ (OrdDict.mem_of_get? hget)
    | none => exact fun kvs h => absurd h (by simp)
  obtain ⟨signed, hsigned, hget⟩ := get?_group_signed
    (l := (sortedKeys plan).filter fun nid => IsParquetScan ((OrdDict.get? plan nid).getD .null))
    (fun nid => (OrdDict.get? plan nid).getD .null) fun nid _ => hnode nid
  have hscans : ∀ sig, (OrdDict.get? (OrdDict.group signed) sig).getD [] = sortedScans plan sig := by
    intro sig
    rw [hget, List.filter_filter, sortedScans]
    refine List.filter_congr fun nid _ => ?_
    rw [isScanOf, Bool.and_comm]
  have hnd := OrdDict.nodup_keys_group signed
  have hgroups : structScanIdsBySignature plan = .ok (OrdDict.group signed) := by
    rw [structScanIdsBySignature, sortedNodeKeys_of_numerals hc, Except.ok_bind]
    dsimp only
    rw [hsigned]
    rfl
  refine ⟨_, hgroups, hnd, fun g hg => ?_, fun sig k hk => ?_⟩
  · rw [← hscans, OrdDict.get?_of_mem hnd (show (g.1, g.2) ∈ _ from hg)]
    rfl
  · rw [← hscans] at hk ⊢
    cases hgroup : OrdDict.get? (OrdDict.group signed) sig with
    | none =>
      rw [hgroup] at hk
      exact absurd hk List.not_mem_nil
    | some nids => exact OrdDict.mem_of_get? hgroup

/-! ## All scans -/

/-- The scans of a group are replaced one after the other. -/
theorem rebindGroup_ok : ∀ {l : List (String × (Json × Json))} (out : List (String × Json)),
    (l.map Prod.fst).Nodup →
      (∀ q ∈ l, ∃ new, rebindScan ((OrdDict.get? plan q.1).getD .null) q.2.2 = .ok new) →
        ∃ out', rebindGroup plan l out = .ok out' ∧ ∀ q ∈ l, ∃ new,
          rebindScan ((OrdDict.get? plan q.1).getD .null) q.2.2 = .ok new ∧
            OrdDict.get? out' q.1 = some new
  | [], out, _, _ => ⟨out, rfl, fun q hq => absurd hq List.not_mem_nil⟩
  | (nid, entry) :: l, out, hnd, h => by
    rw [List.map_cons, List.nodup_cons] at hnd
    obtain ⟨new, hnew⟩ := h _ (List.mem_cons_self ..)
    obtain ⟨out', hout', hl⟩ := rebindGroup_ok (OrdDict.set out nid new) hnd.2 fun q hq =>
      h q (List.mem_cons_of_mem _ hq)
    refine ⟨out', by rw [rebindGroup, hnew]; exact hout', List.forall_mem_cons.mpr ⟨⟨new, hnew, ?_⟩, hl⟩⟩
    have hne : ∀ q ∈ l, q.1 ≠ nid := fun q hq he => hnd.1 (List.mem_map.mpr ⟨q, hq, he⟩)
    rw [rebindGroup_get? hne hout', OrdDict.get?_set_self]

variable {by2 : List (Json × List (Json × Json))} {stage : String}

/-- The scans of all groups. -/
theorem rebindGroups_ok (stage : String) : ∀ {groups : List (Json × List String)}
    (out : List (String × Json)),
    (groups.flatMap (·.2)).Nodup →
      (∀ g ∈ groups, g.2.length ≤ ((OrdDict.get? by2 g.1).getD []).length) →
        (∀ g ∈ groups, ∀ q ∈ g.2.zip ((OrdDict.get? by2 g.1).getD []),
          ∃ new, rebindScan ((OrdDict.get? plan q.1).getD .null) q.2.2 = .ok new) →
          ∃ out', rebindGroups plan by2 stage groups out = .ok out' ∧
            ∀ g ∈ groups, ∀ q ∈ g.2.zip ((OrdDict.get? by2 g.1).getD []), ∃ new,
              rebindScan ((OrdDict.get? plan q.1).getD .null) q.2.2 = .ok new ∧
                OrdDict.get? out' q.1 = some new
  | [], out, _, _, _ => ⟨out, rfl, fun g hg => absurd hg List.not_mem_nil⟩
  | (sig, nids) :: groups, out, hnd, hlen, h => by
    rw [List.flatMap_cons, List.nodup_append] at hnd
    obtain ⟨hnids, hrest, hdisjoint⟩ := hnd
    have hle := hlen _ (List.mem_cons_self ..)
    have hfst : (nids.zip ((OrdDict.get? by2 sig).getD [])).map Prod.fst = nids :=
      List.map_fst_zip hle
    obtain ⟨out1, hout1, hgroup⟩ := rebindGroup_ok out (hfst.symm ▸ hnids)
      (h _ (List.mem_cons_self ..))
    obtain ⟨out', hout', hgroups⟩ := rebindGroups_ok stage out1 hrest
      (fun g hg => hlen g (List.mem_cons_of_mem _ hg)) fun g hg => h g (List.mem_cons_of_mem _ hg)
    refine ⟨out', ?_, List.forall_mem_cons.mpr ⟨fun q hq => ?_, hgroups⟩⟩
    · rw [rebindGroups, if_neg (Nat.not_lt.mpr hle), hout1]
      exact hout'
    · obtain ⟨new, hnew, hget⟩ := hgroup q hq
      have hq' : q.1 ∈ nids := hfst ▸ List.mem_map_of_mem hq
      refine ⟨new, hnew, ?_⟩
      rw [rebindGroups_get? (fun g hg hmem =>
        hdisjoint q.1 hq' q.1 (List.mem_flatMap.mpr ⟨g, hg, hmem⟩) rfl) hout', hget]

/-- Without enough SF2 scans the loop stops. -/
theorem rebindGroups_raises : ∀ {groups : List (Json × List String)} {out : List (String × Json)},
    (groups.flatMap (·.2)).Nodup →
      (∃ g ∈ groups, ((OrdDict.get? by2 g.1).getD []).length < g.2.length) →
        (∀ g ∈ groups, ∀ q ∈ g.2.zip ((OrdDict.get? by2 g.1).getD []),
          ∃ new, rebindScan ((OrdDict.get? plan q.1).getD .null) q.2.2 = .ok new) →
          RaisesPlanTransfer (rebindGroups plan by2 stage groups out)
  | [], _, _, hfew, _ => by
    obtain ⟨g, hg, _⟩ := hfew
    exact absurd hg List.not_mem_nil
  | (sig, nids) :: groups, out, hnd, hfew, h => by
    rw [List.flatMap_cons, List.nodup_append] at hnd
    rw [rebindGroups]
    by_cases hlt : ((OrdDict.get? by2 sig).getD []).length < nids.length
    · rw [if_pos hlt]
      exact raises_error_iff.mpr trivial
    · have hfst : (nids.zip ((OrdDict.get? by2 sig).getD [])).map Prod.fst = nids :=
        List.map_fst_zip (Nat.le_of_not_lt hlt)
      obtain ⟨out1, hout1, _⟩ := rebindGroup_ok out (hfst.symm ▸ hnd.1)
        (h _ (List.mem_cons_self ..))
      rw [if_neg hlt, hout1, Except.ok_bind]
      refine rebindGroups_raises hnd.2.1 ?_ fun g hg => h g (List.mem_cons_of_mem _ hg)
      obtain ⟨g, hg, hlen⟩ := hfew
      rcases List.mem_cons.mp hg with rfl | hg
      · exact absurd hlen hlt
      · exact ⟨g, hg, hlen⟩

/-- The pairs that are stored, for a plan and a table info whose scans can be read. -/
structure Grouped (plan : List (String × Json)) (info : Json) (groups : List (Json × List String))
    (by2 : List (Json × List (Json × Json))) : Prop where
  sf2 : ∀ sig, (OrdDict.get? by2 sig).getD [] = sf2Scans info sig
  scans : ∀ g ∈ groups, g.2 = sortedScans plan g.1
  all : ∀ sig k, k ∈ sortedScans plan sig → (sig, sortedScans plan sig) ∈ groups
  nodup : (groups.flatMap (·.2)).Nodup

theorem mem_sortedScans {sig : Json} {k : String} (hk : k ∈ sortedScans plan sig) :
    ∃ node, OrdDict.get? plan k = some node ∧ IsParquetScan node ∧
      scanNormalizedSignature node = .ok sig := by
  obtain ⟨hkey, hscan⟩ := List.mem_filter.mp hk
  obtain ⟨node, hnode⟩ := OrdDict.get?_isSome.mpr ((sortedKeys_perm plan).mem_iff.mp hkey)
  rw [hnode] at hscan
  exact ⟨node, hnode, isScanOf_iff.mp hscan⟩

theorem mem_sortedScans_of_scan {sig node : Json} {k : String} (hnode : OrdDict.get? plan k = some node)
    (hp : IsParquetScan node) (hsig : scanNormalizedSignature node = .ok sig) :
    k ∈ sortedScans plan sig := by
  refine List.mem_filter.mpr ⟨(sortedKeys_perm plan).mem_iff.mpr ?_, ?_⟩
  · exact OrdDict.mem_keys_of_mem (OrdDict.mem_of_get? hnode)
  · rw [hnode]
    exact isScanOf_iff.mpr ⟨hp, hsig⟩

theorem exists_grouped (stage : String) (hnd : (OrdDict.keys plan).Nodup)
    (hc : ∀ p ∈ plan, ∃ n : Nat, p.1 = toString n)
    (hentries : tableInfoEntries info = .ok (scanEntries info))
    (hread1 : ∀ p ∈ plan, ReadableScan p.2) (hread2 : ReadableScans info) :
    ∃ groups by2, Grouped plan info groups by2 ∧
      rebindParquetScansInStructure plan info stage = rebindGroups plan by2 stage groups plan := by
  obtain ⟨by2, hby2, hsf2⟩ := sf2EntriesBySignature_readable hentries hread2
  obtain ⟨groups, hgroups, hkeys, hscans, hall⟩ := structScanIdsBySignature_readable hc hread1
  refine ⟨groups, by2, ⟨hsf2, hscans, hall, List.nodup_flatMap.mpr ⟨fun g hg => ?_, ?_⟩⟩, ?_⟩
  · rw [hscans g hg]
    exact nodup_sortedScans hnd g.1
  · -- a scan has one signature
    refine List.Pairwise.imp_of_mem (fun {g g'} hg hg' hne => ?_) (List.pairwise_map.mp hkeys)
    intro k hk hk'
    have hk : k ∈ sortedScans plan g.1 := hscans g hg ▸ hk
    have hk' : k ∈ sortedScans plan g'.1 := hscans g' hg' ▸ hk'
    obtain ⟨node, hnode, _, hsig⟩ := mem_sortedScans hk
    obtain ⟨node', hnode', _, hsig'⟩ := mem_sortedScans hk'
    obtain rfl : node = node' := Option.some.inj (hnode.symm.trans hnode')
    exact hne (Except.ok.inj (hsig.symm.trans hsig'))
  · rw [rebindParquetScansInStructure, hby2, Except.ok_bind, hgroups, Except.ok_bind]

/-- An entry is of the signature of the scan it is paired with. -/
theorem Grouped.rebindScan_ok {groups : List (Json × List String)} (h : Grouped plan info groups by2)
    {g : Json × List String} (hg : g ∈ groups) {q : String × (Json × Json)}
    (hq : q ∈ g.2.zip ((OrdDict.get? by2 g.1).getD [])) :
    ∃ node new, OrdDict.get? plan q.1 = some node ∧ IsParquetScan node ∧
      scanNormalizedSignature node = .ok g.1 ∧ scanNormalizedSignature q.2.2 = .ok g.1 ∧
      rebindScan node q.2.2 = .ok new ∧
      (scanNormalizedSignature new = .ok g.1 ↔ IsParquetScan q.2.2 ∨ PlainSignature g.1) := by
  rw [h.sf2, h.scans g hg] at hq
  obtain ⟨hk, he⟩ := List.of_mem_zip hq
  obtain ⟨node, hnode, hp, hsig⟩ := mem_sortedScans hk
  have hentry := signature_of_mem_sf2Scans he
  obtain ⟨new, hnew, hiff⟩ := Transfer.rebindScan_ok hp hsig hentry
  exact ⟨node, new, hnode, hp, hsig, hentry, hnew, hiff⟩

theorem Grouped.tooMany_iff {groups : List (Json × List String)} (h : Grouped plan info groups by2)
    (hnd : (OrdDict.keys plan).Nodup) :
    TooManyScans plan info ↔
      ∃ g ∈ groups, ((OrdDict.get? by2 g.1).getD []).length < g.2.length := by
  constructor
  · intro hmany
    obtain ⟨sig, hlt⟩ := hmany
    rw [← (sortedScans_perm hnd sig).length_eq] at hlt
    obtain ⟨k, hk⟩ := List.exists_mem_of_length_pos (Nat.zero_lt_of_lt hlt)
    refine ⟨_, h.all sig k hk, ?_⟩
    rw [h.sf2, length_sf2Scans]
    exact hlt
  · intro hmany
    obtain ⟨g, hg, hlt⟩ := hmany
    rw [h.sf2, length_sf2Scans, h.scans g hg, (sortedScans_perm hnd g.1).length_eq] at hlt
    exact ⟨g.1, hlt⟩

/-- **Scans that can be read are rebound**, each to the entry at its place. -/
theorem Grouped.rebinds (stage : String) {groups : List (Json × List String)} (h : Grouped plan info groups by2)
    (henough : ∀ g ∈ groups, g.2.length ≤ ((OrdDict.get? by2 g.1).getD []).length) :
    ∃ out, rebindGroups plan by2 stage groups plan = .ok out ∧
      ∀ sig, ∀ q ∈ (sortedScans plan sig).zip (sf2Scans info sig), ∃ node new,
        OrdDict.get? plan q.1 = some node ∧ rebindScan node q.2.2 = .ok new ∧
          OrdDict.get? out q.1 = some new := by
  obtain ⟨out, hout, hpairs⟩ := rebindGroups_ok stage plan h.nodup
    henough fun g hg q hq => by
      obtain ⟨node, new, hnode, _, _, _, hnew, _⟩ := h.rebindScan_ok hg hq
      rw [hnode]
      exact ⟨new, hnew⟩
  refine ⟨out, hout, fun sig q hq => ?_⟩
  have hg := h.all sig q.1 (List.of_mem_zip hq).1
  rw [← h.sf2] at hq
  obtain ⟨node, new, hnode, _, _, _, hnew, _⟩ := h.rebindScan_ok hg hq
  obtain ⟨new', hnew', hget⟩ := hpairs _ hg q hq
  rw [hnode, Option.getD_some, hnew] at hnew'
  exact ⟨node, new, hnode, hnew, (Except.ok.inj hnew') ▸ hget⟩

/-- A scan that cannot be read ends the rebinding with an `AttributeError`. -/
theorem rebind_unreadable (stage : String) (hc : ∀ p ∈ plan, ∃ n : Nat, p.1 = toString n)
    (hnd : (OrdDict.keys plan).Nodup) (hentries : tableInfoEntries info = .ok (scanEntries info))
    (h : ¬ ((∀ p ∈ plan, ReadableScan p.2) ∧ ReadableScans info)) :
    rebindParquetScansInStructure plan info stage = .error .attributeError := by
  -- a loop over nodes of which one has no signature
  have hloop : ∀ {α : Type} (node : α → Json) (l : List α), (∃ a ∈ l, ¬ ReadableScan (node a)) →
      l.mapM (fun a => do return (a, ← scanNormalizedSignature (node a)) :
        α → Except PyErr (α × Json)) = .error .attributeError := by
    intro α node l hbad
    have hsig : ∀ a, (do return (a, ← scanNormalizedSignature (node a)) : Except PyErr (α × Json)) =
        .error .attributeError ∨ ReadableScan (node a) := by
      intro a
      by_cases hread : ReadableScan (node a)
      · exact Or.inr hread
      · exact Or.inl (by rw [scanNormalizedSignature_unreadable hread]; rfl)
    cases hmap : l.mapM (fun a => do return (a, ← scanNormalizedSignature (node a)) :
        α → Except PyErr (α × Json)) with
    | ok signed =>
      obtain ⟨a, ha, hread⟩ := hbad
      obtain ⟨q, _, hq⟩ := Except.ok_of_mapM hmap a ha
      rw [(hsig a).resolve_right hread] at hq
      exact absurd hq (by simp)
    | error e =>
      obtain ⟨a, _, he⟩ := Except.exists_of_mapM_eq_error hmap
      rcases hsig a with hunread | hread
      · exact congrArg Except.error (Except.error.inj (he.symm.trans hunread))
      · obtain ⟨sig, hok⟩ := scanNormalizedSignature_readable hread
        rw [hok] at he
        exact absurd he (by simp [bind, Except.bind, pure, Except.pure])
  rw [rebindParquetScansInStructure]
  by_cases hread2 : ReadableScans info
  · have hread1 : ¬ ∀ p ∈ plan, ReadableScan p.2 := fun hread1 => h ⟨hread1, hread2⟩
    push Not at hread1
    obtain ⟨p, hp, hbad⟩ := hread1
    obtain ⟨by2, hby2, _⟩ := sf2EntriesBySignature_readable hentries hread2
    have hget := OrdDict.get?_of_mem hnd (show (p.1, p.2) ∈ plan from hp)
    have hscan : IsParquetScan p.2 := by
      rw [ReadableScan] at hbad
      push Not at hbad
      obtain ⟨kvs, hkvs, scan, hscan, _⟩ := hbad
      rw [hkvs]
      exact isParquetScan_iff.mpr ⟨scan, hscan⟩
    rw [hby2, Except.ok_bind, structScanIdsBySignature, sortedNodeKeys_of_numerals hc, Except.ok_bind]
    dsimp only
    rw [hloop (fun nid => (OrdDict.get? plan nid).getD .null) _ ⟨p.1, List.mem_filter.mpr
      ⟨(sortedKeys_perm plan).mem_iff.mpr (OrdDict.mem_keys_of_mem hp), ?_⟩, ?_⟩]
    · rfl
    · rw [hget]
      exact decide_eq_true hscan
    · rw [hget]
      exact hbad
  · rw [ReadableScans] at hread2
    push Not at hread2
    rw [sf2EntriesBySignature, hentries, Except.ok_bind, hloop Prod.snd _ hread2]
    rfl

/-- The entries at the places of the scans are some of the entries. -/
theorem subperm_of_zip (hnd : (OrdDict.keys plan).Nodup) {sig : Json}
    (hle : (sortedScans plan sig).length ≤ (sf2Scans info sig).length) {bound : String → Json × Json}
    (hbound : ∀ q ∈ (sortedScans plan sig).zip (sf2Scans info sig), bound q.1 = q.2) :
    ((embeddedScans plan sig).map bound).Subperm (scanEntries info) := by
  have hzip : (sortedScans plan sig).map bound =
      (sf2Scans info sig).take (sortedScans plan sig).length := by
    have hfst : ((sortedScans plan sig).zip (sf2Scans info sig)).map Prod.fst = sortedScans plan sig :=
      List.map_fst_zip hle
    have hsnd : ((sortedScans plan sig).zip (sf2Scans info sig)).map Prod.snd =
        (sf2Scans info sig).take (sortedScans plan sig).length := by
      rw [List.zip_eq_zip_take_min, Nat.min_eq_left hle, List.map_snd_zip]
      simp
    rw [← hsnd]
    nth_rewrite 1 [← hfst]
    rw [List.map_map]
    exact List.map_congr_left hbound
  have hperm : (sf2Scans info sig).Perm ((scanEntries info).filter fun e =>
      (scanNormalizedSignature e.2).toOption = some sig) := List.perm_insertionSort _ _
  have hsub : ((sortedScans plan sig).map bound).Subperm (scanEntries info) := by
    rw [hzip]
    exact (List.take_sublist _ _).subperm.trans (hperm.subperm.trans List.filter_sublist.subperm)
  exact (((sortedScans_perm hnd sig).map bound).symm.subperm).trans hsub

/-- With enough SF2 scans, what rebinding returns is as it should be if the entries that are used
keep their signatures. -/
theorem Grouped.rebound_iff {groups : List (Json × List String)} (h : Grouped plan info groups by2)
    (hnd : (OrdDict.keys plan).Nodup) (hread1 : ∀ p ∈ plan, ReadableScan p.2)
    (henough : ¬ TooManyScans plan info)
    (heq : rebindParquetScansInStructure plan info stage = rebindGroups plan by2 stage groups plan) :
    (∃ out, rebindParquetScansInStructure plan info stage = .ok out ∧ Rebound plan info out) ↔
      UsesScans plan info := by
  have hle : ∀ g ∈ groups, g.2.length ≤ ((OrdDict.get? by2 g.1).getD []).length := by
    intro g hg
    by_contra hlt
    exact henough ((h.tooMany_iff hnd).mpr ⟨g, hg, Nat.lt_of_not_le hlt⟩)
  have hlen : ∀ sig, (sortedScans plan sig).length ≤ (sf2Scans info sig).length := by
    intro sig
    by_contra hlt
    refine henough ⟨sig, ?_⟩
    rw [← length_sf2Scans, ← (sortedScans_perm hnd sig).length_eq]
    exact Nat.lt_of_not_le hlt
  obtain ⟨out, hout, hpairs⟩ := h.rebinds stage hle
  rw [heq, hout]
  constructor
  · rintro ⟨out', hout', hr⟩ sig e he
    obtain rfl : out = out' := Except.ok.inj hout'
    obtain ⟨bound, hbound, _⟩ := hr.scans
    -- the scan at the place of the entry
    rw [← (sortedScans_perm hnd sig).length_eq] at he
    obtain ⟨i, hi, rfl⟩ := List.mem_take_iff_getElem.mp he
    have hi1 : i < (sortedScans plan sig).length := lt_of_lt_of_le hi (Nat.min_le_left _ _)
    have hi2 : i < (sf2Scans info sig).length := lt_of_lt_of_le hi (Nat.min_le_right _ _)
    have hzip : ((sortedScans plan sig)[i], (sf2Scans info sig)[i]) ∈
        (sortedScans plan sig).zip (sf2Scans info sig) := by
      rw [List.mem_iff_getElem]
      exact ⟨i, by rw [List.length_zip]; exact Nat.lt_min.mpr ⟨hi1, hi2⟩, List.getElem_zip ..⟩
    obtain ⟨node, new, hnode, hnew, hget⟩ := hpairs sig _ hzip
    obtain ⟨node', hnode', hp, hsig⟩ := mem_sortedScans (List.getElem_mem hi1)
    obtain rfl : node = node' := Option.some.inj (hnode.symm.trans hnode')
    obtain ⟨new', hget', sig', hsig', _, _, hsignature⟩ := hbound _ node hnode hp
    obtain rfl : new = new' := Option.some.inj (hget.symm.trans hget')
    obtain rfl : sig = sig' := Except.ok.inj (hsig.symm.trans hsig')
    obtain ⟨new', hnew', hiff⟩ := Transfer.rebindScan_ok hp hsig
      (signature_of_mem_sf2Scans (List.getElem_mem hi2))
    obtain rfl : new = new' := Except.ok.inj (hnew.symm.trans hnew')
    exact hiff.mp hsignature
  · intro huses
    refine ⟨out, rfl, (rebind_spec (heq.trans hout)).1, fun k node hnode hno => ?_, ?_⟩
    · rw [rebind_get? (heq.trans hout) (by rw [hnode]; exact hno), hnode]
    -- a scan is bound to the entry at its place among those of its signature
    let bound : String → Json × Json := fun k =>
      let sig := (scanNormalizedSignature ((OrdDict.get? plan k).getD .null)).toOption.getD .null
      (OrdDict.get? ((sortedScans plan sig).zip (sf2Scans info sig)) k).getD (.null, .null)
    have hbound : ∀ sig, ∀ q ∈ (sortedScans plan sig).zip (sf2Scans info sig), bound q.1 = q.2 := by
      intro sig q hq
      obtain ⟨node, hnode, _, hsig⟩ := mem_sortedScans (List.of_mem_zip hq).1
      have hkeys : (OrdDict.keys ((sortedScans plan sig).zip (sf2Scans info sig))).Nodup := by
        rw [OrdDict.keys, List.map_fst_zip (hlen sig)]
        exact nodup_sortedScans hnd sig
      simp only [bound, hnode, Option.getD_some, hsig, Except.toOption]
      rw [OrdDict.get?_of_mem hkeys (show (q.1, q.2) ∈ _ from hq)]
      rfl
    refine ⟨bound, fun k node hnode hp => ?_, fun sig => subperm_of_zip hnd (hlen sig) (hbound sig)⟩
    obtain ⟨sig, hsig⟩ := scanNormalizedSignature_readable (hread1 _ (OrdDict.mem_of_get? hnode))
    obtain ⟨i, hi, rfl⟩ := List.mem_iff_getElem.mp (mem_sortedScans_of_scan hnode hp hsig)
    have hi2 : i < (sf2Scans info sig).length := lt_of_lt_of_le hi (hlen sig)
    have hzip : ((sortedScans plan sig)[i], (sf2Scans info sig)[i]) ∈
        (sortedScans plan sig).zip (sf2Scans info sig) := by
      rw [List.mem_iff_getElem]
      exact ⟨i, by rw [List.length_zip]; exact Nat.lt_min.mpr ⟨hi, hi2⟩, List.getElem_zip ..⟩
    obtain ⟨node', new, hnode', hnew, hget⟩ := hpairs sig _ hzip
    obtain rfl : node = node' := Option.some.inj (hnode.symm.trans hnode')
    have hentry := signature_of_mem_sf2Scans (List.getElem_mem hi2)
    obtain ⟨new', hnew', hiff⟩ := Transfer.rebindScan_ok hp hsig hentry
    obtain rfl : new = new' := Except.ok.inj (hnew.symm.trans hnew')
    have hused : (sf2Scans info sig)[i] ∈ (sf2Scans info sig).take (embeddedScans plan sig).length := by
      rw [← (sortedScans_perm hnd sig).length_eq]
      exact List.mem_take_iff_getElem.mpr ⟨i, Nat.lt_min.mpr ⟨hi, hi2⟩, rfl⟩
    refine ⟨new, hget, sig, hsig, ?_, ?_, hiff.mpr (huses sig _ hused)⟩
    · rw [hbound sig _ hzip]
      exact hentry
    · rw [hbound sig _ hzip]
      exact hnew

end

/-- **Embedded scans are rebound exactly if all scans can be read and the entries that are used keep
their signatures.** -/
theorem rebind_iff (plan : List (String × Json)) (info : Json) (stage : String)
    (hnd : (OrdDict.keys plan).Nodup) (hc : ∀ p ∈ plan, ∃ n : Nat, p.1 = toString n)
    (hinfo : IntegerIds info) :
    RebindsScans plan info stage ↔ (∀ p ∈ plan, ReadableScan p.2) ∧ ReadableScans info ∧
      (TooManyScans plan info ∨ UsesScans plan info) := by
  have hentries : tableInfoEntries info = .ok (scanEntries info) := by
    obtain ⟨es, hes⟩ := hinfo.accepted
    rw [scanEntries, hes]
  by_cases hread : (∀ p ∈ plan, ReadableScan p.2) ∧ ReadableScans info
  · obtain ⟨groups, by2, hg, heq⟩ := exists_grouped stage hnd hc hentries hread.1 hread.2
    have hpairs : ∀ g ∈ groups, ∀ q ∈ g.2.zip ((OrdDict.get? by2 g.1).getD []),
        ∃ new, rebindScan ((OrdDict.get? plan q.1).getD .null) q.2.2 = .ok new := by
      intro g hgm q hq
      obtain ⟨node, new, hnode, _, _, _, hnew, _⟩ := hg.rebindScan_ok hgm hq
      rw [hnode]
      exact ⟨new, hnew⟩
    by_cases hmany : TooManyScans plan info
    · have hraises : RaisesPlanTransfer (rebindParquetScansInStructure plan info stage) := by
        rw [heq]
        exact rebindGroups_raises hg.nodup ((hg.tooMany_iff hnd).mp hmany) hpairs
      exact iff_of_true ⟨iff_of_true hraises hmany, fun h => absurd hmany h⟩
        ⟨hread.1, hread.2, Or.inl hmany⟩
    · have hrebound := hg.rebound_iff hnd hread.1 hmany heq
      constructor
      · exact fun h => ⟨hread.1, hread.2, Or.inr (hrebound.mp (h.returns hmany))⟩
      · intro h
        obtain ⟨out, hout, hr⟩ := hrebound.mpr (h.2.2.resolve_left hmany)
        refine ⟨iff_of_false ?_ hmany, fun _ => ⟨out, hout, hr⟩⟩
        rw [hout]
        exact not_raises_ok out
  · -- the `AttributeError` is neither what is asked for when there are too many scans nor otherwise
    have herror := rebind_unreadable stage hc hnd hentries hread
    refine iff_of_false (fun h => ?_) fun h => hread ⟨h.1, h.2.1⟩
    have hno : ¬ TooManyScans plan info := by
      intro hmany
      have hraises := h.raises.mpr hmany
      rw [herror] at hraises
      exact raises_error_iff.mp hraises
    obtain ⟨out, hout, _⟩ := h.returns hno
    rw [herror] at hout
    exact absurd hout (by simp)

theorem readableScan_of_signature {node : Json}
    (h : (scanNormalizedSignature node).toOption.isSome = true) : ReadableScan node := by
  by_contra hbad
  rw [scanNormalizedSignature_unreadable hbad] at h
  exact Bool.false_ne_true h

/-- A scan of one column. -/
def columnScan (column : String) (predicate : Json) (files : List Json) : Json :=
  .obj [("parquetScan", .obj [
    ("baseConf", .obj [("fileGroups", .arr files), ("schema", .obj [("columns", .arr [.str column])])]),
    ("predicate", predicate)])]

/-- Two scans of the same column under a join. -/
def scansPlan : List (String × Json) :=
  [("10", columnScan "id" (.int 5) []),
    ("0", .obj [("hashJoin", .obj [("left", .int 9), ("right", .int 10)])]),
    ("9", columnScan "id" (.int 5) [])]

/-- The scans of SF2, the later id first. -/
def scansInfo : Json :=
  .arr [.obj [("id", .int 7), ("node", columnScan "id" (.int 5) [.str "b.parquet"])],
    .obj [("id", .int 4), ("node", columnScan "id" (.int 5) [.str "a.parquet"])]]

theorem scansPlan_rebinds : RebindsScans scansPlan scansInfo "transfer" := by
  have hkeys : ∀ p ∈ scansPlan, ∃ n : Nat, p.1 = toString n :=
    List.forall_mem_cons.mpr ⟨⟨10, rfl⟩, List.forall_mem_cons.mpr ⟨⟨0, rfl⟩,
      List.forall_mem_singleton.mpr ⟨9, rfl⟩⟩⟩
  have hinfo : IntegerIds scansInfo :=
    ⟨⟨_, rfl⟩, List.forall_mem_cons.mpr ⟨⟨7, rfl⟩, List.forall_mem_singleton.mpr ⟨4, rfl⟩⟩⟩
  have hread1 : ∀ p ∈ scansPlan, (scanNormalizedSignature p.2).toOption.isSome = true := by
    decide +kernel
  have hread2 : ∀ e ∈ scanEntries scansInfo, (scanNormalizedSignature e.2).toOption.isSome = true := by
    decide +kernel
  have hscans : ∀ e ∈ scanEntries scansInfo, IsParquetScan e.2 := by decide +kernel
  refine (rebind_iff scansPlan scansInfo "transfer" (by decide) hkeys hinfo).mpr
    ⟨fun p hp => readableScan_of_signature (hread1 p hp),
      fun e he => readableScan_of_signature (hread2 e he), Or.inr fun sig e he => Or.inl ?_⟩
  have hmem := List.mem_of_mem_take he
  rw [sf2Scans, List.mem_insertionSort] at hmem
  exact hscans e (List.mem_of_mem_filter hmem)

/-- A node that looks like the signature of `columnScan "id" (.int 5) []`. -/
def lookalike : List (String × Json) :=
  [("op", .str "parquetScan"),
    ("baseConf", .obj [("schema.columns", .arr [.str "id"]), ("projection", .null),
      ("constraints", .null)]),
    ("predicate", .int 5)]

/-- A scan that is `null` has no signature, and a scan that is replaced by its signature loses its
columns when the predicate is carried over. -/
theorem scans_not_rebound :
    ¬ RebindsScans [("0", .obj [("parquetScan", .null)])] (.arr []) "transfer" ∧
      ¬ RebindsScans [("0", columnScan "id" (.int 5) [])]
        (.arr [.obj [("id", .int 4), ("node", .obj lookalike)]]) "transfer" := by
  constructor
  · intro h
    have herror : rebindParquetScansInStructure [("0", .obj [("parquetScan", .null)])] (.arr [])
        "transfer" = .error .attributeError := by decide +kernel
    have hno := mt h.raises.mpr (by rw [herror]; exact fun hr => raises_error_iff.mp hr)
    obtain ⟨out, hout, _⟩ := h.returns hno
    rw [herror] at hout
    exact absurd hout (by simp)
  · intro h
    have hok : rebindParquetScansInStructure [("0", columnScan "id" (.int 5) [])]
        (.arr [.obj [("id", .int 4), ("node", .obj lookalike)]]) "transfer" =
          .ok [("0", .obj (lookalike ++ [("parquetScan", .obj [("predicate", .int 5)])]))] := by
      decide +kernel
    have hno := mt h.raises.mpr (by rw [hok]; exact not_raises_ok _)
    obtain ⟨out, hout, hr⟩ := h.returns hno
    obtain rfl := Except.ok.inj (hok.symm.trans hout)
    obtain ⟨bound, hbound, _⟩ := hr.scans
    obtain ⟨new, hnew, sig, hsig, _, _, hsignature⟩ := hbound "0" _ rfl (by decide)
    obtain rfl := Option.some.inj hnew
    have hne : scanNormalizedSignature
        (.obj (lookalike ++ [("parquetScan", .obj [("predicate", .int 5)])])) ≠
          scanNormalizedSignature (columnScan "id" (.int 5) []) := by decide +kernel
    exact hne (hsignature.trans hsig.symm)

end DbPlanBench.Transfer
