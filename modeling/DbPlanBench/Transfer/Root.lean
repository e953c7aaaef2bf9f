import DbPlanBench.Transfer.Document

/-!
# The root of a transferred plan

The engine takes for the root the first node, in the order of the ids as strings,
that nothing refers to. A transfer keeps the references but not the order of the
strings: a node that has to make way for an SF2 scan gets the least free number.
As long as only one node is unreferenced that does not matter; if a patch leaves
another one behind, the two scale factors may disagree on which of them is the
root (`orphanPlan_changes_root`), and `selectRoot_transfer_iff` says when they do
not.
-/

namespace DbPlanBench.Transfer

open Engine (asU64 asArray u64Size extractChildIds readChildIds)
open Paths

/-! ## The children of a renamed node -/

/-- The engine reads the id of `v` as `n` before the renaming and as `τ n` after. -/
def ReadsAs (σ : Int → Option Int) (τ : Nat → Nat) (v : Json) : Prop :=
  ∃ n, asU64 v = some n ∧ asU64 (renameRef σ v) = some (τ n)

theorem asU64_renameRefs (σ : Int → Option Int) (v : Json) :
    asU64 (renameRefs σ v) = asU64 v := by
  cases v <;> rfl

theorem asU64_of_not_isIntish {v : Json} (h : isIntish v = false) : asU64 v = none := by
  cases hu : asU64 v with
  | none => rfl
  | some n =>
    rw [(isIntish_of_asU64 hu).1] at h
    exact absurd h (by simp)

theorem fieldChildIds_renamedField {σ : Int → Option Int} {τ : Nat → Nat} {k : String} {v : Json}
    (hrefs : ∀ q ∈ fieldRefs k v, ReadsAs σ τ q.2) (hmixed : engineOnlyField k v = []) :
    fieldChildIds k (renamedField σ k v) = (fieldChildIds k v).map τ := by
  by_cases hk : k ∈ refKeysScalar
  · rw [renamedField, if_pos hk, fieldChildIds, if_pos hk, fieldChildIds, if_pos hk]
    by_cases hv : isIntish v = true
    · rw [fieldRefs, if_pos ⟨hk, hv⟩] at hrefs
      obtain ⟨n, hn, hn'⟩ := hrefs (k, v) (List.mem_singleton.mpr rfl)
      rw [hn, hn']
      rfl
    · have hv : isIntish v = false := by simpa using hv
      rw [renameRef_of_error (toInt_of_not_isIntish hv), asU64_of_not_isIntish hv]
      rfl
  · rw [renamedField, if_neg hk, fieldChildIds, if_neg hk, fieldChildIds, if_neg hk]
    by_cases hinputs : k = "inputs"
    · subst hinputs
      rw [if_pos rfl, if_pos rfl]
      rw [fieldRefs, if_neg fun h => hk h.1] at hrefs
      -- a list of integers is renamed one by one
      cases hl : refList? "inputs" v with
      | some xs =>
        rw [hl] at hrefs
        rw [(refList?_eq_some hl).1]
        show (xs.map (renameRef σ)).filterMap asU64 = (xs.filterMap asU64).map τ
        rw [List.filterMap_map, List.map_filterMap]
        refine List.filterMap_congr fun x hx => ?_
        obtain ⟨n, hn, hn'⟩ := hrefs ("inputs", x) (List.mem_map_of_mem hx)
        show asU64 (renameRef σ x) = (asU64 x).map τ
        rw [hn, hn']
        rfl
      | none =>
        -- a mixed list is left as it is; by assumption it has no id for the engine
        have hlist : intishList? v = none := by
          rw [refList?, if_pos (by decide)] at hl
          exact hl
        rw [engineOnlyField, if_pos ⟨rfl, by rw [hlist]; rfl⟩] at hmixed
        rw [hmixed]
        show (asArray (renameRefs σ v)).filterMap asU64 = []
        cases v with
        | arr xs =>
          show (renameRefsList σ xs).filterMap asU64 = []
          rw [renameRefsList_eq_map, List.filterMap_map]
          simp only [Function.comp_def, asU64_renameRefs]
          exact hmixed
        | _ => rfl
    · rw [if_neg hinputs, if_neg hinputs]
      rfl

/-- A field that is an object afterwards was one before, with the same fields. -/
theorem keys_of_renamedField {σ : Int → Option Int} {k : String} {v : Json}
    {kvs' : List (String × Json)} (h : renamedField σ k v = .obj kvs') :
    ∃ kvs, v = .obj kvs ∧ OrdDict.keys kvs' = OrdDict.keys kvs := by
  have hkeep : v = .obj kvs' → ∃ kvs, v = .obj kvs ∧ OrdDict.keys kvs' = OrdDict.keys kvs :=
    fun hv => ⟨kvs', hv, rfl⟩
  rw [renamedField] at h
  split at h
  next =>
    cases hv : toInt v with
    | error e => exact hkeep (renameRef_of_error hv ▸ h)
    | ok r =>
      rw [renameRef, hv] at h
      -- a renamed reference is an integer and no object
      cases hr : σ r with
      | some n => exact absurd h (by simp [hr])
      | none => exact hkeep (by simpa [hr] using h)
  next =>
    split at h
    next => exact absurd h (by simp)
    next =>
      cases v with
      | obj kvs =>
        injection h with h
        exact ⟨kvs, rfl, by rw [← h, keys_renameRefsFields]⟩
      | _ => exact absurd h (by simp [renameRefs])

theorem renameRefs_operator (σ : Int → Option Int) (op : String) (conf : Json) :
    renameRefs σ (.obj [(op, conf)]) = .obj [(op, renamedField σ op conf)] := rfl

/-- A node whose operator has none of the fields for children. -/
def LeafNode (v : Json) : Prop :=
  ∀ op kvs, v = .obj [(op, .obj kvs)] → ∀ k ∈ refKeysScalar ++ ["inputs"], k ∉ OrdDict.keys kvs

/-- A leaf has no children, renamed or not. -/
theorem extractChildIds_eq_nil {op : String} {conf : Json}
    (h : LeafNode (.obj [(op, conf)])) :
    extractChildIds (.obj [(op, conf)]) = [] := by
  cases conf with
  | obj kvs =>
    have hnone : ∀ k ∈ refKeysScalar ++ ["inputs"], OrdDict.get? kvs k = none :=
      fun k hk => OrdDict.get?_eq_none.mpr (h op kvs rfl k hk)
    show readChildIds kvs = []
    simp [readChildIds, hnone "input" (by decide), hnone "left" (by decide),
      hnone "right" (by decide), hnone "inputs" (by decide), asArray]
  | _ => rfl

theorem extractChildIds_renameRefs_eq_nil {σ : Int → Option Int} {op : String} {conf : Json}
    (h : LeafNode (.obj [(op, conf)])) :
    extractChildIds (renameRefs σ (.obj [(op, conf)])) = [] := by
  rw [renameRefs_operator]
  refine extractChildIds_eq_nil fun op' kvs' hnode k hk => ?_
  injection hnode with hnode
  injection hnode with hnode _
  injection hnode with hop hconf
  obtain ⟨kvs, hkvs, hkeys⟩ := keys_of_renamedField hconf
  rw [hkeys]
  exact h op kvs (by rw [hkvs]) k hk

/-- **Renaming renames the children that the engine reads.** -/
theorem extractChildIds_renameRefs {σ : Int → Option Int} {τ : Nat → Nat} {op : String} {conf : Json}
    (hnd : conf.NodupKeys) (hrefs : ∀ q ∈ walkRefs (.obj [(op, conf)]), ReadsAs σ τ q.2)
    (hnested : nestedRefs (.obj [(op, conf)]) = [])
    (hmixed : engineOnly (.obj [(op, conf)]) = []) :
    (extractChildIds (renameRefs σ (.obj [(op, conf)]))).Perm
      ((extractChildIds (.obj [(op, conf)])).map τ) := by
  cases conf with
  | obj kvs =>
    by_cases hop : op ∈ refKeysScalar
    · -- all references would be nested ones
      have hwalk : walkRefs (.obj [(op, .obj kvs)]) = [] := by
        rw [walkRefs_operator]
        show walkRefs (.obj kvs) = []
        simpa [nestedRefs, nestedRefsFields, hop, isIntish, Json.asInt] using hnested
      have hperm := nodeChildren_perm op hnd
      rw [checkedIds, hwalk, hmixed] at hperm
      have hempty : extractChildIds (.obj [(op, .obj kvs)]) = [] := by
        have := List.append_eq_nil_iff.mp (List.nil_perm.mp hperm)
        exact List.map_eq_nil_iff.mp this.1
      have hsame : renameRefs σ (.obj [(op, .obj kvs)]) = .obj [(op, .obj kvs)] := by
        simp [renameRefs, renameRefsFields, hop, renameRef, toInt, Json.asInt]
      rw [hsame, hempty]
      exact List.Perm.refl _
    · have hlist : refList? op (.obj kvs) = none := by
        rw [refList?]
        split <;> rfl
      have hren :
          renameRefs σ (.obj [(op, .obj kvs)]) = .obj [(op, .obj (renameRefsFields σ kvs))] := by
        simp [renameRefs, renameRefsFields, hop, hlist]
      rw [walkRefs_operator, walkRefsFields_eq_flatMap] at hrefs
      have hkeys := (Json.nodupKeys_obj.mp hnd).1
      have hkeys' : (OrdDict.keys (renameRefsFields σ kvs)).Nodup := by
        rw [keys_renameRefsFields]
        exact hkeys
      rw [hren]
      show (readChildIds (renameRefsFields σ kvs)).Perm ((readChildIds kvs).map τ)
      refine (readChildIds_perm hkeys').trans
        (List.Perm.trans ?_ ((readChildIds_perm hkeys).map τ).symm)
      rw [renameRefsFields_eq_map, List.flatMap_map, List.map_flatMap]
      refine List.Perm.flatMap_left _ fun p hp => ?_
      rw [fieldChildIds_renamedField]
      · exact fun q hq => hrefs q (List.mem_flatMap.mpr ⟨p, hp, hq⟩)
      · exact List.flatMap_eq_nil_iff.mp hmixed p hp
  | _ =>
    rw [extractChildIds_renameRefs_eq_nil fun op' kvs h => absurd h (by simp),
      extractChildIds_eq_nil fun op' kvs h => absurd h (by simp)]
    exact List.Perm.refl _

/-! ## Direct references -/

/-- Every reference is an integer that names a node or an SF1 scan, none is nested inside a value
under `input`, `left` or `right`, and the engine follows no integer that is no reference. -/
structure DirectRefs (sf1Info : Json) (plan : List (String × Json)) : Prop where
  refs : ∀ p ∈ plan, ∀ q ∈ walkRefs p.2, ∃ r, q.2 = .int r ∧ (r ∈ planIds plan ∨ r ∈ scanIds sf1Info)
  noNested : ∀ p ∈ plan, nestedRefs p.2 = []
  noMixed : ∀ p ∈ plan, engineOnly p.2 = []

/-- The scans of a table info are leaves. -/
def ScanLeaves (info : Json) : Prop :=
  ∀ entries, tableInfoEntries info = .ok entries → ∀ e ∈ entries, LeafNode e.2

/-- The full table info lists the scans of the succinct one. -/
structure ListsScans (info : Json) (tables : List Json) : Prop where
  nodup : (Json.arr tables).NodupKeys
  parses : ∀ t ∈ tables, ∃ n, asU64 (Engine.index t "id") = some n
  scans : ∀ r, r ∈ scanIds info ↔ ∃ n ∈ tableIds tables, r = (n : Int)

/-- A replaced scan is a leaf like the one that replaces it. -/
theorem leaf_of_rebindScan {n1 n2 out : Json} (hleaf : LeafNode n2)
    (h : rebindScan n1 n2 = .ok out) : LeafNode out := by
  intro op kvs hout
  simp only [rebindScan] at h
  by_cases hnull : getOrNull (fieldsOf ((OrdDict.get? (fieldsOf n1) "parquetScan").getD .null))
      "predicate" = .null
  · rw [if_pos hnull] at h
    injection h with h
    exact hleaf op kvs (h.trans hout)
  · rw [if_neg hnull] at h
    cases n2 with
    | obj node =>
      cases hps : (OrdDict.get? node "parquetScan").getD (.obj []) with
      | obj ps =>
        simp only [hps, hout] at h
        injection h with h
        injection h with h
        have hset : ∀ k ∈ refKeysScalar ++ ["inputs"], k ∉ OrdDict.keys ps →
            k ∉ OrdDict.keys (OrdDict.set ps "predicate"
              (getOrNull (fieldsOf ((OrdDict.get? (fieldsOf n1) "parquetScan").getD .null))
                "predicate")) := by
          intro k hk hno hmem
          rcases OrdDict.mem_keys_set.mp hmem with rfl | hmem
          · exact absurd hk (by decide)
          · exact hno hmem
        intro k hk
        -- the predicate goes into the operator of a scan, or is all there is
        cases node with
        | nil =>
          injection hps with hps
          injection h with h
          injection h with _ h
          injection h with h
          rw [← h]
          exact hset k hk (by rw [← hps]; exact List.not_mem_nil)
        | cons p rest =>
          obtain ⟨j, v⟩ := p
          rw [OrdDict.set] at h
          by_cases hj : j = "parquetScan"
          · rw [if_pos hj] at h
            rw [OrdDict.get?, if_pos hj] at hps
            injection h with h hrest
            injection h with _ h
            injection h with h
            subst hrest
            rw [← h]
            exact hset k hk (hleaf j ps (by rw [show v = .obj ps from hps]) k hk)
          · rw [if_neg hj] at h
            injection h with _ h
            cases rest with
            | nil => exact absurd h (by simp [OrdDict.set])
            | cons q rest =>
              rw [OrdDict.set] at h
              split at h
              next => exact absurd h (by simp)
              next => exact absurd h (by simp)
      | _ =>
        simp only [hps] at h
        exact absurd h (by simp)
    | _ => exact absurd h (by simp)

/-! ## The graph of the transferred plan -/

/-- An accepted transfer of a plan with direct references, on ids that the engine can read. -/
structure ReadableTransfer (sf1Base sf1Info sf2Base sf2Info : Json) (P Q : List (String × Json))
    (sm m : List (Int × Int)) (tables1 tables2 : List Json) : Prop where
  accepted : Accepted sf1Base sf1Info sf2Base sf2Info P Q sm
  numbering : Numbering sf2Info Q m
  nodup : (Json.obj P).NodupKeys
  infoNodup : sf2Info.NodupKeys
  direct : DirectRefs sf1Info P
  leaves : ScanLeaves sf2Info
  sf1Scans : ListsScans sf1Info tables1
  sf2Scans : ListsScans sf2Info tables2
  fits : ∀ n ∈ planIds P, n < u64Size
  newFits : ∀ n ∈ planIds P, newId m n < u64Size

/-- The id of a node, as the engine reads it. -/
def newNat (m : List (Int × Int)) (n : Nat) : Nat := (newId m n).toNat

/-- The ids of the nodes, as the engine reads them. -/
def natIds (plan : List (String × Json)) : List Nat := (planIds plan).map Int.toNat

/-- What becomes of an id that the engine reads. -/
def natRenaming (m sm : List (Int × Int)) (n : Nat) : Nat := ((idRenaming m sm n).getD n).toNat

theorem asU64_int {n : Int} (h0 : 0 ≤ n) (h : n < u64Size) : asU64 (.int n) = some n.toNat := by
  rw [asU64, if_pos ⟨h0, by omega⟩]

theorem lt_of_asU64 {v : Json} {n : Nat} (h : asU64 v = some n) : n < u64Size := by
  cases v with
  | int z =>
    rw [asU64] at h
    split at h
    next hz =>
      injection h with h
      exact h ▸ hz.2
    next => exact absurd h (by simp)
  | _ => exact absurd h (by simp [asU64])

section

variable {sf1Base sf1Info sf2Base sf2Info : Json} {P Q : List (String × Json)}
  {sm m : List (Int × Int)} {tables1 tables2 : List Json}

namespace ReadableTransfer

variable (h : ReadableTransfer sf1Base sf1Info sf2Base sf2Info P Q sm m tables1 tables2)
include h

theorem planIds_eq : planIds Q = planIds P := planIds_of_keys (rebind_spec h.accepted.rebound).1

theorem mem_natIds {n : Nat} : n ∈ natIds Q ↔ (n : Int) ∈ planIds Q := by
  rw [natIds, List.mem_map]
  constructor
  · intro h
    obtain ⟨z, hz, rfl⟩ := h
    rwa [Int.toNat_of_nonneg (nodeIds_nonneg h.accepted.nodeIds z hz)]
  · exact fun hn => ⟨n, hn, Int.toNat_natCast n⟩

/-- A node's new id is not that of a scan. -/
theorem newNat_spec {n : Nat} (hn : n ∈ natIds Q) :
    (newNat m n : Int) = newId m n ∧ newNat m n < u64Size ∧ newNat m n ∉ tableIds tables2 := by
  obtain ⟨reserved, hres, hidmap, _⟩ := h.numbering.idMap
  have hn := h.mem_natIds.mp hn
  have hcast : (newNat m n : Int) = newId m n := Int.toNat_of_nonneg (newId_nonneg hidmap hn)
  refine ⟨hcast, ?_, fun hmem => ?_⟩
  · have hlt := h.newFits n (h.planIds_eq ▸ hn)
    rw [← hcast] at hlt
    exact_mod_cast hlt
  · refine newId_fresh hidmap hn ((sf2ScanIds_mem hres _).mpr ?_)
    exact (h.sf2Scans.scans _).mpr ⟨_, hmem, hcast.symm⟩

theorem newNat_injective : ∀ a ∈ natIds Q, ∀ b ∈ natIds Q, newNat m a = newNat m b → a = b := by
  intro a ha b hb hab
  obtain ⟨reserved, _, hidmap, _⟩ := h.numbering.idMap
  have he : newId m a = newId m b := by
    rw [← (h.newNat_spec ha).1, ← (h.newNat_spec hb).1, hab]
  exact_mod_cast newId_injective hidmap (h.mem_natIds.mp ha) (h.mem_natIds.mp hb) he

/-- The engine reads a node's id as its new one, that of a scan as that of an SF2 scan. -/
theorem readsAs {r : Int} (hr : r ∈ planIds Q ∨ r ∈ scanIds sf1Info) :
    ∃ n : Nat, r = n ∧ asU64 (.int r) = some n ∧
      asU64 (renameRef (idRenaming m sm) (.int r)) = some (natRenaming m sm n) ∧
      ((n ∈ natIds Q ∧ natRenaming m sm n = newNat m n) ∨
        n ∉ natIds Q ∧ natRenaming m sm n ∈ tableIds tables2) := by
  obtain ⟨reserved, hres, hidmap, _⟩ := h.numbering.idMap
  have hren : renameRef (idRenaming m sm) (.int r) = .int ((idRenaming m sm r).getD r) := by
    rw [renameRef, toInt_int]
    cases hr : idRenaming m sm r with
    | none => simp [hr]
    | some n => simp [hr]
  rw [hren]
  -- a node wins over a scan of the same id, in the renaming as in the engine
  by_cases hnode : r ∈ planIds Q
  · have h0 := nodeIds_nonneg h.accepted.nodeIds r hnode
    obtain ⟨n, rfl⟩ := Int.eq_ofNat_of_zero_le h0
    have hn := h.mem_natIds.mpr hnode
    have hσ : idRenaming m sm n = some (newId m n) := by
      rw [idRenaming, get?_eq_newId hidmap hnode]
      rfl
    have hτ : natRenaming m sm n = newNat m n := by
      rw [natRenaming, hσ]
      rfl
    refine ⟨n, rfl, asU64_int h0 (h.fits _ (h.planIds_eq ▸ hnode)), ?_, Or.inl ⟨hn, hτ⟩⟩
    rw [hτ, hσ]
    exact asU64_int (newId_nonneg hidmap hnode) (h.newFits _ (h.planIds_eq ▸ hnode))
  · obtain ⟨hsm, hpair⟩ := buildScanIdMapping_spec h.accepted.mapped
    have hscan := hr.resolve_left hnode
    obtain ⟨n, hn, rfl⟩ := (h.sf1Scans.scans r).mp hscan
    obtain ⟨s, hs⟩ := OrdDict.get?_isSome.mpr ((hsm n).mpr hscan)
    obtain ⟨k, hk, rfl⟩ := (h.sf2Scans.scans s).mp (hpair n s hs).1
    have hσ : idRenaming m sm n = some (k : Int) := by
      rw [idRenaming, OrdDict.get?_eq_none.mpr fun hin => hnode ((hidmap.mem_keys _).mp hin),
        Option.none_or, hs]
    have hτ : natRenaming m sm n = k := by
      rw [natRenaming, hσ]
      rfl
    have hlt : ∀ {tables : List Json} {k : Nat}, k ∈ tableIds tables → (k : Int) < u64Size := by
      intro tables k hk
      obtain ⟨t, _, ht⟩ := List.mem_filterMap.mp hk
      exact_mod_cast lt_of_asU64 ht
    refine ⟨n, rfl, asU64_int (Int.natCast_nonneg n) (hlt hn), ?_,
      Or.inr ⟨fun hin => hnode (h.mem_natIds.mp hin), hτ.symm ▸ hk⟩⟩
    rw [hτ, hσ]
    exact asU64_int (Int.natCast_nonneg k) (hlt hk)

/-- What the engine reads of a node, before and after. -/
theorem node_spec {q : String × Json} (hq : q ∈ Q) :
    (extractChildIds (renameRefs (idRenaming m sm) q.2)).Perm
      ((extractChildIds q.2).map (natRenaming m sm)) ∧
    ∀ n ∈ extractChildIds q.2, (n ∈ natIds Q ∧ natRenaming m sm n = newNat m n) ∨
      n ∉ natIds Q ∧ natRenaming m sm n ∈ tableIds tables2 := by
  obtain ⟨⟨op, conf⟩, hop⟩ := h.accepted.single q hq
  obtain ⟨entries, hentries, hmem⟩ := mem_rebind h.accepted.rebound
  have hnd := (Json.nodupKeys_obj.mp (nodupKeys_rebind h.nodup h.infoNodup h.accepted.rebound)).2 q hq
  rw [hop] at hnd ⊢
  have hconf : conf.NodupKeys := (Json.nodupKeys_obj.mp hnd).2 _ (List.mem_singleton.mpr rfl)
  -- a node of the plan, or a scan put in by the rebinding, which has no references
  rcases hmem q hq with hq | ⟨k, e, he, hq⟩
  · have hrefs := h.direct.refs q hq
    have hmixed := h.direct.noMixed q hq
    have hnested := h.direct.noNested q hq
    rw [hop] at hrefs hmixed hnested
    rw [← h.planIds_eq] at hrefs
    refine ⟨extractChildIds_renameRefs hconf (fun x hx => ?_) hnested hmixed, fun n hn => ?_⟩
    · obtain ⟨r, hr, hknown⟩ := hrefs x hx
      obtain ⟨n, _, hn, hn', _⟩ := h.readsAs hknown
      exact ⟨n, hr ▸ hn, hr ▸ hn'⟩
    · -- an id that the engine follows is a reference
      have hperm := nodeChildren_perm op hconf
      rw [hmixed] at hperm
      have hin : (n : Int) ∈ checkedIds (.obj [(op, conf)]) := by
        have hin := hperm.mem_iff.mpr (List.mem_append_left _ (List.mem_map_of_mem hn))
        rwa [List.map_nil, List.append_nil] at hin
      obtain ⟨x, hx, hxn⟩ := List.mem_map.mp hin
      obtain ⟨r, hr, hknown⟩ := hrefs x hx
      obtain ⟨n', hrn, _, _, hcases⟩ := h.readsAs hknown
      have hn' : n' = n := by
        rw [hr, hrn] at hxn
        exact Int.ofNat_inj.mp hxn
      exact hn' ▸ hcases
  · have hleaf := leaf_of_rebindScan (h.leaves entries hentries e he) hq
    rw [hop] at hleaf
    rw [extractChildIds_renameRefs_eq_nil hleaf, extractChildIds_eq_nil hleaf]
    exact ⟨List.Perm.refl _, fun n hn => absurd hn List.not_mem_nil⟩

/-- A node under its id, before and after. -/
theorem exists_node {n : Nat} (hn : n ∈ natIds Q) : ∃ v, (toString n, v) ∈ Q ∧
    (toString (newNat m n), renameRefs (idRenaming m sm) v) ∈ renamedPlan m sm Q := by
  obtain ⟨q, hq, hk⟩ := List.mem_map.mp (h.mem_natIds.mp hn)
  have hkey : q.1 = toString n := by
    rw [h.accepted.canonical q hq, hk]
    rfl
  refine ⟨q.2, hkey ▸ hq, List.mem_map.mpr ⟨q, hq, ?_⟩⟩
  rw [hk, ← (h.newNat_spec hn).1]
  rfl

theorem keys_nodup : (OrdDict.keys Q).Nodup ∧ (OrdDict.keys (renamedPlan m sm Q)).Nodup := by
  obtain ⟨reserved, _, hidmap, _⟩ := h.numbering.idMap
  have hnd := h.accepted.nodup_keys (Json.nodupKeys_obj.mp h.nodup).1
  refine ⟨hnd, List.Nodup.of_map keyId ?_⟩
  have hids : (planIds (renamedPlan m sm Q)).Nodup :=
    nodup_planIds_renamedPlan hidmap (nodup_planIds hnd h.accepted.canonical)
  rw [OrdDict.keys, List.map_map]
  exact hids

/-- **The transferred plan is the rebound one under new names**, as far as its nodes go. -/
theorem renames : Renames (natIds Q) (newNat m) (structureChildren Q)
    (structureChildren (renamedPlan m sm Q)) where
  inj := h.newNat_injective
  source := by
    intro x c hc
    obtain ⟨p, hp, hk, _⟩ := mem_structureChildren hc
    obtain ⟨q, hq, rfl⟩ := List.mem_map.mp hp
    have hq' : (keyId q.1).toNat ∈ natIds Q := List.mem_map_of_mem (List.mem_map_of_mem hq)
    refine ⟨_, hq', ?_⟩
    have h0 := nodeIds_nonneg h.accepted.nodeIds (keyId q.1) (List.mem_map_of_mem hq)
    have hspec := (h.newNat_spec hq').1
    rw [Int.toNat_of_nonneg h0] at hspec
    rw [← hspec] at hk
    exact Py.toString_injective hk.symm
  edge := by
    intro a ha b hb
    obtain ⟨v, hv, hv'⟩ := h.exists_node ha
    obtain ⟨hperm, hknown⟩ := h.node_spec hv
    rw [structureChildren, OrdDict.get?_of_mem h.keys_nodup.2 hv', structureChildren,
      OrdDict.get?_of_mem h.keys_nodup.1 hv]
    show newNat m b ∈ extractChildIds (renameRefs (idRenaming m sm) v) ↔ b ∈ extractChildIds v
    rw [hperm.mem_iff, List.mem_map]
    constructor
    · -- a followed id comes from a node or from a scan, and a new id is no SF2 scan
      intro hc
      obtain ⟨n, hn, he⟩ := hc
      rcases hknown n hn with ⟨hin, hτ⟩ | ⟨_, hτ⟩
      · rw [hτ] at he
        exact h.newNat_injective n hin b hb he ▸ hn
      · exact absurd (he ▸ hτ) (h.newNat_spec hb).2.2
    · intro hc
      rcases hknown b hc with ⟨_, hτ⟩ | ⟨hnot, _⟩
      · exact ⟨b, hc, hτ⟩
      · exact absurd hb hnot

/-- Replacing the embedded scans adds no edge. -/
theorem structureChildren_subset (a b : Nat) (hb : b ∈ structureChildren Q a) :
    b ∈ structureChildren P a := by
  obtain ⟨q, hq, hk, hb⟩ := mem_structureChildren hb
  obtain ⟨entries, hentries, hmem⟩ := mem_rebind h.accepted.rebound
  obtain ⟨⟨op, conf⟩, hop⟩ := h.accepted.single q hq
  rcases hmem q hq with hq | ⟨k, e, he, hr⟩
  · rw [structureChildren, ← hk, OrdDict.get?_of_mem (Json.nodupKeys_obj.mp h.nodup).1 hq]
    exact hb
  · have hleaf := leaf_of_rebindScan (h.leaves entries hentries e he) hr
    rw [hop] at hleaf hb
    rw [extractChildIds_eq_nil hleaf] at hb
    exact absurd hb List.not_mem_nil

/-- The engine can read the rebound plan and the transferred one. -/
theorem enginePlans : EnginePlan P ∧ EnginePlan Q ∧ EnginePlan (renamedPlan m sm Q) := by
  have hnodupQ := nodupKeys_rebind h.nodup h.infoNodup h.accepted.rebound
  have hkeyQ : ∀ q ∈ Q, ∃ n : Nat, n < u64Size ∧ q.1 = toString n := by
    intro q hq
    have hid : keyId q.1 ∈ planIds Q := List.mem_map_of_mem hq
    obtain ⟨n, hn⟩ := Int.eq_ofNat_of_zero_le (nodeIds_nonneg h.accepted.nodeIds _ hid)
    have hlt := h.fits _ (h.planIds_eq ▸ hid)
    rw [hn] at hlt
    exact ⟨n, by exact_mod_cast hlt, (h.accepted.canonical q hq).trans (by rw [hn]; rfl)⟩
  -- the rebinding keeps the keys, so those of the plan are numerals too
  refine ⟨⟨fun p hp => ?_, fun p hp => (h.accepted.shaped p hp).2, h.nodup⟩,
    ⟨hkeyQ, h.accepted.single, hnodupQ⟩, ⟨fun p hp => ?_, fun p hp => ?_, ?_⟩⟩
  · have hmem : p.1 ∈ OrdDict.keys Q := by
      rw [(rebind_spec h.accepted.rebound).1]
      exact List.mem_map_of_mem hp
    obtain ⟨q, hq, hk⟩ := List.mem_map.mp hmem
    rw [← hk]
    exact hkeyQ q hq
  · obtain ⟨q, hq, rfl⟩ := List.mem_map.mp hp
    obtain ⟨n, hn, hk⟩ := hkeyQ q hq
    have hid : n ∈ natIds Q := by
      refine List.mem_map.mpr ⟨keyId q.1, List.mem_map_of_mem hq, ?_⟩
      rw [hk, keyId_of_int (Py.int_toString n), Int.toNat_natCast]
    refine ⟨newNat m n, (h.newNat_spec hid).2.1, ?_⟩
    rw [hk, keyId_of_int (Py.int_toString n), ← (h.newNat_spec hid).1]
    rfl
  · obtain ⟨q, hq, rfl⟩ := List.mem_map.mp hp
    obtain ⟨⟨op, conf⟩, hop⟩ := h.accepted.single q hq
    exact ⟨_, by rw [hop, renameRefs_operator]⟩
  · refine Json.nodupKeys_obj.mpr ⟨h.keys_nodup.2, fun p hp => ?_⟩
    obtain ⟨q, hq, rfl⟩ := List.mem_map.mp hp
    exact nodupKeys_renameRefs _ _ ((Json.nodupKeys_obj.mp hnodupQ).2 q hq)

/-- A node is referenced in the transferred plan if it was in the rebound one. -/
theorem unreferenced_newNat {n : Nat} (hn : n ∈ natIds Q) :
    Unreferenced (renamedPlan m sm Q) (newNat m n) ↔ Unreferenced Q n := by
  obtain ⟨_, hQ, hout⟩ := h.enginePlans
  rw [unreferenced_iff hQ, unreferenced_iff hout, ← not_exists, ← not_exists,
    h.renames.referenced_iff hn]
  refine not_congr ⟨fun ha => ?_, fun ha => ?_⟩
  · obtain ⟨a, _, ha⟩ := ha
    exact ⟨a, ha⟩
  · obtain ⟨a, ha⟩ := ha
    obtain ⟨q, hq, hk, _⟩ := mem_structureChildren ha
    refine ⟨a, h.mem_natIds.mpr (List.mem_map.mpr ⟨q, hq, ?_⟩), ha⟩
    rw [hk, keyId_of_int (Py.int_toString a)]

/-- The keys of the two plans are the numerals of the ids. -/
theorem toString_mem_keys {n : Nat} : toString n ∈ OrdDict.keys Q ↔ n ∈ natIds Q := by
  constructor
  · intro hk
    obtain ⟨q, hq, hk⟩ := List.mem_map.mp hk
    refine h.mem_natIds.mpr (List.mem_map.mpr ⟨q, hq, ?_⟩)
    rw [hk, keyId_of_int (Py.int_toString n)]
  · intro hn
    obtain ⟨v, hv, _⟩ := h.exists_node hn
    exact OrdDict.mem_keys_of_mem hv

theorem toString_mem_keys_renamedPlan {n : Nat} :
    toString n ∈ OrdDict.keys (renamedPlan m sm Q) ↔ ∃ k ∈ natIds Q, n = newNat m k := by
  constructor
  · intro hk
    obtain ⟨p, hp, hk⟩ := List.mem_map.mp hk
    obtain ⟨q, hq, rfl⟩ := List.mem_map.mp hp
    have hid : keyId q.1 ∈ planIds Q := List.mem_map_of_mem hq
    obtain ⟨k, hkq⟩ := Int.eq_ofNat_of_zero_le (nodeIds_nonneg h.accepted.nodeIds _ hid)
    have hkn : k ∈ natIds Q := h.mem_natIds.mpr (hkq ▸ hid)
    refine ⟨k, hkn, Py.toString_injective (hk.symm.trans ?_)⟩
    show toString (newId m (keyId q.1)) = _
    rw [hkq]
    exact congrArg toString (h.newNat_spec hkn).1.symm
  · intro h
    obtain ⟨k, hk, rfl⟩ := h
    obtain ⟨v, _, hv⟩ := h.exists_node hk
    exact OrdDict.mem_keys_of_mem hv

/-- The root of the transferred plan. -/
theorem root_iff {keyOrder : List Nat → List Nat} (hkeys : ∀ ks, (keyOrder ks).Perm ks)
    {r1 r2 : Nat} (hr1 : r1 ∈ natIds Q)
    (hr2 : selectRoot keyOrder (planDocument (renamedPlan m sm Q) (.arr tables2)) = .ok r2) :
    r2 = newNat m r1 ↔ Unreferenced Q r1 ∧
      ∀ k ∈ natIds Q, Unreferenced Q k → toString (newNat m r1) ≤ toString (newNat m k) := by
  obtain ⟨_, _, hout⟩ := h.enginePlans
  have hne : renamedPlan m sm Q ≠ [] := by
    obtain ⟨v, _, hv⟩ := h.exists_node hr1
    exact List.ne_nil_of_mem hv
  obtain ⟨hmem, hrest⟩ := selectRoot_spec hkeys hout hne h.sf2Scans.nodup hr2
  -- the engine selects the least unreferenced id by its string; only the new ids count
  obtain ⟨hun, hleast⟩ := hrest fun p hp id hid hk => by
    have hkey : toString id ∈ OrdDict.keys (renamedPlan m sm Q) :=
      List.mem_map.mpr ⟨p, hp, hk⟩
    obtain ⟨k, hkn, rfl⟩ := h.toString_mem_keys_renamedPlan.mp hkey
    exact (h.newNat_spec hkn).2.2 hid
  obtain ⟨k2, hk2, rfl⟩ := h.toString_mem_keys_renamedPlan.mp hmem
  have hleast : ∀ k ∈ natIds Q, Unreferenced Q k →
      toString (newNat m k2) ≤ toString (newNat m k) := fun k hk hunk =>
    hleast _ (h.toString_mem_keys_renamedPlan.mpr ⟨k, hk, rfl⟩) ((h.unreferenced_newNat hk).mpr hunk)
  have hun : Unreferenced Q k2 := (h.unreferenced_newNat hk2).mp hun
  constructor
  · intro he
    have hsame := h.newNat_injective k2 hk2 r1 hr1 he
    subst hsame
    exact ⟨hun, hleast⟩
  · intro hr
    exact Py.toString_injective (le_antisymm (hleast r1 hr1 hr.1) (hr.2 k2 hk2 hun))

/-- The transferred plan of an acyclic structure has a root. -/
theorem exists_root {keyOrder : List Nat → List Nat} (hkeys : ∀ ks, (keyOrder ks).Perm ks)
    (hne : P ≠ []) (hacyclic : ∀ id, ¬ OnCycle (structureChildren P) id) :
    ∃ r, selectRoot keyOrder (planDocument (renamedPlan m sm Q) (.arr tables2)) = .ok r := by
  obtain ⟨_, _, hout⟩ := h.enginePlans
  have hacyclicQ : ∀ id, ¬ OnCycle (structureChildren Q) id := fun id hid =>
    hacyclic id (hid.mono_edge h.structureChildren_subset)
  have hneOut : renamedPlan m sm Q ≠ [] := by
    intro hnil
    have hkeysQ := (rebind_spec h.accepted.rebound).1
    rw [List.map_eq_nil_iff.mp hnil] at hkeysQ
    exact hne (List.map_eq_nil_iff.mp hkeysQ.symm)
  exact selectRoot_exists hkeys hout hneOut h.sf2Scans.nodup h.sf2Scans.parses
    (h.renames.acyclic hacyclicQ)

/-- Below a root that is kept, both scale factors have the same operators. -/
theorem unfold_root (hw : WellFormedPlan sf1Info P) {r1 : Nat} (hr1 : r1 ∈ natIds Q) (depth : Nat) :
    Unfold.unfold (planGraph (renamedPlan m sm Q)) id depth (newNat m r1 : Int) =
      Unfold.unfold (planGraph P) (fun s => (OrdDict.get? sm s).getD s) depth (r1 : Int) := by
  obtain ⟨reserved, hres, hidmap, _⟩ := h.numbering.idMap
  obtain ⟨hsm, hpair⟩ := buildScanIdMapping_spec h.accepted.mapped
  have hnd := nodup_planIds h.keys_nodup.1 h.accepted.canonical
  rw [(h.newNat_spec hr1).1]
  have hr1 := h.mem_natIds.mp hr1
  have hQ : Q = P := (rebind_spec h.accepted.rebound).2.2 hw.noScanNode
  rw [hQ] at hidmap hnd hr1 ⊢
  have hcarry := carries_renamedPlan hw hidmap hnd hsm fun s1 s2 h12 =>
    (sf2ScanIds_mem hres s2).mpr (hpair s1 s2 h12).1
  have hunfold := Unfold.unfold_map hcarry depth (r1 : Int) (Or.inl hr1)
  rwa [transferId_getD, if_pos hr1] at hunfold

end ReadableTransfer

end

/-! ## The root of a transferred plan -/

/-- **When a transfer keeps the root.** The SF2 root is the image of the SF1 root exactly if no
node refers to the SF1 root and, of the unreferenced nodes, its new id is the least as a string;
in particular if it is the only one and no node shadows an SF1 scan. Then both scale factors execute
the same operators. -/
theorem selectRoot_transfer_iff (sf1Base sf1Info sf2Base sf2Info patch : JsonValue)
    {P out : List (String × Json)} (hpatch : applyJsonPatch sf1Base patch = .ok (.obj P))
    (hne : P ≠ []) (hdirect : DirectRefs sf1Info P)
    (hacyclic : ∀ id, ¬ OnCycle (structureChildren P) id) (hleaves : ScanLeaves sf2Info)
    {tables1 tables2 : List Json} (h1 : ListsScans sf1Info tables1)
    (h2 : ListsScans sf2Info tables2)
    (htransfer : transferPlan sf1Base sf1Info sf2Base sf2Info patch = .ok out)
    {keyOrder : List Nat → List Nat} (hkeys : ∀ ks, (keyOrder ks).Perm ks) {r1 : Nat}
    (hr1 : selectRoot keyOrder (planDocument P (.arr tables1)) = .ok r1) :
    ∃ Q sm m, Accepted sf1Base sf1Info sf2Base sf2Info P Q sm ∧ Numbering sf2Info Q m ∧
      out = renamedPlan m sm Q ∧
      ((∀ n ∈ planIds out, n < u64Size) →
        ∃ r2, selectRoot keyOrder (planDocument out (.arr tables2)) = .ok r2) ∧
      ∀ r2, selectRoot keyOrder (planDocument out (.arr tables2)) = .ok r2 →
        (r2 = newNat m r1 ↔ Unreferenced Q r1 ∧
          ∀ k ∈ natIds Q, Unreferenced Q k → toString (newNat m r1) ≤ toString (newNat m k)) ∧
        ((∀ n ∈ planIds P, n ∉ scanIds sf1Info) → (∀ k ∈ natIds Q, Unreferenced Q k → k = r1) →
          r2 = newNat m r1) ∧
        (WellFormedPlan sf1Info P → r2 = newNat m r1 → ∀ depth,
          Unfold.unfold (planGraph out) id depth (r2 : Int) =
            Unfold.unfold (planGraph P) (fun s => (OrdDict.get? sm s).getD s) depth (r1 : Int)) := by
  obtain ⟨Q, sm, m, hacc, hnum, rfl⟩ :=
    (transferPlan_eq_ok_iff sf1Base sf1Info sf2Base sf2Info patch hpatch out).mp htransfer
  have hnodup := applyJsonPatch_nodupKeys sf1Base.2 patch.2 hpatch
  obtain ⟨reserved, hres, hidmap, _⟩ := hnum.idMap
  have hids := planIds_of_keys (rebind_spec hacc.rebound).1
  -- the ids of a document that has been decoded fit
  have hfits : ∀ n ∈ planIds P, n < u64Size := by
    obtain ⟨nodes, _, hnodes, _⟩ := selectRoot_eq_ok.mp hr1
    intro n hn
    obtain ⟨p, hp, rfl⟩ := List.mem_map.mp hn
    have hmem : p.1 ∈ OrdDict.keys Q := by
      rw [(rebind_spec hacc.rebound).1]
      exact List.mem_map_of_mem hp
    obtain ⟨q, hq, hk⟩ := List.mem_map.mp hmem
    obtain ⟨n, hn⟩ := Int.eq_ofNat_of_zero_le (nodeIds_nonneg hacc.nodeIds _ (hids.symm ▸ hn))
    have hcanonical := hacc.canonical q hq
    rw [CanonicalKey, hk, hn] at hcanonical
    have hlt := lt_of_parseNodes hnodes hp hcanonical
    rw [hn]
    exact_mod_cast hlt
  have hreadable : (∀ n ∈ planIds (renamedPlan m sm Q), n < u64Size) →
      ReadableTransfer sf1Base sf1Info sf2Base sf2Info P Q sm m tables1 tables2 := by
    intro hnew
    refine ⟨hacc, hnum, hnodup, sf2Info.2, hdirect, hleaves, h1, h2, hfits, fun n hn => hnew _ ?_⟩
    rw [planIds_renamedPlan hidmap, hids]
    exact List.mem_map_of_mem hn
  have hnewFits : ∀ {r2 : Nat},
      selectRoot keyOrder (planDocument (renamedPlan m sm Q) (.arr tables2)) = .ok r2 →
        ∀ n ∈ planIds (renamedPlan m sm Q), n < u64Size := by
    intro r2 hr2 n hn
    obtain ⟨nodes, _, hnodes, _⟩ := selectRoot_eq_ok.mp hr2
    rw [planIds_renamedPlan hidmap] at hn
    obtain ⟨z, hz, rfl⟩ := List.mem_map.mp hn
    obtain ⟨q, hq, rfl⟩ := List.mem_map.mp hz
    obtain ⟨k, hk⟩ := Int.eq_ofNat_of_zero_le (newId_nonneg hidmap hz)
    have hlt := lt_of_parseNodes hnodes (List.mem_map_of_mem hq) (n := k) (by rw [hk]; rfl)
    rw [hk]
    exact_mod_cast hlt
  refine ⟨Q, sm, m, hacc, hnum, rfl, fun hnew => (hreadable hnew).exists_root hkeys hne hacyclic,
    fun r2 hr2 => ?_⟩
  have h := hreadable (hnewFits hr2)
  obtain ⟨hP, hQ, _⟩ := h.enginePlans
  obtain ⟨hmem1, hrest1⟩ := selectRoot_spec hkeys hP hne h1.nodup hr1
  have hr1Q : r1 ∈ natIds Q := by
    rw [← h.toString_mem_keys, (rebind_spec hacc.rebound).1]
    exact hmem1
  refine ⟨h.root_iff hkeys hr1Q hr2, fun hshadow hone => ?_, fun hw he depth => ?_⟩
  · rw [h.root_iff hkeys hr1Q hr2]
    refine ⟨?_, fun k hk hun => (hone k hk hun) ▸ le_refl _⟩
    -- without a shadowed scan nothing refers to the SF1 root
    obtain ⟨hun, _⟩ := hrest1 fun p hp id hid hk => by
      refine hshadow id ?_ ((h1.scans id).mpr ⟨id, hid, rfl⟩)
      rw [← keyId_of_int (Py.int_toString id), ← hk]
      exact List.mem_map_of_mem hp
    rw [unreferenced_iff hP] at hun
    exact (unreferenced_iff hQ).mpr fun a ha => hun a (h.structureChildren_subset a r1 ha)
  · rw [he]
    exact h.unfold_root hw hr1Q depth

/-! ## A node left behind -/

/-- A scan of a table with the given columns is a leaf. -/
theorem leafNode_tableEntry (columns : List String) : LeafNode (.obj [("parquetScan", .obj [
    ("baseConf", .obj [("schema", .obj [("columns", .arr (columns.map .str))])])])]) := by
  intro op kvs h k hk
  injection h with h
  injection h with h _
  injection h with _ h
  injection h with h
  rw [← h]
  intro hmem
  rw [List.mem_singleton.mp hmem] at hk
  exact absurd (show "baseConf" ∈ refKeysScalar ++ ["inputs"] from hk) (by decide)

theorem scanLeaves_pair (a b : Int) (as bs : List String) :
    ScanLeaves (.arr [tableEntry a as, tableEntry b bs]) := by
  intro entries h
  injection h with h
  subst h
  exact List.forall_mem_cons.mpr ⟨leafNode_tableEntry as,
    List.forall_mem_singleton.mpr (leafNode_tableEntry bs)⟩

/-- Two scans with their ids. -/
def pairTables (a b : Int) (as bs : List String) : List Json := [tableEntry a as, tableEntry b bs]

theorem listsScans_pair {a b : Nat} {as bs : List String} (ha : a < u64Size) (hb : b < u64Size)
    (hscans : scanIds (.arr (pairTables a b as bs)) = [(a : Int), (b : Int)])
    (hnodup : (Json.arr (pairTables a b as bs)).NodupKeys) :
    ListsScans (.arr (pairTables a b as bs)) (pairTables a b as bs) := by
  have hid : ∀ {n : Nat} (columns : List String), n < u64Size →
      asU64 (Engine.index (tableEntry n columns) "id") = some n := by
    intro n columns hn
    exact (asU64_int (Int.natCast_nonneg n) (by exact_mod_cast hn)).trans
      (by rw [Int.toNat_natCast])
  have hids : tableIds (pairTables a b as bs) = [a, b] := by
    simp [tableIds, pairTables, hid as ha, hid bs hb]
  refine ⟨hnodup, List.forall_mem_cons.mpr ⟨⟨a, hid as ha⟩,
    List.forall_mem_singleton.mpr ⟨b, hid bs hb⟩⟩, fun r => ?_⟩
  rw [hscans, hids]
  simp

/-- The scans of a join's SF1 plan. -/
theorem listsScans_joinSf1 :
    ListsScans joinSf1Info (pairTables 100 101 ["key", "col_a"] ["key", "col_b"]) :=
  listsScans_pair (by decide) (by decide) (by decide +kernel) (by decide)

/-- The rank of the nodes of the join. -/
def joinRank (id : Nat) : Nat := if id = 10 then 2 else if id = 5 then 1 else 0

theorem joinPlan_acyclic : ∀ id, ¬ OnCycle (structureChildren joinPlan) id := by
  refine not_onCycle_of_rank joinRank fun a b hb => ?_
  obtain ⟨p, hp, hk, hb⟩ := mem_structureChildren hb
  rcases List.mem_cons.mp hp with rfl | hp
  · have ha : 10 = a := Py.toString_injective hk
    have hb : b ∈ [5] := hb
    rw [← ha, List.mem_singleton.mp hb]
    decide
  · rw [List.mem_singleton.mp hp] at hk hb
    have ha : 5 = a := Py.toString_injective hk
    have hb : b ∈ [100, 101] := hb
    rw [← ha]
    rcases List.mem_cons.mp hb with rfl | hb
    · decide
    · rw [List.mem_singleton.mp hb]
      decide

theorem joinPlan_direct : DirectRefs joinSf1Info joinPlan :=
  ⟨joinPlan_wellFormed.refs, joinPlan_wellFormed.noNested, by decide⟩

/-- The transfer of the join keeps its root, the projection. -/
theorem selectRoot_transfer_iff_join : ∃ r2 : Nat,
    selectRoot id (planDocument joinOut (.arr (pairTables 5 6 ["key", "col_a"] ["key", "col_b"]))) =
      .ok r2 ∧
    Unfold.unfold (planGraph joinOut) id 3 (r2 : Int) =
      Unfold.unfold (planGraph joinPlan)
        (fun s => (OrdDict.get? [((100 : Int), (5 : Int)), (101, 6)] s).getD s) 3 10 := by
  obtain ⟨Q, sm, m, hacc, hnum, hout, hex, hall⟩ := selectRoot_transfer_iff
    ⟨.obj joinPlan, by decide⟩ ⟨joinSf1Info, by decide⟩ ⟨.obj [], by decide⟩ ⟨joinSf2Info, by decide⟩
    ⟨.arr [], by decide⟩ rfl (by decide) joinPlan_direct joinPlan_acyclic (scanLeaves_pair 5 6 _ _)
    listsScans_joinSf1
    (listsScans_pair (a := 5) (b := 6) (by decide) (by decide) (by decide +kernel) (by decide))
    joinPlan_transferred (fun _ => List.Perm.refl _)
    (show selectRoot id _ = .ok 10 by decide +kernel)
  obtain ⟨r2, hr2⟩ := hex (by decide +kernel)
  obtain ⟨_, hone, htree⟩ := hall r2 hr2
  have hQ : Q = joinPlan := (rebind_spec hacc.rebound).2.2 joinPlan_wellFormed.noScanNode
  have hsm : sm = [((100 : Int), (5 : Int)), (101, 6)] := by
    have hmap : buildScanIdMapping joinSf1Info joinSf2Info = .ok [(100, 5), (101, 6)] := by
      decide +kernel
    have he := hacc.mapped.symm.trans hmap
    injection he
  have hroot : r2 = newNat m 10 := by
    refine hone joinPlan_wellFormed.noScanKey fun k hk hun => ?_
    rw [hQ] at hk hun
    have hk : k ∈ [10, 5] := hk
    rcases List.mem_cons.mp hk with he | hk
    · exact he
    · rw [List.mem_singleton.mp hk] at hun
      exact absurd (hun _ (List.mem_cons_self ..)) (by decide +kernel)
  refine ⟨r2, hr2, ?_⟩
  have hunfold := htree joinPlan_wellFormed hroot 3
  rw [hsm] at hunfold
  exact hunfold

/-- Two projections, and nothing refers to either. -/
def orphanPlan : List (String × Json) :=
  [("10", .obj [("projection", .obj [("input", .int 101)])]),
   ("9", .obj [("projection", .obj [("input", .int 100)])])]

/-- One of the SF2 scans takes the id of the second projection. -/
def orphanSf2Info : Json := .arr (pairTables 9 6 ["key", "col_a"] ["key", "col_b"])

/-- The second projection becomes node 0. -/
def orphanOut : List (String × Json) :=
  [("10", .obj [("projection", .obj [("input", .int 6)])]),
   ("0", .obj [("projection", .obj [("input", .int 9)])])]

theorem orphanPlan_direct : DirectRefs joinSf1Info orphanPlan where
  refs := List.forall_mem_cons.mpr ⟨List.forall_mem_singleton.mpr ⟨101, rfl, Or.inr (by decide)⟩,
    List.forall_mem_singleton.mpr
      (List.forall_mem_singleton.mpr ⟨100, rfl, Or.inr (by decide)⟩)⟩
  noNested := by decide
  noMixed := by decide

theorem orphanPlan_acyclic : ∀ id, ¬ OnCycle (structureChildren orphanPlan) id := by
  refine not_onCycle_of_rank (fun id => if id < 100 then 1 else 0) fun a b hb => ?_
  obtain ⟨p, hp, hk, hb⟩ := mem_structureChildren hb
  rcases List.mem_cons.mp hp with rfl | hp
  · have ha : 10 = a := Py.toString_injective hk
    have hb : b ∈ [101] := hb
    rw [← ha, List.mem_singleton.mp hb]
    decide
  · rw [List.mem_singleton.mp hp] at hk hb
    have ha : 9 = a := Py.toString_injective hk
    have hb : b ∈ [100] := hb
    rw [← ha, List.mem_singleton.mp hb]
    decide

/-- At SF1 the root is the first projection, `"10"`, at SF2 the other one, `"0"`. A structure without
nodes has for its root the scan that is listed first, whatever it is paired with. -/
theorem orphanPlan_changes_root :
    (DirectRefs joinSf1Info orphanPlan ∧ (∀ id, ¬ OnCycle (structureChildren orphanPlan) id) ∧
      transferPlan (.obj orphanPlan) joinSf1Info (.obj []) orphanSf2Info (.arr []) = .ok orphanOut ∧
      selectRoot id (planDocument orphanPlan
        (.arr (pairTables 100 101 ["key", "col_a"] ["key", "col_b"]))) = .ok 10 ∧
      assignNewNodeIds orphanPlan [9, 6] = .ok [(9, 0), (10, 10)] ∧
      newNat [(9, 0), (10, 10)] 10 = 10 ∧
      selectRoot id (planDocument orphanOut
        (.arr (pairTables 9 6 ["key", "col_a"] ["key", "col_b"]))) = .ok 0) ∧
    (transferPlan (.obj []) joinSf1Info (.obj [])
        (.arr (pairTables 5 6 ["key", "col_b"] ["key", "col_a"])) (.arr []) = .ok [] ∧
      selectRoot id (planDocument []
        (.arr (pairTables 100 101 ["key", "col_a"] ["key", "col_b"]))) = .ok 100 ∧
      buildScanIdMapping joinSf1Info (.arr (pairTables 5 6 ["key", "col_b"] ["key", "col_a"])) =
        .ok [(100, 6), (101, 5)] ∧
      selectRoot id (planDocument []
        (.arr (pairTables 5 6 ["key", "col_b"] ["key", "col_a"]))) = .ok 5) := by
  refine ⟨⟨orphanPlan_direct, orphanPlan_acyclic, ?_, ?_, ?_, ?_, ?_⟩, ?_, ?_, ?_, ?_⟩
  all_goals decide +kernel

end DbPlanBench.Transfer
