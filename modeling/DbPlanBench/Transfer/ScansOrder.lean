import DbPlanBench.Transfer.Rebind
import DbPlanBench.Transfer.SameValue

/-!
# Scans and the order of fields

A signature is a text with sorted keys, so it does not depend on the order of fields, and
neither does what is built on signatures: the mapping of the scans
(`buildScanIdMapping_agree`) and the rebinding of those that stand in the plan
(`rebind_agree`). The nodes of a plan are fields as well, and rebinding takes them in the
order of their numbers; two keys with the same number, such as `1` and `01`, would keep the
order in which the plan has them, so the keys are assumed to be numerals there.
-/

namespace DbPlanBench.Transfer

open Except

/-- Two entries of a table info. -/
def SameEntry (e e' : Json × Json) : Prop := Rearranged e.1 e'.1 ∧ Rearranged e.2 e'.2

/-! ## Entries and signatures -/

theorem tableInfoEntry?_rel {e e' : Json} (h : Rearranged e e') :
    Option.Rel SameEntry ( tableInfoEntry? e) ( tableInfoEntry? e') := by
  cases e with
  | obj kvs =>
    obtain ⟨kvs', rfl, h⟩ := h.exists_obj
    rw [ tableInfoEntry?, tableInfoEntry?]
    have hid := h.get? "id"
    have hnode := h.get? "node"
    generalize OrdDict.get? kvs "id" = i, OrdDict.get? kvs' "id" = i' at hid
    generalize OrdDict.get? kvs "node" = n, OrdDict.get? kvs' "node" = n' at hnode
    cases hid with
    | none => exact Option.Rel.none
    | some hi =>
      cases hnode with
      | none => exact Option.Rel.none
      | some hn => exact Option.Rel.some ⟨hi, hn⟩
  | _ =>
    cases e' with
    | obj kvs' => exact absurd h.same (by simp [SameValue, canonical])
    | _ => exact Option.Rel.none

theorem filterMap_entries {es es' : List Json} (h : List.Forall₂ Rearranged es es') :
    List.Forall₂ SameEntry (es.filterMap tableInfoEntry?) (es'.filterMap tableInfoEntry?) := by
  induction h with
  | nil => exact .nil
  | @cons e e' es es' he _ ih =>
    have hrel := tableInfoEntry?_rel he
    rw [List.filterMap_cons, List.filterMap_cons]
    generalize tableInfoEntry? e = x, tableInfoEntry? e' = x' at hrel
    cases hrel with
    | none => exact ih
    | some hx => exact .cons hx ih

theorem tableInfoEntries_agree {info info' : Json} (h : Rearranged info info') :
    Agree (List.Forall₂ SameEntry) (tableInfoEntries info) (tableInfoEntries info') := by
  cases info with
  | arr es =>
    obtain ⟨es', rfl, hes⟩ := h.exists_arr
    exact filterMap_entries hes
  | obj kvs =>
    obtain ⟨kvs', rfl, h⟩ := h.exists_obj
    rw [tableInfoEntries, tableInfoEntries]
    have hrel := h.get? "entries"
    generalize OrdDict.get? kvs "entries" = x, OrdDict.get? kvs' "entries" = x' at hrel
    cases hrel with
    | none => exact agree_error ..
    | @some a b hab =>
      cases a with
      | arr es =>
        obtain ⟨es', rfl, hes⟩ := hab.exists_arr
        exact filterMap_entries hes
      | _ =>
        cases b with
        | arr es' => exact absurd hab.same (by simp [SameValue, canonical])
        | _ => exact agree_error ..
  | null =>
    rw [← h.same.eq_of_atom trivial]
    exact List.Forall₂.nil
  | _ =>
    rw [← h.same.eq_of_atom trivial]
    exact agree_error ..

theorem getOrNull_rearranged {kvs kvs' : List (String × Json)}
    (h : Rearranged (.obj kvs) (.obj kvs')) (k : String) :
    Rearranged (getOrNull kvs k) (getOrNull kvs' k) := h.getD k (Rearranged.refl trivial)

theorem schemaColumns_rearranged {base base' : List (String × Json)}
    (h : Rearranged (.obj base) (.obj base')) :
    Rearranged (schemaColumns base) (schemaColumns base') := by
  have hschema := h.getD "schema" rearranged_nil
  rw [schemaColumns, schemaColumns]
  generalize (OrdDict.get? base "schema").getD (.obj []) = s,
    (OrdDict.get? base' "schema").getD (.obj []) = s' at hschema
  cases s with
  | obj schema =>
    obtain ⟨schema', rfl, hschema⟩ := hschema.exists_obj
    exact getOrNull_rearranged hschema "columns"
  | _ =>
    cases s' with
    | obj schema' => exact absurd hschema.same (by simp [SameValue, canonical])
    | _ => exact Rearranged.refl trivial

/-- **Scans that differ in the order of fields have the same signature.** -/
theorem scanNormalizedSignature_agree {node node' : Json} (h : Rearranged node node') :
    Agree Eq (scanNormalizedSignature node) (scanNormalizedSignature node') := by
  cases node with
  | obj kvs =>
    obtain ⟨kvs', rfl, h⟩ := h.exists_obj
    rw [scanNormalizedSignature, scanNormalizedSignature]
    have hscan := h.get? "parquetScan"
    generalize OrdDict.get? kvs "parquetScan" = x, OrdDict.get? kvs' "parquetScan" = x' at hscan
    cases hscan with
    | none => exact h.same
    | @some a b hab =>
      cases a with
      | obj ps =>
        obtain ⟨ps', rfl, hps⟩ := hab.exists_obj
        have hbase := hps.getD "baseConf" rearranged_nil
        dsimp only
        generalize (OrdDict.get? ps "baseConf").getD (.obj []) = c,
          (OrdDict.get? ps' "baseConf").getD (.obj []) = c' at hbase
        cases c with
        | obj base =>
          obtain ⟨base', rfl, hbase⟩ := hbase.exists_obj
          rw [agree_ok, canonical_normalizedScan, canonical_normalizedScan,
            (getOrNull_rearranged hbase "constraints").same,
            (getOrNull_rearranged hbase "projection").same,
            (schemaColumns_rearranged hbase).same, (getOrNull_rearranged hps "predicate").same]
        | _ =>
          cases c' with
          | obj base' => exact absurd hbase.same (by simp [SameValue, canonical])
          | _ => exact agree_error ..
      | _ =>
        cases b with
        | obj ps' => exact absurd hab.same (by simp [SameValue, canonical])
        | _ => exact agree_error ..
  | _ =>
    cases node' with
    | obj kvs' => exact absurd h.same (by simp [SameValue, canonical])
    | _ => exact h.same

theorem asInt_congr {a b : Json} (h : SameValue a b) : a.asInt = b.asInt := by
  cases a with
  | arr xs =>
    obtain ⟨ys, rfl⟩ := h.exists_arr
    rfl
  | obj kvs =>
    obtain ⟨kvs', rfl⟩ := h.exists_obj
    rfl
  | _ => rw [h.eq_of_atom trivial]

/-! ## The mapping -/

theorem scanSignatures_agree {es es' : List (Json × Json)} (h : List.Forall₂ SameEntry es es')
    (d : List (Int × Json)) : Agree Eq (scanSignatures es d) (scanSignatures es' d) := by
  induction h generalizing d with
  | nil => exact agree_of_eq rfl
  | @cons e e' es es' he _ ih =>
    obtain ⟨sid, node⟩ := e
    obtain ⟨sid', node'⟩ := e'
    rw [scanSignatures, scanSignatures, ← asInt_congr he.1.same]
    cases sid.asInt with
    | none => exact agree_error ..
    | some n =>
      refine (scanNormalizedSignature_agree he.2).bind fun sig sig' _ _ hsig => ?_
      subst hsig
      exact ih _

theorem buildScanSignatureMap_agree {info info' : Json} (h : Rearranged info info') :
    Agree Eq (buildScanSignatureMap info) (buildScanSignatureMap info') :=
  (tableInfoEntries_agree h).bind fun _ _ _ _ hes => scanSignatures_agree hes []

/-- **The scans are paired alike.** -/
theorem buildScanIdMapping_agree {sf1 sf1' sf2 sf2' : Json} (h1 : Rearranged sf1 sf1')
    (h2 : Rearranged sf2 sf2') :
    Agree Eq (buildScanIdMapping sf1 sf2) (buildScanIdMapping sf1' sf2') := by
  refine (buildScanSignatureMap_agree h1).bind fun sigs1 sigs1' _ _ hsigs1 => ?_
  refine (buildScanSignatureMap_agree h2).bind fun sigs2 sigs2' _ _ hsigs2 => ?_
  subst hsigs1 hsigs2
  exact agree_of_eq rfl

theorem filterMap_asInt {es es' : List (Json × Json)} (h : List.Forall₂ SameEntry es es') :
    es.filterMap (·.1.asInt) = es'.filterMap (·.1.asInt) := by
  induction h with
  | nil => rfl
  | cons he _ ih => rw [List.filterMap_cons, List.filterMap_cons, asInt_congr he.1.same, ih]

theorem scanIds_congr {info info' : Json} (h : Rearranged info info') :
    scanIds info = scanIds info' := by
  have hes := tableInfoEntries_agree h
  rw [scanIds, scanIds]
  generalize tableInfoEntries info = x, tableInfoEntries info' = y at hes
  cases x with
  | ok es =>
    obtain ⟨es', rfl, hes⟩ := hes.left rfl
    exact filterMap_asInt hes
  | error e =>
    cases y with
    | ok es' => exact hes.elim
    | error e' => rfl

/-! ## The entries of SF2 by signature -/

/-- Lists that are related element by element stay so when both are sorted by a key the relatives
share. -/
theorem forall₂_insertionSort {α β : Type} {r : α → β → Prop} {f : α → Int} {g : β → Int}
    (hfg : ∀ a b, r a b → f a = g b) : ∀ {l : List α} {l' : List β}, List.Forall₂ r l l' →
      List.Forall₂ r (l.insertionSort fun a b => f a ≤ f b) (l'.insertionSort fun a b => g a ≤ g b) := by
  have hins : ∀ {a : α} {b : β} {l : List α} {l' : List β}, r a b → List.Forall₂ r l l' →
      List.Forall₂ r (l.orderedInsert (fun a b => f a ≤ f b) a)
        (l'.orderedInsert (fun a b => g a ≤ g b) b) := by
    intro a b l l' hab h
    induction h with
    | nil => exact .cons hab .nil
    | @cons c d l l' hcd htail ih =>
      rw [List.orderedInsert_cons, List.orderedInsert_cons, hfg a b hab, hfg c d hcd]
      by_cases hle : g b ≤ g d
      · rw [if_pos hle, if_pos hle]
        exact .cons hab (.cons hcd htail)
      · rw [if_neg hle, if_neg hle]
        exact .cons hcd ih
  intro l l' h
  induction h with
  | nil => exact .nil
  | cons hab _ ih => exact hins hab ih

theorem sf2EntriesBySignature_agree {info info' : Json} (h : Rearranged info info') :
    Agree (OrdDict.Related (List.Forall₂ SameEntry)) (sf2EntriesBySignature info)
      (sf2EntriesBySignature info') := by
  refine (tableInfoEntries_agree h).bind fun es es' _ _ hes => ?_
  have hsigned : Agree (List.Forall₂ fun p q => SameEntry p.1 q.1 ∧ p.2 = q.2)
      (es.mapM fun e => do return (e, ← scanNormalizedSignature e.2) : Except PyErr _)
      (es'.mapM fun e => do return (e, ← scanNormalizedSignature e.2) : Except PyErr _) :=
    Agree.mapM hes fun e e' he =>
      (scanNormalizedSignature_agree he.2).bind fun sig sig' _ _ hsig => ⟨he, hsig⟩
  refine hsigned.bind fun signed signed' _ _ hs => ?_
  have hgroup := OrdDict.related_group hs
  show List.Forall₂ _ (List.map _ _) (List.map _ _)
  rw [List.forall₂_map_left_iff, List.forall₂_map_right_iff]
  refine List.Forall₂.imp (fun g g' hg => ⟨hg.1, ?_⟩) hgroup
  exact forall₂_insertionSort (fun a b hab => by rw [asInt_congr hab.1.same]) hg.2

/-! ## The embedded scans by signature -/

section

variable {plan plan' : List (String × Json)}

theorem numerals_congr (h : Rearranged (.obj plan) (.obj plan'))
    (hc : ∀ p ∈ plan, ∃ n : Nat, p.1 = toString n) : ∀ p ∈ plan', ∃ n : Nat, p.1 = toString n := by
  intro p hp
  obtain ⟨q, hq, hk, _⟩ := h.same.symm.exists_field hp
  rw [← hk]
  exact hc q hq

/-- Distinct numerals have distinct numbers, so there is one way to sort them. -/
theorem sortedKeys_congr (h : Rearranged (.obj plan) (.obj plan'))
    (hc : ∀ p ∈ plan, ∃ n : Nat, p.1 = toString n) : sortedKeys plan = sortedKeys plan' := by
  have hperm := (h.same.keys_perm.map fun k => (keyId k, k))
  have hsort := List.perm_insertionSort (fun a b : Int × String => a.1 ≤ b.1)
  have hsorted : ∀ l : List (Int × String),
      (l.insertionSort fun a b => a.1 ≤ b.1).Pairwise fun a b => a.1 ≤ b.1 := by
    intro l
    have : Std.Total fun a b : Int × String => a.1 ≤ b.1 := ⟨fun a b => le_total a.1 b.1⟩
    have : IsTrans (Int × String) fun a b => a.1 ≤ b.1 := ⟨fun _ _ _ => le_trans⟩
    exact List.pairwise_insertionSort _ l
  have hkey : ∀ a ∈ (OrdDict.keys plan).map fun k => (keyId k, k), a.2 = toString a.1 := by
    intro a ha
    obtain ⟨k, hk, rfl⟩ := List.mem_map.mp ha
    obtain ⟨p, hp, rfl⟩ := List.mem_map.mp hk
    exact (canonicalKey_of_numeral (hc p hp).choose_spec).2.2
  refine congrArg (List.map Prod.snd) (List.Perm.eq_of_pairwise (fun a b ha hb hab hba => ?_)
    (hsorted _) (hsorted _) ((hsort _).trans (hperm.trans (hsort _).symm)))
  have ha := hkey a ((List.mem_insertionSort _).mp ha)
  have hb := hkey b (hperm.mem_iff.mpr ((List.mem_insertionSort _).mp hb))
  have hid := Int.le_antisymm hab hba
  exact Prod.ext hid (ha.trans (hid ▸ hb.symm))

theorem isParquetScan_congr {node node' : Json} (h : Rearranged node node') :
    IsParquetScan node ↔ IsParquetScan node' := by
  cases node with
  | obj kvs =>
    obtain ⟨kvs', rfl, h⟩ := h.exists_obj
    rw [IsParquetScan, IsParquetScan]
    have hrel := h.get? "parquetScan"
    generalize OrdDict.get? kvs "parquetScan" = x, OrdDict.get? kvs' "parquetScan" = x' at hrel
    cases hrel <;> simp
  | _ =>
    cases node' with
    | obj kvs' => exact absurd h.same (by simp [SameValue, canonical])
    | _ => exact Iff.rfl

theorem structScanIdsBySignature_agree (h : Rearranged (.obj plan) (.obj plan'))
    (hc : ∀ p ∈ plan, ∃ n : Nat, p.1 = toString n) :
    Agree Eq (structScanIdsBySignature plan) (structScanIdsBySignature plan') := by
  have hnode : ∀ nid, Rearranged ((OrdDict.get? plan nid).getD .null)
      ((OrdDict.get? plan' nid).getD .null) := fun nid => h.getD nid (Rearranged.refl trivial)
  rw [structScanIdsBySignature, structScanIdsBySignature, sortedNodeKeys_of_numerals hc,
    sortedNodeKeys_of_numerals (numerals_congr h hc), sortedKeys_congr h hc, Except.ok_bind,
    Except.ok_bind]
  have hscans : ((sortedKeys plan').filter fun nid =>
      IsParquetScan ((OrdDict.get? plan nid).getD .null)) =
      (sortedKeys plan').filter fun nid => IsParquetScan ((OrdDict.get? plan' nid).getD .null) :=
    List.filter_congr fun nid _ => decide_eq_decide.mpr (isParquetScan_congr (hnode nid))
  dsimp only
  rw [hscans]
  have hsigned := Agree.mapM
    (s := fun p q : String × Json => p = q)
    (f := fun nid => do
      return (nid, ← scanNormalizedSignature ((OrdDict.get? plan nid).getD .null)))
    (g := fun nid => do
      return (nid, ← scanNormalizedSignature ((OrdDict.get? plan' nid).getD .null)))
    (List.forall₂_same.mpr fun _ _ => rfl : List.Forall₂ Eq
      ((sortedKeys plan').filter fun nid => IsParquetScan ((OrdDict.get? plan' nid).getD .null)) _)
    fun nid nid' hn => by
      subst hn
      exact (scanNormalizedSignature_agree (hnode nid)).bind fun sig sig' _ _ hsig =>
        congrArg (Prod.mk nid) hsig
  refine hsigned.bind fun signed signed' _ _ hs => ?_
  rw [List.forall₂_eq_eq_eq] at hs
  exact congrArg OrdDict.group hs

end

/-! ## Rebinding -/

theorem fieldsOf_rearranged {a b : Json} (h : Rearranged a b) :
    Rearranged (.obj (fieldsOf a)) (.obj (fieldsOf b)) := by
  cases a with
  | obj kvs =>
    obtain ⟨kvs', rfl, h⟩ := h.exists_obj
    exact h
  | _ =>
    cases b with
    | obj kvs' => exact absurd h.same (by simp [SameValue, canonical])
    | _ => exact rearranged_nil

theorem SameValue.eq_null_iff {a b : Json} (h : SameValue a b) : a = .null ↔ b = .null := by
  rw [← canonical_eq_null, h, canonical_eq_null]

theorem rebindScan_agree {node node' entry entry' : Json} (hn : Rearranged node node')
    (he : Rearranged entry entry') : Agree Rearranged (rebindScan node entry) (rebindScan node' entry') := by
  have hpred := getOrNull_rearranged (fieldsOf_rearranged
    ((fieldsOf_rearranged hn).getD "parquetScan" (Rearranged.refl (a := .null) trivial))) "predicate"
  unfold rebindScan
  dsimp only
  by_cases hnull : getOrNull (fieldsOf ((OrdDict.get? (fieldsOf node) "parquetScan").getD .null))
      "predicate" = .null
  · rw [if_pos hnull, if_pos (hpred.same.eq_null_iff.mp hnull)]
    exact he
  · rw [if_neg hnull, if_neg (mt hpred.same.eq_null_iff.mpr hnull)]
    cases entry with
    | obj kvs =>
      obtain ⟨kvs', rfl, he⟩ := he.exists_obj
      have hps := he.getD "parquetScan" rearranged_nil
      dsimp only
      generalize (OrdDict.get? kvs "parquetScan").getD (.obj []) = x,
        (OrdDict.get? kvs' "parquetScan").getD (.obj []) = x' at hps
      cases x with
      | obj ps =>
        obtain ⟨ps', rfl, hps⟩ := hps.exists_obj
        exact he.set _ (hps.set _ hpred)
      | _ =>
        cases x' with
        | obj ps' => exact absurd hps.same (by simp [SameValue, canonical])
        | _ => exact agree_error ..
    | _ =>
      cases entry' with
      | obj kvs' => exact absurd he.same (by simp [SameValue, canonical])
      | _ => exact agree_error ..

/-- Two plans, as lists of nodes. -/
def SamePlan (plan plan' : List (String × Json)) : Prop := Rearranged (.obj plan) (.obj plan')

section

variable {plan plan' : List (String × Json)}

theorem rebindGroup_agree (h : SamePlan plan plan') {l l' : List (String × (Json × Json))}
    (hl : List.Forall₂ (fun q q' => q.1 = q'.1 ∧ SameEntry q.2 q'.2) l l')
    {out out' : List (String × Json)} (hout : SamePlan out out') :
    Agree SamePlan (rebindGroup plan l out) (rebindGroup plan' l' out') := by
  induction hl generalizing out out' with
  | nil => exact hout
  | @cons q q' l l' hq _ ih =>
    obtain ⟨nid, entry⟩ := q
    obtain ⟨nid', entry'⟩ := q'
    obtain ⟨hid, hentry⟩ := hq
    have hid : nid = nid' := hid
    subst hid
    rw [rebindGroup, rebindGroup]
    refine (rebindScan_agree (Rearranged.getD h nid (Rearranged.refl (a := .null) trivial))
      hentry.2).bind fun node node' _ _ hnode => ?_
    exact ih (Rearranged.set hout nid hnode)

theorem rebindGroups_agree (h : SamePlan plan plan') {by2 by2' : List (Json × List (Json × Json))}
    (hby2 : OrdDict.Related (List.Forall₂ SameEntry) by2 by2') (stage : String) :
    ∀ (groups : List (Json × List String)) {out out' : List (String × Json)}, SamePlan out out' →
      Agree SamePlan (rebindGroups plan by2 stage groups out)
        (rebindGroups plan' by2' stage groups out')
  | [], _, _, hout => hout
  | (sig, nids) :: groups, out, out', hout => by
    have hlist : List.Forall₂ SameEntry ((OrdDict.get? by2 sig).getD [])
        ((OrdDict.get? by2' sig).getD []) := by
      have hrel := hby2.get? sig
      generalize OrdDict.get? by2 sig = x, OrdDict.get? by2' sig = x' at hrel
      cases hrel with
      | none => exact .nil
      | some hx => exact hx
    rw [rebindGroups, rebindGroups, ← hlist.length_eq]
    split
    next => exact agree_error ..
    next =>
      have hzip : ∀ {nids : List String} {es es' : List (Json × Json)},
          List.Forall₂ SameEntry es es' →
            List.Forall₂ (fun q q' => q.1 = q'.1 ∧ SameEntry q.2 q'.2) (nids.zip es)
              (nids.zip es') := by
        intro nids es es' hes
        induction hes generalizing nids with
        | nil => simp
        | cons he _ ih =>
          cases nids with
          | nil => exact .nil
          | cons nid nids => exact .cons ⟨rfl, he⟩ ih
      exact (rebindGroup_agree h (hzip hlist) hout).bind fun o o' _ _ ho =>
        rebindGroups_agree h hby2 stage groups ho

/-- **Embedded scans are rebound alike.** -/
theorem rebind_agree (h : SamePlan plan plan') (hc : ∀ p ∈ plan, ∃ n : Nat, p.1 = toString n)
    {info info' : Json} (hinfo : Rearranged info info') (stage : String) :
    Agree SamePlan (rebindParquetScansInStructure plan info stage)
      (rebindParquetScansInStructure plan' info' stage) := by
  refine (sf2EntriesBySignature_agree hinfo).bind fun by2 by2' _ _ hby2 => ?_
  refine (structScanIdsBySignature_agree h hc).bind fun groups groups' _ _ hgroups => ?_
  subst hgroups
  exact rebindGroups_agree h hby2 stage groups h

end

end DbPlanBench.Transfer
