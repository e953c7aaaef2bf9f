import DbPlanBench.Lib.Agree
import DbPlanBench.Transfer.Document

/-!
# Values up to the order of fields

Two JSON documents have the same value if they differ in the order of object fields only,
which is to say that `json.dumps` with `sort_keys` gives the same text for both. What
reads a document by key does not notice the difference: lookups (`SameValue.get?`), Python's
`==` (`pyEq_congr`) and the signature of a scan (`scanNormalizedSignature_agree`). What goes
through the fields of an object meets the same ones, in another order
(`SameValue.fields_perm`).
-/

namespace DbPlanBench.Transfer

/-- The two values differ in the order of object fields at most. -/
def SameValue (a b : Json) : Prop := canonical a = canonical b

instance (a b : Json) : Decidable (SameValue a b) := inferInstanceAs (Decidable (_ = _))

/-- Two documents with the same value. -/
structure Rearranged (a b : Json) : Prop where
  left : a.NodupKeys
  right : b.NodupKeys
  same : SameValue a b

/-- A field with its value in canonical form. -/
def canonicalField (p : String × Json) : String × Json := (p.1, canonical p.2)

theorem SameValue.symm {a b : Json} (h : SameValue a b) : SameValue b a := Eq.symm h

theorem Rearranged.symm {a b : Json} (h : Rearranged a b) : Rearranged b a :=
  ⟨h.right, h.left, h.same.symm⟩

theorem Rearranged.refl {a : Json} (h : a.NodupKeys) : Rearranged a a := ⟨h, h, rfl⟩

theorem rearranged_nil : Rearranged (.obj []) (.obj []) := Rearranged.refl (by decide)

/-! ## The shapes of a value -/

section

variable {a b : Json} {xs ys : List Json} {kvs kvs' : List (String × Json)}

theorem canonical_arr (xs : List Json) : canonical (.arr xs) = .arr (xs.map canonical) := by
  rw [canonical, canonicalList_eq_map]

theorem canonical_obj (kvs : List (String × Json)) :
    canonical (.obj kvs) = .obj (sortFields (kvs.map canonicalField)) := by
  rw [canonical, canonicalFields_eq_map]
  rfl

theorem sameValue_arr :
    SameValue (.arr xs) (.arr ys) ↔ xs.map canonical = ys.map canonical := by
  rw [SameValue, canonical_arr, canonical_arr, Json.arr.injEq]

theorem SameValue.exists_arr (h : SameValue (.arr xs) b) : ∃ ys, b = .arr ys := by
  cases b with
  | arr ys => exact ⟨ys, rfl⟩
  | _ => simp [SameValue, canonical] at h

theorem SameValue.exists_obj (h : SameValue (.obj kvs) b) : ∃ kvs', b = .obj kvs' := by
  cases b with
  | obj kvs' => exact ⟨kvs', rfl⟩
  | _ => simp [SameValue, canonical] at h

/-- Neither an array nor an object. -/
def IsAtom : Json → Prop
  | .arr _ | .obj _ => False
  | _ => True

theorem SameValue.eq_of_atom (h : SameValue a b) (ha : IsAtom a) : a = b := by
  cases a <;> first
    | exact ha.elim
    | (cases b <;> simp_all [SameValue, canonical])

theorem SameValue.str_iff (h : SameValue a b) (s : String) : a = .str s ↔ b = .str s := by
  constructor
  · rintro rfl
    exact (h.eq_of_atom trivial).symm
  · rintro rfl
    exact (h.symm.eq_of_atom trivial).symm

/-- The fields of an object, up to their order. -/
theorem SameValue.fields_perm (h : SameValue (.obj kvs) (.obj kvs')) :
    (kvs.map canonicalField).Perm (kvs'.map canonicalField) := by
  have hsort : sortFields (kvs.map canonicalField) = sortFields (kvs'.map canonicalField) := by
    rw [SameValue, canonical_obj, canonical_obj] at h
    exact Json.obj.inj h
  have hperm := List.perm_insertionSort (fun p q : String × Json => p.1 ≤ q.1)
  exact (hperm _).symm.trans ((List.Perm.of_eq hsort).trans (hperm _))

theorem SameValue.length_eq (h : SameValue (.obj kvs) (.obj kvs')) : kvs.length = kvs'.length := by
  simpa using h.fields_perm.length_eq

theorem SameValue.keys_perm (h : SameValue (.obj kvs) (.obj kvs')) :
    (OrdDict.keys kvs).Perm (OrdDict.keys kvs') := by
  have hkeys := h.fields_perm.map Prod.fst
  rw [List.map_map, List.map_map] at hkeys
  exact hkeys

/-- Every field of the one object is one of the other. -/
theorem SameValue.exists_field (h : SameValue (.obj kvs) (.obj kvs')) {p : String × Json}
    (hp : p ∈ kvs) : ∃ q ∈ kvs', q.1 = p.1 ∧ SameValue p.2 q.2 := by
  obtain ⟨q, hq, he⟩ := List.mem_map.mp (h.fields_perm.mem_iff.mp (List.mem_map_of_mem hp))
  rw [canonicalField, canonicalField, Prod.mk.injEq] at he
  exact ⟨q, hq, he.1, he.2.symm⟩

/-- The keys of a sorted object, sorted. -/
theorem keys_sortFields_perm (kvs : List (String × Json)) :
    (OrdDict.keys (sortFields (canonicalFields kvs))).Perm (OrdDict.keys kvs) := by
  have hkeys := (sortFields_canonicalFields_perm kvs).map Prod.fst
  rw [List.map_map] at hkeys
  exact hkeys

/-- **Objects have the same value exactly if they have the same values under all keys.** -/
theorem sameValue_obj (hnd : (OrdDict.keys kvs).Nodup) (hnd' : (OrdDict.keys kvs').Nodup) :
    SameValue (.obj kvs) (.obj kvs') ↔
      ∀ k, (OrdDict.get? kvs k).map canonical = (OrdDict.get? kvs' k).map canonical := by
  rw [SameValue, canonical, canonical, Json.obj.injEq]
  constructor
  · intro h k
    rw [← get?_sortFields hnd, ← get?_sortFields hnd', h]
  · intro h
    have hmem : ∀ k, k ∈ OrdDict.keys kvs ↔ k ∈ OrdDict.keys kvs' := by
      intro k
      rw [← OrdDict.get?_isSome, ← OrdDict.get?_isSome, ← Option.isSome_iff_exists,
        ← Option.isSome_iff_exists, ← @Option.isSome_map _ _ canonical, h k, Option.isSome_map]
    have hsorted : ∀ l : List (String × Json),
        (OrdDict.keys (sortFields (canonicalFields l))).Pairwise (· ≤ ·) :=
      fun l => List.pairwise_map.mpr (sortFields_sorted _)
    have hperm := (keys_sortFields_perm kvs).trans
      (((List.perm_ext_iff_of_nodup hnd hnd').mpr hmem).trans (keys_sortFields_perm kvs').symm)
    refine OrdDict.ext_get? ((keys_sortFields_perm kvs).nodup_iff.mpr hnd)
      (hperm.eq_of_pairwise' (hsorted kvs) (hsorted kvs')) fun k => ?_
    rw [get?_sortFields hnd, get?_sortFields hnd', h k]

/-! ## Reading and changing an object -/

/-- Lookups under one key. -/
theorem Rearranged.get? (h : Rearranged (.obj kvs) (.obj kvs')) (k : String) :
    Option.Rel Rearranged (OrdDict.get? kvs k) (OrdDict.get? kvs' k) := by
  have hsame := (sameValue_obj (Json.nodupKeys_obj.mp h.left).1
    (Json.nodupKeys_obj.mp h.right).1).mp h.same k
  cases hv : OrdDict.get? kvs k with
  | none =>
    cases hw : OrdDict.get? kvs' k with
    | none => exact Option.Rel.none
    | some w => simp [hv, hw] at hsame
  | some v =>
    cases hw : OrdDict.get? kvs' k with
    | none => simp [hv, hw] at hsame
    | some w =>
      rw [hv, hw] at hsame
      exact Option.Rel.some
        ⟨nodupKeys_of_get? h.left hv, nodupKeys_of_get? h.right hw, Option.some.inj hsame⟩

/-- Lookups with a default. -/
theorem Rearranged.getD (h : Rearranged (.obj kvs) (.obj kvs')) (k : String) {d d' : Json}
    (hd : Rearranged d d') :
    Rearranged ((OrdDict.get? kvs k).getD d) ((OrdDict.get? kvs' k).getD d') := by
  have hrel := h.get? k
  generalize OrdDict.get? kvs k = v, OrdDict.get? kvs' k = v' at hrel ⊢
  cases hrel with
  | none => exact hd
  | some hv => exact hv

theorem Rearranged.set (h : Rearranged (.obj kvs) (.obj kvs')) (k : String) {v v' : Json}
    (hv : Rearranged v v') :
    Rearranged (.obj (OrdDict.set kvs k v)) (.obj (OrdDict.set kvs' k v')) := by
  have hleft := nodupKeys_set h.left k hv.left
  have hright := nodupKeys_set h.right k hv.right
  refine ⟨hleft, hright, (sameValue_obj (Json.nodupKeys_obj.mp hleft).1
    (Json.nodupKeys_obj.mp hright).1).mpr fun j => ?_⟩
  rw [OrdDict.get?_set, OrdDict.get?_set]
  by_cases hj : k = j
  · rw [if_pos hj, if_pos hj]
    exact congrArg some hv.same
  · rw [if_neg hj, if_neg hj]
    exact (sameValue_obj (Json.nodupKeys_obj.mp h.left).1
      (Json.nodupKeys_obj.mp h.right).1).mp h.same j

theorem get?_erase_self {d : List (String × Json)} (hd : (OrdDict.keys d).Nodup) (k : String) :
    OrdDict.get? (OrdDict.erase d k) k = none := by
  induction d with
  | nil => rfl
  | cons p d ih =>
    obtain ⟨k', w⟩ := p
    rw [OrdDict.keys_cons, List.nodup_cons] at hd
    rw [OrdDict.erase]
    by_cases hk : k' = k
    · rw [if_pos hk, OrdDict.get?_eq_none]
      exact hk ▸ hd.1
    · rw [if_neg hk, OrdDict.get?, if_neg hk, ih hd.2]

theorem Rearranged.erase (h : Rearranged (.obj kvs) (.obj kvs')) (k : String) :
    Rearranged (.obj (OrdDict.erase kvs k)) (.obj (OrdDict.erase kvs' k)) := by
  have hnodup : ∀ {l : List (String × Json)}, (Json.obj l).NodupKeys →
      (Json.obj (OrdDict.erase l k)).NodupKeys := by
    intro l hl
    rw [Json.nodupKeys_obj] at hl ⊢
    exact ⟨OrdDict.nodup_keys_erase k hl.1,
      fun p hp => hl.2 p ((OrdDict.erase_sublist l k).subset hp)⟩
  have hkeys := (Json.nodupKeys_obj.mp h.left).1
  have hkeys' := (Json.nodupKeys_obj.mp h.right).1
  refine ⟨hnodup h.left, hnodup h.right, (sameValue_obj (OrdDict.nodup_keys_erase k hkeys)
    (OrdDict.nodup_keys_erase k hkeys')).mpr fun j => ?_⟩
  by_cases hj : j = k
  · rw [hj, get?_erase_self hkeys, get?_erase_self hkeys']
  · rw [OrdDict.get?_erase_ne _ hj, OrdDict.get?_erase_ne _ hj]
    exact (sameValue_obj hkeys hkeys').mp h.same j

/-! ## Reading and changing an array -/

theorem rearranged_arr : Rearranged (.arr xs) (.arr ys) ↔ List.Forall₂ Rearranged xs ys := by
  constructor
  · intro h
    have hmap := sameValue_arr.mp h.same
    have hleft := Json.nodupKeys_arr.mp h.left
    have hright := Json.nodupKeys_arr.mp h.right
    clear h
    induction xs generalizing ys with
    | nil =>
      cases ys with
      | nil => exact .nil
      | cons y ys => simp at hmap
    | cons x xs ih =>
      cases ys with
      | nil => simp at hmap
      | cons y ys =>
        rw [List.forall_mem_cons] at hleft hright
        rw [List.map_cons, List.map_cons, List.cons.injEq] at hmap
        exact .cons ⟨hleft.1, hright.1, hmap.1⟩ (ih hmap.2 hleft.2 hright.2)
  · intro h
    induction h with
    | nil => exact Rearranged.refl trivial
    | cons hxy _ ih =>
      exact ⟨⟨hxy.left, ih.left⟩, ⟨hxy.right, ih.right⟩,
        sameValue_arr.mpr (congrArg₂ List.cons hxy.same (sameValue_arr.mp ih.same))⟩

theorem Rearranged.exists_obj (h : Rearranged (.obj kvs) b) :
    ∃ kvs', b = .obj kvs' ∧ Rearranged (.obj kvs) (.obj kvs') := by
  obtain ⟨kvs', rfl⟩ := h.same.exists_obj
  exact ⟨kvs', rfl, h⟩

theorem Rearranged.exists_arr (h : Rearranged (.arr xs) b) :
    ∃ ys, b = .arr ys ∧ List.Forall₂ Rearranged xs ys := by
  obtain ⟨ys, rfl⟩ := h.same.exists_arr
  exact ⟨ys, rfl, rearranged_arr.mp h⟩

/-- Elements at one index. -/
theorem Rearranged.listGetD (h : List.Forall₂ Rearranged xs ys) (i : Nat) :
    Rearranged (xs.getD i .null) (ys.getD i .null) := by
  induction h generalizing i with
  | nil => exact Rearranged.refl trivial
  | cons hxy _ ih =>
    cases i with
    | zero => exact hxy
    | succ i => exact ih i

theorem Rearranged.listSet (h : List.Forall₂ Rearranged xs ys) (i : Nat) {v v' : Json}
    (hv : Rearranged v v') : List.Forall₂ Rearranged (xs.set i v) (ys.set i v') := by
  induction h generalizing i with
  | nil => exact .nil
  | cons hxy htail ih =>
    cases i with
    | zero => exact .cons hv htail
    | succ i => exact .cons hxy (ih i)

theorem Rearranged.insertIdx (h : List.Forall₂ Rearranged xs ys) (i : Nat) {v v' : Json}
    (hv : Rearranged v v') : List.Forall₂ Rearranged (xs.insertIdx i v) (ys.insertIdx i v') := by
  induction h generalizing i with
  | nil =>
    cases i with
    | zero => exact .cons hv .nil
    | succ i => exact .nil
  | cons hxy htail ih =>
    cases i with
    | zero => exact .cons hv (.cons hxy htail)
    | succ i => exact .cons hxy (ih i)

theorem Rearranged.eraseIdx (h : List.Forall₂ Rearranged xs ys) (i : Nat) :
    List.Forall₂ Rearranged (xs.eraseIdx i) (ys.eraseIdx i) := by
  induction h generalizing i with
  | nil => exact .nil
  | cons hxy htail ih =>
    cases i with
    | zero => exact htail
    | succ i => exact .cons hxy (ih i)

end

/-! ## Python's `==` -/

theorem number?_canonical (a : Json) : (canonical a).number? = a.number? := by
  cases a <;> rfl

theorem pyEqFields_perm {as as' : List (String × Json)} (h : as.Perm as')
    (bs : List (String × Json)) : Json.pyEqFields as bs = Json.pyEqFields as' bs := by
  induction h with
  | nil => rfl
  | cons p _ ih =>
    obtain ⟨k, a⟩ := p
    rw [Json.pyEqFields, Json.pyEqFields, ih]
  | swap p q as =>
    obtain ⟨k, a⟩ := p
    obtain ⟨j, b⟩ := q
    rw [Json.pyEqFields, Json.pyEqFields, Json.pyEqFields, Json.pyEqFields]
    exact Bool.and_left_comm ..
  | trans _ _ ih ih' => exact ih.trans ih'

theorem pyEqFields_sortFields (as bs : List (String × Json)) :
    Json.pyEqFields (sortFields as) bs = Json.pyEqFields as bs :=
  pyEqFields_perm (List.perm_insertionSort _ as) bs

theorem length_sortFields_canonicalFields (kvs : List (String × Json)) :
    (sortFields (canonicalFields kvs)).length = kvs.length := by
  simpa using (sortFields_canonicalFields_perm kvs).length_eq

mutual

theorem pyEq_canonical_left : ∀ a b : Json, (canonical a).pyEq b = a.pyEq b
  | .obj kvs, b => by
    cases b with
    | obj bs =>
      rw [canonical, Json.pyEq, Json.pyEq, length_sortFields_canonicalFields, pyEqFields_sortFields,
        pyEqFields_canonical_left kvs bs]
    | _ => rfl
  | .arr xs, b => by
    cases b with
    | arr bs => exact pyEqList_canonical_left xs bs
    | _ => rfl
  | .null, _ | .bool _, _ | .int _, _ | .float _, _ | .str _, _ => rfl

theorem pyEqList_canonical_left : ∀ as bs : List Json,
    Json.pyEqList (canonicalList as) bs = Json.pyEqList as bs
  | [], _ => rfl
  | a :: as, bs => by
    cases bs with
    | nil => rfl
    | cons b bs =>
      rw [canonicalList, Json.pyEqList, Json.pyEqList, pyEq_canonical_left a b,
        pyEqList_canonical_left as bs]

theorem pyEqFields_canonical_left : ∀ as bs : List (String × Json),
    Json.pyEqFields (canonicalFields as) bs = Json.pyEqFields as bs
  | [], _ => rfl
  | (k, a) :: as, bs => by
    rw [canonicalFields, Json.pyEqFields, Json.pyEqFields, pyEqFields_canonical_left as bs]
    cases OrdDict.get? bs k with
    | some b => exact congrArg (· && _) (pyEq_canonical_left a b)
    | none => rfl

end

mutual

theorem pyEq_canonical_right : ∀ a b : Json, b.NodupKeys → a.pyEq (canonical b) = a.pyEq b
  | .obj kvs, b, hb => by
    cases b with
    | obj bs =>
      rw [canonical, Json.pyEq, Json.pyEq, length_sortFields_canonicalFields,
        pyEqFields_canonical_right kvs bs hb]
    | _ => rfl
  | .arr xs, b, hb => by
    cases b with
    | arr bs => exact pyEqList_canonical_right xs bs (Json.nodupKeys_arr.mp hb)
    | _ => rfl
  | .bool a, b, _ => by rw [Json.pyEq, Json.pyEq, number?_canonical]
  | .int a, b, _ => by rw [Json.pyEq, Json.pyEq, number?_canonical]
  | .float a, b, _ => by rw [Json.pyEq, Json.pyEq, number?_canonical]
  | .null, b, _ => by cases b <;> rfl
  | .str a, b, _ => by cases b <;> rfl

theorem pyEqList_canonical_right : ∀ as bs : List Json, (∀ b ∈ bs, b.NodupKeys) →
    Json.pyEqList as (canonicalList bs) = Json.pyEqList as bs
  | [], bs, _ => by cases bs <;> rfl
  | a :: as, bs, hb => by
    cases bs with
    | nil => rfl
    | cons b bs =>
      rw [List.forall_mem_cons] at hb
      rw [canonicalList, Json.pyEqList, Json.pyEqList, pyEq_canonical_right a b hb.1,
        pyEqList_canonical_right as bs hb.2]

theorem pyEqFields_canonical_right : ∀ as bs : List (String × Json), (Json.obj bs).NodupKeys →
    Json.pyEqFields as (sortFields (canonicalFields bs)) = Json.pyEqFields as bs
  | [], _, _ => rfl
  | (k, a) :: as, bs, hb => by
    rw [Json.pyEqFields, Json.pyEqFields, get?_sortFields (Json.nodupKeys_obj.mp hb).1,
      pyEqFields_canonical_right as bs hb]
    cases hk : OrdDict.get? bs k with
    | none => rfl
    | some b => exact congrArg (· && _) (pyEq_canonical_right a b (nodupKeys_of_get? hb hk))

end

/-- **`==` does not depend on the order of fields.** -/
theorem pyEq_congr {a a' b b' : Json} (ha : Rearranged a a') (hb : Rearranged b b') :
    a.pyEq b = a'.pyEq b' := by
  rw [← pyEq_canonical_left a, ← pyEq_canonical_right _ b hb.left, ha.same, hb.same,
    pyEq_canonical_right _ b' hb.right, pyEq_canonical_left]

end DbPlanBench.Transfer
