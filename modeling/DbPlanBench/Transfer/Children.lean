import DbPlanBench.Engine.Children
import DbPlanBench.Transfer.Accepted

/-!
# The children that Python checks and the engine follows

`_validate_references` and the engine's `extract_child_ids` recognise references by
different rules. The engine reads the four fields of the operator's configuration
and takes JSON integers of 64 bits without a sign; Python looks at every depth, knows
the field `children`, takes digit strings, booleans and integers of any size, and
takes a list only if all of its items are ids.

`transferredChildren_perm` says exactly by what the two differ on a transferred plan.
-/

namespace DbPlanBench.Transfer

open Engine (asU64 asArray extractChildIds readChildIds u64Size)

/-- The id a reference stands for. -/
def refId (v : Json) : Int := (toInt v).toOption.getD 0

/-- The ids that `_validate_references` checks in a node. -/
def checkedIds (node : Json) : List Int := (walkRefs node).map fun q => refId q.2

/-- The checked references of a field that the engine does not follow: one that is no 64-bit
integer, one under `children`, and one inside any other value. -/
def checkedOnlyField (k : String) (v : Json) : List Json :=
  if k ∈ refKeysScalar ∧ isIntish v then (if (asU64 v).isSome then [] else [v])
  else
    match refList? k v with
    | some xs => if k = "inputs" then xs.filter fun x => (asU64 x).isNone else xs
    | none => (walkRefs v).map Prod.snd

/-- The ids of a field that the engine follows and Python does not check: integers in a list
`inputs` with another item that is no id. -/
def engineOnlyField (k : String) (v : Json) : List Nat :=
  if k = "inputs" ∧ (intishList? v).isNone then (asArray v).filterMap asU64 else []

/-- The checked references of a node that the engine does not follow. -/
def checkedOnly : Json → List Json
  | .obj [(_, .obj conf)] => conf.flatMap fun p => checkedOnlyField p.1 p.2
  | node => (walkRefs node).map Prod.snd

/-- The ids of a node that the engine follows and Python does not check. -/
def engineOnly : Json → List Nat
  | .obj [(_, .obj conf)] => conf.flatMap fun p => engineOnlyField p.1 p.2
  | _ => []

/-! ## One field -/

theorem isIntish_of_asU64 {v : Json} {n : Nat} (h : asU64 v = some n) :
    isIntish v = true ∧ refId v = n := by
  cases v with
  | int z =>
    rw [asU64] at h
    split at h
    next hz =>
      injection h with h
      refine ⟨rfl, ?_⟩
      rw [refId, toInt_int, ← h, Int.toNat_of_nonneg hz.1]
      rfl
    next => exact absurd h (by simp)
  | _ => exact absurd h (by simp [asU64])

/-- What the engine reads of a field. -/
def fieldChildIds (k : String) (v : Json) : List Nat :=
  if k ∈ refKeysScalar then (asU64 v).toList
  else if k = "inputs" then (asArray v).filterMap asU64
  else []

/-- The ids among some references. -/
theorem filterMap_asU64_perm (xs : List Json) : (xs.map refId).Perm
    ((xs.filterMap asU64).map Int.ofNat ++ (xs.filter fun x => (asU64 x).isNone).map refId) := by
  induction xs with
  | nil => exact List.Perm.nil
  | cons x xs ih =>
    cases hx : asU64 x with
    | some n =>
      rw [List.filterMap_cons_some hx, List.filter_cons_of_neg (by simp [hx]), List.map_cons,
        List.map_cons, (isIntish_of_asU64 hx).2]
      exact ih.cons _
    | none =>
      rw [List.filterMap_cons_none hx, List.filter_cons_of_pos (by simp [hx]), List.map_cons,
        List.map_cons]
      exact (ih.cons _).trans List.perm_middle.symm

/-- The references of one field, as Python reads them. -/
def fieldRefs (k : String) (v : Json) : List (String × Json) :=
  if k ∈ refKeysScalar ∧ isIntish v then [(k, v)]
  else
    match refList? k v with
    | some xs => xs.map (k, ·)
    | none => walkRefs v

theorem walkRefsFields_eq_flatMap (kvs : List (String × Json)) :
    walkRefsFields kvs = kvs.flatMap fun p => fieldRefs p.1 p.2 := by
  induction kvs with
  | nil => rfl
  | cons p kvs ih =>
    rw [walkRefsFields, ih, List.flatMap_cons]
    rfl

theorem field_perm (k : String) (v : Json) :
    (((fieldRefs k v).map fun q => refId q.2) ++ (engineOnlyField k v).map Int.ofNat).Perm
      ((fieldChildIds k v).map Int.ofNat ++ (checkedOnlyField k v).map refId) := by
  have hwalk : ((walkRefs v).map fun q => refId q.2) = ((walkRefs v).map Prod.snd).map refId := by
    rw [List.map_map]
    rfl
  -- split as both readers do: a scalar field, then `inputs`, then a field that only Python knows
  by_cases hk : k ∈ refKeysScalar
  · have hinputs : k ≠ "inputs" := by
      rintro rfl
      exact absurd hk (by decide)
    rw [engineOnlyField, if_neg (fun h => hinputs h.1), fieldChildIds, if_pos hk, fieldRefs,
      checkedOnlyField]
    by_cases hv : isIntish v = true
    · rw [if_pos ⟨hk, hv⟩, if_pos ⟨hk, hv⟩]
      cases hu : asU64 v with
      | some n =>
        simp [(isIntish_of_asU64 hu).2]
      | none => simp
    · -- not an integer: the engine reads nothing, Python walks into it
      have hu : asU64 v = none := by
        cases hu : asU64 v with
        | none => rfl
        | some n => exact absurd (isIntish_of_asU64 hu).1 hv
      rw [if_neg (fun h => hv h.2), if_neg (fun h => hv h.2), refList?_of_scalar hk, hu]
      simp [hwalk]
  · rw [fieldRefs, checkedOnlyField, if_neg (fun h => hk h.1), if_neg (fun h => hk h.1),
      fieldChildIds, if_neg hk, engineOnlyField]
    by_cases hinputs : k = "inputs"
    · subst hinputs
      -- `inputs`: a list of integers for Python, any array for the engine
      cases hl : intishList? v with
      | some xs =>
        have hlist : refList? "inputs" v = some xs := by
          rw [refList?, if_pos (by decide), hl]
        rw [hlist, (intishList?_eq_some.mp hl).1]
        simpa [asArray, Function.comp_def] using filterMap_asU64_perm xs
      | none =>
        have hlist : refList? "inputs" v = none := by
          rw [refList?, if_pos (by decide), hl]
        rw [hlist]
        simpa [hwalk] using List.perm_append_comm
    · rw [if_neg (fun h => hinputs h.1), if_neg hinputs]
      cases refList? k v with
      | some xs => simp [hinputs, Function.comp_def]
      | none => simp [hwalk]

/-! ## One node -/

/-- The id under a field that holds one. -/
def scalarChild (conf : List (String × Json)) (k : String) : List Nat :=
  ((OrdDict.get? conf k).bind asU64).toList

/-- The ids under `inputs`. -/
def listChildren (conf : List (String × Json)) : List Nat :=
  (asArray ((OrdDict.get? conf "inputs").getD .null)).filterMap asU64

theorem readChildIds_eq (conf : List (String × Json)) : readChildIds conf =
    scalarChild conf "input" ++ scalarChild conf "left" ++ scalarChild conf "right" ++
      listChildren conf := rfl

theorem scalarChild_cons (k : String) (v : Json) (conf : List (String × Json)) (j : String) :
    scalarChild ((k, v) :: conf) j = if k = j then (asU64 v).toList else scalarChild conf j := by
  rw [scalarChild, OrdDict.get?]
  split
  next => rfl
  next => rfl

theorem listChildren_cons (k : String) (v : Json) (conf : List (String × Json)) :
    listChildren ((k, v) :: conf) =
      if k = "inputs" then (asArray v).filterMap asU64 else listChildren conf := by
  rw [listChildren, OrdDict.get?]
  split
  next => rfl
  next => rfl

/-- The engine reads the fields of a dictionary one by one. -/
theorem readChildIds_perm : ∀ {conf : List (String × Json)}, (OrdDict.keys conf).Nodup →
    (readChildIds conf).Perm (conf.flatMap fun p => fieldChildIds p.1 p.2)
  | [], _ => List.Perm.nil
  | (k, v) :: conf, hnd => by
    obtain ⟨hk, hnd⟩ := List.nodup_cons.mp hnd
    have hnone : OrdDict.get? conf k = none := OrdDict.get?_eq_none.mpr hk
    have hscalar : scalarChild conf k = [] := by rw [scalarChild, hnone]; rfl
    have hlist : k = "inputs" → listChildren conf = [] := by
      rintro rfl
      rw [listChildren, hnone]
      rfl
    rw [List.flatMap_cons]
    refine List.Perm.trans ?_ (List.Perm.append_left _ (readChildIds_perm hnd))
    refine List.perm_iff_count.mpr fun n => ?_
    simp only [readChildIds_eq, scalarChild_cons, listChildren_cons, fieldChildIds, refKeysScalar,
      List.mem_cons, List.not_mem_nil, or_false, List.count_append]
    -- the new field is one of the four, and then it was not there before, or another one
    by_cases h1 : k = "input"
    · subst h1
      simp [hscalar]
      omega
    by_cases h2 : k = "left"
    · subst h2
      simp [hscalar]
      omega
    by_cases h3 : k = "right"
    · subst h3
      simp [hscalar]
      omega
    by_cases h4 : k = "inputs"
    · subst h4
      simp [hlist]
      omega
    · simp [h1, h2, h3, h4]

theorem flatMap_append_perm {α β : Type} {f g : α → List β} : ∀ l : List α,
    (l.flatMap f ++ l.flatMap g).Perm (l.flatMap fun a => f a ++ g a)
  | [] => List.Perm.nil
  | a :: l => by
    have ih := flatMap_append_perm (f := f) (g := g) l
    rw [List.flatMap_cons, List.flatMap_cons, List.flatMap_cons, List.append_assoc,
      List.append_assoc]
    refine List.Perm.append_left _ ?_
    exact (List.perm_append_comm_assoc ..).trans (List.Perm.append_left _ ih)

/-- **The two readings of a node with a single operator.** -/
theorem nodeChildren_perm (op : String) {conf : Json} (hnd : conf.NodupKeys) :
    (checkedIds (.obj [(op, conf)]) ++ (engineOnly (.obj [(op, conf)])).map Int.ofNat).Perm
      ((extractChildIds (.obj [(op, conf)])).map Int.ofNat ++
        (checkedOnly (.obj [(op, conf)])).map refId) := by
  cases conf with
  | obj kvs =>
    have hread := (readChildIds_perm (Json.nodupKeys_obj.mp hnd).1).map Int.ofNat
    have hfields : (kvs.flatMap fun p => ((fieldRefs p.1 p.2).map fun q => refId q.2) ++
        (engineOnlyField p.1 p.2).map Int.ofNat).Perm (kvs.flatMap fun p =>
          (fieldChildIds p.1 p.2).map Int.ofNat ++ (checkedOnlyField p.1 p.2).map refId) :=
      List.Perm.flatMap_left _ fun p _ => field_perm p.1 p.2
    rw [checkedIds, walkRefs_operator, walkRefsFields_eq_flatMap, List.map_flatMap, engineOnly,
      List.map_flatMap, checkedOnly, List.map_flatMap]
    refine ((flatMap_append_perm kvs).trans hfields).trans ?_
    refine (flatMap_append_perm kvs).symm.trans (List.Perm.append_right _ ?_)
    rw [← List.map_flatMap]
    exact hread.symm
  | _ => simp [checkedIds, engineOnly, extractChildIds, checkedOnly, refId, Function.comp_def]

/-! ## No stage repeats a field -/

theorem keys_renameRefsFields (σ : Int → Option Int) (kvs : List (String × Json)) :
    OrdDict.keys (renameRefsFields σ kvs) = OrdDict.keys kvs := by
  induction kvs with
  | nil => rfl
  | cons p kvs ih => rw [renameRefsFields, OrdDict.keys_cons, OrdDict.keys_cons, ih]

theorem nodupKeys_renameRef (σ : Int → Option Int) {v : Json} (h : v.NodupKeys) :
    (renameRef σ v).NodupKeys := by
  cases hv : toInt v with
  | error e => rwa [renameRef_of_error hv]
  | ok r =>
    rw [renameRef, hv]
    cases hr : σ r with
    | some n => simp [hr, Json.NodupKeys]
    | none => simpa [hr] using h

mutual

theorem nodupKeys_renameRefs (σ : Int → Option Int) : ∀ v : Json,
    v.NodupKeys → (renameRefs σ v).NodupKeys
  | .obj kvs, h => by
    refine ⟨?_, nodupKeysFields_renameRefs σ kvs h.2⟩
    rw [keys_renameRefsFields]
    exact h.1
  | .arr xs, h => nodupKeysList_renameRefs σ xs h
  | .null, h | .bool _, h | .int _, h | .float _, h | .str _, h => h

theorem nodupKeysList_renameRefs (σ : Int → Option Int) : ∀ xs : List Json,
    Json.NodupKeysList xs → Json.NodupKeysList (renameRefsList σ xs)
  | [], h => h
  | x :: xs, h => ⟨nodupKeys_renameRefs σ x h.1, nodupKeysList_renameRefs σ xs h.2⟩

theorem nodupKeysFields_renameRefs (σ : Int → Option Int) : ∀ kvs : List (String × Json),
    Json.NodupKeysFields kvs → Json.NodupKeysFields (renameRefsFields σ kvs)
  | [], h => h
  | (k, v) :: kvs, h => by
    refine ⟨?_, nodupKeysFields_renameRefs σ kvs h.2⟩
    have hv : v.NodupKeys := h.1
    by_cases hk : k ∈ refKeysScalar
    · rw [if_pos hk]
      exact nodupKeys_renameRef σ hv
    · rw [if_neg hk]
      cases hl : refList? k v with
      | some xs =>
        rw [(refList?_eq_some hl).1] at hv
        refine Json.nodupKeys_arr.mpr fun y hy => ?_
        obtain ⟨x, hx, rfl⟩ := List.mem_map.mp hy
        exact nodupKeys_renameRef σ (Json.nodupKeys_arr.mp hv x hx)
      | none => exact nodupKeys_renameRefs σ v hv

end

theorem nodupKeys_tableInfoEntries {info : Json} (hi : info.NodupKeys)
    {entries : List (Json × Json)} (h : tableInfoEntries info = .ok entries) :
    ∀ e ∈ entries, e.2.NodupKeys := by
  have hentry : ∀ {x : Json} {e : Json × Json}, x.NodupKeys → tableInfoEntry? x = some e →
      e.2.NodupKeys := by
    intro x e hx he
    unfold tableInfoEntry? at he
    split at he
    next =>
      split at he
      next hnode =>
        injection he with he
        exact he ▸ nodupKeys_of_get? hx hnode
      next => exact absurd he (by simp)
    next => exact absurd he (by simp)
  have hlist : ∀ {es : List Json}, (Json.arr es).NodupKeys →
      ∀ e ∈ es.filterMap tableInfoEntry?, e.2.NodupKeys := by
    intro es hes e he
    obtain ⟨x, hx, hxe⟩ := List.mem_filterMap.mp he
    exact hentry (Json.nodupKeys_arr.mp hes x hx) hxe
  unfold tableInfoEntries at h
  split at h
  next =>
    injection h with h
    exact h ▸ fun e he => absurd he List.not_mem_nil
  next =>
    injection h with h
    exact h ▸ hlist hi
  next =>
    split at h
    next hes =>
      injection h with h
      exact h ▸ hlist (nodupKeys_of_get? hi hes)
    next => exact absurd h (by simp)
  next => exact absurd h (by simp)

theorem nodupKeys_fieldsOf {v : Json} (h : v.NodupKeys) : (Json.obj (fieldsOf v)).NodupKeys := by
  cases v with
  | obj kvs => exact h
  | _ => exact Json.nodupKeys_obj.mpr ⟨List.nodup_nil, fun p hp => absurd hp List.not_mem_nil⟩

theorem nodupKeys_getD_get? {kvs : List (String × Json)} (h : (Json.obj kvs).NodupKeys)
    (k : String) {d : Json} (hd : d.NodupKeys) : ((OrdDict.get? kvs k).getD d).NodupKeys := by
  cases hk : OrdDict.get? kvs k with
  | none => exact hd
  | some v => exact nodupKeys_of_get? h hk

/-- A replaced scan is the SF2 scan with one field of the SF1 scan. -/
theorem nodupKeys_rebindScan {n1 n2 out : Json} (h1 : n1.NodupKeys) (h2 : n2.NodupKeys)
    (h : rebindScan n1 n2 = .ok out) : out.NodupKeys := by
  have hps1 := nodupKeys_getD_get? (nodupKeys_fieldsOf h1) "parquetScan" (d := .null) trivial
  have hpred := nodupKeys_getD_get? (nodupKeys_fieldsOf hps1) "predicate" (d := .null) trivial
  simp only [rebindScan] at h
  -- without a predicate to carry over the SF2 scan is taken as it is
  by_cases hnull : getOrNull (fieldsOf ((OrdDict.get? (fieldsOf n1) "parquetScan").getD .null))
      "predicate" = .null
  · rw [if_pos hnull] at h
    injection h with h
    exact h ▸ h2
  · rw [if_neg hnull] at h
    cases n2 with
    | obj node =>
      have hnd := nodupKeys_getD_get? h2 "parquetScan" (d := .obj []) (by decide)
      cases hps : (OrdDict.get? node "parquetScan").getD (.obj []) with
      | obj ps =>
        simp only [hps] at h
        injection h with h
        rw [hps] at hnd
        exact h ▸ nodupKeys_set h2 _ (nodupKeys_set hnd _ hpred)
      | _ =>
        simp only [hps] at h
        exact absurd h (by simp)
    | _ => exact absurd h (by simp)

theorem nodupKeys_rebind {plan rebased : List (String × Json)} {info : Json} {stage : String}
    (hplan : (Json.obj plan).NodupKeys) (hi : info.NodupKeys)
    (h : rebindParquetScansInStructure plan info stage = .ok rebased) :
    (Json.obj rebased).NodupKeys := by
  obtain ⟨entries, hentries, hmem⟩ := mem_rebind h
  rw [Json.nodupKeys_obj, (rebind_spec h).1]
  refine ⟨(Json.nodupKeys_obj.mp hplan).1, fun q hq => ?_⟩
  rcases hmem q hq with hq | ⟨k, e, he, hq⟩
  · exact (Json.nodupKeys_obj.mp hplan).2 q hq
  · exact nodupKeys_rebindScan (nodupKeys_getD_get? hplan k (d := .null) trivial)
      (nodupKeys_tableInfoEntries hi hentries e he) hq

/-! ## The transferred plan -/

/-- **What Python checks and what the engine follows.** Every reference of a transferred node can
be read; the checked ids and those that only the engine follows are together the followed ids and
those that are only checked. -/
theorem transferredChildren_perm (sf1Base sf1Info sf2Base sf2Info patch : JsonValue)
    {out : List (String × Json)}
    (h : transferPlan sf1Base sf1Info sf2Base sf2Info patch = .ok out) : ∀ q ∈ out,
    (∀ x ∈ walkRefs q.2, toInt x.2 = .ok (refId x.2)) ∧
      (checkedIds q.2 ++ (engineOnly q.2).map Int.ofNat).Perm
        ((extractChildIds q.2).map Int.ofNat ++ (checkedOnly q.2).map refId) ∧
      ((checkedIds q.2).Perm ((extractChildIds q.2).map Int.ofNat) ↔
        ((engineOnly q.2).map Int.ofNat).Perm ((checkedOnly q.2).map refId)) := by
  obtain ⟨P, Q, _, _, _, hs⟩ := stages_of_transferPlan h
  have hP := applyJsonPatch_nodupKeys sf1Base.2 patch.2 hs.patched
  obtain ⟨Q, sm, m, hacc, _, rfl⟩ :=
    (transferPlan_eq_ok_iff sf1Base sf1Info sf2Base sf2Info patch hs.patched out).mp h
  have hQ := nodupKeys_rebind hP sf2Info.2 hacc.rebound
  intro q hq
  refine ⟨fun x hx => ?_, ?_⟩
  · obtain ⟨r, hr⟩ := readable_renamedPlan hacc.readable q hq x hx
    rw [refId, hr]
    rfl
  · -- a transferred node has one operator, whose fields are distinct since no stage repeats a key
    obtain ⟨p, hp, rfl⟩ := List.mem_map.mp hq
    obtain ⟨op, hop⟩ := hacc.single p hp
    have hnode := nodupKeys_renameRefs (idRenaming m sm) _ ((Json.nodupKeys_obj.mp hQ).2 p hp)
    rw [hop] at hnode ⊢
    have hperm := nodeChildren_perm op.1
      ((Json.nodupKeys_obj.mp hnode).2 _ (List.mem_cons_self ..))
    refine ⟨hperm, fun h => ?_, fun h => ?_⟩
    · exact (List.perm_append_left_iff _).mp ((h.symm.append_right _).trans hperm)
    · exact (List.perm_append_right_iff _).mp (hperm.trans (h.symm.append_left _))

/-! ## A union with two lists -/

/-- A union with one input under `children` and one in a list that also holds a name. -/
def twoLists (child : Int) : Json :=
  .obj [("union", .obj [("children", .arr [.int child]), ("inputs", .arr [.int 101, .str "x"])])]

/-- Its transfer: only the id under `children` is renamed. -/
theorem twoLists_transferred :
    transferPlan (.obj [("1", twoLists 100)]) joinSf1Info (.obj []) joinSf2Info (.arr []) =
      .ok [("1", twoLists 5)] := by
  decide +kernel

/-- Each side reads one id that the other does not. -/
theorem transferredChildren_perm_twoLists :
    (checkedIds (twoLists 5) ++ (engineOnly (twoLists 5)).map Int.ofNat).Perm
      ((extractChildIds (twoLists 5)).map Int.ofNat ++ (checkedOnly (twoLists 5)).map refId) :=
  (transferredChildren_perm ⟨.obj [("1", twoLists 100)], by decide⟩ ⟨joinSf1Info, by decide⟩
    ⟨.obj [], by decide⟩ ⟨joinSf2Info, by decide⟩ ⟨.arr [], by decide⟩ twoLists_transferred _
    (List.mem_singleton.mpr rfl)).2.1

/-- Python checks scan 5, the engine follows id 101, which is no scan of SF2. -/
theorem twoLists_children_differ :
    transferPlan (.obj [("1", twoLists 100)]) joinSf1Info (.obj []) joinSf2Info (.arr []) =
        .ok [("1", twoLists 5)] ∧
      checkedIds (twoLists 5) = [5] ∧ extractChildIds (twoLists 5) = [101] ∧
      ¬ (checkedIds (twoLists 5)).Perm ((extractChildIds (twoLists 5)).map Int.ofNat) := by
  have hchecked : checkedIds (twoLists 5) = [5] := by decide +kernel
  have hread : extractChildIds (twoLists 5) = [101] := by decide +kernel
  refine ⟨twoLists_transferred, hchecked, hread, fun h => ?_⟩
  rw [hchecked, hread] at h
  exact absurd (List.perm_singleton.mp h) (by decide)

end DbPlanBench.Transfer
