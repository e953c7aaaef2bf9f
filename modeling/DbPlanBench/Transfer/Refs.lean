import DbPlanBench.Lib.Except
import DbPlanBench.Py.Str

/-!
# References inside plan nodes

A plan node refers to other nodes and to scans by id: an int-like value under
`input`, `left` or `right`, or a list of int-like values under `inputs` or
`children`, anywhere inside the node.

Three functions of `plan_scaler.py` walk a node to read its references
(`_find_internal_references`, `_validate_references` and the last step of
`_transfer_plan`); they share one walk, `walkRefs`. A fourth,
`_rewrite_plan_references`, walks it to rename them, and its walk is not quite the
same: a value under `input`, `left` or `right` that is no reference is copied
as it is, so references *inside* such a value are read by the first walk and
missed by the second. `directRefs` are the ones that are renamed, `nestedRefs` the
ones that are missed, and `mem_walkRefs` says that these are all.
-/

namespace DbPlanBench.Transfer

/-- `_REF_KEYS_SCALAR`. -/
def refKeysScalar : List String := ["input", "left", "right"]

/-- `_REF_KEYS_LIST`. -/
def refKeysList : List String := ["inputs", "children"]

/-- `_is_intish`. -/
def isIntish : Json → Bool
  | .str s => Py.isdigit s
  | v => v.asInt.isSome

/-- The number that `_to_int` reads. It fails on a digit string that `int` refuses, such as a
superscript. -/
def toInt : Json → Except PyErr Int
  | .str s => if Py.isdigit s then Py.int s else .error (.valueError "not-intish")
  | v =>
    match v.asInt with
    | some n => .ok n
    | none => .error (.valueError "not-intish")

/-- What `_to_int` returns: a `bool` comes back as it is. It is equal to a number, and is looked up
and compared as one, but `str` writes it as a word. -/
structure IntValue where
  number : Int
  isBool : Bool
  deriving DecidableEq

/-- `str`. -/
def IntValue.str (n : IntValue) : String :=
  if n.isBool then (if n.number = 0 then "False" else "True") else toString n.number

/-- `isinstance(x, bool)`. -/
def isBoolean : Json → Bool
  | .bool _ => true
  | _ => false

/-- `_to_int`. Where only the number matters, `toInt` stands for it. -/
def toIntValue (v : Json) : Except PyErr IntValue := do
  let n ← toInt v
  return { number := n, isBool := isBoolean v }

/-- `isinstance(v, list) and all(_is_intish(x) for x in v)`, with the list. -/
def intishList? : Json → Option (List Json)
  | .arr xs => if xs.all isIntish then some xs else none
  | _ => none

/-- The references a list field holds. -/
def refList? (k : String) (v : Json) : Option (List Json) :=
  if k ∈ refKeysList then intishList? v else none

/-! ## The walks -/

mutual

/-- The references in a JSON value, each with the field it stands under, in the order of the
walk. -/
def walkRefs : Json → List (String × Json)
  | .obj kvs => walkRefsFields kvs
  | .arr xs => walkRefsList xs
  | _ => []
termination_by structural v => v

def walkRefsList : List Json → List (String × Json)
  | [] => []
  | x :: xs => walkRefs x ++ walkRefsList xs
termination_by structural xs => xs

def walkRefsFields : List (String × Json) → List (String × Json)
  | [] => []
  | (k, v) :: kvs =>
    (if k ∈ refKeysScalar ∧ isIntish v then [(k, v)]
      else
        match refList? k v with
        | some xs => xs.map (k, ·)
        | none => walkRefs v) ++ walkRefsFields kvs
termination_by structural kvs => kvs

end

mutual

/-- The references that the rewriting walk reaches. -/
def directRefs : Json → List (String × Json)
  | .obj kvs => directRefsFields kvs
  | .arr xs => directRefsList xs
  | _ => []
termination_by structural v => v

def directRefsList : List Json → List (String × Json)
  | [] => []
  | x :: xs => directRefs x ++ directRefsList xs
termination_by structural xs => xs

def directRefsFields : List (String × Json) → List (String × Json)
  | [] => []
  | (k, v) :: kvs =>
    (if k ∈ refKeysScalar then (if isIntish v then [(k, v)] else [])
      else
        match refList? k v with
        | some xs => xs.map (k, ·)
        | none => directRefs v) ++ directRefsFields kvs
termination_by structural kvs => kvs

end

mutual

/-- The references inside a value under `input`, `left` or `right` that is no reference itself. -/
def nestedRefs : Json → List (String × Json)
  | .obj kvs => nestedRefsFields kvs
  | .arr xs => nestedRefsList xs
  | _ => []
termination_by structural v => v

def nestedRefsList : List Json → List (String × Json)
  | [] => []
  | x :: xs => nestedRefs x ++ nestedRefsList xs
termination_by structural xs => xs

def nestedRefsFields : List (String × Json) → List (String × Json)
  | [] => []
  | (k, v) :: kvs =>
    (if k ∈ refKeysScalar then (if isIntish v then [] else walkRefs v)
      else
        match refList? k v with
        | some _ => []
        | none => nestedRefs v) ++ nestedRefsFields kvs
termination_by structural kvs => kvs

end

/-- `map_ref`. -/
def mapRef (internalIdMap scanIdMap : List (Int × Int)) (value : Json) : Except PyErr Json :=
  if ¬ isIntish value then .ok value
  else do
    let vid ← toInt value
    match OrdDict.get? internalIdMap vid with
    | some n => return .int n
    | none =>
      match OrdDict.get? scanIdMap vid with
      | some n => return .int n
      | none => return value

mutual

/-- `rewrite_obj`. -/
def rewriteObj (internalIdMap scanIdMap : List (Int × Int)) : Json → Except PyErr Json
  | .obj kvs => do return .obj (← rewriteObjFields internalIdMap scanIdMap kvs)
  | .arr xs => do return .arr (← rewriteObjList internalIdMap scanIdMap xs)
  | v => .ok v
termination_by structural v => v

def rewriteObjList (internalIdMap scanIdMap : List (Int × Int)) :
    List Json → Except PyErr (List Json)
  | [] => .ok []
  | x :: xs => do
    let x' ← rewriteObj internalIdMap scanIdMap x
    let xs' ← rewriteObjList internalIdMap scanIdMap xs
    return x' :: xs'
termination_by structural xs => xs

def rewriteObjFields (internalIdMap scanIdMap : List (Int × Int)) :
    List (String × Json) → Except PyErr (List (String × Json))
  | [] => .ok []
  | (k, v) :: kvs => do
    let v' ←
      if k ∈ refKeysScalar then mapRef internalIdMap scanIdMap v
      else
        match refList? k v with
        | some xs => (xs.mapM (mapRef internalIdMap scanIdMap)).map .arr
        | none => rewriteObj internalIdMap scanIdMap v
    let kvs' ← rewriteObjFields internalIdMap scanIdMap kvs
    return (k, v') :: kvs'
termination_by structural kvs => kvs

end

/-! ## What renaming means -/

/-- The value `v` with the id `r` it stands for replaced by `σ r`, if `σ` renames it. -/
def renameRef (σ : Int → Option Int) (v : Json) : Json :=
  match toInt v with
  | .ok r => ((σ r).map Json.int).getD v
  | .error _ => v

mutual

/-- A value with its direct references renamed and nothing else changed. -/
def renameRefs (σ : Int → Option Int) : Json → Json
  | .obj kvs => .obj (renameRefsFields σ kvs)
  | .arr xs => .arr (renameRefsList σ xs)
  | v => v
termination_by structural v => v

def renameRefsList (σ : Int → Option Int) : List Json → List Json
  | [] => []
  | x :: xs => renameRefs σ x :: renameRefsList σ xs
termination_by structural xs => xs

def renameRefsFields (σ : Int → Option Int) : List (String × Json) → List (String × Json)
  | [] => []
  | (k, v) :: kvs =>
    (k,
      if k ∈ refKeysScalar then renameRef σ v
      else
        match refList? k v with
        | some xs => .arr (xs.map (renameRef σ))
        | none => renameRefs σ v) :: renameRefsFields σ kvs
termination_by structural kvs => kvs

end

/-- What a field becomes. -/
def renamedField (σ : Int → Option Int) (k : String) (v : Json) : Json :=
  if k ∈ refKeysScalar then renameRef σ v
  else
    match refList? k v with
    | some xs => .arr (xs.map (renameRef σ))
    | none => renameRefs σ v

/-- The renaming of `map_ref`: the plan's own ids first, then the scans'. -/
def idRenaming (internalIdMap scanIdMap : List (Int × Int)) (r : Int) : Option Int :=
  (OrdDict.get? internalIdMap r).or (OrdDict.get? scanIdMap r)

/-! ## Reading ids -/

/-- What is not int-like has no integer. -/
theorem toInt_of_not_isIntish {v : Json} (h : isIntish v = false) :
    toInt v = .error (.valueError "not-intish") := by
  cases v <;> simp_all [isIntish, toInt, Json.asInt]

theorem isIntish_of_toInt {v : Json} {r : Int} (h : toInt v = .ok r) : isIntish v = true := by
  by_contra hv
  rw [toInt_of_not_isIntish (Bool.eq_false_iff.mpr hv)] at h
  exact absurd h (by simp)

@[simp] theorem toInt_int (r : Int) : toInt (.int r) = .ok r := rfl

@[simp] theorem isIntish_int (r : Int) : isIntish (.int r) = true := rfl

theorem intishList?_eq_some {v : Json} {xs : List Json} :
    intishList? v = some xs ↔ v = .arr xs ∧ ∀ x ∈ xs, isIntish x = true := by
  cases v with
  | arr ys =>
    rw [intishList?]
    by_cases h : ys.all isIntish = true
    · rw [if_pos h, Option.some.injEq, Json.arr.injEq]
      refine ⟨fun e => ⟨e, e ▸ List.all_eq_true.mp h⟩, fun e => e.1⟩
    · rw [if_neg h]
      refine ⟨fun e => absurd e (by simp), fun e => absurd ?_ h⟩
      rw [Json.arr.injEq] at e
      exact List.all_eq_true.mpr (e.1 ▸ e.2)
  | _ => simp [intishList?]

theorem refList?_eq_some {k : String} {v : Json} {xs : List Json} (h : refList? k v = some xs) :
    v = .arr xs ∧ ∀ x ∈ xs, isIntish x = true := by
  rw [refList?] at h
  split at h
  next => exact intishList?_eq_some.mp h
  next => exact absurd h (by simp)

/-- A field that holds one reference holds no list of them. -/
theorem refList?_of_scalar {k : String} (hk : k ∈ refKeysScalar) (v : Json) :
    refList? k v = none := by
  have hnot : k ∉ refKeysList := by
    simp only [refKeysScalar, List.mem_cons, List.not_mem_nil, or_false] at hk
    rcases hk with rfl | rfl | rfl <;> decide
  rw [refList?, if_neg hnot]

/-! ## Every reference is direct or nested -/

mutual

theorem mem_walkRefs (p : String × Json) : ∀ v : Json,
    p ∈ walkRefs v ↔ p ∈ directRefs v ∨ p ∈ nestedRefs v
  | .obj kvs => mem_walkRefsFields p kvs
  | .arr xs => mem_walkRefsList p xs
  | .null | .bool _ | .int _ | .float _ | .str _ => by simp [walkRefs, directRefs, nestedRefs]

theorem mem_walkRefsList (p : String × Json) : ∀ xs : List Json,
    p ∈ walkRefsList xs ↔ p ∈ directRefsList xs ∨ p ∈ nestedRefsList xs
  | [] => by simp [walkRefsList, directRefsList, nestedRefsList]
  | x :: xs => by
    rw [walkRefsList, directRefsList, nestedRefsList, List.mem_append, List.mem_append,
      List.mem_append, mem_walkRefs p x, mem_walkRefsList p xs, or_or_or_comm]

theorem mem_walkRefsFields (p : String × Json) : ∀ kvs : List (String × Json),
    p ∈ walkRefsFields kvs ↔ p ∈ directRefsFields kvs ∨ p ∈ nestedRefsFields kvs
  | [] => by simp [walkRefsFields, directRefsFields, nestedRefsFields]
  | (k, v) :: kvs => by
    rw [walkRefsFields, directRefsFields, nestedRefsFields, List.mem_append, List.mem_append,
      List.mem_append, mem_walkRefsFields p kvs, or_or_or_comm]
    refine or_congr ?_ (Iff.refl _)
    by_cases hk : k ∈ refKeysScalar
    · rw [if_pos hk, if_pos hk, refList?_of_scalar hk]
      by_cases hv : isIntish v = true <;> simp [hk, hv]
    · rw [if_neg hk, if_neg hk, if_neg (fun h => hk h.1)]
      cases refList? k v with
      | some xs => simp
      | none => exact mem_walkRefs p v

end

/-! ## Renaming is what the rewriting walk computes -/

theorem mapRef_eq {im sm : List (Int × Int)} {v : Json}
    (h : isIntish v = true → ∃ r, toInt v = .ok r) :
    mapRef im sm v = .ok (renameRef (idRenaming im sm) v) := by
  rw [mapRef, renameRef]
  by_cases hv : isIntish v = true
  · obtain ⟨r, hr⟩ := h hv
    rw [if_neg (not_not.mpr hv), hr, Except.ok_bind]
    show _ = Except.ok (((idRenaming im sm r).map Json.int).getD v)
    unfold idRenaming
    cases OrdDict.get? im r with
    | some n => rfl
    | none => cases OrdDict.get? sm r <;> rfl
  · rw [if_pos hv, toInt_of_not_isIntish (Bool.eq_false_iff.mpr hv)]

mutual

/-- If every direct reference can be read, the rewriting walk succeeds and renames them. -/
theorem rewriteObj_eq (im sm : List (Int × Int)) : ∀ v : Json,
    (∀ p ∈ directRefs v, ∃ r, toInt p.2 = .ok r) →
      rewriteObj im sm v = .ok (renameRefs (idRenaming im sm) v)
  | .obj kvs, h => by
    rw [rewriteObj, rewriteObjFields_eq im sm kvs h, renameRefs]
    rfl
  | .arr xs, h => by
    rw [rewriteObj, rewriteObjList_eq im sm xs h, renameRefs]
    rfl
  | .null, _ | .bool _, _ | .int _, _ | .float _, _ | .str _, _ => rfl

theorem rewriteObjList_eq (im sm : List (Int × Int)) : ∀ xs : List Json,
    (∀ p ∈ directRefsList xs, ∃ r, toInt p.2 = .ok r) →
      rewriteObjList im sm xs = .ok (renameRefsList (idRenaming im sm) xs)
  | [], _ => rfl
  | x :: xs, h => by
    rw [directRefsList, List.forall_mem_append] at h
    rw [rewriteObjList, rewriteObj_eq im sm x h.1, rewriteObjList_eq im sm xs h.2, renameRefsList]
    rfl

theorem rewriteObjFields_eq (im sm : List (Int × Int)) : ∀ kvs : List (String × Json),
    (∀ p ∈ directRefsFields kvs, ∃ r, toInt p.2 = .ok r) →
      rewriteObjFields im sm kvs = .ok (renameRefsFields (idRenaming im sm) kvs)
  | [], _ => rfl
  | (k, v) :: kvs, h => by
    rw [directRefsFields, List.forall_mem_append] at h
    obtain ⟨hv, hrest⟩ := h
    rw [rewriteObjFields, rewriteObjFields_eq im sm kvs hrest, renameRefsFields]
    -- the three cases of `rewrite_obj`: one reference, a list of them, anything else
    by_cases hk : k ∈ refKeysScalar
    · rw [if_pos hk] at hv
      rw [if_pos hk, if_pos hk, mapRef_eq]
      · rfl
      · intro hi
        rw [if_pos hi] at hv
        exact hv (k, v) (List.mem_singleton.mpr rfl)
    · rw [if_neg hk] at hv
      rw [if_neg hk, if_neg hk]
      cases hl : refList? k v with
      | some xs =>
        rw [hl] at hv
        have hmap : xs.mapM (mapRef im sm) = .ok (xs.map (renameRef (idRenaming im sm))) :=
          Except.mapM_ok fun x hx => mapRef_eq fun _ => hv (k, x) (List.mem_map_of_mem hx)
        show ((xs.mapM (mapRef im sm)).map Json.arr >>= _) = _
        rw [hmap]
        rfl
      | none =>
        rw [hl] at hv
        show (rewriteObj im sm v >>= _) = _
        rw [rewriteObj_eq im sm v hv]
        rfl

end

theorem renameRefsFields_eq_map (σ : Int → Option Int) (kvs : List (String × Json)) :
    renameRefsFields σ kvs = kvs.map fun p => (p.1, renamedField σ p.1 p.2) := by
  induction kvs with
  | nil => rfl
  | cons p kvs ih =>
    rw [renameRefsFields, ih, List.map_cons]
    rfl

/-! ## The references of a renamed value -/

/-- A renamed reference can be read if it could before, and then as its new id. -/
theorem toInt_renameRef {σ : Int → Option Int} {v : Json} {r : Int} (h : toInt v = .ok r) :
    toInt (renameRef σ v) = .ok ((σ r).getD r) := by
  rw [renameRef, h]
  cases hr : σ r with
  | some n => simp [hr]
  | none => simpa [hr] using h

theorem renameRef_of_error {σ : Int → Option Int} {v : Json} {e : PyErr} (h : toInt v = .error e) :
    renameRef σ v = v := by
  rw [renameRef, h]

@[simp] theorem isIntish_renameRef (σ : Int → Option Int) (v : Json) :
    isIntish (renameRef σ v) = isIntish v := by
  cases h : toInt v with
  | error e => rw [renameRef_of_error h]
  | ok r => rw [isIntish_of_toInt (toInt_renameRef h), isIntish_of_toInt h]

@[simp] theorem isIntish_renameRefs (σ : Int → Option Int) (v : Json) :
    isIntish (renameRefs σ v) = isIntish v := by
  cases v <;> rfl

theorem refList?_map_renameRef {σ : Int → Option Int} {k : String} {v : Json} {xs : List Json}
    (h : refList? k v = some xs) :
    refList? k (.arr (xs.map (renameRef σ))) = some (xs.map (renameRef σ)) := by
  rw [refList?] at h ⊢
  split at h
  next hk =>
    obtain ⟨_, hall⟩ := intishList?_eq_some.mp h
    rw [if_pos hk, intishList?_eq_some]
    refine ⟨rfl, fun y hy => ?_⟩
    obtain ⟨x, hx, rfl⟩ := List.mem_map.mp hy
    rw [isIntish_renameRef]
    exact hall x hx
  next => exact absurd h (by simp)

theorem renameRefsList_eq_map (σ : Int → Option Int) : ∀ xs : List Json,
    renameRefsList σ xs = xs.map (renameRefs σ)
  | [] => rfl
  | x :: xs => by rw [renameRefsList, renameRefsList_eq_map σ xs, List.map_cons]

theorem refList?_renameRefs {σ : Int → Option Int} {k : String} {v : Json}
    (h : refList? k v = none) : refList? k (renameRefs σ v) = none := by
  rw [refList?] at h ⊢
  split at h
  next hk =>
    rw [if_pos hk]
    cases v with
    | arr xs =>
      have hall : xs.all isIntish = false := by
        rw [Bool.eq_false_iff]
        intro ht
        rw [intishList?, if_pos ht] at h
        exact absurd h (by simp)
      rw [renameRefs, renameRefsList_eq_map, intishList?, List.all_map, if_neg]
      rw [show (isIntish ∘ renameRefs σ) = isIntish from
        funext fun v => isIntish_renameRefs σ v, hall]
      exact Bool.false_ne_true
    | _ => rfl
  next hk => rw [if_neg hk]

mutual

/-- Renaming renames the direct references, each in its place. -/
theorem directRefs_renameRefs (σ : Int → Option Int) : ∀ v : Json,
    directRefs (renameRefs σ v) = (directRefs v).map fun p => (p.1, renameRef σ p.2)
  | .obj kvs => directRefsFields_renameRefs σ kvs
  | .arr xs => directRefsList_renameRefs σ xs
  | .null | .bool _ | .int _ | .float _ | .str _ => rfl

theorem directRefsList_renameRefs (σ : Int → Option Int) : ∀ xs : List Json,
    directRefsList (renameRefsList σ xs) =
      (directRefsList xs).map fun p => (p.1, renameRef σ p.2)
  | [] => rfl
  | x :: xs => by
    rw [renameRefsList, directRefsList, directRefsList, directRefs_renameRefs σ x,
      directRefsList_renameRefs σ xs, List.map_append]

theorem directRefsFields_renameRefs (σ : Int → Option Int) : ∀ kvs : List (String × Json),
    directRefsFields (renameRefsFields σ kvs) =
      (directRefsFields kvs).map fun p => (p.1, renameRef σ p.2)
  | [] => rfl
  | (k, v) :: kvs => by
    rw [renameRefsFields, directRefsFields, directRefsFields, directRefsFields_renameRefs σ kvs,
      List.map_append]
    refine congrArg (· ++ _) ?_
    -- a renamed value is an integer, or a list of them, exactly if it was one
    by_cases hk : k ∈ refKeysScalar
    · rw [if_pos hk, if_pos hk, if_pos hk, isIntish_renameRef]
      by_cases hv : isIntish v = true
      · rw [if_pos hv, if_pos hv]
        rfl
      · rw [if_neg hv, if_neg hv]
        rfl
    · rw [if_neg hk, if_neg hk, if_neg hk]
      cases hl : refList? k v with
      | some xs =>
        show (match refList? k (.arr (xs.map (renameRef σ))) with
          | some ys => ys.map (k, ·)
          | none => _) = _
        rw [refList?_map_renameRef hl]
        show (xs.map (renameRef σ)).map (k, ·) = (xs.map (k, ·)).map _
        rw [List.map_map, List.map_map]
        rfl
      | none =>
        show (match refList? k (renameRefs σ v) with
          | some ys => ys.map (k, ·)
          | none => directRefs (renameRefs σ v)) = _
        rw [refList?_renameRefs hl]
        exact directRefs_renameRefs σ v

end

mutual

/-- Renaming leaves the nested references as they are. -/
theorem nestedRefs_renameRefs (σ : Int → Option Int) : ∀ v : Json,
    nestedRefs (renameRefs σ v) = nestedRefs v
  | .obj kvs => nestedRefsFields_renameRefs σ kvs
  | .arr xs => nestedRefsList_renameRefs σ xs
  | .null | .bool _ | .int _ | .float _ | .str _ => rfl

theorem nestedRefsList_renameRefs (σ : Int → Option Int) : ∀ xs : List Json,
    nestedRefsList (renameRefsList σ xs) = nestedRefsList xs
  | [] => rfl
  | x :: xs => by
    rw [renameRefsList, nestedRefsList, nestedRefsList, nestedRefs_renameRefs σ x,
      nestedRefsList_renameRefs σ xs]

theorem nestedRefsFields_renameRefs (σ : Int → Option Int) : ∀ kvs : List (String × Json),
    nestedRefsFields (renameRefsFields σ kvs) = nestedRefsFields kvs
  | [] => rfl
  | (k, v) :: kvs => by
    rw [renameRefsFields, nestedRefsFields, nestedRefsFields, nestedRefsFields_renameRefs σ kvs]
    refine congrArg (· ++ _) ?_
    by_cases hk : k ∈ refKeysScalar
    · rw [if_pos hk, if_pos hk, if_pos hk, isIntish_renameRef]
      by_cases hv : isIntish v = true
      · rw [if_pos hv, if_pos hv]
      · -- not an integer: `map_ref` leaves it alone
        rw [if_neg hv, if_neg hv, renameRef_of_error (toInt_of_not_isIntish (by simpa using hv))]
    · rw [if_neg hk, if_neg hk, if_neg hk]
      cases hl : refList? k v with
      | some xs =>
        show (match refList? k (.arr (xs.map (renameRef σ))) with
          | some _ => []
          | none => _) = _
        rw [refList?_map_renameRef hl]
      | none =>
        show (match refList? k (renameRefs σ v) with
          | some _ => []
          | none => nestedRefs (renameRefs σ v)) = _
        rw [refList?_renameRefs hl]
        exact nestedRefs_renameRefs σ v

end

/-- First `σ`, then `τ` on the result. -/
def renameThen (σ τ : Int → Option Int) (r : Int) : Option Int :=
  match σ r with
  | some n => some ((τ n).getD n)
  | none => τ r

theorem renameRef_renameRef (σ τ : Int → Option Int) (v : Json) :
    renameRef τ (renameRef σ v) = renameRef (renameThen σ τ) v := by
  cases h : toInt v with
  | error e => rw [renameRef_of_error h, renameRef_of_error h, renameRef_of_error h]
  | ok r =>
    have h' := toInt_renameRef (σ := σ) h
    rw [renameRef, h', renameRef, renameRef, h]
    show ((τ ((σ r).getD r)).map Json.int).getD (((σ r).map Json.int).getD v) =
      ((renameThen σ τ r).map Json.int).getD v
    unfold renameThen
    cases σ r with
    | none => rfl
    | some n => cases hn : τ n <;> simp [hn]

mutual

/-- Two renamings in a row are one. -/
theorem renameRefs_renameRefs (σ τ : Int → Option Int) : ∀ v : Json,
    renameRefs τ (renameRefs σ v) = renameRefs (renameThen σ τ) v
  | .obj kvs => congrArg Json.obj (renameRefsFields_renameRefs σ τ kvs)
  | .arr xs => congrArg Json.arr (renameRefsList_renameRefs σ τ xs)
  | .null | .bool _ | .int _ | .float _ | .str _ => rfl

theorem renameRefsList_renameRefs (σ τ : Int → Option Int) : ∀ xs : List Json,
    renameRefsList τ (renameRefsList σ xs) = renameRefsList (renameThen σ τ) xs
  | [] => rfl
  | x :: xs => by
    rw [renameRefsList, renameRefsList, renameRefsList, renameRefs_renameRefs σ τ x,
      renameRefsList_renameRefs σ τ xs]

theorem renameRefsFields_renameRefs (σ τ : Int → Option Int) : ∀ kvs : List (String × Json),
    renameRefsFields τ (renameRefsFields σ kvs) = renameRefsFields (renameThen σ τ) kvs
  | [] => rfl
  | (k, v) :: kvs => by
    rw [renameRefsFields, renameRefsFields, renameRefsFields, renameRefsFields_renameRefs σ τ kvs]
    refine congrArg (fun w => (k, w) :: _) ?_
    by_cases hk : k ∈ refKeysScalar
    · rw [if_pos hk, if_pos hk, if_pos hk, renameRef_renameRef]
    · rw [if_neg hk, if_neg hk, if_neg hk]
      cases hl : refList? k v with
      | some xs =>
        show (match refList? k (.arr (xs.map (renameRef σ))) with
          | some ys => Json.arr (ys.map (renameRef τ))
          | none => _) = _
        rw [refList?_map_renameRef hl]
        show Json.arr ((xs.map (renameRef σ)).map (renameRef τ)) = _
        rw [List.map_map, show renameRef τ ∘ renameRef σ = renameRef (renameThen σ τ) from
          funext fun v => renameRef_renameRef σ τ v]
      | none =>
        show (match refList? k (renameRefs σ v) with
          | some ys => Json.arr (ys.map (renameRef τ))
          | none => renameRefs τ (renameRefs σ v)) = _
        rw [refList?_renameRefs hl]
        exact renameRefs_renameRefs σ τ v

end

end DbPlanBench.Transfer
