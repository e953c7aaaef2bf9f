import DbPlanBench.Transfer.SameValue

/-!
# References and the order of fields

The walks that read or rename references go through the fields of an object one after the
other. Sorting the fields changes the order in which they meet the references, and nothing
else: the same references are read (`mem_walkRefs_congr`), and a value that is renamed and
then sorted is the sorted value renamed (`renameRefs_canonical`).
-/

namespace DbPlanBench.Transfer

/-! ## Sorting a reference -/

theorem canonical_of_isIntish {v : Json} (h : isIntish v = true) : canonical v = v := by
  cases v with
  | arr xs => exact absurd h Bool.false_ne_true
  | obj kvs => exact absurd h Bool.false_ne_true
  | _ => rfl

@[simp] theorem isIntish_canonical (v : Json) : isIntish (canonical v) = isIntish v := by
  cases v <;> rfl

theorem map_canonical_of_isIntish {xs : List Json} (h : ∀ x ∈ xs, isIntish x = true) :
    xs.map canonical = xs := by
  nth_rewrite 2 [← List.map_id xs]
  exact List.map_congr_left fun x hx => canonical_of_isIntish (h x hx)

theorem intishList?_canonical (v : Json) : intishList? (canonical v) = intishList? v := by
  cases v with
  | arr xs =>
    rw [canonical_arr, intishList?, intishList?, List.all_map]
    have hcomp : isIntish ∘ canonical = isIntish := funext isIntish_canonical
    rw [hcomp]
    split
    next hall => rw [map_canonical_of_isIntish (List.all_eq_true.mp hall)]
    next => rfl
  | _ => rfl

@[simp] theorem refList?_canonical (k : String) (v : Json) :
    refList? k (canonical v) = refList? k v := by
  rw [refList?, refList?, intishList?_canonical]

theorem toInt_canonical (v : Json) : toInt (canonical v) = toInt v := by
  cases v <;> rfl

/-- A list of fields that is gone through one after the other. -/
theorem eq_flatMap_of_cons {β : Type} {f : List (String × Json) → List β} (hnil : f [] = [])
    (hcons : ∀ q kvs, f (q :: kvs) = f [q] ++ f kvs) : ∀ kvs : List (String × Json),
      f kvs = kvs.flatMap fun q => f [q]
  | [] => hnil
  | q :: kvs => by rw [hcons, eq_flatMap_of_cons hnil hcons kvs, List.flatMap_cons]

/-- Sorted fields are the same fields. -/
theorem mem_sortFields_iff {β : Type} {f : List (String × Json) → List β} (hnil : f [] = [])
    (hcons : ∀ q kvs, f (q :: kvs) = f [q] ++ f kvs) (kvs : List (String × Json)) (b : β) :
    b ∈ f (sortFields kvs) ↔ b ∈ f kvs := by
  rw [eq_flatMap_of_cons hnil hcons, eq_flatMap_of_cons hnil hcons kvs]
  exact ((List.perm_insertionSort _ kvs).flatMap_right _).mem_iff

/-! ## The references that are read -/

theorem walkRefsFields_cons (q : String × Json) (kvs : List (String × Json)) :
    walkRefsFields (q :: kvs) = walkRefsFields [q] ++ walkRefsFields kvs := by
  rw [walkRefsFields, walkRefsFields, walkRefsFields, List.append_nil]

theorem directRefsFields_cons (q : String × Json) (kvs : List (String × Json)) :
    directRefsFields (q :: kvs) = directRefsFields [q] ++ directRefsFields kvs := by
  rw [directRefsFields, directRefsFields, directRefsFields, List.append_nil]

theorem nestedRefsFields_cons (q : String × Json) (kvs : List (String × Json)) :
    nestedRefsFields (q :: kvs) = nestedRefsFields [q] ++ nestedRefsFields kvs := by
  rw [nestedRefsFields, nestedRefsFields, nestedRefsFields, List.append_nil]

mutual

theorem mem_walkRefs_canonical (p : String × Json) : ∀ v : Json,
    p ∈ walkRefs (canonical v) ↔ p ∈ walkRefs v
  | .obj kvs => (mem_sortFields_iff rfl walkRefsFields_cons (canonicalFields kvs) p).trans
    (mem_walkRefsFields_canonical p kvs)
  | .arr xs => mem_walkRefsList_canonical p xs
  | .null | .bool _ | .int _ | .float _ | .str _ => Iff.rfl

theorem mem_walkRefsList_canonical (p : String × Json) : ∀ xs : List Json,
    p ∈ walkRefsList (canonicalList xs) ↔ p ∈ walkRefsList xs
  | [] => Iff.rfl
  | x :: xs => by
    rw [canonicalList, walkRefsList, walkRefsList, List.mem_append, List.mem_append,
      mem_walkRefs_canonical p x, mem_walkRefsList_canonical p xs]

theorem mem_walkRefsFields_canonical (p : String × Json) : ∀ kvs : List (String × Json),
    p ∈ walkRefsFields (canonicalFields kvs) ↔ p ∈ walkRefsFields kvs
  | [] => Iff.rfl
  | (k, v) :: kvs => by
    rw [canonicalFields, walkRefsFields, walkRefsFields, List.mem_append, List.mem_append,
      mem_walkRefsFields_canonical p kvs, isIntish_canonical, refList?_canonical]
    refine or_congr ?_ Iff.rfl
    by_cases hs : k ∈ refKeysScalar ∧ isIntish v = true
    · rw [if_pos hs, if_pos hs, canonical_of_isIntish hs.2]
    · rw [if_neg hs, if_neg hs]
      cases refList? k v with
      | some xs => exact Iff.rfl
      | none => exact mem_walkRefs_canonical p v

end

mutual

theorem mem_directRefs_canonical (p : String × Json) : ∀ v : Json,
    p ∈ directRefs (canonical v) ↔ p ∈ directRefs v
  | .obj kvs => (mem_sortFields_iff rfl directRefsFields_cons (canonicalFields kvs) p).trans
    (mem_directRefsFields_canonical p kvs)
  | .arr xs => mem_directRefsList_canonical p xs
  | .null | .bool _ | .int _ | .float _ | .str _ => Iff.rfl

theorem mem_directRefsList_canonical (p : String × Json) : ∀ xs : List Json,
    p ∈ directRefsList (canonicalList xs) ↔ p ∈ directRefsList xs
  | [] => Iff.rfl
  | x :: xs => by
    rw [canonicalList, directRefsList, directRefsList, List.mem_append, List.mem_append,
      mem_directRefs_canonical p x, mem_directRefsList_canonical p xs]

theorem mem_directRefsFields_canonical (p : String × Json) : ∀ kvs : List (String × Json),
    p ∈ directRefsFields (canonicalFields kvs) ↔ p ∈ directRefsFields kvs
  | [] => Iff.rfl
  | (k, v) :: kvs => by
    rw [canonicalFields, directRefsFields, directRefsFields, List.mem_append, List.mem_append,
      mem_directRefsFields_canonical p kvs, isIntish_canonical, refList?_canonical]
    refine or_congr ?_ Iff.rfl
    by_cases hk : k ∈ refKeysScalar
    · rw [if_pos hk, if_pos hk]
      by_cases hv : isIntish v = true
      · rw [if_pos hv, if_pos hv, canonical_of_isIntish hv]
      · rw [if_neg hv, if_neg hv]
    · rw [if_neg hk, if_neg hk]
      cases refList? k v with
      | some xs => exact Iff.rfl
      | none => exact mem_directRefs_canonical p v

end

mutual

theorem mem_nestedRefs_canonical (p : String × Json) : ∀ v : Json,
    p ∈ nestedRefs (canonical v) ↔ p ∈ nestedRefs v
  | .obj kvs => (mem_sortFields_iff rfl nestedRefsFields_cons (canonicalFields kvs) p).trans
    (mem_nestedRefsFields_canonical p kvs)
  | .arr xs => mem_nestedRefsList_canonical p xs
  | .null | .bool _ | .int _ | .float _ | .str _ => Iff.rfl

theorem mem_nestedRefsList_canonical (p : String × Json) : ∀ xs : List Json,
    p ∈ nestedRefsList (canonicalList xs) ↔ p ∈ nestedRefsList xs
  | [] => Iff.rfl
  | x :: xs => by
    rw [canonicalList, nestedRefsList, nestedRefsList, List.mem_append, List.mem_append,
      mem_nestedRefs_canonical p x, mem_nestedRefsList_canonical p xs]

theorem mem_nestedRefsFields_canonical (p : String × Json) : ∀ kvs : List (String × Json),
    p ∈ nestedRefsFields (canonicalFields kvs) ↔ p ∈ nestedRefsFields kvs
  | [] => Iff.rfl
  | (k, v) :: kvs => by
    rw [canonicalFields, nestedRefsFields, nestedRefsFields, List.mem_append, List.mem_append,
      mem_nestedRefsFields_canonical p kvs, isIntish_canonical, refList?_canonical]
    refine or_congr ?_ Iff.rfl
    by_cases hk : k ∈ refKeysScalar
    · rw [if_pos hk, if_pos hk]
      by_cases hv : isIntish v = true
      · rw [if_pos hv, if_pos hv]
      · -- everything below such a value is nested
        rw [if_neg hv, if_neg hv]
        exact mem_walkRefs_canonical p v
    · rw [if_neg hk, if_neg hk]
      cases refList? k v with
      | some xs => exact Iff.rfl
      | none => exact mem_nestedRefs_canonical p v

end

/-- **Values that differ in the order of fields hold the same references.** -/
theorem mem_walkRefs_congr {v v' : Json} (h : SameValue v v') (p : String × Json) :
    p ∈ walkRefs v ↔ p ∈ walkRefs v' := by
  rw [← mem_walkRefs_canonical, h, mem_walkRefs_canonical]

theorem mem_directRefs_congr {v v' : Json} (h : SameValue v v') (p : String × Json) :
    p ∈ directRefs v ↔ p ∈ directRefs v' := by
  rw [← mem_directRefs_canonical, h, mem_directRefs_canonical]

theorem mem_nestedRefs_congr {v v' : Json} (h : SameValue v v') (p : String × Json) :
    p ∈ nestedRefs v ↔ p ∈ nestedRefs v' := by
  rw [← mem_nestedRefs_canonical, h, mem_nestedRefs_canonical]

/-! ## Renaming -/

theorem renameRef_canonical (σ : Int → Option Int) (v : Json) :
    renameRef σ (canonical v) = canonical (renameRef σ v) := by
  cases h : toInt v with
  | error e =>
    rw [renameRef_of_error h, renameRef_of_error (by rw [toInt_canonical, h])]
  | ok r =>
    have hv := isIntish_of_toInt h
    rw [canonical_of_isIntish hv, canonical_of_isIntish ((isIntish_renameRef σ v).trans hv)]

theorem map_renameRef_canonical {xs : List Json} (σ : Int → Option Int)
    (h : ∀ x ∈ xs, isIntish x = true) :
    canonical (.arr (xs.map (renameRef σ))) = .arr (xs.map (renameRef σ)) := by
  rw [canonical_arr, map_canonical_of_isIntish fun y hy => ?_]
  obtain ⟨x, hx, rfl⟩ := List.mem_map.mp hy
  rw [isIntish_renameRef]
  exact h x hx

theorem map_sortFields (σ : Int → Option Int) (kvs : List (String × Json)) :
    (sortFields kvs).map (fun p => (p.1, renamedField σ p.1 p.2)) =
      sortFields (kvs.map fun p => (p.1, renamedField σ p.1 p.2)) :=
  List.map_insertionSort _ _ _ kvs fun _ _ _ _ => Iff.rfl

mutual

/-- **Renaming and sorting can be swapped.** -/
theorem renameRefs_canonical (σ : Int → Option Int) : ∀ v : Json,
    renameRefs σ (canonical v) = canonical (renameRefs σ v)
  | .obj kvs => by
    rw [canonical, renameRefs, renameRefs, canonical, renameRefsFields_eq_map, map_sortFields,
      ← renameRefsFields_eq_map, renameRefsFields_canonical σ kvs]
  | .arr xs => congrArg Json.arr (renameRefsList_canonical σ xs)
  | .null | .bool _ | .int _ | .float _ | .str _ => rfl

theorem renameRefsList_canonical (σ : Int → Option Int) : ∀ xs : List Json,
    renameRefsList σ (canonicalList xs) = canonicalList (renameRefsList σ xs)
  | [] => rfl
  | x :: xs => by
    rw [canonicalList, renameRefsList, renameRefsList, canonicalList, renameRefs_canonical σ x,
      renameRefsList_canonical σ xs]

theorem renameRefsFields_canonical (σ : Int → Option Int) : ∀ kvs : List (String × Json),
    renameRefsFields σ (canonicalFields kvs) = canonicalFields (renameRefsFields σ kvs)
  | [] => rfl
  | (k, v) :: kvs => by
    rw [canonicalFields, renameRefsFields, renameRefsFields, canonicalFields,
      renameRefsFields_canonical σ kvs]
    refine congrArg (fun w => (k, w) :: _) ?_
    by_cases hk : k ∈ refKeysScalar
    · rw [if_pos hk, if_pos hk, renameRef_canonical]
    · rw [if_neg hk, if_neg hk, refList?_canonical]
      cases hl : refList? k v with
      | some xs => exact (map_renameRef_canonical σ (refList?_eq_some hl).2).symm
      | none => exact renameRefs_canonical σ v

end

end DbPlanBench.Transfer
