import DbPlanBench.Transfer.Isomorphism

/-!
# Where references stand

A position is the path of child indices that leads to a value. The walks that read
references (`_find_internal_references`, `_validate_references`) and the walk that
renames them (`_rewrite_plan_references`) differ at one place: a value under
`input`, `left` or `right` that is no id. The readers go on inside it, while
`rewrite_obj` hands it to `map_ref`, which returns it as it is.

* `renamedAt_sublist` — what is renamed is read.
* `length_readAt` — what is read beyond that are the nested references.
* `positions_agree_iff` — the two agree exactly on plans without nested references.
-/

namespace DbPlanBench.Transfer

/-- A reference: its position, the field it stands under and its value. -/
abbrev Placed := List Nat × String × Json

/-- The same reference, seen from one level above. -/
def under (i : Nat) (e : Placed) : Placed := (i :: e.1, e.2)

mutual

/-- The references of a value with their positions. `descends` says whether the walk goes on inside
a value under `input`, `left` or `right` that is no reference. -/
def refsAt (descends : Bool) : Json → List Placed
  | .obj kvs => refsAtFields descends 0 kvs
  | .arr xs => refsAtList descends 0 xs
  | _ => []
termination_by structural v => v

def refsAtList (descends : Bool) (i : Nat) : List Json → List Placed
  | [] => []
  | x :: xs => (refsAt descends x).map (under i) ++ refsAtList descends (i + 1) xs
termination_by structural xs => xs

def refsAtFields (descends : Bool) (i : Nat) : List (String × Json) → List Placed
  | [] => []
  | (k, v) :: kvs =>
    (if k ∈ refKeysScalar ∧ isIntish v then [([i], k, v)]
      else if k ∈ refKeysScalar ∧ ¬ descends then []
      else
        match refList? k v with
        | some xs => xs.zipIdx.map fun x => ([i, x.2], k, x.1)
        | none => (refsAt descends v).map (under i)) ++ refsAtFields descends (i + 1) kvs
termination_by structural kvs => kvs

end

/-- What `_find_internal_references` and `_validate_references` read. -/
def readAt (v : Json) : List Placed := refsAt true v

/-- What `_rewrite_plan_references` renames. -/
def renamedAt (v : Json) : List Placed := refsAt false v

/-- The positions of some references. -/
def positions (es : List Placed) : List (List Nat) := es.map Prod.fst

/-- The value at a position. -/
def valueAt : Json → List Nat → Option Json
  | v, [] => some v
  | .obj kvs, i :: π => (kvs[i]?).bind fun p => valueAt p.2 π
  | .arr xs, i :: π => (xs[i]?).bind fun x => valueAt x π
  | _, _ :: _ => none

/-! ## The walks with and without positions -/

theorem map_snd_under (i : Nat) (es : List Placed) :
    (es.map (under i)).map Prod.snd = es.map Prod.snd := by
  rw [List.map_map]
  rfl

theorem map_snd_zipIdx (i : Nat) (k : String) (xs : List Json) :
    (xs.zipIdx.map fun x => (([i, x.2], k, x.1) : Placed)).map Prod.snd = xs.map (k, ·) := by
  rw [List.map_map]
  show xs.zipIdx.map ((fun y => (k, y)) ∘ Prod.fst) = _
  rw [← List.map_map, List.zipIdx_map_fst]

mutual

/-- The reading walk is `walkRefs`. -/
theorem readAt_eq : ∀ v : Json, (refsAt true v).map Prod.snd = walkRefs v
  | .obj kvs => readAtFields_eq 0 kvs
  | .arr xs => readAtList_eq 0 xs
  | .null | .bool _ | .int _ | .float _ | .str _ => rfl

theorem readAtList_eq (i : Nat) : ∀ xs : List Json,
    (refsAtList true i xs).map Prod.snd = walkRefsList xs
  | [] => rfl
  | x :: xs => by
    rw [refsAtList, List.map_append, map_snd_under, readAt_eq x, readAtList_eq (i + 1) xs,
      walkRefsList]

theorem readAtFields_eq (i : Nat) : ∀ kvs : List (String × Json),
    (refsAtFields true i kvs).map Prod.snd = walkRefsFields kvs
  | [] => rfl
  | (k, v) :: kvs => by
    rw [refsAtFields, List.map_append, readAtFields_eq (i + 1) kvs, walkRefsFields]
    refine congrArg (· ++ _) ?_
    by_cases hk : k ∈ refKeysScalar ∧ isIntish v = true
    · rw [if_pos hk, if_pos hk]
      rfl
    · rw [if_neg hk, if_neg hk, if_neg (fun h => h.2 rfl)]
      cases refList? k v with
      | some xs => exact map_snd_zipIdx i k xs
      | none => exact (map_snd_under i _).trans (readAt_eq v)

end

mutual

/-- The renaming walk finds the direct references. -/
theorem renamedAt_eq : ∀ v : Json, (refsAt false v).map Prod.snd = directRefs v
  | .obj kvs => renamedAtFields_eq 0 kvs
  | .arr xs => renamedAtList_eq 0 xs
  | .null | .bool _ | .int _ | .float _ | .str _ => rfl

theorem renamedAtList_eq (i : Nat) : ∀ xs : List Json,
    (refsAtList false i xs).map Prod.snd = directRefsList xs
  | [] => rfl
  | x :: xs => by
    rw [refsAtList, List.map_append, map_snd_under, renamedAt_eq x, renamedAtList_eq (i + 1) xs,
      directRefsList]

theorem renamedAtFields_eq (i : Nat) : ∀ kvs : List (String × Json),
    (refsAtFields false i kvs).map Prod.snd = directRefsFields kvs
  | [] => rfl
  | (k, v) :: kvs => by
    rw [refsAtFields, List.map_append, renamedAtFields_eq (i + 1) kvs, directRefsFields]
    refine congrArg (· ++ _) ?_
    by_cases hk : k ∈ refKeysScalar
    · rw [if_pos hk]
      by_cases hv : isIntish v = true
      · rw [if_pos ⟨hk, hv⟩, if_pos hv]
        rfl
      · rw [if_neg (fun h => hv h.2), if_neg hv, if_pos ⟨hk, Bool.false_ne_true⟩]
        rfl
    · rw [if_neg hk, if_neg (fun h => hk h.1), if_neg (fun h => hk h.1)]
      cases refList? k v with
      | some xs => exact map_snd_zipIdx i k xs
      | none => exact (map_snd_under i _).trans (renamedAt_eq v)

end

/-! ## Positions lead to their references -/

mutual

/-- At the position of a reference stands its value. -/
theorem valueAt_refsAt (d : Bool) : ∀ (v : Json), ∀ e ∈ refsAt d v, valueAt v e.1 = some e.2.2
  | .obj kvs, e, he => by
    obtain ⟨j, π, hpath, hvalue⟩ := valueAt_refsAtFields d 0 kvs e he
    rw [hpath, Nat.zero_add]
    exact hvalue
  | .arr xs, e, he => by
    obtain ⟨j, π, hpath, hvalue⟩ := valueAt_refsAtList d 0 xs e he
    rw [hpath, Nat.zero_add]
    exact hvalue
  | .null, _, he | .bool _, _, he | .int _, _, he | .float _, _, he | .str _, _, he =>
    absurd he List.not_mem_nil

theorem valueAt_refsAtList (d : Bool) (i : Nat) : ∀ (xs : List Json), ∀ e ∈ refsAtList d i xs,
    ∃ j π, e.1 = (i + j) :: π ∧ ((xs[j]?).bind fun x => valueAt x π) = some e.2.2
  | [], _, he => absurd he List.not_mem_nil
  | x :: xs, e, he => by
    rw [refsAtList] at he
    rcases List.mem_append.mp he with he | he
    · obtain ⟨e', he', rfl⟩ := List.mem_map.mp he
      exact ⟨0, e'.1, rfl, valueAt_refsAt d x e' he'⟩
    · obtain ⟨j, π, hpath, hvalue⟩ := valueAt_refsAtList d (i + 1) xs e he
      refine ⟨j + 1, π, ?_, hvalue⟩
      rw [hpath, Nat.add_right_comm, Nat.add_assoc]

theorem valueAt_refsAtFields (d : Bool) (i : Nat) : ∀ (kvs : List (String × Json)),
    ∀ e ∈ refsAtFields d i kvs,
      ∃ j π, e.1 = (i + j) :: π ∧ ((kvs[j]?).bind fun p => valueAt p.2 π) = some e.2.2
  | [], _, he => absurd he List.not_mem_nil
  | (k, v) :: kvs, e, he => by
    rw [refsAtFields] at he
    rcases List.mem_append.mp he with he | he
    · split at he
      next =>
        rw [List.mem_singleton.mp he]
        exact ⟨0, [], rfl, rfl⟩
      next =>
        split at he
        next => exact absurd he List.not_mem_nil
        next =>
          cases hl : refList? k v with
          | some xs =>
            rw [hl] at he
            obtain ⟨x, hx, rfl⟩ := List.mem_map.mp he
            refine ⟨0, [x.2], rfl, ?_⟩
            show valueAt v [x.2] = some x.1
            rw [(refList?_eq_some hl).1, valueAt, List.mk_mem_zipIdx_iff_getElem?.mp hx]
            rfl
          | none =>
            rw [hl] at he
            obtain ⟨e', he', rfl⟩ := List.mem_map.mp he
            exact ⟨0, e'.1, rfl, valueAt_refsAt d v e' he'⟩
    · obtain ⟨j, π, hpath, hvalue⟩ := valueAt_refsAtFields d (i + 1) kvs e he
      refine ⟨j + 1, π, ?_, hvalue⟩
      rw [hpath, Nat.add_right_comm, Nat.add_assoc]

end

theorem positions_under (i : Nat) (es : List Placed) :
    positions (es.map (under i)) = (positions es).map (i :: ·) := by
  rw [positions, positions, List.map_map, List.map_map]
  rfl

theorem nodup_positions_under (i : Nat) {es : List Placed} (h : (positions es).Nodup) :
    (positions (es.map (under i))).Nodup := by
  rw [positions_under]
  exact h.map (List.cons_injective)

/-- The positions of one child and those of the children after it. -/
theorem nodup_append_positions {i : Nat} {es fs : List Placed} (hes : (positions es).Nodup)
    (hfs : (positions fs).Nodup) (hi : ∀ e ∈ es, ∃ π, e.1 = i :: π)
    (hj : ∀ e ∈ fs, ∃ j π, e.1 = (i + 1 + j) :: π) : (positions (es ++ fs)).Nodup := by
  rw [positions, List.map_append]
  refine List.Nodup.append hes hfs fun path hpath hpath' => ?_
  obtain ⟨e, he, hpe⟩ := List.mem_map.mp hpath
  obtain ⟨f, hf, hpf⟩ := List.mem_map.mp hpath'
  obtain ⟨π, hπ⟩ := hi e he
  obtain ⟨j, ρ, hρ⟩ := hj f hf
  have heq := hpe.trans hpf.symm
  rw [hπ, hρ] at heq
  injection heq with heq
  omega

mutual

/-- No position is read twice. -/
theorem nodup_refsAt (d : Bool) : ∀ v : Json, (positions (refsAt d v)).Nodup
  | .obj kvs => nodup_refsAtFields d 0 kvs
  | .arr xs => nodup_refsAtList d 0 xs
  | .null | .bool _ | .int _ | .float _ | .str _ => List.nodup_nil

theorem nodup_refsAtList (d : Bool) (i : Nat) : ∀ xs : List Json,
    (positions (refsAtList d i xs)).Nodup
  | [] => List.nodup_nil
  | x :: xs => by
    rw [refsAtList]
    refine nodup_append_positions (i := i) (nodup_positions_under i (nodup_refsAt d x))
      (nodup_refsAtList d (i + 1) xs) (fun e he => ?_) fun e he => ?_
    · obtain ⟨e', _, rfl⟩ := List.mem_map.mp he
      exact ⟨e'.1, rfl⟩
    · obtain ⟨j, π, h, _⟩ := valueAt_refsAtList d (i + 1) xs e he
      exact ⟨j, π, h⟩

theorem nodup_refsAtFields (d : Bool) (i : Nat) : ∀ kvs : List (String × Json),
    (positions (refsAtFields d i kvs)).Nodup
  | [] => List.nodup_nil
  | (k, v) :: kvs => by
    rw [refsAtFields]
    -- positions of later fields start with a greater index
    have hrest : ∀ e ∈ refsAtFields d (i + 1) kvs, ∃ j π, e.1 = (i + 1 + j) :: π := by
      intro e he
      obtain ⟨j, π, h, _⟩ := valueAt_refsAtFields d (i + 1) kvs e he
      exact ⟨j, π, h⟩
    have htail := nodup_refsAtFields d (i + 1) kvs
    by_cases hk : k ∈ refKeysScalar ∧ isIntish v = true
    · rw [if_pos hk]
      refine nodup_append_positions (i := i) (List.nodup_singleton _) htail (fun e he => ?_) hrest
      exact ⟨[], by rw [List.mem_singleton.mp he]⟩
    · rw [if_neg hk]
      by_cases hd : k ∈ refKeysScalar ∧ ¬ d = true
      · rw [if_pos hd]
        exact htail
      · rw [if_neg hd]
        cases refList? k v with
        | some xs =>
          refine nodup_append_positions (i := i) ?_ htail (fun e he => ?_) hrest
          · -- within a list the second index differs
            show (List.map _ (List.map _ _)).Nodup
            rw [List.map_map]
            show (xs.zipIdx.map ((fun j => [i, j]) ∘ Prod.snd)).Nodup
            rw [← List.map_map, List.zipIdx_map_snd]
            exact List.Nodup.map (fun a b h => by simpa using h) (List.nodup_range')
          · obtain ⟨x, _, rfl⟩ := List.mem_map.mp he
            exact ⟨[x.2], rfl⟩
        | none =>
          refine nodup_append_positions (i := i) (nodup_positions_under i (nodup_refsAt d v)) htail
            (fun e he => ?_) hrest
          obtain ⟨e', _, rfl⟩ := List.mem_map.mp he
          exact ⟨e'.1, rfl⟩

end

/-! ## What is read and not renamed -/

mutual

/-- Everything that is renamed is read. -/
theorem renamedAt_sublist : ∀ v : Json, (refsAt false v).Sublist (refsAt true v)
  | .obj kvs => renamedAtFields_sublist 0 kvs
  | .arr xs => renamedAtList_sublist 0 xs
  | .null | .bool _ | .int _ | .float _ | .str _ => List.Sublist.refl _

theorem renamedAtList_sublist (i : Nat) : ∀ xs : List Json,
    (refsAtList false i xs).Sublist (refsAtList true i xs)
  | [] => List.Sublist.refl _
  | x :: xs => by
    rw [refsAtList, refsAtList]
    exact ((renamedAt_sublist x).map _).append (renamedAtList_sublist (i + 1) xs)

theorem renamedAtFields_sublist (i : Nat) : ∀ kvs : List (String × Json),
    (refsAtFields false i kvs).Sublist (refsAtFields true i kvs)
  | [] => List.Sublist.refl _
  | (k, v) :: kvs => by
    rw [refsAtFields, refsAtFields]
    refine List.Sublist.append ?_ (renamedAtFields_sublist (i + 1) kvs)
    by_cases hk : k ∈ refKeysScalar ∧ isIntish v = true
    · rw [if_pos hk, if_pos hk]
    · rw [if_neg hk, if_neg hk, if_neg (fun h : k ∈ refKeysScalar ∧ ¬ true = true => h.2 rfl)]
      by_cases hs : k ∈ refKeysScalar ∧ ¬ false = true
      · rw [if_pos hs]
        exact List.nil_sublist _
      · rw [if_neg hs]
        cases refList? k v with
        | some xs => exact List.Sublist.refl _
        | none => exact (renamedAt_sublist v).map _

end

mutual

/-- What is read is what is renamed and the nested references. -/
theorem length_walkRefs : ∀ v : Json,
    (walkRefs v).length = (directRefs v).length + (nestedRefs v).length
  | .obj kvs => length_walkRefsFields kvs
  | .arr xs => length_walkRefsList xs
  | .null | .bool _ | .int _ | .float _ | .str _ => rfl

theorem length_walkRefsList : ∀ xs : List Json,
    (walkRefsList xs).length = (directRefsList xs).length + (nestedRefsList xs).length
  | [] => rfl
  | x :: xs => by
    have hx := length_walkRefs x
    have hxs := length_walkRefsList xs
    simp only [walkRefsList, directRefsList, nestedRefsList, List.length_append]
    omega

theorem length_walkRefsFields : ∀ kvs : List (String × Json),
    (walkRefsFields kvs).length = (directRefsFields kvs).length + (nestedRefsFields kvs).length
  | [] => rfl
  | (k, v) :: kvs => by
    have hrest := length_walkRefsFields kvs
    simp only [walkRefsFields, directRefsFields, nestedRefsFields, List.length_append]
    by_cases hk : k ∈ refKeysScalar
    · by_cases hv : isIntish v = true
      · rw [if_pos ⟨hk, hv⟩, if_pos hk, if_pos hv, if_pos hk, if_pos hv, List.length_singleton,
          List.length_nil]
        omega
      · rw [if_neg (fun h => hv h.2), refList?_of_scalar hk, if_pos hk, if_neg hv, if_pos hk,
          if_neg hv, List.length_nil]
        show (walkRefs v).length + _ = _
        omega
    · simp only [hk, false_and, if_false]
      cases refList? k v with
      | some xs =>
        simp only [List.length_map, List.length_nil]
        omega
      | none =>
        have hv := length_walkRefs v
        simp only
        omega

end

/-- **The positions agree exactly if nothing is nested.** -/
theorem mem_positions_iff {v : Json} :
    (∀ π, π ∈ positions (readAt v) ↔ π ∈ positions (renamedAt v)) ↔ nestedRefs v = [] := by
  have hsub : (positions (renamedAt v)).Sublist (positions (readAt v)) :=
    (renamedAt_sublist v).map Prod.fst
  have hlen : (positions (readAt v)).length =
      (positions (renamedAt v)).length + (nestedRefs v).length := by
    have hread : (positions (readAt v)).length = (walkRefs v).length := by
      rw [← readAt_eq, positions, List.length_map, List.length_map, readAt]
    have hrenamed : (positions (renamedAt v)).length = (directRefs v).length := by
      rw [← renamedAt_eq, positions, List.length_map, List.length_map, renamedAt]
    rw [hread, hrenamed, length_walkRefs]
  constructor
  · intro h
    have hle := ((nodup_refsAt true v).subperm fun π hπ => (h π).mp hπ).length_le
    have hle : (positions (readAt v)).length ≤ (positions (renamedAt v)).length := hle
    exact List.eq_nil_of_length_eq_zero (by omega)
  · intro h π
    rw [h, List.length_nil, Nat.add_zero] at hlen
    rw [hsub.eq_of_length hlen.symm]

/-! ## The renamed plan -/

theorem map_under_rename (i : Nat) (σ : Int → Option Int) (es : List Placed) :
    (es.map fun e => (e.1, e.2.1, renameRef σ e.2.2)).map (under i) =
      (es.map (under i)).map fun e => (e.1, e.2.1, renameRef σ e.2.2) := by
  rw [List.map_map, List.map_map]
  rfl

mutual

/-- Renaming keeps the positions of what it renames. -/
theorem renamedAt_renameRefs (σ : Int → Option Int) : ∀ v : Json, refsAt false (renameRefs σ v) =
    (refsAt false v).map fun e => (e.1, e.2.1, renameRef σ e.2.2)
  | .obj kvs => renamedAtFields_renameRefs σ 0 kvs
  | .arr xs => renamedAtList_renameRefs σ 0 xs
  | .null | .bool _ | .int _ | .float _ | .str _ => rfl

theorem renamedAtList_renameRefs (σ : Int → Option Int) (i : Nat) : ∀ xs : List Json,
    refsAtList false i (renameRefsList σ xs) =
      (refsAtList false i xs).map fun e => (e.1, e.2.1, renameRef σ e.2.2)
  | [] => rfl
  | x :: xs => by
    rw [renameRefsList, refsAtList, refsAtList, renamedAt_renameRefs σ x,
      renamedAtList_renameRefs σ (i + 1) xs, List.map_append, map_under_rename]

theorem renamedAtFields_renameRefs (σ : Int → Option Int) (i : Nat) :
    ∀ kvs : List (String × Json), refsAtFields false i (renameRefsFields σ kvs) =
      (refsAtFields false i kvs).map fun e => (e.1, e.2.1, renameRef σ e.2.2)
  | [] => rfl
  | (k, v) :: kvs => by
    rw [renameRefsFields, refsAtFields, refsAtFields, renamedAtFields_renameRefs σ (i + 1) kvs,
      List.map_append]
    refine congrArg (· ++ _) ?_
    -- renaming keeps what kind of field it is, so both sides take the same case
    by_cases hk : k ∈ refKeysScalar
    · rw [if_pos hk, isIntish_renameRef]
      by_cases hv : isIntish v = true
      · rw [if_pos ⟨hk, hv⟩, if_pos ⟨hk, hv⟩]
        rfl
      · have hno : ¬ (k ∈ refKeysScalar ∧ isIntish v = true) := fun h => hv h.2
        have hstop : k ∈ refKeysScalar ∧ ¬ false = true := ⟨hk, Bool.false_ne_true⟩
        rw [if_neg hno, if_neg hno, if_pos hstop, if_pos hstop]
        rfl
    · rw [if_neg hk]
      simp only [hk, false_and, if_false]
      cases hl : refList? k v with
      | some xs =>
        simp only [refList?_map_renameRef hl, List.zipIdx_map, List.map_map]
        rfl
      | none =>
        simp only [refList?_renameRefs hl]
        rw [renamedAt_renameRefs σ v, map_under_rename]

end

mutual

/-- What is read and not renamed is left as it is. -/
theorem valueAt_of_not_renamed (σ : Int → Option Int) : ∀ (v : Json), ∀ e ∈ refsAt true v,
    e ∉ refsAt false v → valueAt (renameRefs σ v) e.1 = some e.2.2
  | .obj kvs, e, he, hno => by
    obtain ⟨j, π, hpath, hvalue⟩ := valueAtFields_of_not_renamed σ 0 kvs e he hno
    rw [hpath, Nat.zero_add]
    exact hvalue
  | .arr xs, e, he, hno => by
    obtain ⟨j, π, hpath, hvalue⟩ := valueAtList_of_not_renamed σ 0 xs e he hno
    rw [hpath, Nat.zero_add]
    exact hvalue
  | .null, _, he, _ | .bool _, _, he, _ | .int _, _, he, _ | .float _, _, he, _
  | .str _, _, he, _ => absurd he List.not_mem_nil

theorem valueAtList_of_not_renamed (σ : Int → Option Int) (i : Nat) : ∀ (xs : List Json),
    ∀ e ∈ refsAtList true i xs, e ∉ refsAtList false i xs → ∃ j π, e.1 = (i + j) :: π ∧
      (((renameRefsList σ xs)[j]?).bind fun x => valueAt x π) = some e.2.2
  | [], _, he, _ => absurd he List.not_mem_nil
  | x :: xs, e, he, hno => by
    rw [refsAtList] at he hno
    rw [List.mem_append, not_or] at hno
    rcases List.mem_append.mp he with he | he
    · obtain ⟨e', he', rfl⟩ := List.mem_map.mp he
      exact ⟨0, e'.1, rfl, valueAt_of_not_renamed σ x e' he' fun h =>
        hno.1 (List.mem_map_of_mem h)⟩
    · obtain ⟨j, π, hpath, hvalue⟩ := valueAtList_of_not_renamed σ (i + 1) xs e he hno.2
      exact ⟨j + 1, π, by rw [hpath, Nat.add_right_comm, Nat.add_assoc], hvalue⟩

theorem valueAtFields_of_not_renamed (σ : Int → Option Int) (i : Nat) :
    ∀ (kvs : List (String × Json)), ∀ e ∈ refsAtFields true i kvs, e ∉ refsAtFields false i kvs →
      ∃ j π, e.1 = (i + j) :: π ∧
        (((renameRefsFields σ kvs)[j]?).bind fun p => valueAt p.2 π) = some e.2.2
  | [], _, he, _ => absurd he List.not_mem_nil
  | (k, v) :: kvs, e, he, hno => by
    rw [refsAtFields] at he hno
    rw [List.mem_append, not_or] at hno
    rcases List.mem_append.mp he with he | he
    · have hnow := hno.1
      by_cases hk : k ∈ refKeysScalar
      · by_cases hv : isIntish v = true
        · rw [if_pos ⟨hk, hv⟩] at he hnow
          exact absurd he hnow
        · -- `map_ref` returns the value as it is
          rw [if_neg (fun h => hv h.2), if_neg (fun h => h.2 rfl), refList?_of_scalar hk] at he
          obtain ⟨e', he', rfl⟩ := List.mem_map.mp he
          refine ⟨0, e'.1, rfl, ?_⟩
          show valueAt (if k ∈ refKeysScalar then renameRef σ v else _) e'.1 = some e'.2.2
          rw [if_pos hk, renameRef_of_error (toInt_of_not_isIntish (by simpa using hv))]
          exact valueAt_refsAt true v e' he'
      · rw [if_neg (fun h => hk h.1), if_neg (fun h => hk h.1)] at he hnow
        cases hl : refList? k v with
        | some xs =>
          rw [hl] at he hnow
          exact absurd he hnow
        | none =>
          rw [hl] at he hnow
          obtain ⟨e', he', rfl⟩ := List.mem_map.mp he
          refine ⟨0, e'.1, rfl, ?_⟩
          show valueAt (if k ∈ refKeysScalar then _ else match refList? k v with
            | some xs => .arr (xs.map (renameRef σ))
            | none => renameRefs σ v) e'.1 = some e'.2.2
          rw [if_neg hk, hl]
          exact valueAt_of_not_renamed σ v e' he' fun h => hnow (List.mem_map_of_mem h)
    · obtain ⟨j, π, hpath, hvalue⟩ := valueAtFields_of_not_renamed σ (i + 1) kvs e he hno.2
      exact ⟨j + 1, π, by rw [hpath, Nat.add_right_comm, Nat.add_assoc], hvalue⟩

end

/-- **What stands at a reference's position after the renaming.** -/
theorem valueAt_renameRefs (σ : Int → Option Int) {v : Json} {e : Placed} (he : e ∈ readAt v) :
    valueAt (renameRefs σ v) e.1 =
      some (if e ∈ renamedAt v then renameRef σ e.2.2 else e.2.2) := by
  by_cases hmem : e ∈ renamedAt v
  · rw [if_pos hmem]
    have hrenamed : (e.1, e.2.1, renameRef σ e.2.2) ∈ refsAt false (renameRefs σ v) := by
      rw [renamedAt_renameRefs]
      exact List.mem_map_of_mem hmem
    exact valueAt_refsAt false _ _ hrenamed
  · rw [if_neg hmem]
    exact valueAt_of_not_renamed σ v e he hmem

/-! ## What the rewriting walk returns -/

variable {im sm : List (Int × Int)}

theorem renameRef_of_mapRef {v v' : Json} (h : mapRef im sm v = .ok v') :
    v' = renameRef (idRenaming im sm) v := by
  have hread : isIntish v = true → ∃ r, toInt v = .ok r := by
    intro hv
    cases hr : toInt v with
    | ok r => exact ⟨r, rfl⟩
    | error e =>
      rw [mapRef, if_neg (not_not.mpr hv), hr] at h
      exact absurd h (by simp)
  rw [mapRef_eq hread] at h
  injection h with h
  exact h.symm

theorem map_renameRef_of_mapM {xs ys : List Json} (h : xs.mapM (mapRef im sm) = .ok ys) :
    ys = xs.map (renameRef (idRenaming im sm)) := by
  have hall := Except.mapM_eq_ok.mp h
  clear h
  induction hall with
  | nil => rfl
  | cons hx _ ih => rw [ih, renameRef_of_mapRef hx, List.map_cons]

mutual

/-- A rewritten value is the renamed value. -/
theorem renameRefs_of_rewriteObj : ∀ (v v' : Json), rewriteObj im sm v = .ok v' →
    v' = renameRefs (idRenaming im sm) v
  | .obj kvs, v', h => by
    obtain ⟨kvs', hkvs, h⟩ := Except.bind_eq_ok.mp h
    injection (show Except.ok (Json.obj kvs') = Except.ok v' from h) with h
    rw [← h, renameRefsFields_of_rewriteObj kvs kvs' hkvs]
    rfl
  | .arr xs, v', h => by
    obtain ⟨xs', hxs, h⟩ := Except.bind_eq_ok.mp h
    injection (show Except.ok (Json.arr xs') = Except.ok v' from h) with h
    rw [← h, renameRefsList_of_rewriteObj xs xs' hxs]
    rfl
  | .null, _, h | .bool _, _, h | .int _, _, h | .float _, _, h | .str _, _, h => by
    injection h with h
    exact h.symm

theorem renameRefsList_of_rewriteObj : ∀ (xs xs' : List Json), rewriteObjList im sm xs = .ok xs' →
    xs' = renameRefsList (idRenaming im sm) xs
  | [], xs', h => by
    injection h with h
    exact h.symm
  | x :: xs, ys, h => by
    obtain ⟨x', hx, h⟩ := Except.bind_eq_ok.mp h
    obtain ⟨xs', hxs, h⟩ := Except.bind_eq_ok.mp h
    injection (show Except.ok (x' :: xs') = Except.ok ys from h) with h
    rw [← h, renameRefs_of_rewriteObj x x' hx, renameRefsList_of_rewriteObj xs xs' hxs]
    rfl

theorem renameRefsFields_of_rewriteObj : ∀ (kvs kvs' : List (String × Json)),
    rewriteObjFields im sm kvs = .ok kvs' → kvs' = renameRefsFields (idRenaming im sm) kvs
  | [], kvs', h => by
    injection h with h
    exact h.symm
  | (k, v) :: kvs, kvs'', h => by
    -- the three ways to rewrite the value of a field end alike
    have hfield : ∀ (x : Except PyErr Json) (w : Json), (∀ v', x = .ok v' → v' = w) →
        (do
          let v' ← x
          let kvs' ← rewriteObjFields im sm kvs
          return (k, v') :: kvs' : Except PyErr (List (String × Json))) = .ok kvs'' →
        kvs'' = (k, w) :: renameRefsFields (idRenaming im sm) kvs := by
      intro x w hw h
      obtain ⟨v', hv, h⟩ := Except.bind_eq_ok.mp h
      obtain ⟨kvs', hkvs, h⟩ := Except.bind_eq_ok.mp h
      injection (show Except.ok ((k, v') :: kvs') = Except.ok kvs'' from h) with h
      rw [← h, renameRefsFields_of_rewriteObj kvs kvs' hkvs, hw v' hv]
    rw [rewriteObjFields] at h
    rw [renameRefsFields]
    by_cases hk : k ∈ refKeysScalar
    · rw [if_pos hk] at h
      rw [if_pos hk]
      exact hfield _ _ (fun v' hv => renameRef_of_mapRef hv) h
    · rw [if_neg hk] at h
      rw [if_neg hk]
      cases hl : refList? k v with
      | none =>
        simp only [hl] at h
        exact hfield _ _ (fun v' hv => renameRefs_of_rewriteObj v v' hv) h
      | some xs =>
        simp only [hl] at h
        refine hfield _ _ (fun v' hv => ?_) h
        cases hxs : xs.mapM (mapRef im sm) with
        | error e =>
          rw [hxs] at hv
          exact absurd hv (by simp [Except.map])
        | ok ys =>
          rw [hxs] at hv
          injection (show Except.ok (Json.arr ys) = Except.ok v' from hv) with hv
          rw [← hv, map_renameRef_of_mapM hxs]

end

/-- Every node of the rewritten plan is a renamed node of the plan. -/
theorem mem_of_rewriteNodes {stage : String} : ∀ {plan acc out : List (String × Json)},
    rewriteNodes im sm stage plan acc = .ok out → ∀ q ∈ out, q ∈ acc ∨
      ∃ p ∈ plan, newKey im stage p.1 = .ok q.1 ∧ q.2 = renameRefs (idRenaming im sm) p.2
  | [], acc, out, h, q, hq => by
    injection h with h
    exact Or.inl (h ▸ hq)
  | (k, v) :: plan, acc, out, h, q, hq => by
    obtain ⟨k', hk, h⟩ := Except.bind_eq_ok.mp h
    obtain ⟨v', hv, h⟩ := Except.bind_eq_ok.mp h
    rcases mem_of_rewriteNodes h q hq with hq | ⟨p, hp, hkey, hnode⟩
    · rcases OrdDict.mem_set hq with rfl | hq
      · exact Or.inr ⟨(k, v), List.mem_cons_self .., hk, renameRefs_of_rewriteObj v v' hv⟩
      · exact Or.inl hq
    · exact Or.inr ⟨p, List.mem_cons_of_mem _ hp, hkey, hnode⟩

/-- The checks read the same positions of a plan as are renamed. -/
def SamePositions (plan : List (String × Json)) : Prop :=
  ∀ p ∈ plan, ∀ π, π ∈ positions (readAt p.2) ↔ π ∈ positions (renamedAt p.2)

/-- In the rewritten plan the references stand where they stood, and hold the images of the ids
that have one. -/
def RenamedEverywhere (im sm : List (Int × Int)) (plan out : List (String × Json)) : Prop :=
  ∀ q ∈ out, ∃ p ∈ plan, positions (readAt q.2) = positions (readAt p.2) ∧
    ∀ e ∈ readAt p.2, ∀ r n, toInt e.2.2 = .ok r → idRenaming im sm r = some n →
      valueAt q.2 e.1 = some (.int n)

theorem readAt_eq_renamedAt {v : Json} (h : nestedRefs v = []) : readAt v = renamedAt v := by
  have hread : (readAt v).length = (walkRefs v).length := by
    rw [← readAt_eq, List.length_map, readAt]
  have hrenamed : (renamedAt v).length = (directRefs v).length := by
    rw [← renamedAt_eq, List.length_map, renamedAt]
  refine ((renamedAt_sublist v).eq_of_length ?_).symm
  show (renamedAt v).length = (readAt v).length
  rw [hread, hrenamed, length_walkRefs, h, List.length_nil, Nat.add_zero]

/-- **What is checked is what is renamed, exactly on plans without nested references.** Then a
rewritten plan holds the image of every id that has one, wherever a reference is read. -/
theorem positions_agree_iff (plan : List (String × Json)) (im sm : List (Int × Int)) :
    (SamePositions plan ∧ ∀ stage out, rewritePlanReferences plan im sm stage = .ok out →
      RenamedEverywhere im sm plan out) ↔ ∀ p ∈ plan, nestedRefs p.2 = [] := by
  constructor
  · intro h p hp
    exact mem_positions_iff.mp (h.1 p hp)
  · intro h
    refine ⟨fun p hp => mem_positions_iff.mpr (h p hp), fun stage out hout q hq => ?_⟩
    rcases mem_of_rewriteNodes hout q hq with hq | ⟨p, hp, _, hnode⟩
    · exact absurd hq List.not_mem_nil
    have hrenamed : readAt q.2 = (renamedAt p.2).map fun e =>
        (e.1, e.2.1, renameRef (idRenaming im sm) e.2.2) := by
      rw [hnode, readAt_eq_renamedAt (by rw [nestedRefs_renameRefs, h p hp])]
      exact renamedAt_renameRefs _ _
    refine ⟨p, hp, ?_, fun e he r n hr hn => ?_⟩
    · rw [hrenamed, readAt_eq_renamedAt (h p hp), positions, positions, List.map_map]
      rfl
    · rw [hnode, valueAt_renameRefs _ he, if_pos (readAt_eq_renamedAt (h p hp) ▸ he), renameRef, hr]
      simp [hn]

/-- A projection over SF1 scan 100, written in place of the id of the filter's child. -/
def nestedPlan : List (String × Json) :=
  [("10", .obj [("filter", .obj [("input", .obj [("projection", .obj [("input", .int 100)])])])])]

/-- The scan's id is read as a reference and not renamed. -/
theorem nestedPlan_not_renamed :
    ¬ SamePositions nestedPlan ∧
      rewritePlanReferences nestedPlan [(10, 10)] [(100, 5)] "transfer" = .ok nestedPlan ∧
      ¬ RenamedEverywhere [(10, 10)] [(100, 5)] nestedPlan nestedPlan := by
  have hnode : ∀ p, p ∈ nestedPlan → p.2 =
      .obj [("filter", .obj [("input", .obj [("projection", .obj [("input", .int 100)])])])] := by
    intro p hp
    rw [List.mem_singleton.mp hp]
  refine ⟨fun h => ?_, rfl, fun h => ?_⟩
  · have hpos := (h _ (List.mem_cons_self ..) [0, 0, 0, 0]).mp (by decide)
    exact absurd hpos (by decide)
  · obtain ⟨p, hp, _, hall⟩ := h _ (List.mem_cons_self ..)
    rw [hnode p hp] at hall
    have hvalue := hall ([0, 0, 0, 0], "input", .int 100) (by decide) 100 5 rfl rfl
    exact absurd hvalue (by decide)

end DbPlanBench.Transfer
