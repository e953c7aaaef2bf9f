import DbPlanBench.Lib.NamingOrder
import DbPlanBench.Transfer.RefsOrder
import DbPlanBench.Transfer.ScansOrder
import DbPlanBench.Transfer.Traversal

/-!
# The traversal and the order of fields

The roots of a plan are sorted, and so are the nodes the traversal goes on with, so where
it starts does not depend on the order of the plan's fields (`walkStarts_congr`). Nor does
the graph it walks (`mem_childIds_congr`). What depends on it is in which order the
children of a node are visited: `children_of` lists them as the operator's object does.
-/

namespace DbPlanBench.Transfer

/-- The nodes in the order in which the walk finishes them. -/
def depthFirst (plan : List (String × Json)) : List Int :=
  Postorder.postorder (childIds plan) (plan.length + 1) (walkStarts plan)

/-- The order in which the nodes are numbered: as the walk finishes them, but those that it came to by
a reference `true` or `false` last, sorted. -/
def numberingOrder (plan : List (String × Json)) : List Int :=
  turns (planIds plan) (walkRefsWithin plan (plan.length + 1))

section

variable {plan : List (String × Json)}

theorem numberingOrder_nodup (hids : (planIds plan).Nodup) : (numberingOrder plan).Nodup :=
  turns_nodup hids (walkRefsWithin_spec plan).1

theorem mem_numberingOrder (plan : List (String × Json)) (n : Int) :
    n ∈ numberingOrder plan ↔ n ∈ planIds plan :=
  mem_turns (walkRefsWithin_spec plan).2 n

/-- Where no node is come to by a word, the nodes are numbered as the walk finishes them. -/
theorem numberingOrder_eq_depthFirst (h : NumbersFirst plan) :
    numberingOrder plan = depthFirst plan := by
  rw [numberingOrder, turns_of_numbers (walkRefsWithin_spec plan).2 ((numbersFirst_iff plan).mp h),
    map_number_walkRefsWithin, depthFirst]

/-- The nodes are finished once each. -/
theorem depthFirst_spec (plan : List (String × Json)) :
    (depthFirst plan).Nodup ∧ ∀ n, n ∈ depthFirst plan ↔ n ∈ planIds plan := by
  rw [depthFirst, ← map_number_walkRefsWithin]
  exact walkRefsWithin_spec plan

/-- The assignment goes through the nodes in this order. -/
theorem assignNewNodeIds_eq_pairs (hnd : (OrdDict.keys plan).Nodup)
    (hc : ∀ p ∈ plan, ∃ n : Nat, p.1 = toString n) (hr : Readable plan) (reserved : List Int) :
    assignNewNodeIds plan reserved = .ok (Renumber.pairs naturals reserved (numberingOrder plan)) := by
  have hids := nodup_planIds hnd fun p hp => (canonicalKey_of_numeral (hc p hp).choose_spec).2.2
  have htopo := (topoOrderFromRoots_eq_within hnd hc).trans (topoOrderWithin_eq hnd hc hr _)
  rw [assignNewNodeIds_of_order (nodeIds_of_numerals hc) htopo (walkRefsWithin_spec plan).2,
    ← numberingOrder, foldl_assignStep _ [] reserved (numberingOrder_nodup hids) (fun n _ => by simp)
      fun n hn => absurd hn (by simp)]
  rfl

end

/-! ## The graph -/

theorem confRefs_cons (q : String × Json) (kvs : List (String × Json)) :
    confRefs (.obj (q :: kvs)) = confRefs (.obj [q]) ++ confRefs (.obj kvs) := by
  rw [confRefs, confRefs, confRefs, List.flatMap_cons, List.flatMap_cons, List.flatMap_nil,
    List.append_nil]

/-- The references of one field. -/
theorem confRefs_field_canonical (k : String) (v : Json) :
    confRefs (.obj [(k, canonical v)]) = confRefs (.obj [(k, v)]) := by
  rw [confRefs, confRefs, List.flatMap_cons, List.flatMap_cons, isIntish_canonical, refList?_canonical]
  by_cases hs : k ∈ refKeysScalar ∧ isIntish v = true
  · rw [if_pos hs, if_pos hs, canonical_of_isIntish hs.2]
  · rw [if_neg hs, if_neg hs]

theorem confRefs_canonicalFields (kvs : List (String × Json)) :
    confRefs (.obj (canonicalFields kvs)) = confRefs (.obj kvs) := by
  induction kvs with
  | nil => rfl
  | cons p kvs ih =>
    obtain ⟨k, v⟩ := p
    rw [canonicalFields, confRefs_cons, confRefs_field_canonical, ih, ← confRefs_cons]

theorem mem_confRefs_canonical (x conf : Json) :
    x ∈ confRefs (canonical conf) ↔ x ∈ confRefs conf := by
  cases conf with
  | obj kvs =>
    rw [canonical, mem_sortFields_iff (f := fun l => confRefs (.obj l)) rfl confRefs_cons,
      confRefs_canonicalFields]
  | _ => rfl

/-- A single operator in canonical form. -/
theorem operatorRefs_canonical_single (op : String) (conf : Json) :
    operatorRefs (canonical (.obj [(op, conf)])) = confRefs (canonical conf) := by
  rw [canonical_obj]
  rfl

theorem mem_operatorRefs_canonical (x node : Json) :
    x ∈ operatorRefs (canonical node) ↔ x ∈ operatorRefs node := by
  cases node with
  | obj kvs =>
    match kvs with
    | [] => rfl
    | [(op, conf)] =>
      rw [operatorRefs_canonical_single]
      exact mem_confRefs_canonical x conf
    | p :: q :: rest =>
      have hlen : (sortFields (canonicalFields (p :: q :: rest))).length = (p :: q :: rest).length :=
        length_sortFields_canonicalFields _
      have hnil : ∀ l : List (String × Json), l.length = (p :: q :: rest).length →
          operatorRefs (.obj l) = [] := by
        intro l hl
        match l with
        | _ :: _ :: _ => rfl
        | [_] => simp at hl
        | [] => simp at hl
      rw [canonical, hnil _ hlen, hnil _ rfl]
  | _ => rfl

/-- Nodes that differ in the order of fields have the same children. -/
theorem mem_operatorRefs_congr {v v' : Json} (h : SameValue v v') (x : Json) :
    x ∈ operatorRefs v ↔ x ∈ operatorRefs v' := by
  rw [← mem_operatorRefs_canonical, h, mem_operatorRefs_canonical]

theorem mem_childIds {plan : List (String × Json)} (hids : (planIds plan).Nodup) (n c : Int) :
    c ∈ childIds plan n ↔ c ∈ planIds plan ∧
      ∃ p ∈ plan, keyId p.1 = n ∧ ∃ x ∈ operatorRefs p.2, toInt x = .ok c := by
  rw [mem_childIds_iff]
  refine and_congr_right fun _ => ⟨fun h => ?_, fun h => ?_⟩
  · obtain ⟨node, hnode, hx⟩ := h
    obtain ⟨p, hp, hpn⟩ := List.mem_map.mp (OrdDict.mem_of_get? hnode)
    rw [Prod.mk.injEq] at hpn
    obtain ⟨hpn, rfl⟩ := hpn
    exact ⟨p, hp, hpn, hx⟩
  · obtain ⟨p, hp, rfl, hx⟩ := h
    have hget : OrdDict.get? (planNodes plan) (keyId p.1) = some p.2 :=
      OrdDict.get?_of_mem ((keys_planNodes plan).symm ▸ hids) (List.mem_map.mpr ⟨p, hp, rfl⟩)
    exact ⟨p.2, hget, hx⟩

/-! ## Two plans -/

section

variable {plan plan' : List (String × Json)}

theorem planIds_perm (h : SamePlan plan plan') : (planIds plan).Perm (planIds plan') := by
  rw [← map_keyId_keys, ← map_keyId_keys]
  exact h.same.keys_perm.map keyId

theorem sorted_congr {l l' : List Int} (h : l.Perm l') :
    l.insertionSort (· ≤ ·) = l'.insertionSort (· ≤ ·) := by
  have hperm := List.perm_insertionSort (α := Int) (· ≤ ·)
  exact ((hperm l).trans (h.trans (hperm l').symm)).eq_of_pairwise'
    (List.pairwise_insertionSort (· ≤ ·) l) (List.pairwise_insertionSort (· ≤ ·) l')

theorem mem_namedIds_of_samePlan (h : SamePlan plan plan') {n : Int} (hn : n ∈ namedIds plan) :
    n ∈ namedIds plan' := by
  obtain ⟨r, hr, hrn⟩ := List.mem_filterMap.mp hn
  obtain ⟨p, hp, hrp⟩ := List.mem_flatMap.mp hr
  obtain ⟨q, hq, _, hv⟩ := h.same.exists_field hp
  refine List.mem_filterMap.mpr ⟨r, List.mem_flatMap.mpr ⟨q, hq, ?_⟩, hrn⟩
  exact (mem_walkRefs_congr hv r).mp hrp

theorem mem_namedIds_congr (h : SamePlan plan plan') (n : Int) :
    n ∈ namedIds plan ↔ n ∈ namedIds plan' :=
  ⟨mem_namedIds_of_samePlan h, mem_namedIds_of_samePlan h.symm⟩

theorem rootIds_congr (h : SamePlan plan plan') : rootIds plan = rootIds plan' := by
  have hnamed : (fun n => decide (n ∉ namedIds plan)) = fun n => decide (n ∉ namedIds plan') :=
    funext fun n => decide_eq_decide.mpr (not_congr (mem_namedIds_congr h n))
  rw [rootIds, rootIds, sorted_congr (planIds_perm h), hnamed]

/-- **The traversals start from the same nodes in the same order.** -/
theorem walkStarts_congr (h : SamePlan plan plan') : walkStarts plan = walkStarts plan' := by
  rw [walkStarts, walkStarts, rootIds_congr h, sorted_congr (planIds_perm h)]

theorem mem_childIds_of_samePlan (h : SamePlan plan plan') (hids : (planIds plan).Nodup) {n c : Int}
    (hc : c ∈ childIds plan n) : c ∈ childIds plan' n := by
  have hperm := planIds_perm h
  obtain ⟨hmem, p, hp, hpn, x, hx, hxc⟩ := (mem_childIds hids n c).mp hc
  obtain ⟨q, hq, hqk, hv⟩ := h.same.exists_field hp
  refine (mem_childIds (hperm.nodup_iff.mp hids) n c).mpr ⟨hperm.mem_iff.mp hmem, q, hq, ?_⟩
  exact ⟨hqk ▸ hpn, x, (mem_operatorRefs_congr hv x).mp hx, hxc⟩

/-- **The two graphs have the same edges.** -/
theorem mem_childIds_congr (h : SamePlan plan plan') (hids : (planIds plan).Nodup) (n c : Int) :
    c ∈ childIds plan n ↔ c ∈ childIds plan' n :=
  ⟨mem_childIds_of_samePlan h hids,
    mem_childIds_of_samePlan h.symm ((planIds_perm h).nodup_iff.mp hids)⟩

/-- **The two walks finish the same blocks of nodes.** -/
theorem depthFirst_blocks (h : SamePlan plan plan') (hids : (planIds plan).Nodup) :
    Postorder.Blocks (childIds plan) (depthFirst plan) (depthFirst plan') := by
  rw [depthFirst, depthFirst, ← walkStarts_congr h, ← h.same.length_eq]
  exact Postorder.postorder_blocks (childIds_closed plan) (mem_childIds_congr h hids)
    (card_planIds_le plan)
    fun a ha => List.mem_toFinset.mpr ((mem_walkStarts plan a).mp ha)

end

end DbPlanBench.Transfer
