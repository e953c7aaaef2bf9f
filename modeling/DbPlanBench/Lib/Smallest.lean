import Mathlib.Data.List.Sort

/-!
# The smallest elements of a list

The first `k` elements of a sorted list, as an order on them that may have ties
sees them: how many there are, in which order, and that none that is left out is
smaller.

* `of_insertionSort` — sorting and taking the first `k` gives them.
* `Of.map` — a map that keeps the order takes them along.
* `Of.head_le` — the first one is below every element of the list.
* `Of.getElem_le_of_subperm` — among more elements the smallest get no larger.
* `of_take_iff` — when the first `k` elements as they stand are the smallest.
-/

namespace Smallest

variable {α β : Type*} {r : α → α → Prop} {k : Nat} {l chosen : List α}

/-- `chosen` are the `k` smallest elements of `l` in their order, all of them if there are fewer. -/
structure Of (r : α → α → Prop) (k : Nat) (l chosen : List α) : Prop where
  length : chosen.length = min k l.length
  sorted : chosen.Pairwise r
  rest : ∃ rest, (chosen ++ rest).Perm l ∧ ∀ a ∈ chosen, ∀ b ∈ rest, r a b

theorem of_insertionSort [DecidableRel r] [Std.Total r] [IsTrans α r] (k : Nat) (l : List α) :
    Of r k l ((l.insertionSort r).take k) where
  length := by rw [List.length_take, List.length_insertionSort]
  sorted := (List.pairwise_insertionSort r l).take
  rest := by
    have hsorted := List.pairwise_insertionSort r l
    rw [← List.take_append_drop k (l.insertionSort r)] at hsorted
    refine ⟨(l.insertionSort r).drop k, ?_, (List.pairwise_append.mp hsorted).2.2⟩
    rw [List.take_append_drop]
    exact List.perm_insertionSort r l

theorem Of.perm {l' : List α} (h : Of r k l chosen) (hl : l.Perm l') : Of r k l' chosen where
  length := h.length.trans (by rw [hl.length_eq])
  sorted := h.sorted
  rest := by
    obtain ⟨rest, hperm, hle⟩ := h.rest
    exact ⟨rest, hperm.trans hl, hle⟩

theorem Of.mem (h : Of r k l chosen) {a : α} (ha : a ∈ chosen) : a ∈ l := by
  obtain ⟨rest, hperm, _⟩ := h.rest
  exact hperm.mem_iff.mp (List.mem_append_left _ ha)

/-- **A map that keeps the order takes the smallest elements to the smallest.** -/
theorem Of.map {s : β → β → Prop} (f : α → β) (hf : ∀ a b, r a b → s (f a) (f b))
    (h : Of r k l chosen) : Of s k (l.map f) (chosen.map f) where
  length := by rw [List.length_map, List.length_map, h.length]
  sorted := List.pairwise_map.mpr (h.sorted.imp (hf _ _))
  rest := by
    obtain ⟨rest, hperm, hle⟩ := h.rest
    refine ⟨rest.map f, by rw [← List.map_append]; exact hperm.map f, fun a ha b hb => ?_⟩
    obtain ⟨a', ha', rfl⟩ := List.mem_map.mp ha
    obtain ⟨b', hb', rfl⟩ := List.mem_map.mp hb
    exact hf a' b' (hle a' ha' b' hb')

/-- **The first is below every element**, if one is taken. -/
theorem Of.head_le (hrefl : ∀ a, r a a) (h : Of r k l chosen) (hk : 0 < k) {b : α} (hb : b ∈ l) :
    ∃ a rest, chosen = a :: rest ∧ r a b := by
  obtain ⟨rest, hperm, hle⟩ := h.rest
  have hpos : 0 < chosen.length := by
    rw [h.length]
    exact Nat.lt_min.mpr ⟨hk, List.length_pos_of_mem hb⟩
  obtain ⟨a, chosen', rfl⟩ := List.exists_cons_of_length_pos hpos
  refine ⟨a, chosen', rfl, ?_⟩
  rcases List.mem_append.mp (hperm.mem_iff.mpr hb) with hb | hb
  · rcases List.mem_cons.mp hb with rfl | hb
    · exact hrefl b
    · exact (List.pairwise_cons.mp h.sorted).1 b hb
  · exact hle a (List.mem_cons_self ..) b hb

/-- **Among more elements the smallest get no larger**, one by one. -/
theorem Of.getElem_le_of_subperm [Std.Total r] [IsTrans α r] {l' chosen' : List α}
    (h : Of r k l chosen) (h' : Of r k l' chosen') (hl : l.Subperm l') {j : Nat}
    (hj : j < chosen.length) : ∃ hj' : j < chosen'.length, r chosen'[j] chosen[j] := by
  classical
  have hj' : j < chosen'.length := by
    have hlen := hl.length_le
    have hc := h.length
    have hc' := h'.length
    omega
  refine ⟨hj', ?_⟩
  by_contra hnot
  obtain ⟨rest, hperm, _⟩ := h.rest
  obtain ⟨rest', hperm', hle'⟩ := h'.rest
  -- count the elements up to the `j`th: the first `j + 1` are, and of `l'` fewer
  have hmany : j + 1 ≤ l.countP fun a => decide (r a chosen[j]) := by
    have htake : (chosen.take (j + 1)).countP (fun a => decide (r a chosen[j])) = j + 1 := by
      have hlen : (chosen.take (j + 1)).length = j + 1 := by
        rw [List.length_take]
        omega
      nth_rewrite 2 [← hlen]
      rw [List.countP_eq_length]
      intro a ha
      rw [decide_eq_true_iff]
      obtain ⟨i, hi, rfl⟩ := List.mem_iff_getElem.mp ha
      rw [List.getElem_take]
      rcases Nat.lt_or_ge i j with hij | hij
      · exact List.pairwise_iff_getElem.mp h.sorted i j _ hj hij
      · have hij : i = j := by omega
        subst hij
        exact (Std.Total.total (r := r) chosen[i] chosen[i]).elim id id
    have hsub : (chosen.take (j + 1)).countP (fun a => decide (r a chosen[j])) ≤
        (chosen ++ rest).countP fun a => decide (r a chosen[j]) :=
      ((List.take_sublist _ _).trans (List.sublist_append_left _ _)).countP_le
    rw [htake, hperm.countP_eq] at hsub
    exact hsub
  have hfew : (l'.countP fun a => decide (r a chosen[j])) ≤ j := by
    have hnone : (chosen'.drop j ++ rest').countP (fun a => decide (r a chosen[j])) = 0 := by
      rw [List.countP_eq_zero]
      intro b hb hbx
      refine hnot (Trans.trans (?_ : r chosen'[j] b) (of_decide_eq_true hbx))
      rcases List.mem_append.mp hb with hb | hb
      · rw [List.drop_eq_getElem_cons hj'] at hb
        rcases List.mem_cons.mp hb with rfl | hb
        · exact (Std.Total.total (r := r) chosen'[j] chosen'[j]).elim id id
        · have hsorted := h'.sorted.drop (i := j)
          rw [List.drop_eq_getElem_cons hj'] at hsorted
          exact (List.pairwise_cons.mp hsorted).1 b hb
      · exact hle' _ (List.getElem_mem hj') b hb
    rw [← hperm'.countP_eq, ← List.take_append_drop j chosen', List.append_assoc,
      List.countP_append, hnone]
    exact Nat.le_trans List.countP_le_length (List.length_take_le ..)
  have hle := hl.countP_le fun a => decide (r a chosen[j])
  omega

/-- Another order for which the same holds of the elements. -/
theorem Of.of_imp {s : α → α → Prop} (h : Of r k l chosen) (hs : ∀ a ∈ l, ∀ b ∈ l, r a b → s a b) :
    Of s k l chosen where
  length := h.length
  sorted := h.sorted.imp_of_mem fun ha hb => hs _ (h.mem ha) _ (h.mem hb)
  rest := by
    obtain ⟨rest, hperm, hle⟩ := h.rest
    refine ⟨rest, hperm, fun a ha b hb => hs a (h.mem ha) b ?_ (hle a ha b hb)⟩
    exact hperm.mem_iff.mp (List.mem_append_right _ hb)

/-- **The first elements are the smallest** if each is below all that come after it. -/
theorem of_take_iff : Of r k l (l.take k) ↔ ∀ i j a b, i < k → i < j → l[i]? = some a →
    l[j]? = some b → r a b := by
  constructor
  · intro h i j a b hik hij ha hb
    have ha' : (l.take k)[i]? = some a := by rw [List.getElem?_take_of_lt hik, ha]
    by_cases hjk : j < k
    · have hb' : (l.take k)[j]? = some b := by rw [List.getElem?_take_of_lt hjk, hb]
      obtain ⟨hi, rfl⟩ := List.getElem?_eq_some_iff.mp ha'
      obtain ⟨hj, rfl⟩ := List.getElem?_eq_some_iff.mp hb'
      exact List.pairwise_iff_getElem.mp h.sorted i j hi hj hij
    · obtain ⟨rest, hperm, hle⟩ := h.rest
      nth_rewrite 2 [← List.take_append_drop k l] at hperm
      have hrest := (List.perm_append_left_iff _).mp hperm
      refine hle a (List.mem_of_getElem? ha') b (hrest.mem_iff.mpr ?_)
      refine List.mem_of_getElem? (i := j - k) ?_
      rw [List.getElem?_drop, show k + (j - k) = j by omega, hb]
  · intro h
    refine ⟨List.length_take, ?_, l.drop k, ?_, fun a ha b hb => ?_⟩
    · rw [List.pairwise_iff_getElem]
      intro i j hi hj hij
      rw [List.length_take] at hi hj
      refine h i j _ _ (by omega) hij ?_ ?_
      · rw [List.getElem_take, List.getElem?_eq_getElem]
      · rw [List.getElem_take, List.getElem?_eq_getElem]
    · rw [List.take_append_drop]
    · obtain ⟨i, hi⟩ := List.getElem?_of_mem ha
      obtain ⟨j, hj⟩ := List.getElem?_of_mem hb
      rw [List.getElem?_drop] at hj
      have hik : i < k := by
        by_contra hge
        rw [List.getElem?_eq_none (by rw [List.length_take]; omega)] at hi
        exact absurd hi (by simp)
      rw [List.getElem?_take_of_lt hik] at hi
      exact h i (k + j) a b hik (by omega) hi hj

end Smallest
