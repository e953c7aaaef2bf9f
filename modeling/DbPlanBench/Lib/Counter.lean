import DbPlanBench.Lib.OrdDict
import Mathlib.Algebra.BigOperators.Ring.Finset
import Mathlib.Algebra.Order.BigOperators.Group.Finset

/-!
# Counters

A dictionary of counts, where a key that is missing counts as 0.

* `total_eq_sum` — the total of the counts over the distinct keys.
* `length_add_total` — when a list and a counter make up another counter key by key,
  they do so in total.
* `total_handOut` — units that are handed out in turn all arrive; `count_handOut` says where,
  when they are less than a round.
-/

namespace Counter

variable {κ : Type} [DecidableEq κ]

/-- `d.get(k, 0)`. -/
def count (d : List (κ × Nat)) (k : κ) : Nat := (OrdDict.get? d k).getD 0

/-- `d[k] = d.get(k, 0) + n`. -/
def add (d : List (κ × Nat)) (k : κ) (n : Nat) : List (κ × Nat) := OrdDict.set d k (count d k + n)

/-- `sum(d.values())`. -/
def total : List (κ × Nat) → Nat
  | [] => 0
  | p :: d => p.2 + total d

/-- The occurrences in a list are added. -/
def tally (d : List (κ × Nat)) (l : List κ) : List (κ × Nat) := l.foldl (fun d k => add d k 1) d

@[simp] theorem count_nil (k : κ) : count ([] : List (κ × Nat)) k = 0 := rfl

theorem count_cons (p : κ × Nat) (d : List (κ × Nat)) (k : κ) :
    count (p :: d) k = if p.1 = k then p.2 else count d k := by
  rw [count, OrdDict.get?]
  split
  next => rfl
  next => rfl

theorem count_set (d : List (κ × Nat)) (k j : κ) (n : Nat) :
    count (OrdDict.set d k n) j = if k = j then n else count d j := by
  rw [count, OrdDict.get?_set]
  split
  next => rfl
  next => rfl

theorem count_add (d : List (κ × Nat)) (k j : κ) (n : Nat) :
    count (add d k n) j = count d j + if k = j then n else 0 := by
  rw [add, count_set]
  by_cases hj : k = j
  · rw [if_pos hj, if_pos hj, hj]
  · rw [if_neg hj, if_neg hj, Nat.add_zero]

theorem count_of_not_mem {d : List (κ × Nat)} {k : κ} (h : k ∉ OrdDict.keys d) : count d k = 0 := by
  rw [count, OrdDict.get?_eq_none.mpr h]
  rfl

theorem mem_keys_of_count {d : List (κ × Nat)} {k : κ} (h : 0 < count d k) : k ∈ OrdDict.keys d := by
  by_contra hk
  rw [count_of_not_mem hk] at h
  exact Nat.lt_irrefl 0 h

/-- Counts that are changed one by one, missing ones included. -/
theorem count_map {g : κ → Nat → Nat} (hg : ∀ k, g k 0 = 0) (k : κ) : ∀ d : List (κ × Nat),
    count (d.map fun p => (p.1, g p.1 p.2)) k = g k (count d k)
  | [] => (hg k).symm
  | p :: d => by
    rw [List.map_cons, count_cons, count_cons, count_map hg k d]
    split
    next h => rw [h]
    next => rfl

/-- A count is replaced in the total. -/
theorem total_set (k : κ) (n : Nat) : ∀ d : List (κ × Nat),
    total (OrdDict.set d k n) + count d k = total d + n
  | [] => by simp [total, OrdDict.set]
  | (j, m) :: d => by
    rw [OrdDict.set, count_cons]
    have ih := total_set k n d
    by_cases hj : j = k
    · simp only [if_pos hj, total]
      omega
    · simp only [if_neg hj, total]
      omega

theorem total_add (d : List (κ × Nat)) (k : κ) (n : Nat) : total (add d k n) = total d + n := by
  have h := total_set k (count d k + n) d
  rw [add]
  omega

omit [DecidableEq κ] in
theorem total_zeros : ∀ d : List (κ × Nat), total (d.map fun p => (p.1, 0)) = 0
  | [] => rfl
  | _ :: d => (Nat.zero_add _).trans (total_zeros d)

theorem count_tally : ∀ (l : List κ) (d : List (κ × Nat)) (k : κ),
    count (tally d l) k = count d k + l.count k
  | [], d, k => by simp [tally]
  | j :: l, d, k => by
    rw [tally, List.foldl_cons]
    refine (count_tally l (add d j 1) k).trans ?_
    rw [count_add, List.count_cons]
    by_cases hj : j = k
    · simp [hj, Nat.add_comm, Nat.add_left_comm]
    · simp [hj]

theorem total_tally : ∀ (l : List κ) (d : List (κ × Nat)),
    total (tally d l) = total d + l.length
  | [], d => rfl
  | k :: l, d => by
    rw [tally, List.foldl_cons]
    refine (total_tally l (add d k 1)).trans ?_
    rw [total_add, List.length_cons, Nat.add_assoc, Nat.add_comm 1]

/-! ## Totals key by key -/

theorem total_eq_sum : ∀ {d : List (κ × Nat)}, (OrdDict.keys d).Nodup →
    total d = ∑ k ∈ (OrdDict.keys d).toFinset, count d k
  | [], _ => rfl
  | (k, n) :: d, h => by
    obtain ⟨hk, hd⟩ := List.nodup_cons.mp h
    have hnot : k ∉ (OrdDict.keys d).toFinset := fun hmem => hk (List.mem_toFinset.mp hmem)
    rw [OrdDict.keys_cons, List.toFinset_cons, Finset.sum_insert hnot, count_cons, if_pos rfl]
    have hrest : ∑ j ∈ (OrdDict.keys d).toFinset, count ((k, n) :: d) j =
        ∑ j ∈ (OrdDict.keys d).toFinset, count d j := by
      refine Finset.sum_congr rfl fun j hj => ?_
      have hkj : k ≠ j := fun hkj => hnot (hkj ▸ hj)
      rw [count_cons, if_neg hkj]
    rw [hrest, ← total_eq_sum hd]
    rfl

/-- Nothing is counted exactly when the total is 0. -/
theorem total_eq_zero {d : List (κ × Nat)} (h : (OrdDict.keys d).Nodup) :
    total d = 0 ↔ ∀ k, count d k = 0 := by
  rw [total_eq_sum h, Finset.sum_eq_zero_iff]
  constructor
  · intro hzero k
    by_cases hk : k ∈ OrdDict.keys d
    · exact hzero k (List.mem_toFinset.mpr hk)
    · exact count_of_not_mem hk
  · intro hzero k _
    exact hzero k

/-- **Key by key, and so in total.** -/
theorem length_add_total {l : List κ} {d e : List (κ × Nat)} (hkeys : OrdDict.keys d = OrdDict.keys e)
    (hnodup : (OrdDict.keys e).Nodup) (h : ∀ k, l.count k + count d k = count e k) :
    l.length + total d = total e := by
  have hmem : ∀ k ∈ (l : Multiset κ), k ∈ (OrdDict.keys e).toFinset := by
    intro k hk
    refine List.mem_toFinset.mpr (mem_keys_of_count ?_)
    have hpos := List.count_pos_iff.mpr (Multiset.mem_coe.mp hk)
    have := h k
    omega
  have hlen : ∑ k ∈ (OrdDict.keys e).toFinset, l.count k = l.length := by
    have hcard := Multiset.sum_count_eq_card hmem
    simpa only [Multiset.coe_count, Multiset.coe_card] using hcard
  rw [total_eq_sum (hkeys ▸ hnodup), total_eq_sum hnodup, hkeys, ← hlen, ← Finset.sum_add_distrib]
  exact Finset.sum_congr rfl fun k _ => h k

/-- A counter of the occurrences in a list has its length as the total. -/
theorem total_eq_length {l : List κ} {d : List (κ × Nat)} (hnodup : (OrdDict.keys d).Nodup)
    (h : ∀ k, count d k = l.count k) : total d = l.length := by
  have hkeys : OrdDict.keys (d.map fun p => (p.1, 0)) = OrdDict.keys d := by
    rw [OrdDict.keys, List.map_map]
    rfl
  have hlen := length_add_total (l := l) hkeys hnodup fun k => by
    rw [count_map (g := fun _ _ => 0) (fun _ => rfl), Nat.add_zero, h]
  rw [total_zeros, Nat.add_zero] at hlen
  exact hlen.symm

omit [DecidableEq κ] in
theorem total_eq_sum_map : ∀ d : List (κ × Nat), total d = (d.map (·.2)).sum
  | [] => rfl
  | p :: d => by rw [total, total_eq_sum_map d, List.map_cons, List.sum_cons]

theorem map_count_keys {d : List (κ × Nat)} (h : (OrdDict.keys d).Nodup) :
    (OrdDict.keys d).map (count d) = d.map (·.2) := by
  rw [OrdDict.keys, List.map_map]
  refine List.map_congr_left fun p hp => ?_
  rw [Function.comp_apply, count, OrdDict.get?_of_mem h hp]
  rfl

/-! ## Counters that are added to another one -/

/-- `for k, n in e.items(): d[k] = d.get(k, 0) + n`. -/
def addAll (d e : List (κ × Nat)) : List (κ × Nat) := e.foldl (fun d p => add d p.1 p.2) d

theorem count_addAll : ∀ (e d : List (κ × Nat)) (k : κ), (OrdDict.keys e).Nodup →
    count (addAll d e) k = count d k + count e k
  | [], d, k, _ => rfl
  | (j, n) :: e, d, k, h => by
    obtain ⟨hj, he⟩ := List.nodup_cons.mp h
    rw [addAll, List.foldl_cons]
    refine (count_addAll e (add d j n) k he).trans ?_
    rw [count_add, count_cons]
    by_cases hjk : j = k
    · have hnot : count e k = 0 := count_of_not_mem (hjk ▸ hj)
      rw [if_pos hjk, if_pos hjk, hnot, Nat.add_zero]
    · rw [if_neg hjk, if_neg hjk, Nat.add_zero]

theorem keys_addAll : ∀ {e d : List (κ × Nat)}, (∀ k ∈ OrdDict.keys e, k ∈ OrdDict.keys d) →
    OrdDict.keys (addAll d e) = OrdDict.keys d
  | [], _, _ => rfl
  | (j, n) :: e, d, h => by
    have hkeys : OrdDict.keys (add d j n) = OrdDict.keys d :=
      OrdDict.keys_set_of_mem _ (h j (List.mem_cons_self ..))
    rw [addAll, List.foldl_cons]
    refine (keys_addAll fun k hk => ?_).trans hkeys
    rw [hkeys]
    exact h k (List.mem_cons_of_mem _ hk)

/-! ## Units that are handed out in turn -/

/-- `for i in range(n): d[order[i % len(order)]] += 1`. -/
def handOut (order : List κ) (n : Nat) (d : List (κ × Nat)) : List (κ × Nat) :=
  (List.range n).foldl (fun d i =>
    match order[i % order.length]? with
    | some k => add d k 1
    | none => d) d

theorem handOut_succ (order : List κ) (n : Nat) (d : List (κ × Nat)) {k : κ}
    (hk : order[n % order.length]? = some k) :
    handOut order (n + 1) d = add (handOut order n d) k 1 := by
  rw [handOut, List.range_succ, List.foldl_append, List.foldl_cons, List.foldl_nil, hk]
  rfl

omit [DecidableEq κ] in
theorem exists_turn {order : List κ} (h : order ≠ []) (n : Nat) :
    ∃ k ∈ order, order[n % order.length]? = some k := by
  have hlt := Nat.mod_lt n (List.length_pos_iff.mpr h)
  exact ⟨_, List.getElem_mem hlt, List.getElem?_eq_getElem hlt⟩

theorem total_handOut {order : List κ} (h : order ≠ []) (d : List (κ × Nat)) :
    ∀ n, total (handOut order n d) = total d + n
  | 0 => rfl
  | n + 1 => by
    obtain ⟨k, _, hk⟩ := exists_turn h n
    rw [handOut_succ order n d hk, total_add, total_handOut h d n, Nat.add_assoc]

theorem keys_handOut {order : List κ} (h : order ≠ []) {d : List (κ × Nat)}
    (hkeys : ∀ k ∈ order, k ∈ OrdDict.keys d) :
    ∀ n, OrdDict.keys (handOut order n d) = OrdDict.keys d
  | 0 => rfl
  | n + 1 => by
    obtain ⟨k, hmem, hk⟩ := exists_turn h n
    have ih := keys_handOut h hkeys n
    rw [handOut_succ order n d hk, add, OrdDict.keys_set_of_mem _ (ih ▸ hkeys k hmem), ih]

/-- Less than a round is handed out to the first keys, one unit each. -/
theorem count_handOut {order : List κ} (hnd : order.Nodup) (d : List (κ × Nat)) (k : κ) :
    ∀ n, n ≤ order.length →
      count (handOut order n d) k = count d k + if k ∈ order.take n then 1 else 0
  | 0, _ => by simp [handOut]
  | n + 1, hn => by
    have hlt : n < order.length := hn
    have hturn : order[n % order.length]? = some order[n] := by
      rw [Nat.mod_eq_of_lt hlt, List.getElem?_eq_getElem hlt]
    have htake := List.take_append_getElem hlt
    have hnot : order[n] ∉ order.take n := by
      intro hmem
      have hnodup := (List.take_sublist (n + 1) order).nodup hnd
      rw [← htake, List.nodup_append] at hnodup
      exact hnodup.2.2 _ hmem _ (List.mem_singleton_self _) rfl
    rw [handOut_succ order n d hturn, count_add, count_handOut hnd d k n (Nat.le_of_lt hlt), ← htake]
    by_cases hk : order[n] = k
    · rw [if_pos hk, ← hk, if_neg hnot, if_pos (List.mem_append_right _ (by simp))]
    · have hsame : k ∈ order.take n ++ [order[n]] ↔ k ∈ order.take n := by
        rw [List.mem_append, List.mem_singleton]
        exact or_iff_left fun h => hk h.symm
      rw [if_neg hk, Nat.add_zero, if_congr hsame rfl rfl]

end Counter
