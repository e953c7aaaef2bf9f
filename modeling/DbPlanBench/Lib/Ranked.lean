import Mathlib.Data.List.Sort

/-!
# Comparing two lists rank by rank

Two lists are put in the order of a key, and what some function `f` makes of their
elements is compared at every rank. `f` may be coarser than the key, so that elements of
different rank look alike, and it need not keep the order: an element may come before one
that looks smaller.

* `agree_iff` — the lists agree at every rank exactly if `f` makes the same multiset of both,
  and the same elements come after ones that look greater.
* `not_later_iff` — there are none of these exactly if `f` keeps the order of the list.

What `f` makes of the sorted list is a word. Two words with the same letters are equal if in
both the occurrences of any two letters come in the same order (`eq_of_behind`), and these
are the orders of the keys (`later_iff_behind`).
-/

namespace Ranked

/-! ## Words -/

section

variable {γ : Type*} [DecidableEq γ]

/-- The `i`-th occurrence of `u` comes after the `j`-th one of `v`. -/
def Behind : List γ → γ → ℕ → γ → ℕ → Prop
  | [], _, _, _, _ => False
  | x :: w, u, i, v, j =>
    if x = v then (if j = 0 then i < w.count u else Behind w u i v (j - 1))
    else if x = u then i ≠ 0 ∧ Behind w u (i - 1) v j
    else Behind w u i v j

variable {x u v : γ} {w w' : List γ} {i j : ℕ}

theorem behind_zero (w : List γ) (u : γ) (i : ℕ) (v : γ) :
    Behind (v :: w) u i v 0 ↔ i < w.count u := by
  rw [Behind, if_pos rfl, if_pos rfl]

theorem behind_succ (w : List γ) (u : γ) (i : ℕ) (v : γ) (j : ℕ) :
    Behind (v :: w) u i v (j + 1) ↔ Behind w u i v j := by
  rw [Behind, if_pos rfl, if_neg (Nat.succ_ne_zero j), Nat.add_sub_cancel]

theorem not_behind_first (h : u ≠ v) : ¬ Behind (u :: w) u 0 v j := by
  rw [Behind, if_neg h, if_pos rfl]
  exact fun hn => hn.1 rfl

theorem behind_next (h : u ≠ v) : Behind (u :: w) u (i + 1) v j ↔ Behind w u i v j := by
  rw [Behind, if_neg h, if_pos rfl, Nat.add_sub_cancel]
  exact and_iff_right (Nat.succ_ne_zero i)

theorem behind_other (hu : x ≠ u) (hv : x ≠ v) : Behind (x :: w) u i v j ↔ Behind w u i v j := by
  rw [Behind, if_neg hv, if_neg hu]

/-- Of two occurrences one comes after the other. -/
theorem behind_swap (h : u ≠ v) (w : List γ) (i j : ℕ) :
    Behind w v j u i ↔ i < w.count u ∧ j < w.count v ∧ ¬ Behind w u i v j := by
  induction w generalizing i j with
  | nil => simp [Behind]
  | cons x w ih =>
    by_cases hv : x = v
    · subst hv
      rw [List.count_cons_of_ne h.symm, List.count_cons_self]
      cases j with
      | zero =>
        rw [behind_zero]
        exact iff_of_false (not_behind_first h.symm) fun hn => hn.2.2 hn.1
      | succ j =>
        rw [behind_next h.symm, behind_succ, ih, Nat.add_lt_add_iff_right]
    · by_cases hu : x = u
      · subst hu
        rw [List.count_cons_of_ne hv, List.count_cons_self]
        cases i with
        | zero =>
          rw [behind_zero]
          exact ⟨fun hj => ⟨Nat.succ_pos _, hj, not_behind_first h⟩, fun hn => hn.2.1⟩
        | succ i =>
          rw [behind_succ, behind_next h, ih, Nat.add_lt_add_iff_right]
      · rw [behind_other hv hu, behind_other hu hv, List.count_cons_of_ne hu, List.count_cons_of_ne hv]
        exact ih i j

/-- **Two words with the same letters, in which the occurrences of any two letters come in the same
order, are equal.** -/
theorem eq_of_behind : ∀ {w w' : List γ}, w.Perm w' →
    (∀ u v, u ≠ v → ∀ i j, Behind w u i v j ↔ Behind w' u i v j) → w = w'
  | [], w', hperm, _ => hperm.nil_eq
  | x :: w, [], hperm, _ => absurd hperm.length_eq (by simp)
  | x :: w, y :: w', hperm, h => by
    have hxy : x = y := by
      by_contra hne
      -- the first `y` comes after the first `x` in the one word and before it in the other
      have hy : y ∈ w :=
        (List.mem_cons.mp (hperm.mem_iff.mpr (List.mem_cons_self ..))).resolve_left (Ne.symm hne)
      have hbehind := (h y x (Ne.symm hne) 0 0).mp ((behind_zero w y 0 x).mpr (List.count_pos_iff.mpr hy))
      exact not_behind_first (Ne.symm hne) hbehind
    subst hxy
    refine congrArg (x :: ·) (eq_of_behind (List.perm_cons x |>.mp hperm) fun u v huv i j => ?_)
    by_cases hv : x = v
    · subst hv
      rw [← behind_succ w u i x j, ← behind_succ w' u i x j]
      exact h u x huv i (j + 1)
    · by_cases hu : x = u
      · subst hu
        rw [← behind_next (w := w) huv, ← behind_next (w := w') huv]
        exact h x v huv (i + 1) j
      · rw [← behind_other (w := w) hu hv, ← behind_other (w := w') hu hv]
        exact h u v huv i j

end

/-! ## Keys -/

variable {α κ γ : Type*} [LinearOrder κ]

/-- The elements in the order of their keys. -/
def sortBy (key : α → κ) (l : List α) : List α := l.insertionSort fun a b => key a ≤ key b

/-- The keys of the elements that look like `u`, in order. -/
def keysOf [DecidableEq γ] (key : α → κ) (f : α → γ) (l : List α) (u : γ) : List κ :=
  ((l.filter fun a => f a = u).map key).insertionSort (· ≤ ·)

/-- The `i`-th of the elements that look like `u` has a greater key than the `j`-th of those that
look like `v`. -/
def Later [DecidableEq γ] (key : α → κ) (f : α → γ) (l : List α) (u : γ) (i : ℕ) (v : γ) (j : ℕ) :
    Prop :=
  ∃ a b, (keysOf key f l u)[i]? = some a ∧ (keysOf key f l v)[j]? = some b ∧ b < a

/-- In both lists the same elements come after ones that look greater. -/
def SameInversions [LinearOrder γ] (key : α → κ) (f : α → γ) (l l' : List α) : Prop :=
  ∀ u v, u < v → ∀ i j, Later key f l u i v j ↔ Later key f l' u i v j

variable {key : α → κ} {f : α → γ} {l l' : List α}

theorem sortBy_perm (key : α → κ) (l : List α) : (sortBy key l).Perm l :=
  List.perm_insertionSort _ l

theorem sortBy_sorted (key : α → κ) (l : List α) :
    (sortBy key l).Pairwise fun a b => key a ≤ key b := by
  have htotal : Std.Total fun a b : α => key a ≤ key b := ⟨fun a b => le_total _ _⟩
  have htrans : IsTrans α fun a b => key a ≤ key b := ⟨fun _ _ _ => le_trans⟩
  exact List.pairwise_insertionSort _ l

section

variable [DecidableEq γ]

/-- Of a sorted list the keys can be read off. -/
theorem keysOf_of_sorted (hl : l.Pairwise fun a b => key a ≤ key b) (u : γ) :
    keysOf key f l u = (l.filter fun a => f a = u).map key := by
  rw [keysOf]
  exact List.Perm.eq_of_pairwise' (r := (· ≤ ·)) (List.pairwise_insertionSort _ _)
    (List.pairwise_map.mpr (hl.filter _)) (List.perm_insertionSort _ _)

theorem keysOf_congr (h : l.Perm l') (u : γ) : keysOf key f l u = keysOf key f l' u := by
  rw [keysOf, keysOf]
  refine List.Perm.eq_of_pairwise' (r := (· ≤ ·)) (List.pairwise_insertionSort _ _)
    (List.pairwise_insertionSort _ _) ?_
  exact ((List.perm_insertionSort _ _).trans ((h.filter _).map key)).trans
    (List.perm_insertionSort _ _).symm

/-- The first element of a sorted list is the first of those that look like it. -/
theorem keysOf_cons {a : α} (hl : (a :: l).Pairwise fun a b => key a ≤ key b) (u : γ) :
    keysOf key f (a :: l) u = if f a = u then key a :: keysOf key f l u else keysOf key f l u := by
  rw [keysOf_of_sorted hl, keysOf_of_sorted (List.pairwise_cons.mp hl).2, List.filter_cons]
  by_cases h : f a = u
  · rw [if_pos h, if_pos (decide_eq_true h), List.map_cons]
  · rw [if_neg h, if_neg (by simpa using h)]

theorem length_keysOf (key : α → κ) (f : α → γ) (l : List α) (u : γ) :
    (keysOf key f l u).length = (l.map f).count u := by
  rw [keysOf, List.length_insertionSort, List.length_map, List.count, List.countP_map,
    List.countP_eq_length_filter]
  rfl

theorem mem_keysOf {k : κ} {u : γ} : k ∈ keysOf key f l u ↔ ∃ a ∈ l, f a = u ∧ key a = k := by
  rw [keysOf, List.mem_insertionSort, List.mem_map]
  refine exists_congr fun a => ?_
  rw [List.mem_filter, decide_eq_true_eq, and_assoc]

/-- **The orders of the keys are those of the word.** -/
theorem later_iff_behind (hf : ∀ a b, key a = key b → f a = f b) {u v : γ} (huv : u ≠ v) :
    ∀ {l : List α}, (l.Pairwise fun a b => key a ≤ key b) → ∀ i j,
      Later key f l u i v j ↔ Behind (l.map f) u i v j
  | [], _, i, j => by
    refine iff_of_false (fun h => ?_) id
    obtain ⟨a, b, ha, _⟩ := h
    exact absurd ha (by simp [keysOf])
  | a :: l, hl, i, j => by
    obtain ⟨hle, hrest⟩ := List.pairwise_cons.mp hl
    have ih := later_iff_behind hf huv hrest
    -- a later element that looks different has a greater key
    have hgt : ∀ {w : γ} {k : κ}, f a ≠ w → k ∈ keysOf key f l w → key a < k := by
      intro w k hw hk
      obtain ⟨b, hb, rfl, rfl⟩ := mem_keysOf.mp hk
      exact lt_of_le_of_ne (hle b hb) fun he => hw (hf a b he)
    rw [Later, keysOf_cons hl, keysOf_cons hl, List.map_cons]
    by_cases hv : f a = v
    · subst hv
      rw [if_pos rfl, if_neg huv.symm]
      cases j with
      | zero =>
        rw [behind_zero, ← length_keysOf key f l u]
        constructor
        · intro h
          obtain ⟨k, _, hk, _⟩ := h
          exact (List.getElem?_eq_some_iff.mp hk).1
        · intro h
          refine ⟨_, key a, List.getElem?_eq_getElem h, rfl, ?_⟩
          exact hgt huv.symm (List.getElem_mem h)
      | succ j =>
        rw [behind_succ, ← ih]
        exact Iff.rfl
    · rw [if_neg hv]
      by_cases hu : f a = u
      · subst hu
        rw [if_pos rfl]
        cases i with
        | zero =>
          refine iff_of_false (fun h => ?_) (not_behind_first huv)
          obtain ⟨k, k', hk, hk', hlt⟩ := h
          have he : key a = k := Option.some.inj hk
          exact lt_asymm hlt (he ▸ hgt hv (List.mem_of_getElem? hk'))
        | succ i =>
          rw [behind_next huv, ← ih]
          exact Iff.rfl
      · rw [if_neg hu, behind_other hu hv, ← ih]
        exact Iff.rfl

theorem later_sortBy (u : γ) (i : ℕ) (v : γ) (j : ℕ) :
    Later key f (sortBy key l) u i v j ↔ Later key f l u i v j := by
  rw [Later, Later, keysOf_congr (sortBy_perm key l), keysOf_congr (sortBy_perm key l)]

end

/-! ## Agreement at every rank -/

section

variable [LinearOrder γ]

theorem SameInversions.symm (h : SameInversions key f l l') : SameInversions key f l' l :=
  fun u v huv i j => (h u v huv i j).symm

/-- **Two lists agree rank by rank exactly if they look the same as multisets and have the same
inversions.** -/
theorem agree_iff (hf : ∀ a b, key a = key b → f a = f b) :
    (sortBy key l).map f = (sortBy key l').map f ↔
      (l.map f).Perm (l'.map f) ∧ SameInversions key f l l' := by
  have hword : ∀ (m : List α) {u v : γ}, u ≠ v → ∀ i j,
      Later key f m u i v j ↔ Behind ((sortBy key m).map f) u i v j := fun m u v huv i j => by
    rw [← later_sortBy, later_iff_behind hf huv (sortBy_sorted key m)]
  have hletters : ((sortBy key l).map f).Perm ((sortBy key l').map f) ↔ (l.map f).Perm (l'.map f) := by
    have h := (sortBy_perm key l).map f
    have h' := (sortBy_perm key l').map f
    exact ⟨fun hp => h.symm.trans (hp.trans h'), fun hp => h.trans (hp.trans h'.symm)⟩
  constructor
  · intro h
    refine ⟨hletters.mp (List.Perm.of_eq h), fun u v huv i j => ?_⟩
    rw [hword l huv.ne, hword l' huv.ne, h]
  · intro h
    obtain ⟨hperm, hsame⟩ := h
    have hperm := hletters.mpr hperm
    apply eq_of_behind hperm
    intro u v huv i j
    rcases lt_or_gt_of_ne huv with hlt | hgt
    · rw [← hword l huv, ← hword l' huv]
      exact hsame u v hlt i j
    · rw [behind_swap huv.symm, behind_swap huv.symm, hperm.count_eq, hperm.count_eq,
        ← hword l huv.symm, ← hword l' huv.symm, hsame v u hgt]

/-- **A list has no inversions exactly if `f` keeps its order.** -/
theorem not_later_iff (hf : ∀ a b, key a = key b → f a = f b) :
    (∀ u v, u < v → ∀ i j, ¬ Later key f l u i v j) ↔
      ∀ a ∈ l, ∀ b ∈ l, key a ≤ key b → f a ≤ f b := by
  constructor
  · intro h a ha b hb hab
    by_contra hlt
    rw [not_le] at hlt
    obtain ⟨i, hi⟩ := List.mem_iff_getElem?.mp (mem_keysOf.mpr ⟨b, hb, rfl, rfl⟩ :
      key b ∈ keysOf key f l (f b))
    obtain ⟨j, hj⟩ := List.mem_iff_getElem?.mp (mem_keysOf.mpr ⟨a, ha, rfl, rfl⟩ :
      key a ∈ keysOf key f l (f a))
    apply h (f b) (f a) hlt i j
    exact ⟨key b, key a, hi, hj, lt_of_le_of_ne hab fun he => hlt.ne (hf a b he).symm⟩
  · intro h u v huv i j hlater
    obtain ⟨k, k', hk, hk', hlt⟩ := hlater
    obtain ⟨a, ha, rfl, rfl⟩ := mem_keysOf.mp (List.mem_of_getElem? hk)
    obtain ⟨b, hb, rfl, rfl⟩ := mem_keysOf.mp (List.mem_of_getElem? hk')
    exact absurd (h b hb a ha hlt.le) (not_le.mpr huv)

/-- **If `f` keeps the order of each list, they have the same inversions**, none. -/
theorem sameInversions_of_monotone (hf : ∀ a b, key a = key b → f a = f b)
    (hl : ∀ a ∈ l, ∀ b ∈ l, key a ≤ key b → f a ≤ f b)
    (hl' : ∀ a ∈ l', ∀ b ∈ l', key a ≤ key b → f a ≤ f b) : SameInversions key f l l' :=
  fun u v huv i j =>
    iff_of_false ((not_later_iff hf).mpr hl u v huv i j) ((not_later_iff hf).mpr hl' u v huv i j)

end

end Ranked
