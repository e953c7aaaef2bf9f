import Mathlib.Data.List.Perm.Subperm
import Mathlib.Data.List.Count
import Mathlib.Data.List.Nodup

/-!
# Renumbering: keep a free name, else take the least free one

Names from `ids` are processed one after the other. A name that is not in use
yet keeps itself, any other one takes the first free name of an enumeration
`cand`; either way the name taken is in use from then on.

The order of `ids` decides who is called what, and a name may well be taken by a
stranger before its owner comes up. The set of names given out does not depend on
the order (`mem_assign`): the free ones among `ids`, and for every other one a
further name, the first of `cand` that are neither in use nor in `ids`. If all of `ids`
are free, nobody is renamed (`assign_eq_self`).
-/

namespace Renumber

variable {α : Type*} [DecidableEq α]

/-- The first of `cand start`, `cand (start + 1)`, ... that is not in use. The fuel bounds the
search. -/
def nextFree (cand : ℕ → α) (used : List α) : ℕ → ℕ → α
  | 0, start => cand start
  | fuel + 1, start =>
    if cand start ∈ used then nextFree cand used fuel (start + 1) else cand start

/-- The first free name. -/
def leastFree (cand : ℕ → α) (used : List α) : α := nextFree cand used used.length 0

/-- The name `a` is given. -/
def pick (cand : ℕ → α) (used : List α) (a : α) : α :=
  if a ∉ used then a else leastFree cand used

/-- The names given to `ids`, in order. -/
def assign (cand : ℕ → α) : List α → List α → List α
  | _, [] => []
  | used, a :: ids => pick cand used a :: assign cand (pick cand used a :: used) ids

/-- The first `n` free names. -/
def fresh (cand : ℕ → α) : ℕ → List α → List α
  | 0, _ => []
  | n + 1, used => leastFree cand used :: fresh cand n (leastFree cand used :: used)

variable {cand : ℕ → α}

/-! ## The least free name -/

/-- The search stops at the first free candidate, or when the fuel is used up. -/
theorem nextFree_eq (used : List α) : ∀ fuel start : ℕ, ∃ k, nextFree cand used fuel start = cand k ∧
    start ≤ k ∧ k ≤ start + fuel ∧ (∀ j, start ≤ j → j < k → cand j ∈ used) ∧
      (k < start + fuel → cand k ∉ used)
  | 0, start => ⟨start, rfl, Nat.le_refl _, Nat.le_refl _, fun j hj hk => by omega, fun h => by omega⟩
  | fuel + 1, start => by
    by_cases h : cand start ∈ used
    · obtain ⟨k, hk, hlo, hhi, hbelow, hfree⟩ := nextFree_eq used fuel (start + 1)
      refine ⟨k, by rw [nextFree, if_pos h, hk], by omega, by omega, fun j hj hjk => ?_,
        fun hk => hfree (by omega)⟩
      rcases Nat.eq_or_lt_of_le hj with he | hlt
      · exact he ▸ h
      · exact hbelow j hlt hjk
    · refine ⟨start, by rw [nextFree, if_neg h], Nat.le_refl _, by omega, fun j hj hk => by omega, ?_⟩
      exact fun _ => h

/-- The candidate `x` is free and every earlier one is in use. -/
def IsLeastFree (cand : ℕ → α) (used : List α) (x : α) : Prop :=
  ∃ k, x = cand k ∧ cand k ∉ used ∧ ∀ j < k, cand j ∈ used

omit [DecidableEq α] in
theorem isLeastFree_unique {used : List α} {x y : α} (hx : IsLeastFree cand used x)
    (hy : IsLeastFree cand used y) : x = y := by
  obtain ⟨i, rfl, hi, hibelow⟩ := hx
  obtain ⟨j, rfl, hj, hjbelow⟩ := hy
  rcases Nat.lt_trichotomy i j with h | h | h
  · exact absurd (hjbelow i h) hi
  · rw [h]
  · exact absurd (hibelow j h) hj

/-- As many units of fuel as there are names in use are enough. -/
theorem leastFree_spec (hc : Function.Injective cand) (used : List α) :
    IsLeastFree cand used (leastFree cand used) := by
  obtain ⟨k, hk, _, hhi, hbelow, hfree⟩ := @nextFree_eq α _ cand used used.length 0
  refine ⟨k, hk, ?_, fun j hj => hbelow j (Nat.zero_le _) hj⟩
  rcases Nat.lt_or_ge k (0 + used.length) with hlt | hge
  · exact hfree hlt
  · -- `k` candidates fill the `k` names in use, so the next one is free
    intro hmem
    have hsub : (List.range (k + 1)).map cand ⊆ used := by
      intro x hx
      obtain ⟨j, hj, rfl⟩ := List.mem_map.mp hx
      rcases Nat.lt_or_ge j k with h | h
      · exact hbelow j (Nat.zero_le _) h
      · have hjk : j = k := by
          have := List.mem_range.mp hj
          omega
        exact hjk ▸ hmem
    have hlen := (List.subperm_of_subset (List.nodup_range.map hc) hsub).length_le
    rw [List.length_map, List.length_range] at hlen
    omega

theorem leastFree_not_mem (hc : Function.Injective cand) (used : List α) :
    leastFree cand used ∉ used := by
  obtain ⟨k, hk, hfree, _⟩ := leastFree_spec hc used
  exact hk ▸ hfree

/-- Using more names does not change the least free one if that one stays free. -/
theorem leastFree_of_subset (hc : Function.Injective cand) {used used' : List α}
    (hsub : ∀ x ∈ used, x ∈ used') (h : leastFree cand used ∉ used') :
    leastFree cand used' = leastFree cand used := by
  obtain ⟨k, hk, hfree, hbelow⟩ := leastFree_spec hc used
  refine isLeastFree_unique (leastFree_spec hc used') ⟨k, hk, hk ▸ h, fun j hj => ?_⟩
  exact hsub _ (hbelow j hj)

theorem leastFree_congr (hc : Function.Injective cand) {used used' : List α}
    (h : ∀ x, x ∈ used ↔ x ∈ used') : leastFree cand used' = leastFree cand used :=
  leastFree_of_subset hc (fun x hx => (h x).mp hx)
    fun hm => leastFree_not_mem hc used ((h _).mpr hm)

theorem fresh_congr (hc : Function.Injective cand) : ∀ (n : ℕ) {used used' : List α},
    (∀ x, x ∈ used ↔ x ∈ used') → fresh cand n used' = fresh cand n used
  | 0, _, _, _ => rfl
  | n + 1, used, used', h => by
    rw [fresh, fresh, leastFree_congr hc h]
    have hcons : ∀ x, x ∈ leastFree cand used :: used ↔ x ∈ leastFree cand used :: used' :=
      fun x => by rw [List.mem_cons, List.mem_cons, h x]
    rw [fresh_congr hc n hcons]

theorem fresh_not_mem (hc : Function.Injective cand) : ∀ (n : ℕ) (used : List α),
    ∀ x ∈ fresh cand n used, x ∉ used
  | 0, _, _, h => absurd h List.not_mem_nil
  | n + 1, used, x, h => by
    rcases List.mem_cons.mp h with he | ht
    · exact he ▸ leastFree_not_mem hc used
    · exact fun hu => fresh_not_mem hc n _ x ht (List.mem_cons_of_mem _ hu)

/-! ## The names given out -/

theorem pick_not_mem (hc : Function.Injective cand) (used : List α) (a : α) :
    pick cand used a ∉ used := by
  rw [pick]
  by_cases h : a ∉ used
  · rw [if_pos h]
    exact h
  · rw [if_neg h]
    exact leastFree_not_mem hc used

theorem length_assign (cand : ℕ → α) : ∀ used ids : List α, (assign cand used ids).length = ids.length
  | _, [] => rfl
  | used, a :: ids => by
    rw [assign, List.length_cons, List.length_cons, length_assign cand (pick cand used a :: used) ids]

theorem assign_not_mem (hc : Function.Injective cand) : ∀ (ids used : List α),
    ∀ x ∈ assign cand used ids, x ∉ used
  | [], _, _, h => absurd h List.not_mem_nil
  | a :: ids, used, x, h => by
    rcases List.mem_cons.mp h with he | ht
    · exact he ▸ pick_not_mem hc used a
    · exact fun hu => assign_not_mem hc ids _ x ht (List.mem_cons_of_mem _ hu)

/-- No name is given out twice. -/
theorem assign_nodup (hc : Function.Injective cand) : ∀ (ids used : List α),
    (assign cand used ids).Nodup
  | [], _ => List.nodup_nil
  | _ :: ids, _ => List.nodup_cons.mpr
    ⟨fun h => assign_not_mem hc ids _ _ h (List.mem_cons_self ..), assign_nodup hc ids _⟩

/-- Names that are all free keep themselves. -/
theorem assign_eq_self (cand : ℕ → α) : ∀ {ids used : List α}, ids.Nodup → (∀ a ∈ ids, a ∉ used) →
    assign cand used ids = ids
  | [], _, _, _ => rfl
  | a :: ids, used, hnd, hfree => by
    rw [List.nodup_cons] at hnd
    have hpick : pick cand used a = a := if_pos (hfree a (List.mem_cons_self ..))
    rw [assign, hpick, assign_eq_self cand hnd.2 fun b hb hused => ?_]
    rcases List.mem_cons.mp hused with he | hused
    · exact hnd.1 (he ▸ hb)
    · exact hfree b (List.mem_cons_of_mem _ hb) hused

/-- Taking the name `b` turns one more of `ids` into a used one if `b` is new and among them. -/
theorem countP_used_cons {ids : List α} (hnd : ids.Nodup) (used : List α) (b : α) :
    ids.countP (· ∈ b :: used) =
      ids.countP (· ∈ used) + if b ∈ ids ∧ b ∉ used then 1 else 0 := by
  induction ids with
  | nil => simp
  | cons c ids ih =>
    rw [List.nodup_cons] at hnd
    rw [List.countP_cons, List.countP_cons, ih hnd.2]
    by_cases hcb : c = b
    · subst hcb
      by_cases hcu : c ∈ used <;> simp [hcu, hnd.1]
    · have hbc : ¬ b = c := fun e => hcb e.symm
      by_cases hcu : c ∈ used
      · simp [hcu, hcb, hbc]
        omega
      · simp [hcu, hcb, hbc]

/-- What is in use at the end if `ids` are processed when `used` are in use. -/
def Final (cand : ℕ → α) (used ids : List α) (x : α) : Prop :=
  x ∈ used ++ ids ∨ x ∈ fresh cand (ids.countP (· ∈ used)) (used ++ ids)

/-- The name taken does not change what is in use at the end. -/
theorem final_pick (hc : Function.Injective cand) {a : α} {ids : List α} (ha : a ∉ ids)
    (hnd : ids.Nodup) (used : List α) (x : α) :
    Final cand (pick cand used a :: used) ids x ↔ Final cand used (a :: ids) x := by
  rw [Final, Final, countP_used_cons hnd]
  by_cases hu : a ∈ used
  · have hfree := leastFree_not_mem hc used
    rw [pick, if_neg (not_not.mpr hu), List.countP_cons_of_pos (by simpa using hu)]
    by_cases hin : leastFree cand used ∈ ids
    · -- the name taken is owned by a later one, which will need another
      have hset : ∀ y, y ∈ used ++ a :: ids ↔ y ∈ leastFree cand used :: used ++ ids := by
        intro y
        simp only [List.mem_append, List.mem_cons]
        exact ⟨fun h => by rcases h with h | rfl | h <;> simp [*],
          fun h => by rcases h with (rfl | h) | h <;> simp [*]⟩
      rw [if_pos ⟨hin, hfree⟩, fresh_congr hc _ hset, hset x]
    · -- the name taken is a stranger to all of `ids`
      have hset : ∀ y, y ∈ leastFree cand used :: (used ++ a :: ids) ↔
          y ∈ leastFree cand used :: used ++ ids := by
        intro y
        simp only [List.mem_append, List.mem_cons]
        exact ⟨fun h => by rcases h with rfl | h | rfl | h <;> simp [*],
          fun h => by rcases h with (rfl | h) | h <;> simp [*]⟩
      have hleast : leastFree cand (used ++ a :: ids) = leastFree cand used := by
        refine leastFree_of_subset hc (fun y hy => List.mem_append_left _ hy) ?_
        simp only [List.mem_append, List.mem_cons, not_or]
        exact ⟨hfree, fun e => hfree (e ▸ hu), hin⟩
      rw [if_neg (fun h => hin h.1), Nat.add_zero, fresh, hleast, fresh_congr hc _ hset, ← hset x,
        List.mem_cons, List.mem_cons, or_assoc, or_left_comm]
  · have hset : ∀ y, y ∈ used ++ a :: ids ↔ y ∈ a :: used ++ ids := by
      intro y
      simp only [List.mem_append, List.mem_cons]
      exact or_left_comm.trans or_assoc.symm
    rw [pick, if_pos hu, if_neg (fun h => ha h.1), Nat.add_zero,
      List.countP_cons_of_neg (by simpa using hu), fresh_congr hc _ hset, hset x]

/-- Everything in use at the end: what was, the names themselves, and one more for each name that
was in use at the start. -/
theorem mem_assign_or_used (hc : Function.Injective cand) : ∀ (ids used : List α), ids.Nodup →
    ∀ x, x ∈ assign cand used ids ∨ x ∈ used ↔ Final cand used ids x
  | [], used, _, x => by simp [assign, Final, fresh]
  | a :: ids, used, hnd, x => by
    rw [List.nodup_cons] at hnd
    rw [← final_pick hc hnd.1 hnd.2, ← mem_assign_or_used hc ids _ hnd.2 x, assign, List.mem_cons,
      List.mem_cons, or_left_comm, or_assoc]

/-- **The names given out, whatever the order.** -/
theorem mem_assign (hc : Function.Injective cand) {ids : List α} (hnd : ids.Nodup)
    (used : List α) (x : α) :
    x ∈ assign cand used ids ↔
      (x ∈ ids ∧ x ∉ used) ∨ x ∈ fresh cand (ids.countP (· ∈ used)) (used ++ ids) := by
  have h := mem_assign_or_used hc ids used hnd x
  have hnot := assign_not_mem hc ids used x
  have hfresh := fresh_not_mem hc (ids.countP (· ∈ used)) (used ++ ids) x
  rw [Final, List.mem_append] at h
  rw [List.mem_append] at hfresh
  tauto

end Renumber
