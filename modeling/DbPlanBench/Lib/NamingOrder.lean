import DbPlanBench.Lib.Blocks
import DbPlanBench.Lib.Renumber

/-!
# Renumbering in two orders

The same names, processed in two orders, need not be given the same new names. It is the
names that cannot be kept that decide: one that is in use at the start, or that an earlier
one has taken by the time it is up (`Displaced`). The displaced names take the free names in
increasing order, so two orders give the same names exactly if they displace the same names
in the same order (`assign_agree_iff`).

Where the two orders are made of the same blocks, the name that ends a block is given the
same name in both, whatever happens inside (`names_agree_of_blocks`).
-/

namespace Renumber

variable {α : Type} [DecidableEq α] {cand : ℕ → α}

/-! ## Assigning in two steps -/

theorem pick_congr (hc : Function.Injective cand) {used used' : List α}
    (h : ∀ x, x ∈ used ↔ x ∈ used') (a : α) : pick cand used' a = pick cand used a := by
  rw [pick, pick, leastFree_congr hc h]
  simp only [h a]

theorem assign_congr (hc : Function.Injective cand) : ∀ (ids : List α) {used used' : List α},
    (∀ x, x ∈ used ↔ x ∈ used') → assign cand used' ids = assign cand used ids
  | [], _, _, _ => rfl
  | a :: ids, used, used', h => by
    have hpick := pick_congr hc h a
    have hcons : ∀ x, x ∈ pick cand used a :: used ↔ x ∈ pick cand used' a :: used' := by
      intro x
      rw [hpick, List.mem_cons, List.mem_cons, h x]
    rw [assign, assign, assign_congr hc ids hcons, hpick]

/-- What is in use after `ids`. -/
def usedAfter (cand : ℕ → α) (used ids : List α) : List α := (assign cand used ids).reverse ++ used

theorem mem_usedAfter {used ids : List α} {x : α} :
    x ∈ usedAfter cand used ids ↔ x ∈ assign cand used ids ∨ x ∈ used := by
  rw [usedAfter, List.mem_append, List.mem_reverse]

theorem assign_append : ∀ (used ids ids' : List α),
    assign cand used (ids ++ ids') = assign cand used ids ++ assign cand (usedAfter cand used ids) ids'
  | _, [], _ => rfl
  | used, a :: ids, ids' => by
    have hafter : usedAfter cand used (a :: ids) = usedAfter cand (pick cand used a :: used) ids := by
      rw [usedAfter, usedAfter, assign, List.reverse_cons, List.append_assoc]
      rfl
    rw [List.cons_append, assign, assign_append _ ids ids', assign, hafter, List.cons_append]

theorem usedAfter_concat (used ids : List α) (a : α) :
    usedAfter cand used (ids ++ [a]) =
      pick cand (usedAfter cand used ids) a :: usedAfter cand used ids := by
  rw [usedAfter, assign_append, List.reverse_append]
  rfl

/-- The order does not matter to what is in use in the end. -/
theorem mem_usedAfter_perm (hc : Function.Injective cand) {ids ids' used used' : List α}
    (hnd : ids.Nodup) (hperm : ids.Perm ids') (h : ∀ x, x ∈ used ↔ x ∈ used') (x : α) :
    x ∈ usedAfter cand used ids ↔ x ∈ usedAfter cand used' ids' := by
  have hset : ∀ y, y ∈ used ++ ids ↔ y ∈ used' ++ ids' := fun y => by
    rw [List.mem_append, List.mem_append, h y, hperm.mem_iff]
  have hcount : ids.countP (· ∈ used) = ids'.countP (· ∈ used') := by
    rw [hperm.countP_eq]
    exact List.countP_congr fun y _ => by simp [h y]
  rw [mem_usedAfter, mem_usedAfter, mem_assign_or_used hc ids used hnd,
    mem_assign_or_used hc ids' used' (hperm.nodup_iff.mp hnd), Final, Final, hset, hcount,
    fresh_congr hc _ hset]

/-! ## The displaced names -/

/-- A name that cannot be kept: it is in use at the start, or among the first names that the ones
before it which were in use took instead. -/
def Displaced (cand : ℕ → α) (used before : List α) (a : α) : Prop :=
  a ∈ used ∨ a ∈ fresh cand (before.countP (· ∈ used)) (used ++ before)

instance (cand : ℕ → α) (used before : List α) (a : α) : Decidable (Displaced cand used before a) :=
  inferInstanceAs (Decidable (_ ∨ _))

/-- The displaced names of a list, those of `before` having been processed. -/
def displaced (cand : ℕ → α) (used : List α) : List α → List α → List α
  | _, [] => []
  | before, a :: ids =>
    if Displaced cand used before a then a :: displaced cand used (before ++ [a]) ids
    else displaced cand used (before ++ [a]) ids

/-- Where nothing is in use, nothing is displaced. -/
theorem displaced_eq_nil {used : List α} : ∀ {before ids : List α}, (∀ a ∈ before, a ∉ used) →
    (∀ a ∈ ids, a ∉ used) → displaced cand used before ids = []
  | _, [], _, _ => rfl
  | before, a :: ids, hbefore, hids => by
    rw [List.forall_mem_cons] at hids
    have hcount : before.countP (· ∈ used) = 0 :=
      List.countP_eq_zero.mpr fun b hb => by simpa using hbefore b hb
    have hnot : ¬ Displaced cand used before a := by
      rw [Displaced, hcount, fresh]
      simpa using hids.1
    rw [displaced, if_neg hnot]
    refine displaced_eq_nil (fun b hb => ?_) hids.2
    rcases List.mem_append.mp hb with hb | hb
    · exact hbefore b hb
    · exact List.mem_singleton.mp hb ▸ hids.1

/-- The new names of `ids`, each with the old one. -/
def pairs (cand : ℕ → α) (used ids : List α) : List (α × α) := ids.zip (assign cand used ids)

theorem pairs_cons (used : List α) (a : α) (ids : List α) :
    pairs cand used (a :: ids) =
      (a, pick cand used a) :: pairs cand (pick cand used a :: used) ids := rfl

theorem map_fst_pairs (used ids : List α) : (pairs cand used ids).map Prod.fst = ids :=
  List.map_fst_zip (length_assign cand used ids).ge

/-- The pairs of those that are given another name. -/
def moved (cand : ℕ → α) (used ids : List α) : List (α × α) :=
  (pairs cand used ids).filter fun p => p.1 ≠ p.2

/-- The names that are kept. -/
def kept (cand : ℕ → α) (used ids : List α) : List α :=
  ((pairs cand used ids).filter fun p => p.1 = p.2).map Prod.fst

theorem moved_cons_of_mem (hc : Function.Injective cand) {used : List α} {a : α} (h : a ∈ used)
    (ids : List α) : moved cand used (a :: ids) =
      (a, leastFree cand used) :: moved cand (leastFree cand used :: used) ids := by
  have hpick : pick cand used a = leastFree cand used := by rw [pick, if_neg (not_not.mpr h)]
  have hne : a ≠ leastFree cand used := fun he => leastFree_not_mem hc used (he ▸ h)
  rw [moved, pairs_cons, hpick, List.filter_cons_of_pos (by simpa using hne)]
  rfl

theorem moved_cons_of_not_mem {used : List α} {a : α} (h : a ∉ used) (ids : List α) :
    moved cand used (a :: ids) = moved cand (a :: used) ids := by
  have hpick : pick cand used a = a := if_pos h
  rw [moved, pairs_cons, hpick, List.filter_cons_of_neg (by simp)]
  rfl

theorem kept_cons_of_mem (hc : Function.Injective cand) {used : List α} {a : α} (h : a ∈ used)
    (ids : List α) : kept cand used (a :: ids) = kept cand (leastFree cand used :: used) ids := by
  have hpick : pick cand used a = leastFree cand used := by rw [pick, if_neg (not_not.mpr h)]
  have hne : a ≠ leastFree cand used := fun he => leastFree_not_mem hc used (he ▸ h)
  rw [kept, pairs_cons, hpick, List.filter_cons_of_neg (by simpa using hne)]
  rfl

theorem kept_cons_of_not_mem {used : List α} {a : α} (h : a ∉ used) (ids : List α) :
    kept cand used (a :: ids) = a :: kept cand (a :: used) ids := by
  have hpick : pick cand used a = a := if_pos h
  rw [kept, pairs_cons, hpick, List.filter_cons_of_pos (by simp)]
  rfl

/-- **The displaced names are those that are given another name.** -/
theorem map_fst_moved (hc : Function.Injective cand) {used : List α} :
    ∀ (ids before current : List α), (before ++ ids).Nodup →
      (∀ x, x ∈ current ↔ x ∈ usedAfter cand used before) →
        (moved cand current ids).map Prod.fst = displaced cand used before ids
  | [], _, _, _, _ => rfl
  | a :: ids, before, current, hnd, hcurrent => by
    have hbefore : before.Nodup := (List.nodup_append.mp hnd).1
    have ha : a ∉ before := fun hmem =>
      (List.nodup_append.mp hnd).2.2 a hmem a (List.mem_cons_self ..) rfl
    have hiff : a ∈ current ↔ Displaced cand used before a := by
      rw [hcurrent, mem_usedAfter, mem_assign_or_used hc before used hbefore, Final, Displaced,
        List.mem_append, or_iff_left ha]
    have hnd' : (before ++ [a] ++ ids).Nodup := by
      rw [List.append_assoc]
      exact hnd
    have hnext : ∀ x, x ∈ pick cand current a :: current ↔ x ∈ usedAfter cand used (before ++ [a]) := by
      intro x
      rw [usedAfter_concat, List.mem_cons, List.mem_cons, hcurrent, ← pick_congr hc hcurrent a]
    have hrest := map_fst_moved hc ids (before ++ [a]) _ hnd' hnext
    rw [displaced]
    by_cases h : a ∈ current
    · rw [if_pos (hiff.mp h), moved_cons_of_mem hc h, List.map_cons, ← hrest, pick,
        if_neg (not_not.mpr h)]
    · rw [if_neg (mt hiff.mpr h), moved_cons_of_not_mem h, ← hrest, pick, if_pos h]

/-! ## The names that displaced ones take -/

/-- An earlier candidate. -/
def Earlier (cand : ℕ → α) (x y : α) : Prop := ∃ i j, i < j ∧ x = cand i ∧ y = cand j

omit [DecidableEq α] in
theorem Earlier.asymm (hc : Function.Injective cand) {x y : α} (h : Earlier cand x y) :
    ¬ Earlier cand y x := by
  obtain ⟨i, j, hij, rfl, rfl⟩ := h
  rintro ⟨j', i', hji, hj, hi⟩
  have hj := hc hj
  have hi := hc hi
  omega

/-- A name taken is a candidate that was not in use at the start. -/
theorem moved_spec (hc : Function.Injective cand) : ∀ (ids used : List α),
    ∀ p ∈ moved cand used ids, p.2 ∉ used ∧ ∃ j, p.2 = cand j
  | [], _, _, hp => absurd hp List.not_mem_nil
  | a :: ids, used, p, hp => by
    by_cases h : a ∈ used
    · rw [moved_cons_of_mem hc h] at hp
      rcases List.mem_cons.mp hp with rfl | hp
      · obtain ⟨j, hj, _⟩ := leastFree_spec hc used
        exact ⟨leastFree_not_mem hc used, j, hj⟩
      · obtain ⟨hused, hj⟩ := moved_spec hc ids _ p hp
        exact ⟨fun hmem => hused (List.mem_cons_of_mem _ hmem), hj⟩
    · rw [moved_cons_of_not_mem h] at hp
      obtain ⟨hused, hj⟩ := moved_spec hc ids _ p hp
      exact ⟨fun hmem => hused (List.mem_cons_of_mem _ hmem), hj⟩

/-- The names are taken in increasing order. -/
theorem moved_increasing (hc : Function.Injective cand) : ∀ ids used : List α,
    (moved cand used ids).Pairwise fun p q => Earlier cand p.2 q.2
  | [], _ => List.Pairwise.nil
  | a :: ids, used => by
    by_cases h : a ∈ used
    · rw [moved_cons_of_mem hc h, List.pairwise_cons]
      refine ⟨fun q hq => ?_, moved_increasing hc ids _⟩
      obtain ⟨i, hi, _, hbelow⟩ := leastFree_spec hc used
      obtain ⟨hused, j, hj⟩ := moved_spec hc ids _ q hq
      refine ⟨i, j, ?_, hi, hj⟩
      -- everything up to `cand i` is in use by then
      rcases Nat.lt_trichotomy i j with hlt | he | hgt
      · exact hlt
      · exact absurd (List.mem_cons.mpr (Or.inl (by rw [hj, ← he, hi]))) hused
      · exact absurd (List.mem_cons_of_mem _ (hj ▸ hbelow j hgt)) hused
    · rw [moved_cons_of_not_mem h]
      exact moved_increasing hc ids _

/-- **The names taken are the first ones that are neither in use nor kept.** -/
theorem map_snd_moved (hc : Function.Injective cand) : ∀ ids used : List α,
    (moved cand used ids).map Prod.snd =
      fresh cand (moved cand used ids).length (used ++ kept cand used ids)
  | [], _ => rfl
  | a :: ids, used => by
    by_cases h : a ∈ used
    · have hkept : ∀ x ∈ kept cand (leastFree cand used :: used) ids, x ≠ leastFree cand used := by
        intro x hx he
        obtain ⟨p, hp, rfl⟩ := List.mem_map.mp hx
        obtain ⟨hp, heq⟩ := List.mem_filter.mp hp
        have hassign := assign_not_mem hc ids _ _ (List.of_mem_zip hp).2
        exact hassign (List.mem_cons.mpr (Or.inl ((of_decide_eq_true heq).symm.trans he)))
      have hleast : leastFree cand (used ++ kept cand (leastFree cand used :: used) ids) =
          leastFree cand used := by
        refine leastFree_of_subset hc (fun x hx => List.mem_append_left _ hx) fun hmem => ?_
        rcases List.mem_append.mp hmem with hmem | hmem
        · exact leastFree_not_mem hc used hmem
        · exact hkept _ hmem rfl
      rw [moved_cons_of_mem hc h, kept_cons_of_mem hc h, List.map_cons, map_snd_moved hc ids,
        List.length_cons, fresh, hleast]
      rfl
    · rw [moved_cons_of_not_mem h, kept_cons_of_not_mem h, map_snd_moved hc ids]
      refine (fresh_congr hc _ fun x => ?_).symm
      simp only [List.mem_append, List.mem_cons]
      tauto

/-! ## When two orders give the same names -/

theorem nodup_pairs {ids : List α} (hnd : ids.Nodup) (used : List α) : (pairs cand used ids).Nodup :=
  List.Nodup.of_map Prod.fst (by rw [map_fst_pairs]; exact hnd)

/-- Every name is moved or kept. -/
theorem mem_pairs_iff {used ids : List α} {p : α × α} :
    p ∈ pairs cand used ids ↔ p ∈ moved cand used ids ∨ p.1 = p.2 ∧ p.1 ∈ kept cand used ids := by
  constructor
  · intro hp
    by_cases h : p.1 = p.2
    · exact Or.inr ⟨h, List.mem_map.mpr ⟨p, List.mem_filter.mpr ⟨hp, decide_eq_true h⟩, rfl⟩⟩
    · exact Or.inl (List.mem_filter.mpr ⟨hp, decide_eq_true h⟩)
  · rintro (hp | ⟨h, hp⟩)
    · exact (List.mem_filter.mp hp).1
    · obtain ⟨q, hq, hqp⟩ := List.mem_map.mp hp
      obtain ⟨hq, he⟩ := List.mem_filter.mp hq
      have he := of_decide_eq_true he
      have hpq : p = q := Prod.ext hqp.symm (by rw [← h, ← hqp, he])
      exact hpq ▸ hq

theorem mem_kept_iff {used ids : List α} (hnd : ids.Nodup) {a : α} :
    a ∈ kept cand used ids ↔ a ∈ ids ∧ a ∉ (moved cand used ids).map Prod.fst := by
  have hids : (pairs cand used ids).map Prod.fst = ids := map_fst_pairs used ids
  have hfst : ((pairs cand used ids).map Prod.fst).Nodup := hids.symm ▸ hnd
  constructor
  · intro ha
    obtain ⟨p, hp, rfl⟩ := List.mem_map.mp ha
    obtain ⟨hp, he⟩ := List.mem_filter.mp hp
    refine ⟨hids ▸ List.mem_map_of_mem hp, fun hmoved => ?_⟩
    obtain ⟨q, hq, hqp⟩ := List.mem_map.mp hmoved
    obtain ⟨hq, hne⟩ := List.mem_filter.mp hq
    have hqp := List.inj_on_of_nodup_map hfst hq hp hqp
    exact of_decide_eq_true hne (hqp ▸ of_decide_eq_true he)
  · intro h
    obtain ⟨ha, hmoved⟩ := h
    rw [← hids] at ha
    obtain ⟨p, hp, rfl⟩ := List.mem_map.mp ha
    rcases mem_pairs_iff.mp hp with hp | hp
    · exact absurd (List.mem_map_of_mem hp) hmoved
    · exact hp.2

/-- **Two orders give the same names exactly if they displace the same names in the same order.** -/
theorem assign_agree_iff (hc : Function.Injective cand) {ids ids' used used' : List α}
    (hnd : ids.Nodup) (hperm : ids.Perm ids') (hused : ∀ x, x ∈ used ↔ x ∈ used') :
    (∀ p, p ∈ pairs cand used ids ↔ p ∈ pairs cand used' ids') ↔
      displaced cand used [] ids = displaced cand used' [] ids' := by
  have hnd' := hperm.nodup_iff.mp hnd
  rw [← map_fst_moved hc ids [] used hnd fun x => Iff.rfl,
    ← map_fst_moved hc ids' [] used' hnd' fun x => Iff.rfl]
  constructor
  · intro h
    have hpairs := (List.perm_ext_iff_of_nodup (nodup_pairs hnd used) (nodup_pairs hnd' used')).mpr h
    have hmoved : moved cand used ids = moved cand used' ids' :=
      List.Perm.eq_of_pairwise (fun p q _ _ hpq hqp => absurd hqp (hpq.asymm hc))
        (moved_increasing hc ids used) (moved_increasing hc ids' used') (hpairs.filter _)
    rw [hmoved]
  · intro h
    have hlen : (moved cand used ids).length = (moved cand used' ids').length := by
      simpa using congrArg List.length h
    have hkept : ∀ x, x ∈ kept cand used ids ↔ x ∈ kept cand used' ids' := fun x => by
      rw [mem_kept_iff hnd, mem_kept_iff hnd', h, hperm.mem_iff]
    have hsnd : (moved cand used ids).map Prod.snd = (moved cand used' ids').map Prod.snd := by
      rw [map_snd_moved hc, map_snd_moved hc, hlen]
      exact fresh_congr hc _ fun x => by
        rw [List.mem_append, List.mem_append, hused x, hkept x]
    have hmoved : moved cand used ids = moved cand used' ids' :=
      (List.zip_of_prod h rfl).trans (List.zip_of_prod rfl hsnd.symm).symm
    exact fun p => by rw [mem_pairs_iff, mem_pairs_iff, hmoved, hkept]

/-! ## Orders made of the same blocks -/

theorem pairs_append (used ids ids' : List α) :
    pairs cand used (ids ++ ids') =
      pairs cand used ids ++ pairs cand (usedAfter cand used ids) ids' := by
  rw [pairs, assign_append, List.zip_append (length_assign cand used ids).symm]
  rfl

/-- **The name that ends a block is given the same name in both orders**, so the names agree
altogether if they agree on the successors of a name on which they do. -/
theorem names_agree_of_blocks (hc : Function.Injective cand) {next : α → List α} {ids ids' : List α}
    (hblocks : Postorder.Blocks next ids ids') {f f' : α → α} {S : α → Prop}
    (hstep : ∀ a, S a → f a = f' a → ∀ b ∈ next a, S b ∧ f b = f' b) :
    ∀ {used used' : List α}, ids.Nodup → (∀ x, x ∈ used ↔ x ∈ used') → (∀ a ∈ ids, S a) →
      (∀ p ∈ pairs cand used ids, p.2 = f p.1) → (∀ p ∈ pairs cand used' ids', p.2 = f' p.1) →
        ∀ a ∈ ids, f a = f' a := by
  induction hblocks with
  | nil => exact fun _ _ _ _ _ a ha => absurd ha List.not_mem_nil
  | @cons a pre pre' l l' hperm hreached _ ih =>
    intro used used' hnd hused hS hf hf'
    obtain ⟨hpre, htail, _⟩ := List.nodup_append.mp hnd
    have hafter := mem_usedAfter_perm hc hpre hperm hused
    rw [pairs_append, List.forall_mem_append, pairs_cons, List.forall_mem_cons] at hf hf'
    have hpick := pick_congr hc hafter a
    have ha : f a = f' a := by
      rw [← hf.2.1, ← hf'.2.1]
      exact hpick.symm
    have hnext : ∀ x, x ∈ pick cand (usedAfter cand used pre) a :: usedAfter cand used pre ↔
        x ∈ pick cand (usedAfter cand used' pre') a :: usedAfter cand used' pre' := fun x => by
      rw [hpick, List.mem_cons, List.mem_cons, hafter x]
    -- along a path from the end of the block
    have hpath : ∀ b, Paths.Reaches next a b → S b ∧ f b = f' b := by
      intro b hb
      induction hb with
      | refl => exact ⟨hS a (List.mem_append_right _ (List.mem_cons_self ..)), ha⟩
      | tail _ hcd ihb => exact hstep _ ihb.1 ihb.2 _ hcd
    intro b hb
    rcases List.mem_append.mp hb with hb | hb
    · exact (hpath b (hreached b hb)).2
    · rcases List.mem_cons.mp hb with rfl | hb
      · exact ha
      · exact ih (List.nodup_cons.mp htail).2 hnext
          (fun x hx => hS x (List.mem_append_right _ (List.mem_cons_of_mem _ hx))) hf.2.2 hf'.2.2 b hb

end Renumber
