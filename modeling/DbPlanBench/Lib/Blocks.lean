import DbPlanBench.Lib.Postorder

/-!
# Two depth-first walks of one graph

Two walks that start from the same nodes in the same order and follow the same edges, each
node's in another order perhaps, do not finish the nodes in the same order. But they meet
the same nodes from every start, and each finishes the start last: both orders consist of
the same blocks, of which only the inside is rearranged (`postorder_blocks`).
-/

namespace Postorder

open Paths

variable {α : Type} {U : Finset α} {next next' : α → List α}

/-- Both lists consist of the same blocks: some nodes in any order, all reached from the one that
ends the block. -/
inductive Blocks (next : α → List α) : List α → List α → Prop
  | nil : Blocks next [] []
  | cons {a : α} {pre pre' l l' : List α} (perm : pre.Perm pre') (reached : ∀ x ∈ pre, Reaches next a x)
      (rest : Blocks next l l') : Blocks next (pre ++ a :: l) (pre' ++ a :: l')

theorem Blocks.perm {l l' : List α} (h : Blocks next l l') : l.Perm l' := by
  induction h with
  | nil => exact .nil
  | cons perm _ _ ih => exact perm.append (ih.cons _)

theorem reaches_congr (hsame : ∀ a b, b ∈ next a ↔ b ∈ next' a) (a x : α) :
    Reaches next a x ↔ Reaches next' a x := by
  have hedge : Edge next = Edge next' := by
    funext a b
    exact propext (hsame a b)
  rw [Reaches, Reaches, hedge]

/-- A visit from `a` reaches what it finishes, and meets all successors of it. -/
structure Covers (next : α → List α) (U : Finset α) (as : List α) (s s' : State α) (new : List α) :
    Prop extends ExtendsBy U s s' new where
  reached : ∀ x ∈ new, ∃ a ∈ as, Reaches next a x
  closed : ∀ x ∈ new, ∀ y ∈ next x, y ∈ s'.1
  starts : ∀ a ∈ as, a ∈ s'.1

/-- What is met from a node when what was met before has no successors outside of it. -/
theorem Covers.mem_iff {s s' : State α} {a : α} {l : List α} (h : Covers next U [a] s s' l)
    (hs : ∀ x ∈ s.1, ∀ y ∈ next x, y ∈ s.1) (x : α) : x ∈ l ↔ x ∉ s.1 ∧ Reaches next a x := by
  constructor
  · intro hx
    obtain ⟨b, hb, hbx⟩ := h.reached x hx
    exact ⟨h.fresh x hx, List.mem_singleton.mp hb ▸ hbx⟩
  · intro hx
    obtain ⟨hxs, hax⟩ := hx
    have hmet : x ∈ s'.1 := by
      clear hxs
      induction hax with
      | refl => exact h.starts a (List.mem_singleton_self a)
      | @tail b c _ hbc ih =>
        rcases (h.met b).mp ih with hb | hb
        · exact (h.met c).mpr (Or.inl (hs b hb c hbc))
        · exact h.closed b hb c hbc
    exact ((h.met x).mp hmet).resolve_left hxs

variable [DecidableEq α]

/-- Visiting nodes one after the other covers them, if each visit does. -/
theorem foldl_visit_covers {fuel : ℕ}
    (hvisit : ∀ (s : State α) (a : α), a ∈ U → (unmet U s).card ≤ fuel →
      ∃ l, Covers next U [a] s (visit next fuel s a) l) :
    ∀ (as : List α) (s : State α), (∀ a ∈ as, a ∈ U) → (unmet U s).card ≤ fuel →
      ∃ l, Covers next U as s (as.foldl (visit next fuel) s) l
  | [], s, _, _ => ⟨[], ⟨extendsBy_refl s, by simp, by simp, by simp⟩⟩
  | a :: as, s, has, hcard => by
    obtain ⟨l, hl⟩ := hvisit s a (has a (List.mem_cons_self ..)) hcard
    obtain ⟨l', hl'⟩ := foldl_visit_covers hvisit as (visit next fuel s a)
      (fun b hb => has b (List.mem_cons_of_mem _ hb))
      ((Finset.card_le_card (unmet_subset hl.toExtendsBy)).trans hcard)
    have hmono : ∀ x ∈ (visit next fuel s a).1, x ∈ (as.foldl (visit next fuel) (visit next fuel s a)).1 :=
      fun x hx => (hl'.met x).mpr (Or.inl hx)
    refine ⟨l ++ l', ⟨extendsBy_trans hl.toExtendsBy hl'.toExtendsBy, ?_, ?_, ?_⟩⟩
    · intro x hx
      rcases List.mem_append.mp hx with hx | hx
      · obtain ⟨b, hb, hbx⟩ := hl.reached x hx
        exact ⟨b, List.mem_singleton.mp hb ▸ List.mem_cons_self .., hbx⟩
      · obtain ⟨b, hb, hbx⟩ := hl'.reached x hx
        exact ⟨b, List.mem_cons_of_mem _ hb, hbx⟩
    · intro x hx y hy
      rcases List.mem_append.mp hx with hx | hx
      · exact hmono y (hl.closed x hx y hy)
      · exact hl'.closed x hx y hy
    · intro b hb
      rcases List.mem_cons.mp hb with rfl | hb
      · exact hmono b (hl.starts b (List.mem_singleton_self b))
      · exact hl'.starts b hb

/-- A node that was not met is finished after what is reached from it. -/
theorem visit_block {fuel : ℕ} {s : State α} {a : α} {l : List α} (ha : a ∈ U) (hs : a ∉ s.1)
    (h : Covers next U (next a) (a :: s.1, s.2) ((next a).foldl (visit next fuel) (a :: s.1, s.2)) l) :
    Covers next U [a] s (visit next (fuel + 1) s a) (l ++ [a]) := by
  rw [visit_of_not_mem hs]
  refine ⟨extendsBy_finish hs ha h.toExtendsBy, ?_, ?_, ?_⟩
  · intro x hx
    refine ⟨a, List.mem_singleton_self a, ?_⟩
    rcases List.mem_append.mp hx with hx | hx
    · obtain ⟨b, hb, hbx⟩ := h.reached x hx
      exact Relation.ReflTransGen.head hb hbx
    · rw [List.mem_singleton.mp hx]
      exact Relation.ReflTransGen.refl
  · intro x hx y hy
    rcases List.mem_append.mp hx with hx | hx
    · exact h.closed x hx y hy
    · exact h.starts y (List.mem_singleton.mp hx ▸ hy)
  · intro b hb
    rw [List.mem_singleton.mp hb]
    exact (h.met a).mpr (Or.inl (List.mem_cons_self ..))

theorem visit_covers (hU : ∀ a ∈ U, ∀ b ∈ next a, b ∈ U) : ∀ (fuel : ℕ) (s : State α) (a : α),
    a ∈ U → (unmet U s).card ≤ fuel → ∃ l, Covers next U [a] s (visit next fuel s a) l := by
  have hskip : ∀ (fuel : ℕ) (s : State α) (a : α), a ∈ s.1 →
      ∃ l, Covers next U [a] s (visit next fuel s a) l := by
    intro fuel s a hs
    rw [visit_of_mem hs]
    exact ⟨[], ⟨extendsBy_refl s, by simp, by simp, fun b hb => List.mem_singleton.mp hb ▸ hs⟩⟩
  intro fuel
  induction fuel with
  | zero =>
    intro s a ha hcard
    refine hskip 0 s a ?_
    by_contra hs
    have hmem : a ∈ unmet U s := by
      rw [unmet, Finset.mem_filter]
      exact ⟨ha, hs⟩
    exact absurd (Finset.card_pos.mpr ⟨a, hmem⟩) (by omega)
  | succ fuel ih =>
    intro s a ha hcard
    by_cases hs : a ∈ s.1
    · exact hskip (fuel + 1) s a hs
    · have hlt := unmet_meet ha hs
      obtain ⟨l, hl⟩ := foldl_visit_covers ih (next a) (a :: s.1, s.2) (hU a ha) (by omega)
      exact ⟨_, visit_block ha hs hl⟩

/-- A visit from an unmet node ends with it. -/
theorem visit_covers_of_not_mem (hU : ∀ a ∈ U, ∀ b ∈ next a, b ∈ U) {fuel : ℕ} {s : State α} {a : α}
    (ha : a ∈ U) (hs : a ∉ s.1) (hcard : (unmet U s).card ≤ fuel + 1) :
    ∃ l, Covers next U [a] s (visit next (fuel + 1) s a) (l ++ [a]) := by
  have hlt := unmet_meet ha hs
  obtain ⟨l, hl⟩ := foldl_visit_covers (visit_covers hU fuel) (next a) (a :: s.1, s.2) (hU a ha)
    (by omega)
  exact ⟨l, visit_block ha hs hl⟩

/-- The walks from all starts, from states in which the same nodes are met. -/
theorem foldl_visit_blocks (hU : ∀ a ∈ U, ∀ b ∈ next a, b ∈ U)
    (hsame : ∀ a b, b ∈ next a ↔ b ∈ next' a) {fuel : ℕ} :
    ∀ (as : List α) (s s' : State α), (∀ a ∈ as, a ∈ U) → (unmet U s).card ≤ fuel →
      (∀ x, x ∈ s.1 ↔ x ∈ s'.1) → (∀ x ∈ s.1, ∀ y ∈ next x, y ∈ s.1) →
        ∃ l l', (as.foldl (visit next (fuel + 1)) s).2 = s.2 ++ l ∧
          (as.foldl (visit next' (fuel + 1)) s').2 = s'.2 ++ l' ∧ Blocks next l l'
  | [], s, s', _, _, _, _ => ⟨[], [], by simp, by simp, .nil⟩
  | a :: as, s, s', has, hcard, hmet, hclosed => by
    have ha := has a (List.mem_cons_self ..)
    have has := fun b hb => has b (List.mem_cons_of_mem _ hb)
    rw [List.foldl_cons, List.foldl_cons]
    by_cases hs : a ∈ s.1
    · rw [visit_of_mem hs, visit_of_mem ((hmet a).mp hs)]
      exact foldl_visit_blocks hU hsame as s s' has hcard hmet hclosed
    · have hU' : ∀ a ∈ U, ∀ b ∈ next' a, b ∈ U := fun a ha b hb => hU a ha b ((hsame a b).mpr hb)
      have hunmet : unmet U s' = unmet U s :=
        Finset.filter_congr fun x _ => not_congr (hmet x).symm
      obtain ⟨pre, hpre⟩ := visit_covers_of_not_mem hU ha hs (Nat.le_succ_of_le hcard)
      obtain ⟨pre', hpre'⟩ := visit_covers_of_not_mem hU' ha (mt (hmet a).mpr hs)
        (hunmet ▸ Nat.le_succ_of_le hcard)
      -- both walks meet what is reached from `a` and was not met
      have hmem : ∀ x, x ∈ pre ++ [a] ↔ x ∈ pre' ++ [a] := by
        intro x
        rw [hpre.mem_iff hclosed, hpre'.mem_iff fun x hx y hy => (hmet y).mp
          (hclosed x ((hmet x).mpr hx) y ((hsame x y).mpr hy)), hmet, reaches_congr hsame]
      have hperm : pre.Perm pre' :=
        (List.perm_append_right_iff [a]).mp
          ((List.perm_ext_iff_of_nodup hpre.nodup hpre'.nodup).mpr hmem)
      obtain ⟨l, l', hl, hl', hblocks⟩ := foldl_visit_blocks hU hsame as
        (visit next (fuel + 1) s a) (visit next' (fuel + 1) s' a) has
        ((Finset.card_le_card (unmet_subset hpre.toExtendsBy)).trans hcard)
        (fun x => by rw [hpre.met, hpre'.met, hmet, hmem]) fun x hx y hy => by
          rcases (hpre.met x).mp hx with hx | hx
          · exact (hpre.met y).mpr (Or.inl (hclosed x hx y hy))
          · exact hpre.closed x hx y hy
      refine ⟨pre ++ a :: l, pre' ++ a :: l', ?_, ?_, .cons hperm (fun x hx => ?_) hblocks⟩
      · rw [hl, hpre.finished]
        simp
      · rw [hl', hpre'.finished]
        simp
      · exact ((hpre.mem_iff hclosed x).mp (List.mem_append_left _ hx)).2

/-- **Walks that differ in the order of successors finish the same blocks.** -/
theorem postorder_blocks (hU : ∀ a ∈ U, ∀ b ∈ next a, b ∈ U)
    (hsame : ∀ a b, b ∈ next a ↔ b ∈ next' a) {fuel : ℕ} (hfuel : U.card ≤ fuel) {starts : List α}
    (hs : ∀ a ∈ starts, a ∈ U) :
    Blocks next (postorder next (fuel + 1) starts) (postorder next' (fuel + 1) starts) := by
  obtain ⟨l, l', hl, hl', hblocks⟩ := foldl_visit_blocks hU hsame starts ([], []) ([], []) hs
    ((Finset.card_filter_le U _).trans hfuel) (fun _ => Iff.rfl) fun x hx => absurd hx List.not_mem_nil
  rw [postorder, postorder, hl, hl']
  exact hblocks

end Postorder
