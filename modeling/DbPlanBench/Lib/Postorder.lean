import DbPlanBench.Lib.Paths
import Mathlib.Data.Finset.Card

/-!
# Depth-first postorder

A depth-first walk of a graph given by its successor lists. The state is the
list of nodes met so far and the list of nodes finished so far; a node is
finished after its successors. The walk recurses on nodes it has not met, which
the definition bounds by fuel.

* `visit_extends` — a visit only appends to the finished nodes, appends no node
  twice, and what it newly meets is exactly what it finishes.
* `postorder_perm` — from a list of starts that covers a closed set of nodes the
  walk finishes each of them exactly once.
* `postorder_successorsFirst` — in a graph without cycles every node is finished after its
  successors.
-/

namespace Postorder

variable {α : Type*}

/-- Nodes met and nodes finished. -/
abbrev State (α : Type*) := List α × List α

/-! ## Extending the state -/

variable {U : Finset α}

/-- The second state comes from the first by finishing the new nodes `new`, all of them in `U`. -/
structure ExtendsBy (U : Finset α) (s s' : State α) (new : List α) : Prop where
  finished : s'.2 = s.2 ++ new
  nodup : new.Nodup
  fresh : ∀ x ∈ new, x ∉ s.1
  met : ∀ x, x ∈ s'.1 ↔ x ∈ s.1 ∨ x ∈ new
  within : ∀ x ∈ new, x ∈ U

theorem extendsBy_refl (s : State α) : ExtendsBy U s s [] where
  finished := (List.append_nil _).symm
  nodup := List.nodup_nil
  fresh := fun _ h => absurd h List.not_mem_nil
  met := fun _ => by simp
  within := fun _ h => absurd h List.not_mem_nil

theorem extendsBy_trans {s s' s'' : State α} {l l' : List α} (h : ExtendsBy U s s' l)
    (h' : ExtendsBy U s' s'' l') : ExtendsBy U s s'' (l ++ l') where
  finished := by rw [h'.finished, h.finished, List.append_assoc]
  nodup := by
    refine List.nodup_append.mpr ⟨h.nodup, h'.nodup, ?_⟩
    intro x hx y hy hxy
    exact h'.fresh y hy ((h.met y).mpr (Or.inr (hxy ▸ hx)))
  fresh := by
    intro x hx hs
    rcases List.mem_append.mp hx with h1 | h2
    · exact h.fresh x h1 hs
    · exact h'.fresh x h2 ((h.met x).mpr (Or.inl hs))
  met := fun x => by rw [h'.met, h.met, List.mem_append, or_assoc]
  within := by
    intro x hx
    rcases List.mem_append.mp hx with h1 | h2
    · exact h.within x h1
    · exact h'.within x h2

/-- Visiting a list extends the state if visiting each of its nodes does. -/
theorem foldl_extends {f : State α → α → State α}
    (hf : ∀ s a, a ∈ U → ∃ l, ExtendsBy U s (f s a) l) :
    ∀ (as : List α) (s : State α), (∀ a ∈ as, a ∈ U) → ∃ l, ExtendsBy U s (as.foldl f s) l
  | [], s, _ => ⟨[], extendsBy_refl s⟩
  | a :: as, s, hU => by
    obtain ⟨l, hl⟩ := hf s a (hU a (List.mem_cons_self ..))
    obtain ⟨l', hl'⟩ := foldl_extends hf as (f s a) fun b hb => hU b (List.mem_cons_of_mem _ hb)
    exact ⟨l ++ l', extendsBy_trans hl hl'⟩

/-- Finishing a node after an extension that started from meeting it. -/
theorem extendsBy_finish {s s' : State α} {a : α} {l : List α} (ha : a ∉ s.1) (haU : a ∈ U)
    (h : ExtendsBy U (a :: s.1, s.2) s' l) : ExtendsBy U s (s'.1, s'.2 ++ [a]) (l ++ [a]) where
  finished := by rw [h.finished, List.append_assoc]
  nodup := by
    refine List.nodup_append.mpr ⟨h.nodup, List.nodup_singleton a, ?_⟩
    intro x hx y hy hxy
    have hya : y = a := List.mem_singleton.mp hy
    exact h.fresh x hx (by rw [hxy, hya]; exact List.mem_cons_self ..)
  fresh := by
    intro x hx hs
    rcases List.mem_append.mp hx with h1 | h2
    · exact h.fresh x h1 (List.mem_cons_of_mem _ hs)
    · exact ha (List.mem_singleton.mp h2 ▸ hs)
  met := by
    intro x
    rw [show x ∈ (s'.1, s'.2 ++ [a]).1 ↔ x ∈ s'.1 from Iff.rfl, h.met, List.mem_cons,
      List.mem_append, List.mem_singleton]
    tauto
  within := by
    intro x hx
    rcases List.mem_append.mp hx with h1 | h2
    · exact h.within x h1
    · exact List.mem_singleton.mp h2 ▸ haU

/-! ## The walk -/

variable [DecidableEq α]

/-- Visit a node: skip it if it was met, else meet it, visit its successors and finish it. -/
def visit (next : α → List α) : ℕ → State α → α → State α
  | 0, s, _ => s
  | fuel + 1, s, a =>
    if a ∈ s.1 then s
    else
      let s' := (next a).foldl (visit next fuel) (a :: s.1, s.2)
      (s'.1, s'.2 ++ [a])

/-- The nodes finished by visiting a list of starts one after the other. -/
def postorder (next : α → List α) (fuel : ℕ) (starts : List α) : List α :=
  (starts.foldl (visit next fuel) ([], [])).2

variable {next : α → List α}

theorem visit_of_mem {fuel : ℕ} {s : State α} {a : α} (h : a ∈ s.1) : visit next fuel s a = s := by
  cases fuel with
  | zero => rfl
  | succ n => rw [visit, if_pos h]

theorem visit_of_not_mem {fuel : ℕ} {s : State α} {a : α} (h : a ∉ s.1) :
    visit next (fuel + 1) s a =
      (((next a).foldl (visit next fuel) (a :: s.1, s.2)).1,
        ((next a).foldl (visit next fuel) (a :: s.1, s.2)).2 ++ [a]) := by
  rw [visit, if_neg h]

/-- A visit inside a closed set extends the state. -/
theorem visit_extends (hU : ∀ a ∈ U, ∀ b ∈ next a, b ∈ U) : ∀ (fuel : ℕ) (s : State α) (a : α),
    a ∈ U → ∃ l, ExtendsBy U s (visit next fuel s a) l
  | 0, s, _, _ => ⟨[], extendsBy_refl s⟩
  | fuel + 1, s, a, ha => by
    by_cases hs : a ∈ s.1
    · rw [visit_of_mem hs]
      exact ⟨[], extendsBy_refl s⟩
    · rw [visit_of_not_mem hs]
      obtain ⟨l, hl⟩ := foldl_extends (visit_extends hU fuel) (next a) (a :: s.1, s.2) (hU a ha)
      exact ⟨l ++ [a], extendsBy_finish hs ha hl⟩

/-- A visited node has been met. -/
theorem mem_visit (hU : ∀ a ∈ U, ∀ b ∈ next a, b ∈ U) (fuel : ℕ) (s : State α) {a : α}
    (ha : a ∈ U) : a ∈ (visit next (fuel + 1) s a).1 := by
  by_cases hs : a ∈ s.1
  · rw [visit_of_mem hs]
    exact hs
  · rw [visit_of_not_mem hs]
    obtain ⟨l, hl⟩ :=
      foldl_extends (visit_extends hU fuel) (next a) (a :: s.1, s.2) (hU a ha)
    exact (hl.met a).mpr (Or.inl (List.mem_cons_self ..))

theorem mem_foldl_visit (hU : ∀ a ∈ U, ∀ b ∈ next a, b ∈ U) (fuel : ℕ) :
    ∀ (as : List α) (s : State α), (∀ a ∈ as, a ∈ U) →
      ∀ a ∈ as, a ∈ (as.foldl (visit next (fuel + 1)) s).1
  | [], _, _, _, h => absurd h List.not_mem_nil
  | b :: as, s, hb, a, h => by
    have hbU := hb b (List.mem_cons_self ..)
    have has := fun c hc => hb c (List.mem_cons_of_mem _ hc)
    rcases List.mem_cons.mp h with rfl | h'
    · obtain ⟨l, hl⟩ := foldl_extends (visit_extends hU (fuel + 1)) as
        (visit next (fuel + 1) s a) has
      exact (hl.met a).mpr (Or.inl (mem_visit hU fuel s hbU))
    · exact mem_foldl_visit hU fuel as _ has a h'

/-- **The walk finishes every node of a closed set that its starts cover, each once.** -/
theorem postorder_perm (hU : ∀ a ∈ U, ∀ b ∈ next a, b ∈ U) (fuel : ℕ) {starts : List α}
    (hs : ∀ a, a ∈ starts ↔ a ∈ U) :
    (postorder next (fuel + 1) starts).Nodup ∧
      ∀ a, a ∈ postorder next (fuel + 1) starts ↔ a ∈ U := by
  obtain ⟨l, hl⟩ := foldl_extends (visit_extends hU (fuel + 1)) starts ([], [])
    fun a ha => (hs a).mp ha
  have hout : postorder next (fuel + 1) starts = l := by
    rw [postorder, hl.finished]
    rfl
  rw [hout]
  refine ⟨hl.nodup, fun a => ⟨hl.within a, fun ha => ?_⟩⟩
  have hmet := mem_foldl_visit hU fuel starts ([], []) (fun a ha => (hs a).mp ha) a ((hs a).mpr ha)
  rcases (hl.met a).mp hmet with h | h
  · exact absurd h List.not_mem_nil
  · exact h

/-! ## Nodes not met yet -/

/-- The nodes not met yet. -/
def unmet (U : Finset α) (s : State α) : Finset α := U.filter (· ∉ s.1)

theorem unmet_subset {s s' : State α} {l : List α} (h : ExtendsBy U s s' l) :
    unmet U s' ⊆ unmet U s := by
  intro x hx
  rw [unmet, Finset.mem_filter] at hx ⊢
  exact ⟨hx.1, fun hs => hx.2 ((h.met x).mpr (Or.inl hs))⟩

theorem unmet_meet {s : State α} {a : α} (ha : a ∈ U) (hs : a ∉ s.1) :
    (unmet U (a :: s.1, s.2)).card < (unmet U s).card := by
  refine Finset.card_lt_card (Finset.ssubset_iff_subset_ne.mpr ⟨?_, ?_⟩)
  · intro x hx
    rw [unmet, Finset.mem_filter] at hx ⊢
    exact ⟨hx.1, fun h => hx.2 (List.mem_cons_of_mem _ h)⟩
  · intro he
    have hmem : a ∈ unmet U s := by
      rw [unmet, Finset.mem_filter]
      exact ⟨ha, hs⟩
    rw [← he, unmet, Finset.mem_filter] at hmem
    exact hmem.2 (List.mem_cons_self ..)

/-! ## Successors first -/

section

open Paths

variable {β : Type} {next : β → List β} {U : Finset β}

/-- Every node of the list comes after its successors. -/
def SuccessorsFirst (next : β → List β) (l : List β) : Prop :=
  ∀ pre a, pre ++ [a] <+: l → ∀ b ∈ next a, b ∈ pre

theorem SuccessorsFirst.concat {l : List β} {a : β} (h : SuccessorsFirst next l)
    (ha : ∀ b ∈ next a, b ∈ l) : SuccessorsFirst next (l ++ [a]) := by
  intro pre c hpre
  rcases List.prefix_concat_iff.mp hpre with he | hpre
  · obtain ⟨hpre, hc⟩ := List.append_inj' he rfl
    rw [hpre, List.singleton_inj.mp hc]
    exact ha
  · exact h pre c hpre

/-- What a visit from the node `a` may assume of the state: its nodes are finished in order, and
from those that are not finished a path leads to `a`. -/
structure Before (next : β → List β) (s : State β) (a : β) : Prop where
  ordered : SuccessorsFirst next s.2
  opened : ∀ x ∈ s.1, x ∉ s.2 → Relation.TransGen (Edge next) x a

/-- What it leaves: more nodes are finished, in order, and none is open that was not. -/
structure After (next : β → List β) (s s' : State β) : Prop where
  ordered : SuccessorsFirst next s'.2
  grown : s.2 ⊆ s'.2
  opened : ∀ x ∈ s'.1, x ∉ s'.2 → x ∈ s.1 ∧ x ∉ s.2

theorem After.trans {s s' s'' : State β} (h : After next s s') (h' : After next s' s'') :
    After next s s'' where
  ordered := h'.ordered
  grown := List.Subset.trans h.grown h'.grown
  opened := fun x hx hx' => by
    obtain ⟨hmet, hopen⟩ := h'.opened x hx hx'
    exact h.opened x hmet hopen

variable [DecidableEq β]

/-- Visiting the successors of a node that is open, one after the other, finishes them. -/
theorem foldl_visit_after (hU : ∀ a ∈ U, ∀ b ∈ next a, b ∈ U) {fuel : ℕ}
    (hvisit : ∀ (s : State β) (b : β), b ∈ U → (unmet U s).card ≤ fuel → Before next s b →
      After next s (visit next fuel s b) ∧ b ∈ (visit next fuel s b).2) :
    ∀ (bs : List β) (s : State β), (∀ b ∈ bs, b ∈ U) → (unmet U s).card ≤ fuel →
      (∀ b ∈ bs, Before next s b) → SuccessorsFirst next s.2 →
        After next s (bs.foldl (visit next fuel) s) ∧
          ∀ b ∈ bs, b ∈ (bs.foldl (visit next fuel) s).2
  | [], s, _, _, _, hordered =>
    ⟨⟨hordered, List.Subset.refl _, fun _ hx hx' => ⟨hx, hx'⟩⟩, fun _ h => absurd h List.not_mem_nil⟩
  | b :: bs, s, hbs, hcard, hbefore, _ => by
    have hb := hbs b (List.mem_cons_self ..)
    obtain ⟨hafter, hmem⟩ := hvisit s b hb hcard (hbefore b (List.mem_cons_self ..))
    obtain ⟨l, hl⟩ := visit_extends hU fuel s b hb
    obtain ⟨hrest, hmems⟩ := foldl_visit_after hU hvisit bs (visit next fuel s b)
      (fun c hc => hbs c (List.mem_cons_of_mem _ hc))
      ((Finset.card_le_card (unmet_subset hl)).trans hcard)
      (fun c hc => ⟨hafter.ordered, fun x hx hx' => by
        obtain ⟨hmet, hopen⟩ := hafter.opened x hx hx'
        exact (hbefore c (List.mem_cons_of_mem _ hc)).opened x hmet hopen⟩)
      hafter.ordered
    rw [List.foldl_cons]
    refine ⟨hafter.trans hrest, fun c hc => ?_⟩
    rcases List.mem_cons.mp hc with rfl | hc
    · exact hrest.grown hmem
    · exact hmems c hc

/-- **A visit finishes a node after its successors**, as an open one among them would close a
cycle. -/
theorem visit_after (hU : ∀ a ∈ U, ∀ b ∈ next a, b ∈ U) (hcycle : ∀ a, ¬ OnCycle next a) :
    ∀ (fuel : ℕ) (s : State β) (a : β), a ∈ U → (unmet U s).card ≤ fuel → Before next s a →
      After next s (visit next fuel s a) ∧ a ∈ (visit next fuel s a).2 := by
  have hskip : ∀ (fuel : ℕ) (s : State β) (a : β), a ∈ s.1 → Before next s a →
      After next s (visit next fuel s a) ∧ a ∈ (visit next fuel s a).2 := by
    intro fuel s a hs hbefore
    rw [visit_of_mem hs]
    refine ⟨⟨hbefore.ordered, List.Subset.refl _, fun _ hx hx' => ⟨hx, hx'⟩⟩, ?_⟩
    by_contra hopen
    exact hcycle a (hbefore.opened a hs hopen)
  intro fuel
  induction fuel with
  | zero =>
    intro s a ha hcard hbefore
    refine hskip 0 s a ?_ hbefore
    by_contra hs
    have hmem : a ∈ unmet U s := by
      rw [unmet, Finset.mem_filter]
      exact ⟨ha, hs⟩
    exact absurd (Finset.card_pos.mpr ⟨a, hmem⟩) (by omega)
  | succ fuel ih =>
    intro s a ha hcard hbefore
    by_cases hs : a ∈ s.1
    · exact hskip (fuel + 1) s a hs hbefore
    · have hlt := unmet_meet ha hs
      have hopen : ∀ b ∈ next a, Before next (a :: s.1, s.2) b := by
        intro b hb
        refine ⟨hbefore.ordered, fun x hx hx' => ?_⟩
        rcases List.mem_cons.mp hx with rfl | hx
        · exact Relation.TransGen.single hb
        · exact (hbefore.opened x hx hx').tail hb
      obtain ⟨hafter, hmems⟩ := foldl_visit_after hU ih (next a) (a :: s.1, s.2) (hU a ha)
        (by omega) hopen hbefore.ordered
      rw [visit_of_not_mem hs]
      refine ⟨⟨hafter.ordered.concat hmems, fun x hx => ?_, fun x hx hx' => ?_⟩, ?_⟩
      · exact List.mem_append_left _ (hafter.grown hx)
      · rw [List.mem_append, not_or, List.mem_singleton] at hx'
        obtain ⟨hmet, hopen'⟩ := hafter.opened x hx hx'.1
        exact ⟨(List.mem_cons.mp hmet).resolve_left hx'.2, hopen'⟩
      · exact List.mem_append_right _ (List.mem_singleton_self a)

/-- **In a graph without cycles every node is finished after its successors.** -/
theorem postorder_successorsFirst (hU : ∀ a ∈ U, ∀ b ∈ next a, b ∈ U)
    (hcycle : ∀ a, ¬ OnCycle next a) {fuel : ℕ} (hfuel : U.card ≤ fuel) {starts : List β}
    (hs : ∀ a ∈ starts, a ∈ U) : SuccessorsFirst next (postorder next fuel starts) := by
  have hnil : SuccessorsFirst next [] := by
    intro pre a hpre
    exact absurd (List.prefix_nil.mp hpre) (by simp)
  have hcard : (unmet U (([], []) : State β)).card ≤ fuel :=
    (Finset.card_filter_le U _).trans hfuel
  exact (foldl_visit_after hU (visit_after hU hcycle fuel) starts ([], []) hs hcard
    (fun a _ => ⟨hnil, fun x hx => absurd hx List.not_mem_nil⟩) hnil).1.ordered

end

end Postorder
