import Mathlib.Algebra.Order.Field.Rat
import Mathlib.Data.Finset.Card
import Mathlib.Data.List.Perm.Subperm
import Mathlib.Tactic.Linarith
import Mathlib.Tactic.Ring

/-!
# Semaphores and rate gates

A semaphore hands out permits: those in use and the free ones always make up the same
number (`Counted`). A rate gate hands out times that are at least some distance apart
(`Spaced`), so only so many of them fit into a window, and what happens at or after its
own time happens at most that often (`length_le_of_slots`).
-/

namespace Gate

/-! ## Permits -/

/-- The processes with a permit and the free permits are `total` together. -/
def Counted {P : Type*} (holds : P → Prop) (free total : Nat) : Prop :=
  ∃ inside : Finset P, (∀ p, p ∈ inside ↔ holds p) ∧ inside.card + free = total

section

variable {P : Type*} [DecidableEq P] {holds holds' : P → Prop} {free total : Nat} {p : P}

theorem Counted.enter (h : Counted holds (free + 1) total) (hout : ¬ holds p)
    (hnew : ∀ q, holds' q ↔ q = p ∨ holds q) : Counted holds' free total := by
  obtain ⟨inside, hinside, hcard⟩ := h
  refine ⟨insert p inside, fun q => ?_, ?_⟩
  · rw [Finset.mem_insert, hinside, hnew]
  · have hnot : p ∉ inside := fun hp => hout ((hinside p).mp hp)
    rw [Finset.card_insert_of_notMem hnot]
    omega

theorem Counted.leave (h : Counted holds free total) (hin : holds p)
    (hnew : ∀ q, holds' q ↔ q ≠ p ∧ holds q) : Counted holds' (free + 1) total := by
  obtain ⟨inside, hinside, hcard⟩ := h
  refine ⟨inside.erase p, fun q => ?_, ?_⟩
  · rw [Finset.mem_erase, hinside, hnew]
  · have hmem : p ∈ inside := (hinside p).mpr hin
    have hpos := Finset.card_pos.mpr ⟨p, hmem⟩
    rw [Finset.card_erase_of_mem hmem]
    omega

omit [DecidableEq P] in
theorem Counted.congr (h : Counted holds free total) (hnew : ∀ q, holds' q ↔ holds q) :
    Counted holds' free total := by
  obtain ⟨inside, hinside, hcard⟩ := h
  exact ⟨inside, fun q => (hinside q).trans (hnew q).symm, hcard⟩

omit [DecidableEq P] in
/-- No more processes than `total` have a permit. -/
theorem Counted.length_le (h : Counted holds free total) {l : List P} (hnodup : l.Nodup)
    (hl : ∀ p ∈ l, holds p) : l.length ≤ total := by
  classical
  obtain ⟨inside, hinside, hcard⟩ := h
  have hsub : l.toFinset ⊆ inside := by
    intro p hp
    exact (hinside p).mpr (hl p (List.mem_toFinset.mp hp))
  have hle := Finset.card_le_card hsub
  rw [List.toFinset_card_of_nodup hnodup] at hle
  omega

end

/-! ## Times -/

/-- Times that are at least `gap` apart, in order. -/
def Spaced (gap : ℚ) (times : List ℚ) : Prop := times.Pairwise fun x y => x + gap ≤ y

variable {gap : ℚ} {times : List ℚ}

theorem Spaced.concat (h : Spaced gap times) {t : ℚ} (ht : ∀ x ∈ times, x + gap ≤ t) :
    Spaced gap (times ++ [t]) := by
  refine List.pairwise_append.mpr ⟨h, List.pairwise_singleton .., fun x hx y hy => ?_⟩
  rw [List.mem_singleton.mp hy]
  exact ht x hx

theorem Spaced.nodup (h : Spaced gap times) (hgap : 0 < gap) : times.Nodup := by
  refine h.imp fun hxy heq => ?_
  rw [heq] at hxy
  linarith

/-- How many times fit between two. -/
theorem Spaced.length_mul_le (h : Spaced gap times) {a b : ℚ} (hne : times ≠ [])
    (hbetween : ∀ x ∈ times, a ≤ x ∧ x ≤ b) : (times.length : ℚ) * gap ≤ b - a + gap := by
  induction times generalizing a with
  | nil => exact absurd rfl hne
  | cons x rest ih =>
    obtain ⟨hfirst, hrest⟩ := List.pairwise_cons.mp h
    obtain ⟨hax, hxb⟩ := hbetween x (List.mem_cons_self ..)
    by_cases hnil : rest = []
    · rw [hnil, List.length_singleton]
      push_cast
      linarith
    · have hstep := ih hrest (a := x + gap) hnil fun y hy =>
        ⟨hfirst y hy, (hbetween y (List.mem_cons_of_mem x hy)).2⟩
      rw [List.length_cons]
      push_cast
      linarith

/-- Slots from spaced times that lie in a window. -/
theorem length_le_of_slots (h : Spaced gap times) {a b : ℚ} (hab : a ≤ b) (hgap : 0 ≤ gap)
    {slots : List ℚ} (hnodup : slots.Nodup) (hslots : ∀ x ∈ slots, x ∈ times ∧ a ≤ x ∧ x ≤ b) :
    (slots.length : ℚ) * gap ≤ b - a + gap := by
  have hsub : slots.Subperm (times.filter fun x => a ≤ x ∧ x ≤ b) := by
    refine List.subperm_of_subset hnodup fun x hx => ?_
    obtain ⟨hmem, hwindow⟩ := hslots x hx
    exact List.mem_filter.mpr ⟨hmem, decide_eq_true hwindow⟩
  have hlen : (slots.length : ℚ) ≤ ((times.filter fun x => a ≤ x ∧ x ≤ b).length : ℚ) :=
    Nat.cast_le.mpr hsub.length_le
  have hmul := mul_le_mul_of_nonneg_right hlen hgap
  by_cases hne : (times.filter fun x => a ≤ x ∧ x ≤ b) = []
  · rw [hne, List.length_nil, Nat.cast_zero, zero_mul] at hmul
    linarith
  · have hfilter : Spaced gap (times.filter fun x => a ≤ x ∧ x ≤ b) := h.filter _
    refine hmul.trans (hfilter.length_mul_le hne fun x hx => ?_)
    exact of_decide_eq_true (List.mem_filter.mp hx).2

end Gate
