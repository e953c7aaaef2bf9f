import Mathlib.Algebra.Order.Floor.Semiring
import Mathlib.Algebra.Order.BigOperators.Group.List
import Mathlib.Data.List.Sort
import Mathlib.Tactic.Linarith
import Mathlib.Tactic.Ring

/-!
# Quantiles

Linear interpolation between the terms of a sequence, at a rank that need not be integral.
Where the sequence increases so does the interpolation: within one interval the weight of
the larger term grows, and beyond it all values are at least that term.

* `interpolate_mono` — a larger rank has no smaller value.
* `entry_mono` — the entries of a sorted list, the last one repeated.
* `mean_between` — the mean is between the first entry and the last.
-/

namespace Quantile

section

variable {K : Type} [Field K] [LinearOrder K] [IsStrictOrderedRing K] [FloorSemiring K]

/-- The value at a rank, from the terms on both sides of it. -/
def interpolate (f : Nat → K) (rank : K) : K :=
  f ⌊rank⌋₊ * (1 - (rank - ⌊rank⌋₊)) + f (⌊rank⌋₊ + 1) * (rank - ⌊rank⌋₊)

theorem interpolate_natCast (f : Nat → K) (n : Nat) : interpolate f n = f n := by
  rw [interpolate, Nat.floor_natCast, sub_self, sub_zero, mul_one, mul_zero, add_zero]

variable {f : Nat → K}

/-- A value is between its two terms. -/
theorem interpolate_between (hf : Monotone f) {rank : K} (h : 0 ≤ rank) :
    f ⌊rank⌋₊ ≤ interpolate f rank ∧ interpolate f rank ≤ f (⌊rank⌋₊ + 1) := by
  have hstep : f ⌊rank⌋₊ ≤ f (⌊rank⌋₊ + 1) := hf (Nat.le_succ _)
  have hweight : 0 ≤ rank - ⌊rank⌋₊ := sub_nonneg.mpr (Nat.floor_le h)
  have hweight1 : 0 ≤ 1 - (rank - ⌊rank⌋₊) := by
    have := Nat.lt_floor_add_one rank
    linarith
  have hgap : 0 ≤ f (⌊rank⌋₊ + 1) - f ⌊rank⌋₊ := sub_nonneg.mpr hstep
  rw [interpolate]
  constructor
  · have := mul_nonneg hgap hweight
    linarith
  · have := mul_nonneg hgap hweight1
    linarith

/-- **A larger rank has no smaller value.** -/
theorem interpolate_mono (hf : Monotone f) {a b : K} (ha : 0 ≤ a) (hab : a ≤ b) :
    interpolate f a ≤ interpolate f b := by
  rcases lt_or_eq_of_le (Nat.floor_mono hab) with hlt | heq
  · calc interpolate f a ≤ f (⌊a⌋₊ + 1) := (interpolate_between hf ha).2
      _ ≤ f ⌊b⌋₊ := hf hlt
      _ ≤ interpolate f b := (interpolate_between hf (ha.trans hab)).1
  · have hgap : 0 ≤ f (⌊a⌋₊ + 1) - f ⌊a⌋₊ := sub_nonneg.mpr (hf (Nat.le_succ _))
    have hmul := mul_nonneg hgap (sub_nonneg.mpr hab)
    rw [interpolate, interpolate, ← heq]
    linarith

end

/-! ## The entries of a list -/

section

variable {K : Type} [Inhabited K]

/-- An entry of a list; beyond its end, the last one. -/
def entry (xs : List K) (i : Nat) : K := (xs[min i (xs.length - 1)]?).getD default

theorem entry_eq_getElem {xs : List K} {i : Nat} (h : i < xs.length) : entry xs i = xs[i] := by
  rw [entry, Nat.min_eq_left (by omega), List.getElem?_eq_getElem h]
  rfl

variable [LinearOrder K]

theorem entry_mono {xs : List K} (h : xs.Pairwise (· ≤ ·)) : Monotone (entry xs) := by
  intro i j hij
  by_cases hnil : xs = []
  · rw [hnil]
    exact le_refl _
  have hpos := List.length_pos_iff.mpr hnil
  have hi : min i (xs.length - 1) < xs.length := by omega
  have hj : min j (xs.length - 1) < xs.length := by omega
  rw [entry, entry, List.getElem?_eq_getElem hi, List.getElem?_eq_getElem hj]
  rcases Nat.eq_or_lt_of_le (min_le_min_right (xs.length - 1) hij) with he | hlt
  · simp only [he]
    exact le_refl _
  · exact List.pairwise_iff_getElem.mp h _ _ hi hj hlt

/-- The first entry of a sorted list is the least. -/
theorem entry_zero_le {xs : List K} (h : xs.Pairwise (· ≤ ·)) {x : K} (hx : x ∈ xs) :
    entry xs 0 ≤ x := by
  obtain ⟨i, hi, rfl⟩ := List.mem_iff_getElem.mp hx
  rw [← entry_eq_getElem hi]
  exact entry_mono h (Nat.zero_le i)

/-- The last one is the greatest. -/
theorem le_entry_last {xs : List K} (h : xs.Pairwise (· ≤ ·)) {x : K} (hx : x ∈ xs) :
    x ≤ entry xs (xs.length - 1) := by
  obtain ⟨i, hi, rfl⟩ := List.mem_iff_getElem.mp hx
  rw [← entry_eq_getElem hi]
  exact entry_mono h (by omega)

/-- **The mean is between the first and the last entry.** -/
theorem mean_between [Field K] [IsStrictOrderedRing K] {xs : List K} (h : xs.Pairwise (· ≤ ·))
    (hne : xs ≠ []) :
    entry xs 0 ≤ xs.sum / xs.length ∧ xs.sum / xs.length ≤ entry xs (xs.length - 1) := by
  have hpos : (0 : K) < xs.length := by exact_mod_cast List.length_pos_iff.mpr hne
  have hleast := List.card_nsmul_le_sum xs (entry xs 0) fun x hx => entry_zero_le h hx
  have hgreatest := List.sum_le_card_nsmul xs (entry xs (xs.length - 1)) fun x hx =>
    le_entry_last h hx
  rw [nsmul_eq_mul, mul_comm] at hleast hgreatest
  exact ⟨(le_div_iff₀ hpos).mpr hleast, (div_le_iff₀ hpos).mpr hgreatest⟩

end

end Quantile
