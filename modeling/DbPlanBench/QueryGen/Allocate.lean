import DbPlanBench.Lib.Counter
import DbPlanBench.Py.Err
import Mathlib.Algebra.BigOperators.Ring.List
import Mathlib.Data.List.Sort
import Mathlib.Data.Rat.Floor
import Mathlib.Tactic.Ring
import Mathlib.Tactic.Positivity

/-!
# Target counts

A number of queries is split over complexities in proportion to their weights:
everyone gets the integral part of its share, and what is left goes to the largest
fractions, one each in turn. Weights are exact numbers here; the rounding of
floating point is not modelled.

* `allocateTargets_total` — the counts add up to the number that was split.
-/

namespace DbPlanBench.QueryGen

/-- A weight for each complexity. -/
abbrev Distribution := List (Int × ℚ)

/-- `weights`. -/
def weightsOf (dist : Distribution) : Distribution :=
  dist.foldl (fun weights p => OrdDict.set weights p.1 p.2) []

/-- `wsum`. -/
def weightSum (weights : Distribution) : ℚ := (weights.map (·.2)).sum

/-- `raw[k]`. -/
def share (total : Nat) (weights : Distribution) (v : ℚ) : ℚ := total * (v / weightSum weights)

/-- `floors`, before anything is handed out. -/
def floorsOf (total : Nat) (weights : Distribution) : List (Int × Nat) :=
  weights.map fun p => (p.1, ⌊share total weights p.2⌋₊)

/-- The keys of `frac`: the largest fraction first. -/
def fracKeys (total : Nat) (weights : Distribution) : List Int :=
  ((weights.map fun p => (p.1, share total weights p.2 - ⌊share total weights p.2⌋₊)).insertionSort
    fun a b => b.2 ≤ a.2).map (·.1)

/-- `_allocate_targets`. -/
def allocateTargets (dist : Distribution) (total : Int) : Except PyErr (List (Int × Nat)) :=
  let weights := weightsOf dist
  if total ≤ 0 then .error (.valueError "n_queries must be > 0")
  else if weights.any (fun p => p.2 < 0) then
    .error (.valueError "complexity_distribution values must be non-negative")
  else if weightSum weights ≤ 0 then
    .error (.valueError "complexity_distribution must sum to > 0")
  else
    let floors := floorsOf total.toNat weights
    let remainder := total.toNat - Counter.total floors
    .ok (Counter.handOut (fracKeys total.toNat weights) remainder floors)

theorem nodup_weightsOf (dist : Distribution) : (OrdDict.keys (weightsOf dist)).Nodup :=
  OrdDict.nodup_keys_foldl_set Prod.fst Prod.snd dist [] List.nodup_nil

theorem keys_floorsOf (total : Nat) (weights : Distribution) :
    OrdDict.keys (floorsOf total weights) = OrdDict.keys weights := by
  rw [OrdDict.keys, floorsOf, List.map_map]
  rfl

theorem fracKeys_perm (total : Nat) (weights : Distribution) :
    (fracKeys total weights).Perm (OrdDict.keys weights) := by
  refine ((List.perm_insertionSort _ _).map _).trans (List.Perm.of_eq ?_)
  rw [List.map_map]
  rfl

theorem fracKeys_ne_nil (total : Nat) {weights : Distribution} (hpos : 0 < weightSum weights) :
    fracKeys total weights ≠ [] := by
  intro hnil
  have hperm := fracKeys_perm total weights
  rw [hnil] at hperm
  have hweights := List.map_eq_nil_iff.mp (List.nil_perm.mp hperm)
  rw [hweights] at hpos
  exact lt_irrefl _ hpos

/-- The integral parts of some shares are not more than the shares. -/
theorem total_floors_le (f : ℚ → ℚ) : ∀ weights : Distribution, (∀ p ∈ weights, 0 ≤ f p.2) →
    (Counter.total (weights.map fun p => (p.1, ⌊f p.2⌋₊)) : ℚ) ≤ (weights.map fun p => f p.2).sum
  | [], _ => le_refl _
  | p :: weights, h => by
    have hp := Nat.floor_le (h p (List.mem_cons_self ..))
    have hrest := total_floors_le f weights fun q hq => h q (List.mem_cons_of_mem _ hq)
    simp only [List.map_cons, Counter.total, List.sum_cons, Nat.cast_add]
    exact add_le_add hp hrest

theorem sum_shares {total : Nat} {weights : Distribution} (hpos : 0 < weightSum weights) :
    (weights.map fun p => share total weights p.2).sum = total := by
  have hmul : (weights.map fun p => share total weights p.2).sum =
      (total / weightSum weights) * weightSum weights := by
    rw [weightSum, ← List.sum_map_mul_left]
    refine congrArg List.sum (List.map_congr_left fun p _ => ?_)
    rw [share, weightSum]
    ring
  rw [hmul, div_mul_cancel₀ _ (ne_of_gt hpos)]

theorem total_floorsOf_le (total : Nat) {weights : Distribution}
    (hnonneg : ∀ p ∈ weights, 0 ≤ p.2) (hpos : 0 < weightSum weights) :
    Counter.total (floorsOf total weights) ≤ total := by
  have hle := total_floors_le (share total weights) weights fun p hp => by
    have := hnonneg p hp
    rw [share]
    positivity
  rw [sum_shares hpos] at hle
  exact_mod_cast hle

/-- **The counts add up to the number that was split**, and they are for the given complexities. -/
theorem allocateTargets_total {dist : Distribution} {total : Int} {counts : List (Int × Nat)}
    (h : allocateTargets dist total = .ok counts) :
    0 < total ∧ OrdDict.keys counts = OrdDict.keys (weightsOf dist) ∧
      Counter.total counts = total.toNat := by
  unfold allocateTargets at h
  dsimp only at h
  split at h
  next => exact absurd h (by simp)
  next htotal =>
    split at h
    next => exact absurd h (by simp)
    next hnonneg =>
      split at h
      next => exact absurd h (by simp)
      next hpos =>
        injection h with h
        have hpos := lt_of_not_ge hpos
        have hnonneg : ∀ p ∈ weightsOf dist, 0 ≤ p.2 := by
          intro p hp
          by_contra hneg
          exact hnonneg (List.any_eq_true.mpr ⟨p, hp, decide_eq_true (lt_of_not_ge hneg)⟩)
        have hne := fracKeys_ne_nil total.toNat hpos
        have hkeys : ∀ c ∈ fracKeys total.toNat (weightsOf dist),
            c ∈ OrdDict.keys (floorsOf total.toNat (weightsOf dist)) := by
          intro c hc
          rw [keys_floorsOf]
          exact (fracKeys_perm _ _).mem_iff.mp hc
        have hle := total_floorsOf_le total.toNat hnonneg hpos
        subst h
        refine ⟨by omega, ?_, ?_⟩
        · rw [Counter.keys_handOut hne hkeys, keys_floorsOf]
        · rw [Counter.total_handOut hne]
          omega

end DbPlanBench.QueryGen
