import Mathlib.Data.Set.Defs

/-!
# Unfolding a graph

A graph is given by a function from ids to a label and an ordered list of
successors; an id without a node is a leaf. Unfolding it from an id, down to some
depth, gives a tree. Two graphs mean the same when they have the same unfoldings
at every depth, however their ids are chosen and whatever is shared.

`unfold_map` is the one rule: a map of ids that carries nodes to nodes with the
same label and mapped successors, and leaves to leaves with the same value,
carries unfoldings to equal unfoldings.
-/

namespace Unfold

variable {ι ι' L V : Type*}

/-- An unfolding, cut off at some depth. -/
inductive Tree (L V : Type*) where
  | node (label : L) (children : List (Tree L V))
  | leaf (value : V)
  | cut

/-- The label and the successors of every node. -/
abbrev Graph (ι L : Type*) := ι → Option (L × List ι)

/-- The unfolding of a graph from an id down to a depth; `value` is what a leaf stands for. -/
def unfold (g : Graph ι L) (value : ι → V) : Nat → ι → Tree L V
  | 0, _ => .cut
  | n + 1, x =>
    match g x with
    | some (label, next) => .node label (next.map (unfold g value n))
    | none => .leaf (value x)

/-- The map `f` carries the graph over, as far as the ids in `S` are concerned. -/
structure Carries (S : Set ι) (f : ι → ι') (g : Graph ι L) (g' : Graph ι' L) (value : ι → V)
    (value' : ι' → V) : Prop where
  node : ∀ x ∈ S, ∀ label next, g x = some (label, next) →
    g' (f x) = some (label, next.map f) ∧ ∀ y ∈ next, y ∈ S
  leaf : ∀ x ∈ S, g x = none → g' (f x) = none ∧ value' (f x) = value x

/-- **Unfoldings are invariant under a map that carries the graph over.** -/
theorem unfold_map {S : Set ι} {f : ι → ι'} {g : Graph ι L} {g' : Graph ι' L} {value : ι → V}
    {value' : ι' → V} (h : Carries S f g g' value value') : ∀ (n : Nat) (x : ι), x ∈ S →
      unfold g' value' n (f x) = unfold g value n x
  | 0, _, _ => rfl
  | n + 1, x, hx => by
    cases hg : g x with
    | none =>
      obtain ⟨hnone, hvalue⟩ := h.leaf x hx hg
      rw [unfold, hnone, unfold, hg]
      exact congrArg Tree.leaf hvalue
    | some p =>
      obtain ⟨label, next⟩ := p
      obtain ⟨hsome, hclosed⟩ := h.node x hx label next hg
      rw [unfold, hsome, unfold, hg]
      show Tree.node label ((next.map f).map (unfold g' value' n)) = _
      rw [List.map_map]
      refine congrArg (Tree.node label) (List.map_congr_left fun y hy => ?_)
      exact unfold_map h n y (hclosed y hy)

end Unfold
