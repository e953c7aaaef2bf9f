import Mathlib.Data.Fintype.Card
import Mathlib.Data.Set.Finite.List
import Mathlib.Logic.Relation

/-!
# Paths in a graph

A directed graph is a function from a node to the list of its successors. Which
nodes can be reached, which lie on a cycle, and from which every path ends; for
finitely many nodes without a cycle there is one that nothing points to, and the
number of nodes that can be reached falls along every edge.

* `Ends.not_onCycle` — a node whose paths all end lies on no cycle.
* `exists_unreferenced` — some node of an acyclic finite set is no successor of another.
* `reachable_lt` — the rank that a recursion along the edges of an acyclic graph descends.
-/

namespace Paths

variable {α : Type} {next : α → List α}

/-- `b` is a successor of `a`. -/
def Edge (next : α → List α) (a b : α) : Prop := b ∈ next a

/-- `b` can be reached from `a`. -/
def Reaches (next : α → List α) : α → α → Prop := Relation.ReflTransGen (Edge next)

/-- A path of at least one edge leads from `a` back to it. -/
def OnCycle (next : α → List α) (a : α) : Prop := Relation.TransGen (Edge next) a a

/-- Every path from `a` ends. -/
def Ends (next : α → List α) : α → Prop := Acc fun b a => Edge next a b

theorem Ends.reaches {a b : α} (h : Ends next a) (hab : Reaches next a b) : Ends next b := by
  induction hab with
  | refl => exact h
  | tail _ hstep ih => exact ih.inv hstep

/-- A node whose paths all end lies on no cycle. -/
theorem Ends.not_onCycle {a : α} (h : Ends next a) : ¬ OnCycle next a := by
  induction h with
  | intro a _ ih =>
    intro hcycle
    -- the cycle through `a` is one through its first successor
    obtain ⟨b, hab, hba⟩ := Relation.TransGen.head'_iff.mp hcycle
    exact ih b hab (Relation.TransGen.tail' hba hab)

/-- A cycle is one of every graph with more edges. -/
theorem OnCycle.mono_edge {next' : α → List α} {a : α} (h : OnCycle next a)
    (hsub : ∀ a b, b ∈ next a → b ∈ next' a) : OnCycle next' a :=
  Relation.TransGen.mono (fun a b hab => hsub a b hab) _ _ h

/-- A rank that falls along every edge leaves no cycle. -/
theorem not_onCycle_of_rank (rank : α → Nat) (h : ∀ a b, b ∈ next a → rank b < rank a) (a : α) :
    ¬ OnCycle next a := by
  have hfall : ∀ b, Relation.TransGen (Edge next) a b → rank b < rank a := by
    intro b hab
    induction hab with
    | single hstep => exact h _ _ hstep
    | tail _ hstep ih => exact (h _ _ hstep).trans ih
  exact fun hcycle => Nat.lt_irrefl _ (hfall a hcycle)

/-! ## Renaming a graph -/

section

variable {β : Type} {ids : List α} {new : α → β} {next' : β → List β}

/-- The graph `next'` is `next` on the nodes `ids` under new names, with more leaves perhaps. -/
structure Renames (ids : List α) (new : α → β) (next : α → List α) (next' : β → List β) : Prop where
  inj : ∀ a ∈ ids, ∀ b ∈ ids, new a = new b → a = b
  source : ∀ x c, c ∈ next' x → ∃ a ∈ ids, x = new a
  edge : ∀ a ∈ ids, ∀ b ∈ ids, new b ∈ next' (new a) ↔ b ∈ next a

/-- A path between two nodes is one under their old names. -/
theorem Renames.path (h : Renames ids new next next') {x y : β}
    (hxy : Relation.TransGen (Edge next') x y) : ∀ a ∈ ids, x = new a → ∀ b ∈ ids, y = new b →
      Relation.TransGen (Edge next) a b := by
  induction hxy with
  | single hstep =>
    rintro a ha rfl b hb rfl
    exact Relation.TransGen.single ((h.edge a ha b hb).mp hstep)
  | tail _ hstep ih =>
    rintro a ha rfl c hc rfl
    -- the node before the last has a successor, so it has an old name
    obtain ⟨b, hb, rfl⟩ := h.source _ _ hstep
    exact (ih a ha rfl b hb rfl).tail ((h.edge b hb c hc).mp hstep)

/-- New names make no cycle. -/
theorem Renames.acyclic (h : Renames ids new next next') (hacyclic : ∀ a, ¬ OnCycle next a) (x : β) :
    ¬ OnCycle next' x := by
  intro hcycle
  obtain ⟨y, hxy, _⟩ := Relation.TransGen.head'_iff.mp hcycle
  obtain ⟨a, ha, rfl⟩ := h.source x y hxy
  exact hacyclic a (h.path hcycle a ha rfl a ha rfl)

/-- A node has the same predecessors. -/
theorem Renames.referenced_iff (h : Renames ids new next next') {b : α} (hb : b ∈ ids) :
    (∃ x, new b ∈ next' x) ↔ ∃ a ∈ ids, b ∈ next a := by
  constructor
  · intro hx
    obtain ⟨x, hx⟩ := hx
    obtain ⟨a, ha, rfl⟩ := h.source x _ hx
    exact ⟨a, ha, (h.edge a ha b hb).mp hx⟩
  · intro ha
    obtain ⟨a, ha, hab⟩ := ha
    exact ⟨new a, (h.edge a ha b hb).mpr hab⟩

end

/-! ## Finitely many nodes -/

/-- **Some node of an acyclic finite set is no successor of a node of the set.** -/
theorem exists_unreferenced {nodes : List α} (hne : nodes ≠ [])
    (h : ∀ a ∈ nodes, ¬ OnCycle next a) : ∃ a ∈ nodes, ∀ b ∈ nodes, a ∉ next b := by
  let above : {a // a ∈ nodes} → {a // a ∈ nodes} → Prop :=
    fun b a => Relation.TransGen (Edge next) b.1 a.1
  have htrans : IsTrans _ above := ⟨fun _ _ _ hab hbc => hab.trans hbc⟩
  have hirrefl : Std.Irrefl above := ⟨fun a => h a.1 a.2⟩
  have hfin : Finite {a // a ∈ nodes} := List.finite_toSet nodes
  obtain ⟨a, ha⟩ := List.exists_mem_of_ne_nil nodes hne
  obtain ⟨top, _, htop⟩ := (Finite.wellFounded_of_trans_of_irrefl above).has_min Set.univ
    ⟨⟨a, ha⟩, trivial⟩
  exact ⟨top.1, top.2, fun b hb hab =>
    htop ⟨b, hb⟩ trivial (Relation.TransGen.single hab)⟩

open Classical in
/-- The nodes of a set that `a` reaches. -/
noncomputable def reachable (next : α → List α) (nodes : Finset α) (a : α) : Finset α :=
  nodes.filter (Reaches next a)

theorem reachable_card_le (nodes : Finset α) (a : α) :
    (reachable next nodes a).card ≤ nodes.card := by
  classical
  exact Finset.card_filter_le ..

/-- **Along an edge from a node on no cycle fewer nodes can be reached.** -/
theorem reachable_lt {nodes : Finset α} {a b : α} (ha : a ∈ nodes) (hcycle : ¬ OnCycle next a)
    (hab : b ∈ next a) : (reachable next nodes b).card < (reachable next nodes a).card := by
  classical
  have hedge : Edge next a b := hab
  refine Finset.card_lt_card (Finset.ssubset_iff_of_subset ?_ |>.mpr ⟨a, ?_, ?_⟩)
  · intro c hc
    rw [reachable, Finset.mem_filter] at hc ⊢
    exact ⟨hc.1, Relation.ReflTransGen.head hedge hc.2⟩
  · rw [reachable, Finset.mem_filter]
    exact ⟨ha, Relation.ReflTransGen.refl⟩
  · rw [reachable, Finset.mem_filter]
    intro hba
    exact hcycle (Relation.TransGen.head' hedge hba.2)

end Paths
