import DbPlanBench.Lib.Paths
import DbPlanBench.Lib.RoseTree
import Mathlib.Data.List.Forall2

/-!
# The tree that an id of a graph denotes

A graph is given by a relation: an id is defined as a label with a list of ids. The tree
that an id denotes has that label and the trees of these ids below it. A tree is finite,
so an id that lies on a cycle or above one denotes none; an id may be shared, and an id
that is defined twice may denote several.

* `exists_denotes` — an id denotes a tree if every path from it ends and all ids that it
  reaches are defined.
* `Denotes.carry` — the rule for maps between graphs: where every definition is carried over,
  up to a relation of the labels, trees are carried over to trees that are related node by
  node.
-/

namespace GraphTree

variable {ι κ α β : Type}

/-- The id denotes the tree. -/
inductive Denotes (defs : ι → α → List ι → Prop) : ι → RoseTree α → Prop where
  | node {id : ι} {label : α} {ids : List ι} {ts : List (RoseTree α)} (h : defs id label ids)
      (hchildren : List.Forall₂ (Denotes defs) ids ts) : Denotes defs id (.node label ts)

/-- The trees have one shape, and their labels are related; what the relation asks of two labels
may depend on how many children they have. -/
inductive Related (R : Nat → α → β → Prop) : RoseTree α → RoseTree β → Prop where
  | node {a : α} {b : β} {ts : List (RoseTree α)} {us : List (RoseTree β)} (h : R ts.length a b)
      (hchildren : List.Forall₂ (Related R) ts us) : Related R (.node a ts) (.node b us)

variable {defs : ι → α → List ι → Prop} {defs' : κ → β → List κ → Prop}

theorem Denotes.inv {id : ι} {label : α} {ts : List (RoseTree α)}
    (h : Denotes defs id (.node label ts)) :
    ∃ ids, defs id label ids ∧ List.Forall₂ (Denotes defs) ids ts := by
  cases h with
  | node h hchildren => exact ⟨_, h, hchildren⟩

/-- Every child tree is denoted by some id. -/
theorem exists_denoting {ids : List ι} {ts : List (RoseTree α)}
    (h : List.Forall₂ (Denotes defs) ids ts) {t : RoseTree α} (ht : t ∈ ts) :
    ∃ id, Denotes defs id t := by
  induction h with
  | nil => exact absurd ht List.not_mem_nil
  | cons hd _ ih =>
    rcases List.mem_cons.mp ht with rfl | ht
    · exact ⟨_, hd⟩
    · exact ih ht

/-- **An id denotes a tree** if every path from it ends and every id on one is defined. -/
theorem exists_denotes {next : ι → List ι}
    (hnext : ∀ id label ids, defs id label ids → ∀ c ∈ ids, c ∈ next id) {id : ι}
    (hends : Paths.Ends next id) :
    (∀ b, Paths.Reaches next id b → ∃ label ids, defs b label ids) → ∃ t, Denotes defs id t := by
  induction hends with
  | intro id _ ih =>
    intro hdefined
    obtain ⟨label, ids, hdef⟩ := hdefined id Relation.ReflTransGen.refl
    have hchild : ∀ c ∈ ids, ∃ t, Denotes defs c t := by
      intro c hc
      have hstep := hnext id label ids hdef c hc
      exact ih c hstep fun b hb => hdefined b (Relation.ReflTransGen.head hstep hb)
    have hall : ∀ ids : List ι, (∀ c ∈ ids, ∃ t, Denotes defs c t) →
        ∃ ts, List.Forall₂ (Denotes defs) ids ts := by
      intro ids hids
      induction ids with
      | nil => exact ⟨[], .nil⟩
      | cons c ids ihids =>
        rw [List.forall_mem_cons] at hids
        obtain ⟨t, ht⟩ := hids.1
        obtain ⟨ts, hts⟩ := ihids hids.2
        exact ⟨t :: ts, .cons ht hts⟩
    obtain ⟨ts, hts⟩ := hall ids hchild
    exact ⟨.node label ts, .node hdef hts⟩

/-- **A map that carries the definitions over carries the trees over.** -/
theorem Denotes.carry {R : Nat → α → β → Prop} {S : ι → Prop} {τ : ι → κ}
    (hdefs : ∀ id, S id → ∀ label ids, defs id label ids →
      (∀ c ∈ ids, S c) ∧ ∃ label', defs' (τ id) label' (ids.map τ) ∧ R ids.length label label')
    (t : RoseTree α) : ∀ id, S id → Denotes defs id t →
      ∃ u, Denotes defs' (τ id) u ∧ Related R t u := by
  refine RoseTree.child_induction (P := fun t => ∀ id, S id → Denotes defs id t →
    ∃ u, Denotes defs' (τ id) u ∧ Related R t u) (fun t ih => ?_) t
  cases t with
  | node label ts =>
    intro id hS h
    obtain ⟨ids, hdef, hchildren⟩ := h.inv
    obtain ⟨hclosed, label', hdef', hR⟩ := hdefs id hS label ids hdef
    have hlen := hchildren.length_eq
    -- the trees of the children, in order
    have hcarried : ∀ {ids : List ι} {ts : List (RoseTree α)}, (∀ c ∈ ids, S c) →
        (∀ c ∈ ts, ∀ id, S id → Denotes defs id c →
          ∃ u, Denotes defs' (τ id) u ∧ Related R c u) →
        List.Forall₂ (Denotes defs) ids ts → ∃ us,
          List.Forall₂ (Denotes defs') (ids.map τ) us ∧ List.Forall₂ (Related R) ts us := by
      intro ids ts hS ih hf
      induction hf with
      | nil => exact ⟨[], .nil, .nil⟩
      | cons hd _ ihrest =>
        rw [List.forall_mem_cons] at hS ih
        obtain ⟨u, hu, hrel⟩ := ih.1 _ hS.1 hd
        obtain ⟨us, hus, hrels⟩ := ihrest hS.2 ih.2
        exact ⟨u :: us, .cons hu hus, .cons hrel hrels⟩
    obtain ⟨us, hus, hrels⟩ := hcarried hclosed ih hchildren
    exact ⟨.node label' us, .node hdef' hus, .node (hlen ▸ hR) hrels⟩

end GraphTree
