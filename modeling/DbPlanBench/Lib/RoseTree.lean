import Mathlib.Data.List.Basic

/-!
# Rose trees

Finite trees with a label and a list of children at every node. `subtrees` lists
every occurrence of a subtree in preorder, the tree itself first; its length is
the size of the tree, and a child is smaller than its parent
(`size_lt_of_mem_children`).
-/

/-- A finite tree with labelled nodes. -/
inductive RoseTree (α : Type) where
  | node (label : α) (children : List (RoseTree α))

namespace RoseTree

variable {α β : Type}

def label : RoseTree α → α
  | .node a _ => a

def children : RoseTree α → List (RoseTree α)
  | .node _ cs => cs

mutual

/-- All occurrences of subtrees, in preorder. -/
def subtrees : RoseTree α → List (RoseTree α)
  | .node a cs => .node a cs :: subtreesList cs
termination_by structural t => t

def subtreesList : List (RoseTree α) → List (RoseTree α)
  | [] => []
  | c :: cs => subtrees c ++ subtreesList cs
termination_by structural cs => cs

end

mutual

/-- The tree with its labels mapped. -/
def map (f : α → β) : RoseTree α → RoseTree β
  | .node a cs => .node (f a) (mapList f cs)
termination_by structural t => t

def mapList (f : α → β) : List (RoseTree α) → List (RoseTree β)
  | [] => []
  | c :: cs => map f c :: mapList f cs
termination_by structural cs => cs

end

/-- The number of nodes. -/
def size (t : RoseTree α) : Nat := (subtrees t).length

theorem mapList_eq_map (f : α → β) : ∀ cs : List (RoseTree α), mapList f cs = cs.map (map f)
  | [] => rfl
  | c :: cs => by rw [mapList, mapList_eq_map f cs, List.map_cons]

theorem map_eq (f : α → β) (t : RoseTree α) :
    map f t = .node (f t.label) (t.children.map (map f)) := by
  cases t with
  | node a cs => rw [map, mapList_eq_map]; rfl

theorem subtrees_eq (t : RoseTree α) : subtrees t = t :: subtreesList t.children := by
  cases t with
  | node a cs => rfl

theorem mem_subtrees_self (t : RoseTree α) : t ∈ subtrees t := by
  rw [subtrees_eq]
  exact List.mem_cons_self ..

theorem mem_subtreesList {s : RoseTree α} : ∀ {cs : List (RoseTree α)},
    s ∈ subtreesList cs ↔ ∃ c ∈ cs, s ∈ subtrees c
  | [] => by simp [subtreesList]
  | c :: cs => by rw [subtreesList, List.mem_append, mem_subtreesList, List.exists_mem_cons_iff]

/-- A subtree is the tree itself or a subtree of a child. -/
theorem mem_subtrees {s t : RoseTree α} :
    s ∈ subtrees t ↔ s = t ∨ ∃ c ∈ t.children, s ∈ subtrees c := by
  rw [subtrees_eq, List.mem_cons, mem_subtreesList]

theorem length_le_subtreesList {c : RoseTree α} : ∀ {cs : List (RoseTree α)}, c ∈ cs →
    c.size ≤ (subtreesList cs).length
  | [], h => absurd h List.not_mem_nil
  | d :: cs, h => by
    rw [subtreesList, List.length_append]
    rcases List.mem_cons.mp h with he | h
    · rw [he]
      exact Nat.le_add_right ..
    · have := length_le_subtreesList h
      omega

/-- **A child is smaller than its parent.** -/
theorem size_lt_of_mem_children {c t : RoseTree α} (h : c ∈ t.children) : c.size < t.size := by
  have hle := length_le_subtreesList h
  show _ < (subtrees t).length
  rw [subtrees_eq, List.length_cons]
  omega

theorem size_pos (t : RoseTree α) : 0 < t.size := by
  show 0 < (subtrees t).length
  rw [subtrees_eq, List.length_cons]
  omega

/-- Induction on subtrees: what holds of a tree when it holds of its children holds of all trees. -/
theorem child_induction {P : RoseTree α → Prop} (h : ∀ t, (∀ c ∈ t.children, P c) → P t)
    (t : RoseTree α) : P t := by
  have hsize : ∀ n, ∀ t : RoseTree α, t.size ≤ n → P t := by
    intro n
    induction n with
    | zero => exact fun t ht => absurd (size_pos t) (by omega)
    | succ n ih =>
      intro t ht
      refine h t fun c hc => ih c ?_
      have := size_lt_of_mem_children hc
      omega
  exact hsize t.size t (Nat.le_refl _)

theorem size_le_of_mem_subtrees {s : RoseTree α} (t : RoseTree α) :
    s ∈ subtrees t → s.size ≤ t.size := by
  refine child_induction (P := fun t => s ∈ subtrees t → s.size ≤ t.size) (fun t ih hs => ?_) t
  rcases mem_subtrees.mp hs with he | ⟨c, hc, hs⟩
  · exact he ▸ Nat.le_refl _
  · exact Nat.le_trans (ih c hc hs) (Nat.le_of_lt (size_lt_of_mem_children hc))

/-- The subtrees of a subtree are subtrees. -/
theorem subtrees_trans {r s : RoseTree α} (t : RoseTree α) (hs : s ∈ subtrees t)
    (hr : r ∈ subtrees s) : r ∈ subtrees t := by
  refine child_induction (P := fun t => s ∈ subtrees t → r ∈ subtrees t) (fun t ih hs => ?_) t hs
  rcases mem_subtrees.mp hs with he | ⟨d, hd, hs⟩
  · exact he ▸ hr
  · exact mem_subtrees.mpr (Or.inr ⟨d, hd, ih d hd hs⟩)

/-- The children of a subtree are subtrees. -/
theorem mem_subtrees_of_mem_children {s c : RoseTree α} (t : RoseTree α) (hc : c ∈ s.children)
    (hs : s ∈ subtrees t) : c ∈ subtrees t :=
  subtrees_trans t hs (mem_subtrees.mpr (Or.inr ⟨c, hc, mem_subtrees_self c⟩))

end RoseTree
