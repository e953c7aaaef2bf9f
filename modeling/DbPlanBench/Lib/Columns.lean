import Mathlib.Data.List.Forall2
import Mathlib.Data.List.Chain

/-!
# Rows that hang below each other

A list of rows of which each is related to the next, element by element: the
columns are chains, as many as a row is long, and have the elements of the rows.
-/

namespace Columns

variable {α : Type*} {r : α → α → Prop}

/-- A column below an element of the first row. -/
def Below (r : α → α → Prop) (n : Nat) (column : List α) (a : α) : Prop :=
  ∃ tail, column = a :: tail ∧ tail.length = n ∧ column.IsChain r

theorem perm_flatten_zipWith : ∀ {row : List α} {columns : List (List α)},
    columns.length = row.length →
      (List.zipWith List.cons row columns).flatten.Perm (row ++ columns.flatten)
  | [], columns, h => by
    rw [List.length_eq_zero_iff.mp h]
    exact List.Perm.refl _
  | a :: row, [], h => absurd h (by simp)
  | a :: row, column :: columns, h => by
    have hrest := @perm_flatten_zipWith row columns (Nat.succ.inj h)
    rw [List.zipWith_cons_cons, List.flatten_cons, List.flatten_cons, List.cons_append,
      List.cons_append]
    refine List.Perm.cons a ((hrest.append_left column).trans ?_)
    rw [← List.append_assoc, ← List.append_assoc]
    exact List.perm_append_comm.append_right _

/-- A row above the columns of the others. -/
theorem below_zipWith {n : Nat} {row next : List α} {columns : List (List α)}
    (hrow : List.Forall₂ r row next) (hcolumns : List.Forall₂ (Below r n) columns next) :
    List.Forall₂ (Below r (n + 1)) (List.zipWith List.cons row columns) row := by
  induction hrow generalizing columns with
  | nil => exact .nil
  | cons hab _ ih =>
    cases hcolumns with
    | cons hbelow hcolumns =>
      obtain ⟨tail, rfl, hlen, hchain⟩ := hbelow
      exact .cons ⟨_, rfl, by rw [List.length_cons, hlen], hchain.cons_cons hab⟩ (ih hcolumns)

/-- Every column hangs below an element of the row. -/
theorem exists_above {n : Nat} {row : List α} {columns : List (List α)}
    (h : List.Forall₂ (Below r n) columns row) {c : List α} (hc : c ∈ columns) :
    ∃ a ∈ row, Below r n c a := by
  induction h with
  | nil => exact absurd hc List.not_mem_nil
  | cons hbelow _ ih =>
    rcases List.mem_cons.mp hc with rfl | hc
    · exact ⟨_, List.mem_cons_self .., hbelow⟩
    · obtain ⟨a, ha, hca⟩ := ih hc
      exact ⟨a, List.mem_cons_of_mem _ ha, hca⟩

/-- **The columns are chains**, by induction on the rows below the first. -/
theorem exists_columns : ∀ {row : List α} {rows : List (List α)},
    (row :: rows).IsChain (List.Forall₂ r) → ∃ columns,
      List.Forall₂ (Below r rows.length) columns row ∧
        columns.flatten.Perm (row :: rows).flatten
  | row, [], _ => by
    refine ⟨row.map fun a => [a], ?_, ?_⟩
    · rw [List.forall₂_map_left_iff, List.forall₂_same]
      exact fun a _ => ⟨[], rfl, rfl, List.isChain_singleton a⟩
    · rw [List.flatten_cons, List.flatten_nil, List.append_nil, ← List.flatMap_def,
        List.flatMap_singleton']
  | row, next :: rows, h => by
    obtain ⟨hrow, hrest⟩ := List.isChain_cons_cons.mp h
    obtain ⟨columns, hcolumns, hperm⟩ := exists_columns hrest
    refine ⟨List.zipWith List.cons row columns, below_zipWith hrow hcolumns, ?_⟩
    have hlen : columns.length = row.length := hcolumns.length_eq.trans hrow.length_eq.symm
    exact (perm_flatten_zipWith hlen).trans (hperm.append_left row)

end Columns
