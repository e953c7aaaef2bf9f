import DbPlanBench.Lib.Ranked
import Mathlib.Data.List.Lex
import Mathlib.Data.Rat.Floor
import Mathlib.Data.String.Basic
import Mathlib.Tactic.Linarith

/-!
# Comparing two result sets

`compare_result_sets` reads two result sets as data frames, sorts the rows of each
by all columns, rounds the columns that are floats in the first of the two, and
compares cell by cell. The frames come from `pandas.read_json`, which is not part of
the repository and a parameter here: a frame is its columns, which of them have a
floating dtype, and its rows.

The rows are sorted *before* they are rounded, so rows that rounding puts out of order stay
so, and two results are only found equal if the same rows are out of order in both
(`compareFrames_iff`).
-/

namespace DbPlanBench.Compare

/-! ## Cells -/

/-- A cell: null, a value of a column of numbers, or a text. Floats are taken as exact. -/
inductive Cell where
  | null
  | num (q : ℚ)
  | str (s : String)
deriving DecidableEq

namespace Cell

/-- The order `sort_values` uses within a column, nulls last. A column holds numbers or texts but
not both, so how these compare does not matter. -/
def le : Cell → Cell → Bool
  | _, null => true
  | null, _ => false
  | num a, num b => decide (a ≤ b)
  | num _, str _ => true
  | str _, num _ => false
  | str a, str b => decide (a ≤ b)

instance : LinearOrder Cell where
  le a b := le a b = true
  le_refl a := by cases a <;> simp [le]
  le_trans a b c hab hbc := by
    cases a <;> cases b <;> cases c <;> simp_all [le]
    · exact hab.trans hbc
    · exact hab.trans hbc
  le_antisymm a b hab hba := by
    cases a <;> cases b <;> simp_all [le]
    · exact le_antisymm hab hba
    · exact le_antisymm hab hba
  le_total a b := by
    cases a <;> cases b <;> simp [le]
    · exact le_total _ _
    · exact le_total _ _
  toDecidableLE a b := inferInstanceAs (Decidable (le a b = true))
  toDecidableEq := inferInstance

/-- `isna`. -/
def isna : Cell → Bool
  | null => true
  | _ => false

/-- `eq` of two cells: a null equals nothing. -/
def eq : Cell → Cell → Bool
  | num a, num b => decide (a = b)
  | str a, str b => decide (a = b)
  | _, _ => false

theorem eq_or_isna_iff {a b : Cell} : (eq a b || (a.isna && b.isna)) = true ↔ a = b := by
  cases a <;> cases b <;> simp [eq, isna]

end Cell

/-! ## Rounding -/

/-- The nearest integer, of two the even one. -/
def roundHalfEven (q : ℚ) : Int :=
  if q - ⌊q⌋ < 1 / 2 then ⌊q⌋
  else if 1 / 2 < q - ⌊q⌋ then ⌊q⌋ + 1
  else if ⌊q⌋ % 2 = 0 then ⌊q⌋
  else ⌊q⌋ + 1

/-- `round(rounding)` of a number. -/
def roundTo (rounding : Nat) (q : ℚ) : ℚ := roundHalfEven (q * 10 ^ rounding) / 10 ^ rounding

/-- `round(rounding)` of a cell, which leaves all but numbers alone. -/
def Cell.round (rounding : Nat) : Cell → Cell
  | .num q => .num (roundTo rounding q)
  | c => c

theorem roundHalfEven_int (n : Int) : roundHalfEven n = n := by
  simp [roundHalfEven]

theorem roundHalfEven_bounds (q : ℚ) : ⌊q⌋ ≤ roundHalfEven q ∧ roundHalfEven q ≤ ⌊q⌋ + 1 := by
  unfold roundHalfEven
  split
  next => omega
  next =>
    split
    next => omega
    next =>
      split
      next => omega
      next => omega

theorem roundHalfEven_mono {a b : ℚ} (h : a ≤ b) : roundHalfEven a ≤ roundHalfEven b := by
  have hfloor := Int.floor_le_floor h
  obtain ⟨_, ha⟩ := roundHalfEven_bounds a
  obtain ⟨hb, _⟩ := roundHalfEven_bounds b
  rcases hfloor.lt_or_eq with hlt | heq
  · omega
  · -- in one unit interval the fractions decide
    have hfrac : a - ⌊b⌋ ≤ b - ⌊b⌋ := by linarith
    unfold roundHalfEven
    rw [heq]
    split_ifs
    all_goals first | omega | (exfalso; linarith)

theorem roundTo_int (rounding : Nat) (n : Int) : roundTo rounding n = n := by
  have hcast : (n : ℚ) * 10 ^ rounding = ((n * 10 ^ rounding : Int) : ℚ) := by push_cast; rfl
  rw [roundTo, hcast, roundHalfEven_int]
  push_cast
  field_simp

theorem roundTo_roundTo (rounding : Nat) (q : ℚ) :
    roundTo rounding (roundTo rounding q) = roundTo rounding q := by
  have hcancel : roundTo rounding q * 10 ^ rounding = roundHalfEven (q * 10 ^ rounding) := by
    rw [roundTo]
    field_simp
  rw [roundTo, hcancel, roundHalfEven_int]
  rfl

theorem roundTo_mono {rounding : Nat} {a b : ℚ} (h : a ≤ b) :
    roundTo rounding a ≤ roundTo rounding b := by
  have hmono : roundHalfEven (a * 10 ^ rounding) ≤ roundHalfEven (b * 10 ^ rounding) := by
    apply roundHalfEven_mono
    gcongr
  unfold roundTo
  gcongr

theorem Cell.round_round (rounding : Nat) (c : Cell) :
    (c.round rounding).round rounding = c.round rounding := by
  cases c with
  | num q => exact congrArg Cell.num (roundTo_roundTo rounding q)
  | _ => rfl

theorem Cell.round_mono {rounding : Nat} {a b : Cell} (h : a ≤ b) :
    a.round rounding ≤ b.round rounding := by
  cases a with
  | num p =>
    cases b with
    | num q =>
      have hpq : p ≤ q := of_decide_eq_true h
      exact decide_eq_true (roundTo_mono hpq)
    | _ => exact h
  | _ => cases b <;> exact h

/-! ## Frames -/

/-- A row, by column. -/
abbrev Row := String → Cell

/-- A data frame. `floating` are the columns of a floating dtype. -/
structure Frame where
  columns : List String
  floating : String → Bool
  rows : List Row
  nodup : columns.Nodup

namespace Frame

/-- Every column holds values of one ordered type, besides nulls: `sort_values` does not raise. -/
def sortable (f : Frame) : Bool :=
  f.columns.all fun c =>
    (f.rows.all fun r => match r c with | .str _ => false | _ => true) ||
      f.rows.all fun r => match r c with | .num _ => false | _ => true

/-- `sort_values(by=columns)`, for the rows only. -/
def sortValues (columns : List String) (f : Frame) : List Row :=
  Ranked.sortBy (fun r : Row => columns.map r) f.rows

end Frame

/-- `df[float_cols] = df[float_cols].round(rounding)`, for one row. -/
def roundColumns (floating : String → Bool) (rounding : Nat) (r : Row) : Row := fun c =>
  if floating c then (r c).round rounding else r c

/-- `compare_result_sets`, for the two frames. -/
def compareFrames (baseline model : Frame) (rounding : Nat) : Bool :=
  if baseline.columns.insertionSort (· ≤ ·) ≠ model.columns.insertionSort (· ≤ ·) then false
  else if baseline.rows.length ≠ model.rows.length then false
  else
    -- if one of the two cannot be sorted, neither is
    let arrange := fun f : Frame =>
      if baseline.sortable && model.sortable then f.sortValues baseline.columns else f.rows
    let baselineSorted := (arrange baseline).map (roundColumns baseline.floating rounding)
    let modelSorted := (arrange model).map (roundColumns baseline.floating rounding)
    (baselineSorted.zip modelSorted).all fun p =>
      baseline.columns.all fun c => (p.1 c).eq (p.2 c) || ((p.1 c).isna && (p.2 c).isna)

/-- `compare_result_sets`. A result set that cannot be read makes it false. -/
def compareResultSets (readJson : String → Option Frame) (baselineData modelData : String)
    (rounding : Nat) : Bool :=
  match readJson baselineData, readJson modelData with
  | some baseline, some model => compareFrames baseline model rounding
  | _, _ => false

/-! ## What is compared -/

/-- The cells of a row that are compared. -/
def comparedCells (columns : List String) (floating : String → Bool) (rounding : Nat) (r : Row) :
    List Cell := columns.map (roundColumns floating rounding r)

/-- The rows are the same as multisets once the `floating` columns are rounded. -/
def SameRows (columns : List String) (floating : String → Bool) (rounding : Nat) (f g : Frame) :
    Prop :=
  (f.rows.map (comparedCells columns floating rounding)).Perm
    (g.rows.map (comparedCells columns floating rounding))

/-- Rounding the `floating` columns puts the same rows out of order in both frames: of two rounded
rows, a smaller one and a greater one, the `i`-th row that is rounded to the smaller comes after the
`j`-th that is rounded to the greater in both or in neither. Rows come in the order of their values
before rounding, column by column. -/
def InvertedAlike (columns : List String) (floating : String → Bool) (rounding : Nat) (f g : Frame) :
    Prop :=
  Ranked.SameInversions (fun r : Row => columns.map r) (comparedCells columns floating rounding)
    f.rows g.rows

/-- The rows are the same, and out of order in the same way, once the `floating` columns are rounded.
Those of frames that cannot be sorted are the same as they stand. -/
def Aligned (columns : List String) (floating : String → Bool) (rounding : Nat) (f g : Frame) :
    Prop :=
  if f.sortable && g.sortable then
    SameRows columns floating rounding f g ∧ InvertedAlike columns floating rounding f g
  else f.rows.map (comparedCells columns floating rounding) =
    g.rows.map (comparedCells columns floating rounding)

theorem columns_perm_iff {l l' : List String} :
    l.insertionSort (· ≤ ·) = l'.insertionSort (· ≤ ·) ↔ l.Perm l' := by
  constructor
  · intro h
    exact (List.perm_insertionSort _ l).symm.trans (h ▸ List.perm_insertionSort _ l')
  · intro h
    refine List.Perm.eq_of_pairwise' (r := (· ≤ ·)) (List.pairwise_insertionSort _ l)
      (List.pairwise_insertionSort _ l') ?_
    exact (List.perm_insertionSort _ l).trans (h.trans (List.perm_insertionSort _ l').symm)

theorem comparedCells_congr {columns : List String} {floating : String → Bool} {rounding : Nat}
    (a b : Row) (h : columns.map a = columns.map b) :
    comparedCells columns floating rounding a = comparedCells columns floating rounding b := by
  refine List.map_congr_left fun c hc => ?_
  have hc := List.map_inj_left.mp h c hc
  rw [roundColumns, roundColumns, hc]

/-- Two lists of rows are equal cell by cell exactly if they are equal in the compared cells. -/
theorem zip_all_iff {columns : List String} {floating : String → Bool} {rounding : Nat}
    {l l' : List Row} (hlen : l.length = l'.length) :
    (((l.map (roundColumns floating rounding)).zip (l'.map (roundColumns floating rounding))).all
      fun p => columns.all fun c => (p.1 c).eq (p.2 c) || ((p.1 c).isna && (p.2 c).isna)) = true ↔
      l.map (comparedCells columns floating rounding) =
        l'.map (comparedCells columns floating rounding) := by
  have hrow : ∀ a b : Row, (columns.all fun c => (roundColumns floating rounding a c).eq
      (roundColumns floating rounding b c) || ((roundColumns floating rounding a c).isna &&
        (roundColumns floating rounding b c).isna)) = true ↔
      comparedCells columns floating rounding a = comparedCells columns floating rounding b := by
    intro a b
    rw [comparedCells, comparedCells, List.map_inj_left, List.all_eq_true]
    simp only [Cell.eq_or_isna_iff]
  -- the rows are compared pair by pair, and so are the lists of their compared cells
  induction l generalizing l' with
  | nil =>
    rw [List.length_eq_zero_iff.mp hlen.symm]
    simp
  | cons a l ih =>
    cases l' with
    | nil => exact absurd hlen (by simp)
    | cons b l' =>
      have hlen' : l.length = l'.length := by simpa using hlen
      rw [List.map_cons, List.map_cons, List.zip_cons_cons, List.all_cons, Bool.and_eq_true,
        List.map_cons, List.map_cons, List.cons.injEq]
      exact and_congr (hrow a b) (ih hlen')

/-- **What `compare_result_sets` decides.** -/
theorem compareFrames_iff (baseline model : Frame) (rounding : Nat) :
    compareFrames baseline model rounding = true ↔
      baseline.columns.Perm model.columns ∧
        Aligned baseline.columns baseline.floating rounding baseline model := by
  rw [compareFrames, Aligned, ← columns_perm_iff]
  by_cases hcols : baseline.columns.insertionSort (· ≤ ·) = model.columns.insertionSort (· ≤ ·)
  swap
  · simp [hcols]
  rw [if_neg (not_not.mpr hcols)]
  simp only [hcols, true_and]
  have hsorted : ∀ f : Frame, (f.sortValues baseline.columns).length = f.rows.length :=
    fun f => (Ranked.sortBy_perm _ f.rows).length_eq
  by_cases hlen : baseline.rows.length = model.rows.length
  · rw [if_neg (not_not.mpr hlen)]
    by_cases hsort : (baseline.sortable && model.sortable) = true
    · simp only [hsort, if_true]
      rw [zip_all_iff ((hsorted baseline).trans (hlen.trans (hsorted model).symm))]
      exact Ranked.agree_iff comparedCells_congr
    · simp only [hsort]
      exact zip_all_iff hlen
  · rw [if_pos hlen]
    refine ⟨fun h => absurd h Bool.false_ne_true, fun h => absurd ?_ hlen⟩
    -- what is aligned has as many rows
    split at h
    next => simpa using h.1.length_eq
    next => simpa using congrArg List.length h

end DbPlanBench.Compare
