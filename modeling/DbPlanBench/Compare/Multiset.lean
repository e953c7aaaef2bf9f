import DbPlanBench.Compare.Frame

/-!
# Equal multisets of rounded rows

The docstring of `compare_result_sets` promises a comparison in which the order of the
rows does not matter and floats count as rounded. A result of `True` is right: then
the rounded rows are equal as multisets (`sameResult_of_aligned`). A result of `False`
need not be, for rows that only differ by less than the rounding may be sorted
one way in the one result and the other way in the other (`roundedTies_not_equal`).

`compareResultSets_sameResult_iff` says when the comparison is right: if rounding puts the
same rows out of order in both results.
-/

namespace DbPlanBench.Compare

variable {columns : List String} {floating : String → Bool} {rounding : Nat}

/-- A row with all its numbers rounded. Whole numbers are not changed by that (`roundTo_int`), so
what is rounded are the floats. -/
def roundedCells (columns : List String) (rounding : Nat) (r : Row) : List Cell :=
  columns.map fun c => (r c).round rounding

/-- The same column names and the same multiset of rows after rounding. -/
def SameResult (f g : Frame) (rounding : Nat) : Prop :=
  f.columns.Perm g.columns ∧
    (f.rows.map (roundedCells f.columns rounding)).Perm (g.rows.map (roundedCells f.columns rounding))

/-- Rounding once more what has been rounded changes nothing. -/
theorem round_roundColumns (r : Row) (c : String) :
    (roundColumns floating rounding r c).round rounding = (r c).round rounding := by
  rw [roundColumns]
  split
  next => exact Cell.round_round rounding (r c)
  next => rfl

theorem roundedCells_eq (r : Row) : roundedCells columns rounding r =
    (comparedCells columns floating rounding r).map (Cell.round rounding) := by
  rw [roundedCells, comparedCells, List.map_map]
  exact List.map_congr_left fun c _ => (round_roundColumns r c).symm

/-- **Aligned rows are equal as multisets.** -/
theorem sameResult_of_aligned {f g : Frame} (h : Aligned columns floating rounding f g) :
    (f.rows.map (roundedCells columns rounding)).Perm
      (g.rows.map (roundedCells columns rounding)) := by
  have hcells : roundedCells columns rounding =
      (fun cells => cells.map (Cell.round rounding)) ∘ comparedCells columns floating rounding :=
    funext roundedCells_eq
  rw [hcells, ← List.map_map, ← List.map_map]
  rw [Aligned] at h
  split at h
  next => exact h.1.map _
  next => rw [h]

/-! ## When rounding keeps the order -/

/-- The order of two lists is that of their first elements, unless these are equal. -/
theorem cons_le_cons_iff {a b : Cell} {l l' : List Cell} :
    a :: l ≤ b :: l' ↔ a < b ∨ a = b ∧ l ≤ l' := by
  rw [le_iff_lt_or_eq, le_iff_lt_or_eq, List.cons.injEq]
  show List.Lex (· < ·) (a :: l) (b :: l') ∨ a = b ∧ l = l' ↔
    a < b ∨ a = b ∧ (List.Lex (· < ·) l l' ∨ l = l')
  rw [List.cons_lex_cons_iff, and_or_left, or_assoc]

/-- Rounding the last column only keeps the order of two rows. -/
theorem comparedCells_mono {a b : Row} (hlast : ∀ c ∈ columns.dropLast, floating c = false)
    (h : columns.map a ≤ columns.map b) :
    comparedCells columns floating rounding a ≤ comparedCells columns floating rounding b := by
  induction columns with
  | nil => exact le_refl _
  | cons c columns ih =>
    rw [List.map_cons, List.map_cons, cons_le_cons_iff] at h
    rw [comparedCells, comparedCells, List.map_cons, List.map_cons, cons_le_cons_iff]
    cases columns with
    | nil =>
      have hle : a c ≤ b c := by
        rcases h with hlt | ⟨heq, _⟩
        · exact hlt.le
        · exact heq.le
      have hround : roundColumns floating rounding a c ≤ roundColumns floating rounding b c := by
        rw [roundColumns, roundColumns]
        split
        next => exact Cell.round_mono hle
        next => exact hle
      rcases hround.lt_or_eq with hlt | heq
      · exact Or.inl hlt
      · exact Or.inr ⟨heq, le_refl _⟩
    | cons d columns =>
      -- a column before the last one is not rounded
      have hc : floating c = false := hlast c (List.mem_cons_self ..)
      have hrest := ih fun e he => hlast e (List.mem_cons_of_mem _ he)
      have hsame : ∀ r : Row, roundColumns floating rounding r c = r c := by
        intro r
        rw [roundColumns, hc]
        rfl
      rw [hsame, hsame]
      rcases h with hlt | ⟨heq, hle⟩
      · exact Or.inl hlt
      · exact Or.inr ⟨heq, hrest hle⟩

/-- Rounding does not bring two rows of the frame into the opposite order. -/
def OrderKept (columns : List String) (rounding : Nat) (f : Frame) : Prop :=
  ∀ a ∈ f.rows, ∀ b ∈ f.rows, columns.map a ≤ columns.map b →
    roundedCells columns rounding a ≤ roundedCells columns rounding b

/-- The numbers of the frame outside the floating columns are whole. -/
def OthersWhole (columns : List String) (floating : String → Bool) (f : Frame) : Prop :=
  ∀ r ∈ f.rows, ∀ c ∈ columns, floating c = false → ∀ q, r c = .num q → ∃ n : Int, q = n

theorem comparedCells_eq_roundedCells {f : Frame} (h : OthersWhole columns floating f) {r : Row}
    (hr : r ∈ f.rows) :
    comparedCells columns floating rounding r = roundedCells columns rounding r := by
  refine List.map_congr_left fun c hc => ?_
  rw [roundColumns]
  cases hfloat : floating c with
  | true => rfl
  | false =>
    show r c = (r c).round rounding
    cases hcell : r c with
    | num q =>
      obtain ⟨n, rfl⟩ := h r hr c hc hfloat q hcell
      exact congrArg Cell.num (roundTo_int rounding n).symm
    | _ => rfl

/-- Where the other numbers are whole, the rounded rows are compared. -/
theorem sameRows_of_sameResult {f g : Frame} (hwf : OthersWhole columns floating f)
    (hwg : OthersWhole columns floating g) (h : (f.rows.map (roundedCells columns rounding)).Perm
      (g.rows.map (roundedCells columns rounding))) : SameRows columns floating rounding f g := by
  have hsame : ∀ {e : Frame}, OthersWhole columns floating e →
      e.rows.map (comparedCells columns floating rounding) =
        e.rows.map (roundedCells columns rounding) :=
    fun he => List.map_congr_left fun r hr => comparedCells_eq_roundedCells he hr
  rw [SameRows, hsame hwf, hsame hwg]
  exact h

theorem orderKept_iff {f : Frame} (hw : OthersWhole columns floating f) :
    OrderKept columns rounding f ↔ ∀ a ∈ f.rows, ∀ b ∈ f.rows, columns.map a ≤ columns.map b →
      comparedCells columns floating rounding a ≤ comparedCells columns floating rounding b := by
  constructor
  · intro h a ha b hb hab
    rw [comparedCells_eq_roundedCells hw ha, comparedCells_eq_roundedCells hw hb]
    exact h a ha b hb hab
  · intro h a ha b hb hab
    rw [← comparedCells_eq_roundedCells hw ha, ← comparedCells_eq_roundedCells hw hb]
    exact h a ha b hb hab

/-- **Where rounding keeps the order of both frames nothing is out of order.** -/
theorem invertedAlike_of_orderKept {f g : Frame} (hwf : OthersWhole columns floating f)
    (hwg : OthersWhole columns floating g) (hkf : OrderKept columns rounding f)
    (hkg : OrderKept columns rounding g) : InvertedAlike columns floating rounding f g := by
  apply Ranked.sameInversions_of_monotone comparedCells_congr
  · exact (orderKept_iff hwf).mp hkf
  · exact (orderKept_iff hwg).mp hkg

/-! ## A frame and its rounding -/

/-- The frame with its floats rounded. -/
def Frame.rounded (f : Frame) (rounding : Nat) : Frame :=
  { f with rows := f.rows.map (roundColumns f.floating rounding) }

theorem roundColumns_roundColumns (r : Row) :
    roundColumns floating rounding (roundColumns floating rounding r) =
      roundColumns floating rounding r := by
  funext c
  rw [roundColumns]
  split
  next h =>
    rw [roundColumns, if_pos h]
    exact Cell.round_round rounding (r c)
  next => rfl

/-- A rounded row is compared as it is. -/
theorem comparedCells_roundColumns (r : Row) :
    comparedCells columns floating rounding (roundColumns floating rounding r) =
      columns.map (roundColumns floating rounding r) := by
  rw [comparedCells, roundColumns_roundColumns]

theorem sameResult_rounded (f : Frame) (rounding : Nat) : SameResult f (f.rounded rounding) rounding := by
  refine ⟨List.Perm.refl _, List.Perm.of_eq ?_⟩
  rw [Frame.rounded, List.map_map]
  exact List.map_congr_left fun r _ => List.map_congr_left fun c _ => (round_roundColumns r c).symm

/-- Rows that rounding puts out of order are in order in the rounded frame. -/
theorem orderKept_of_invertedAlike_rounded {f : Frame} (hw : OthersWhole columns f.floating f)
    (h : InvertedAlike columns f.floating rounding f (f.rounded rounding)) :
    OrderKept columns rounding f := by
  have hrounded : ∀ r ∈ (f.rounded rounding).rows, ∀ s ∈ (f.rounded rounding).rows,
      columns.map r ≤ columns.map s → comparedCells columns f.floating rounding r ≤
        comparedCells columns f.floating rounding s := by
    intro r hr s hs hrs
    obtain ⟨r, _, rfl⟩ := List.mem_map.mp hr
    obtain ⟨s, _, rfl⟩ := List.mem_map.mp hs
    rw [comparedCells_roundColumns, comparedCells_roundColumns]
    exact hrs
  rw [orderKept_iff hw, ← Ranked.not_later_iff comparedCells_congr]
  intro u v huv i j hlater
  exact (Ranked.not_later_iff comparedCells_congr).mpr hrounded u v huv i j
    ((h u v huv i j).mp hlater)

/-! ## When the comparison is right -/

/-- **When `compare_result_sets` decides equality of the rounded results**: exactly if results with
the same rounded rows have them with only the floats of the baseline rounded, and have the same rows
put out of order by it. So it does where rounding keeps the order of the rows of both results, in
particular where it only changes the last column. And where it does not keep the order of one, that
result is told from its own rounding. -/
theorem compareResultSets_sameResult_iff (readJson : String → Option Frame) {a b : String}
    {f g : Frame} (ha : readJson a = some f) (hb : readJson b = some g) (hf : f.sortable = true)
    (hg : g.sortable = true) (rounding : Nat) :
    ((compareResultSets readJson a b rounding = true ↔ SameResult f g rounding) ↔
      (SameResult f g rounding → SameRows f.columns f.floating rounding f g ∧
        InvertedAlike f.columns f.floating rounding f g)) ∧
    (OthersWhole f.columns f.floating f → OthersWhole f.columns f.floating g →
      (OrderKept f.columns rounding f ∧ OrderKept f.columns rounding g ∨
        ∀ c ∈ f.columns.dropLast, f.floating c = false) →
      (compareResultSets readJson a b rounding = true ↔ SameResult f g rounding)) ∧
    (OthersWhole f.columns f.floating f → ¬ OrderKept f.columns rounding f →
      g = f.rounded rounding →
        SameResult f g rounding ∧ compareResultSets readJson a b rounding = false) := by
  have hcompare : compareResultSets readJson a b rounding = true ↔
      f.columns.Perm g.columns ∧ SameRows f.columns f.floating rounding f g ∧
        InvertedAlike f.columns f.floating rounding f g := by
    rw [compareResultSets, ha, hb]
    have hiff := compareFrames_iff f g rounding
    rw [Aligned, hf, hg] at hiff
    exact hiff
  -- a result of `True` is always right, so only `False` has to be looked at
  have hsound : compareResultSets readJson a b rounding = true → SameResult f g rounding := by
    intro h
    obtain ⟨hcols, haligned⟩ := hcompare.mp h
    have halign : Aligned f.columns f.floating rounding f g := by
      rw [Aligned, hf, hg]
      exact haligned
    exact ⟨hcols, sameResult_of_aligned halign⟩
  refine ⟨⟨fun h hsame => ?_, fun h => ⟨hsound, fun hsame => ?_⟩⟩, fun hwf hwg hkept =>
    ⟨hsound, fun hsame => ?_⟩, fun hwf hkept hrounded => ?_⟩
  · exact (hcompare.mp (h.mpr hsame)).2
  · exact hcompare.mpr ⟨hsame.1, h hsame⟩
  · refine hcompare.mpr ⟨hsame.1, sameRows_of_sameResult hwf hwg hsame.2, ?_⟩
    rcases hkept with ⟨hkf, hkg⟩ | hlast
    · exact invertedAlike_of_orderKept hwf hwg hkf hkg
    · apply invertedAlike_of_orderKept hwf hwg
      · exact (orderKept_iff hwf).mpr fun r _ s _ hrs => comparedCells_mono hlast hrs
      · exact (orderKept_iff hwg).mpr fun r _ s _ hrs => comparedCells_mono hlast hrs
  · subst hrounded
    refine ⟨sameResult_rounded f rounding, ?_⟩
    rw [← Bool.not_eq_true, hcompare]
    exact fun h => hkept (orderKept_of_invertedAlike_rounded hwf h.2.2)

/-! ## Rows that tie after rounding -/

/-- A row with a price and a count. -/
def saleRow (price : ℚ) (count : Int) : Row := fun c =>
  if c = "price" then .num price else if c = "count" then .num count else .null

/-- Two sales at prices that differ in the seventh decimal. -/
def sales (columns : List String) (hnd : columns.Nodup) (countLow countHigh : Int) : Frame where
  columns := columns
  floating c := decide (c = "price")
  rows := [saleRow (10000001 / 10000000) countLow, saleRow (10000002 / 10000000) countHigh]
  nodup := hnd

/-- The sales as `json.dumps` writes them, the price first. -/
def salesText : String :=
  "[\x7b\"price\": 1.0000001, \"count\": 2\x7d, \x7b\"price\": 1.0000002, \"count\": 1\x7d]"

/-- The same with the counts exchanged. -/
def salesTextSwapped : String :=
  "[\x7b\"price\": 1.0000001, \"count\": 1\x7d, \x7b\"price\": 1.0000002, \"count\": 2\x7d]"

/-- What `read_json` makes of the two texts, with the columns in the given order. -/
def readSales (columns : List String) (hnd : columns.Nodup) (data : String) : Option Frame :=
  if data = salesText then some (sales columns hnd 2 1)
  else if data = salesTextSwapped then some (sales columns hnd 1 2)
  else none

theorem othersWhole_sales {columns : List String} (hnd : columns.Nodup) (low high : Int) :
    OthersWhole columns (sales columns hnd low high).floating (sales columns hnd low high) := by
  have hrow : ∀ (price : ℚ) (count : Int) (c : String), decide (c = "price") = false →
      ∀ q, saleRow price count c = .num q → ∃ n : Int, q = n := by
    intro price count c hc q hq
    rw [saleRow, if_neg (of_decide_eq_false hc)] at hq
    split at hq
    next =>
      injection hq with hq
      exact ⟨count, hq.symm⟩
    next => exact absurd hq (by simp)
  intro r hr c _ hc q hq
  rcases List.mem_cons.mp hr with rfl | hr
  · exact hrow _ _ c hc q hq
  · rw [List.mem_singleton.mp hr] at hq
    exact hrow _ _ c hc q hq

/-- With the price as the last column the counts decide the order. -/
theorem compareResultSets_sameResult_priceLast :
    compareResultSets (readSales ["count", "price"] (by decide)) salesText salesTextSwapped 6 = true ↔
      SameResult (sales ["count", "price"] (by decide) 2 1)
        (sales ["count", "price"] (by decide) 1 2) 6 :=
  (compareResultSets_sameResult_iff (readSales ["count", "price"] (by decide)) (by rfl) (by rfl)
    (by decide +kernel) (by decide +kernel) 6).2.1 (othersWhole_sales _ 2 1) (othersWhole_sales _ 1 2)
    (Or.inr (by decide))

/-- With the price first the unrounded prices decide it, and two equal multisets differ. -/
theorem roundedTies_not_equal :
    compareResultSets (readSales ["price", "count"] (by decide)) salesText salesTextSwapped 6 = false ∧
      SameResult (sales ["price", "count"] (by decide) 2 1)
        (sales ["price", "count"] (by decide) 1 2) 6 := by
  refine ⟨by decide +kernel, List.Perm.refl _, ?_⟩
  decide +kernel

end DbPlanBench.Compare
