import DbPlanBench.Compare.Multiset
import DbPlanBench.Lib.OrdDict

/-!
# The comparison and the order of its arguments

`compare_result_sets` takes from its first argument the columns to round, and the order
of the columns to sort by. Which columns are floats is what `read_json` makes of their
values: a column of whole numbers is an integer column, and one with a fraction or a
null among its numbers a floating one.

So a column may be rounded in one order of the arguments and compared as it stands in
the other (`wholeColumn_not_symmetric`), and rows that rounding puts out of order may be so
with the columns of the one and not with those of the other. `compareResultSets_symm_iff`
says when the order makes no difference: both calls tell results apart that have different
rows after rounding, so what matters is which columns are floats, and what rounding puts out
of order, in results that have the same rows.
-/

namespace DbPlanBench.Compare

variable {columns : List String} {floating : String → Bool} {rounding : Nat}

/-! ## The inferred types -/

/-- The dtypes are those `read_json` infers: a column is floating if it holds numbers and nulls
only, and not only whole numbers. -/
def Frame.Inferred (f : Frame) : Prop :=
  ∀ c ∈ f.columns, f.floating c = true ↔
    (∀ r ∈ f.rows, ∀ s, r c ≠ .str s) ∧ ∃ r ∈ f.rows, ∀ n : Int, r c ≠ .num n

/-- `select_dtypes(include=["floating"]).columns`. -/
def Frame.floatCols (f : Frame) : List String := f.columns.filter f.floating

/-- The compared cells of two rows that agree do so in every column that is not rounded. -/
theorem eq_of_comparedCells {a b : Row} {c : String} (hc : c ∈ columns)
    (hfloat : floating c = false)
    (h : comparedCells columns floating rounding a = comparedCells columns floating rounding b) :
    a c = b c := by
  have hcell := List.map_inj_left.mp h c hc
  rw [roundColumns, roundColumns, hfloat] at hcell
  exact hcell

/-! ## The order of the columns -/

/-- Cells in another order of the columns. -/
theorem exists_reorder {columns' : List String} (hnd : columns.Nodup) (h : columns.Perm columns') :
    ∃ φ : List Cell → List Cell, ∀ x : String → Cell, columns'.map x = φ (columns.map x) := by
  refine ⟨fun cells => columns'.map fun c => (OrdDict.get? (columns.zip cells) c).getD .null,
    fun x => List.map_congr_left fun c hc => ?_⟩
  have hzip : columns.zip (columns.map x) = columns.map fun c => (c, x c) := by
    have h := List.zip_map' (l := columns) (f := id) (g := x)
    rw [List.map_id] at h
    exact h
  have hkeys : OrdDict.keys (columns.map fun c => (c, x c)) = columns := by
    rw [OrdDict.keys, List.map_map]
    exact List.map_id columns
  have hmem : (c, x c) ∈ columns.map fun c => (c, x c) :=
    List.mem_map_of_mem (f := fun c => (c, x c)) (h.mem_iff.mpr hc)
  rw [hzip, OrdDict.get?_of_mem (hkeys.symm ▸ hnd) hmem]
  rfl

/-- Rows are the same multiset whatever the order of the columns. -/
theorem SameResult.symm {f g : Frame} (h : SameResult f g rounding) : SameResult g f rounding := by
  obtain ⟨hperm, hrows⟩ := h
  obtain ⟨φ, hφ⟩ := exists_reorder f.nodup hperm
  have hcells : roundedCells g.columns rounding = φ ∘ roundedCells f.columns rounding :=
    funext fun r => hφ fun c => (r c).round rounding
  refine ⟨hperm.symm, ?_⟩
  rw [hcells, ← List.map_map, ← List.map_map]
  exact (hrows.map φ).symm

/-- Rows are equal as they stand whatever the order of the columns. -/
theorem standing_reorder {columns' : List String} (hnd : columns.Nodup) (h : columns.Perm columns')
    {l l' : List Row} (hl : l.map (comparedCells columns floating rounding) =
      l'.map (comparedCells columns floating rounding)) :
    l.map (comparedCells columns' floating rounding) =
      l'.map (comparedCells columns' floating rounding) := by
  obtain ⟨φ, hφ⟩ := exists_reorder hnd h
  have hcells : comparedCells columns' floating rounding = φ ∘ comparedCells columns floating rounding :=
    funext fun r => hφ (roundColumns floating rounding r)
  rw [hcells, ← List.map_map, ← List.map_map, hl]

/-! ## Aligned frames -/

/-- What aligns two frames aligns them the other way round. -/
theorem Aligned.symm {f g : Frame} (h : Aligned columns floating rounding f g) :
    Aligned columns floating rounding g f := by
  rw [Aligned, Bool.and_comm]
  rw [Aligned] at h
  split at h
  next hsort =>
    rw [if_pos hsort]
    exact ⟨h.1.symm, h.2.symm⟩
  next hsort =>
    rw [if_neg hsort]
    exact h.symm

theorem Aligned.exists_row {f g : Frame} (h : Aligned columns floating rounding f g) {r : Row}
    (hr : r ∈ f.rows) : ∃ s ∈ g.rows,
      comparedCells columns floating rounding r = comparedCells columns floating rounding s := by
  have hsub : f.rows.map (comparedCells columns floating rounding) ⊆
      g.rows.map (comparedCells columns floating rounding) := by
    rw [Aligned] at h
    split at h
    next => exact h.1.subset
    next => exact h ▸ List.Subset.refl _
  obtain ⟨s, hs, heq⟩ := List.mem_map.mp (hsub (List.mem_map_of_mem hr))
  exact ⟨s, hs, heq.symm⟩

/-- **Frames that agree after rounding the floats of the first have no other floats.** A column
that is not rounded holds the same values in both, of which its type is inferred. -/
theorem floatCols_subset_of_aligned {f g : Frame} (hf : f.Inferred) (hg : g.Inferred)
    (hperm : f.columns.Perm g.columns) (h : Aligned f.columns f.floating rounding f g) :
    g.floatCols ⊆ f.floatCols := by
  intro c hc
  obtain ⟨hcg, hfloatg⟩ := List.mem_filter.mp hc
  have hcf := hperm.mem_iff.mpr hcg
  refine List.mem_filter.mpr ⟨hcf, ?_⟩
  by_contra hnot
  have hfloatf : f.floating c = false := Bool.eq_false_iff.mpr hnot
  obtain ⟨hnumbers, s, hs, hfraction⟩ := (hg c hcg).mp hfloatg
  apply hnot
  refine (hf c hcf).mpr ⟨fun r hr => ?_, ?_⟩
  · obtain ⟨s, hs, heq⟩ := h.exists_row hr
    rw [eq_of_comparedCells hcf hfloatf heq]
    exact hnumbers s hs
  · obtain ⟨r, hr, heq⟩ := h.symm.exists_row hs
    refine ⟨r, hr, ?_⟩
    rw [← eq_of_comparedCells hcf hfloatf heq]
    exact hfraction

/-- Whole numbers are all there is in a column of numbers that is not floating. -/
theorem othersWhole_of_inferred {f : Frame} (hf : f.Inferred) (hsort : f.sortable = true)
    (hsub : ∀ c ∈ columns, c ∈ f.columns)
    (hfloat : ∀ c ∈ columns, f.floating c = true → floating c = true) :
    OthersWhole columns floating f := by
  intro r hr c hc hnot q hq
  have hcf := hsub c hc
  have hnotf : ¬ f.floating c = true := by
    intro h
    rw [hfloat c hc h] at hnot
    exact Bool.noConfusion hnot
  rw [hf c hcf, not_and] at hnotf
  have hcol := List.all_eq_true.mp hsort c hcf
  rw [Bool.or_eq_true, List.all_eq_true, List.all_eq_true] at hcol
  -- with a number in it the column holds no texts
  have htexts : ∀ s ∈ f.rows, ∀ t, s c ≠ .str t := by
    rcases hcol with hcol | hcol
    · intro s hs t ht
      have := hcol s hs
      rw [ht] at this
      exact absurd this Bool.false_ne_true
    · have := hcol r hr
      rw [hq] at this
      exact absurd this Bool.false_ne_true
  by_contra hwhole
  exact hnotf htexts ⟨r, hr, fun n hn => hwhole ⟨n, Cell.num.inj (hq.symm.trans hn)⟩⟩

/-! ## When the order of the arguments makes no difference -/

/-- Rounding the `floating` columns puts the same rows out of order; of frames that cannot be sorted,
the rows are the same as they stand. -/
def Alike (columns : List String) (floating : String → Bool) (rounding : Nat) (f g : Frame) : Prop :=
  if f.sortable && g.sortable then InvertedAlike columns floating rounding f g
  else f.rows.map (comparedCells columns floating rounding) =
    g.rows.map (comparedCells columns floating rounding)

/-- The comparison of two frames with the same rounded rows does not depend on which of them is the
baseline. If both have the same floats, it is the same for the columns of both whether rows are out of
order alike. If one has floats that the other has not, the rows are not out of order alike for its
columns, and so they are told apart either way. -/
structure ArgumentsCommute (f g : Frame) (rounding : Nat) : Prop where
  same : f.floatCols ⊆ g.floatCols → g.floatCols ⊆ f.floatCols → f.sortable → g.sortable →
    (InvertedAlike f.columns f.floating rounding f g ↔ InvertedAlike g.columns f.floating rounding f g)
  fewer : f.floatCols ⊆ g.floatCols → ¬ g.floatCols ⊆ f.floatCols →
    ¬ Alike g.columns g.floating rounding f g
  more : g.floatCols ⊆ f.floatCols → ¬ f.floatCols ⊆ g.floatCols →
    ¬ Alike f.columns f.floating rounding f g

/-- Frames with the same columns of the same types can be exchanged. -/
theorem argumentsCommute_of_sameTypes {f g : Frame} (hcols : f.columns = g.columns)
    (hfloat : f.floatCols = g.floatCols) : ArgumentsCommute f g rounding where
  same _ _ _ _ := by rw [hcols]
  fewer _ hnot := absurd (hfloat ▸ List.Subset.refl _) hnot
  more _ hnot := absurd (hfloat ▸ List.Subset.refl _) hnot

/-- Frames with the same rounded rows, of which only the second may lack floats, are aligned if they
are out of order alike. -/
theorem aligned_iff_alike {f g : Frame} (hf : f.Inferred) (hg : g.Inferred)
    (hperm : f.columns.Perm g.columns) (hcols : ∀ c, c ∈ columns ↔ c ∈ f.columns)
    (hfloatf : ∀ c ∈ columns, f.floating c = true → floating c = true)
    (hfloatg : ∀ c ∈ columns, g.floating c = true → floating c = true)
    (hsame : (f.rows.map (roundedCells columns rounding)).Perm
      (g.rows.map (roundedCells columns rounding))) :
    Aligned columns floating rounding f g ↔ Alike columns floating rounding f g := by
  rw [Aligned, Alike]
  by_cases hsort : (f.sortable && g.sortable) = true
  · rw [if_pos hsort, if_pos hsort]
    rw [Bool.and_eq_true] at hsort
    refine and_iff_right (sameRows_of_sameResult ?_ ?_ hsame)
    · exact othersWhole_of_inferred hf hsort.1 (fun c hc => (hcols c).mp hc) hfloatf
    · exact othersWhole_of_inferred hg hsort.2 (fun c hc => hperm.mem_iff.mp ((hcols c).mp hc)) hfloatg
  · rw [if_neg hsort, if_neg hsort]

theorem floating_eq_of_floatCols {f g : Frame} (hperm : f.columns.Perm g.columns)
    (hfg : f.floatCols ⊆ g.floatCols) (hgf : g.floatCols ⊆ f.floatCols) :
    ∀ c ∈ g.columns, f.floating c = g.floating c := by
  intro c hc
  rw [Bool.eq_iff_iff]
  constructor
  · intro h
    exact (List.mem_filter.mp (hfg (List.mem_filter.mpr ⟨hperm.mem_iff.mpr hc, h⟩))).2
  · intro h
    exact (List.mem_filter.mp (hgf (List.mem_filter.mpr ⟨hc, h⟩))).2

theorem floating_of_floatCols_subset {f g : Frame} (hfg : f.floatCols ⊆ g.floatCols) :
    ∀ c ∈ f.columns, f.floating c = true → g.floating c = true :=
  fun _ hc h => (List.mem_filter.mp (hfg (List.mem_filter.mpr ⟨hc, h⟩))).2

theorem alike_congr {floating' : String → Bool} {f g : Frame}
    (h : ∀ c ∈ columns, floating c = floating' c) :
    Alike columns floating rounding f g ↔ Alike columns floating' rounding f g := by
  have hcells : comparedCells columns floating rounding =
      comparedCells columns floating' rounding := by
    funext r
    refine List.map_congr_left fun c hc => ?_
    rw [roundColumns, roundColumns, h c hc]
  rw [Alike, Alike, InvertedAlike, InvertedAlike, hcells]

/-- Frames with the same floats can be exchanged if they are out of order alike for the columns of
both or of neither. -/
theorem alike_reorder_iff {f g : Frame} (hperm : f.columns.Perm g.columns) :
    (Alike f.columns f.floating rounding f g ↔ Alike g.columns f.floating rounding f g) ↔
      (f.sortable → g.sortable → (InvertedAlike f.columns f.floating rounding f g ↔
        InvertedAlike g.columns f.floating rounding f g)) := by
  rw [Alike, Alike]
  by_cases hsort : (f.sortable && g.sortable) = true
  · rw [if_pos hsort, if_pos hsort]
    rw [Bool.and_eq_true] at hsort
    exact ⟨fun h _ _ => h, fun h => h hsort.1 hsort.2⟩
  · rw [if_neg hsort, if_neg hsort]
    refine iff_of_true ⟨standing_reorder f.nodup hperm, standing_reorder g.nodup hperm.symm⟩ ?_
    exact fun hf hg => absurd (by rw [hf, hg]; rfl) hsort

/-- Frames with different columns are told apart before any cell is read. -/
theorem compareFrames_of_not_perm {f g : Frame} (h : ¬ f.columns.Perm g.columns) :
    compareFrames f g rounding = false := by
  rw [← Bool.not_eq_true, compareFrames_iff]
  exact fun heq => h heq.1

theorem compareFrames_comm_iff {f g : Frame} (hperm : f.columns.Perm g.columns) :
    compareFrames f g rounding = compareFrames g f rounding ↔
      (Aligned f.columns f.floating rounding f g ↔ Aligned g.columns g.floating rounding f g) := by
  rw [Bool.eq_iff_iff, compareFrames_iff, compareFrames_iff, and_iff_right hperm,
    and_iff_right hperm.symm]
  exact iff_congr Iff.rfl ⟨Aligned.symm, Aligned.symm⟩

theorem compareFrames_symm_iff {f g : Frame} (hf : f.Inferred) (hg : g.Inferred) :
    compareFrames f g rounding = compareFrames g f rounding ↔
      (SameResult f g rounding → ArgumentsCommute f g rounding) := by
  by_cases hperm : f.columns.Perm g.columns
  swap
  · rw [compareFrames_of_not_perm hperm, compareFrames_of_not_perm fun h => hperm h.symm]
    exact iff_of_true rfl fun h => absurd h.1 hperm
  have hleft : Aligned f.columns f.floating rounding f g → g.floatCols ⊆ f.floatCols :=
    floatCols_subset_of_aligned hf hg hperm
  have hright : Aligned g.columns g.floating rounding f g → f.floatCols ⊆ g.floatCols :=
    fun h => floatCols_subset_of_aligned hg hf hperm.symm h.symm
  rw [compareFrames_comm_iff hperm]
  by_cases hsame : SameResult f g rounding
  swap
  · -- neither call finds the rows equal
    refine iff_of_true (iff_of_false (fun h => ?_) fun h => ?_) fun h => absurd h hsame
    · exact hsame ⟨hperm, sameResult_of_aligned h⟩
    · exact hsame (SameResult.symm ⟨hperm.symm, sameResult_of_aligned h.symm⟩)
  rw [forall_prop_of_true hsame]
  have hf' : g.floatCols ⊆ f.floatCols → (Aligned f.columns f.floating rounding f g ↔
      Alike f.columns f.floating rounding f g) := fun hgf =>
    aligned_iff_alike hf hg hperm (fun _ => Iff.rfl) (fun _ _ h => h)
      (fun c hc h => floating_of_floatCols_subset hgf c (hperm.mem_iff.mp hc) h) hsame.2
  have hg' : f.floatCols ⊆ g.floatCols → (Aligned g.columns g.floating rounding f g ↔
      Alike g.columns g.floating rounding f g) := fun hfg =>
    aligned_iff_alike hf hg hperm (fun _ => hperm.mem_iff.symm)
      (fun c hc h => floating_of_floatCols_subset hfg c (hperm.mem_iff.mpr hc) h)
      (fun _ _ h => h) hsame.symm.2.symm
  -- each call rounds the floats of its own baseline, so both align only if these are the same
  by_cases hfg : f.floatCols ⊆ g.floatCols
  · rw [hg' hfg]
    by_cases hgf : g.floatCols ⊆ f.floatCols
    · rw [hf' hgf, ← alike_congr (floating_eq_of_floatCols hperm hfg hgf), alike_reorder_iff hperm]
      exact ⟨fun h => ⟨fun _ _ => h, fun _ hn => absurd hgf hn, fun _ hn => absurd hfg hn⟩,
        fun h => h.same hfg hgf⟩
    · rw [iff_false_left (mt hleft hgf)]
      exact ⟨fun h => ⟨fun _ hn => absurd hn hgf, fun _ _ => h, fun hn => absurd hn hgf⟩,
        fun h => h.fewer hfg hgf⟩
  · rw [iff_false_right (mt hright hfg)]
    by_cases hgf : g.floatCols ⊆ f.floatCols
    · rw [hf' hgf]
      exact ⟨fun h => ⟨fun hn => absurd hn hfg, fun hn => absurd hn hfg, fun _ _ => h⟩,
        fun h => h.more hgf hfg⟩
    · refine iff_of_true (mt hleft hgf) ⟨fun hn => absurd hn hfg, fun hn => absurd hn hfg, ?_⟩
      exact fun hn => absurd hn hgf

/-- Rounding keeps the order of the rows of both frames, for the columns of either. -/
def BothKept (f g : Frame) (rounding : Nat) : Prop :=
  ∀ columns, columns = f.columns ∨ columns = g.columns →
    OrderKept columns rounding f ∧ OrderKept columns rounding g

/-- **Where rounding puts nothing out of order, only the floating columns matter**: those of one of
the frames must not be some but not all of the other's. -/
theorem argumentsCommute_iff_of_bothKept {f g : Frame} (hf : f.Inferred) (hg : g.Inferred)
    (hsf : f.sortable = true) (hsg : g.sortable = true) (hperm : f.columns.Perm g.columns)
    (hkept : BothKept f g rounding) :
    ArgumentsCommute f g rounding ↔ (f.floatCols ⊆ g.floatCols ↔ g.floatCols ⊆ f.floatCols) := by
  -- with the floats of both rounded, no rows are out of order
  have halike : ∀ columns floating, columns = f.columns ∨ columns = g.columns →
      (∀ c ∈ columns, f.floating c = true → floating c = true) →
      (∀ c ∈ columns, g.floating c = true → floating c = true) →
      InvertedAlike columns floating rounding f g := by
    intro columns floating hcols hff hfg
    have hmem : ∀ c ∈ columns, c ∈ f.columns := by
      intro c hc
      rcases hcols with rfl | rfl
      · exact hc
      · exact hperm.mem_iff.mpr hc
    exact invertedAlike_of_orderKept (othersWhole_of_inferred hf hsf hmem hff)
      (othersWhole_of_inferred hg hsg (fun c hc => hperm.mem_iff.mp (hmem c hc)) hfg)
      (hkept columns hcols).1 (hkept columns hcols).2
  have hsort : (f.sortable && g.sortable) = true := by rw [hsf, hsg]; rfl
  have hleft : g.floatCols ⊆ f.floatCols → ∀ columns, columns = f.columns ∨ columns = g.columns →
      InvertedAlike columns f.floating rounding f g := by
    intro hgf columns hcols
    refine halike columns f.floating hcols (fun _ _ h => h) fun c hc h => ?_
    rcases hcols with rfl | rfl
    · exact floating_of_floatCols_subset hgf c (hperm.mem_iff.mp hc) h
    · exact floating_of_floatCols_subset hgf c hc h
  constructor
  · intro h
    constructor
    · intro hfg
      by_contra hgf
      apply h.fewer hfg hgf
      rw [Alike, if_pos hsort]
      refine halike g.columns g.floating (Or.inr rfl) (fun c hc h => ?_) fun _ _ h => h
      exact floating_of_floatCols_subset hfg c (hperm.mem_iff.mpr hc) h
    · intro hgf
      by_contra hfg
      apply h.more hgf hfg
      rw [Alike, if_pos hsort]
      exact hleft hgf f.columns (Or.inl rfl)
  · intro h
    refine ⟨fun _ hgf _ _ => ?_, fun hfg hgf => absurd (h.mp hfg) hgf,
      fun hgf hfg => absurd (h.mpr hgf) hfg⟩
    exact iff_of_true (hleft hgf f.columns (Or.inl rfl)) (hleft hgf g.columns (Or.inr rfl))

/-- **When `compare_result_sets` is symmetric**: for texts that cannot be read, and results that
differ in their columns or their rounded rows always, and else exactly if the frames commute. Where
rounding keeps the order of the rows, that depends on which columns are floating. -/
theorem compareResultSets_symm_iff (readJson : String → Option Frame)
    (hread : ∀ data f, readJson data = some f → f.Inferred) (a b : String) (rounding : Nat) :
    (compareResultSets readJson a b rounding = compareResultSets readJson b a rounding ↔
      ∀ f g, readJson a = some f → readJson b = some g → SameResult f g rounding →
        ArgumentsCommute f g rounding) ∧
    (∀ f g, readJson a = some f → readJson b = some g → f.sortable → g.sortable →
      BothKept f g rounding →
      (compareResultSets readJson a b rounding = compareResultSets readJson b a rounding ↔
        (SameResult f g rounding → (f.floatCols ⊆ g.floatCols ↔ g.floatCols ⊆ f.floatCols)))) := by
  have hboth : ∀ f g, readJson a = some f → readJson b = some g →
      (compareResultSets readJson a b rounding = compareResultSets readJson b a rounding ↔
        (SameResult f g rounding → ArgumentsCommute f g rounding)) := by
    intro f g ha hb
    rw [compareResultSets, compareResultSets, ha, hb]
    exact compareFrames_symm_iff (hread a f ha) (hread b g hb)
  constructor
  · cases ha : readJson a with
    | none => cases hb : readJson b <;> simp [compareResultSets, ha, hb]
    | some f =>
      cases hb : readJson b with
      | none => simp [compareResultSets, ha, hb]
      | some g =>
        rw [hboth f g ha hb]
        constructor
        · rintro h _ _ ⟨⟩ ⟨⟩
          exact h
        · intro h
          exact h f g rfl rfl
  · intro f g ha hb hsf hsg hkept
    rw [hboth f g ha hb]
    exact forall_congr' fun hsame => argumentsCommute_iff_of_bothKept (hread a f ha) (hread b g hb)
      hsf hsg hsame.1 hkept

/-! ## A column of whole numbers -/

/-- A result with one row and one column `x` of a number. -/
def single (x : ℚ) (float : Bool) : Frame where
  columns := ["x"]
  floating _ := float
  rows := [fun _ => .num x]
  nodup := by decide

/-- What `read_json` makes of three results: the number is 1, or it is greater by less than what is
rounded away, or by more. -/
def readSingle (data : String) : Option Frame :=
  if data = "[\x7b\"x\": 1\x7d]" then some (single 1 false)
  else if data = "[\x7b\"x\": 1.0000001\x7d]" then some (single (10000001 / 10000000) true)
  else if data = "[\x7b\"x\": 1.5\x7d]" then some (single (3 / 2) true)
  else none

theorem readSingle_inferred (data : String) (f : Frame) (h : readSingle data = some f) :
    f.Inferred := by
  have hwhole : (single 1 false).Inferred := by
    intro c _
    refine iff_of_false Bool.false_ne_true ?_
    intro h
    obtain ⟨_, r, hr, hfraction⟩ := h
    rw [List.mem_singleton.mp hr] at hfraction
    exact hfraction 1 (by simp)
  have hfraction : ∀ x : ℚ, x.den ≠ 1 → (single x true).Inferred := by
    intro x hx c _
    refine iff_of_true rfl ⟨fun r hr s => ?_, _, List.mem_singleton.mpr rfl, fun n heq => ?_⟩
    · rw [List.mem_singleton.mp hr]
      exact Cell.noConfusion
    · injection heq with heq
      exact hx (by rw [heq]; rfl)
  -- the three texts of the reader, the first with the whole number
  rw [readSingle] at h
  split at h
  next =>
    injection h with h
    exact h ▸ hwhole
  next =>
    split at h
    next =>
      injection h with h
      exact h ▸ hfraction _ (by decide +kernel)
    next =>
      split at h
      next =>
        injection h with h
        exact h ▸ hfraction _ (by decide +kernel)
      next => exact absurd h (by simp)

theorem bothKept_single (x y : ℚ) (float float' : Bool) (rounding : Nat) :
    BothKept (single x float) (single y float') rounding := by
  refine fun columns _ => ⟨fun a ha b hb _ => ?_, fun a ha b hb _ => ?_⟩
  · rw [List.mem_singleton.mp ha, List.mem_singleton.mp hb]
  · rw [List.mem_singleton.mp ha, List.mem_singleton.mp hb]

/-- Two fractions may be compared either way, a whole number and a fraction that is rounded to it
may not. -/
theorem compareResultSets_symm_fractions :
    compareResultSets readSingle "[\x7b\"x\": 1.0000001\x7d]" "[\x7b\"x\": 1.5\x7d]" 6 =
      compareResultSets readSingle "[\x7b\"x\": 1.5\x7d]" "[\x7b\"x\": 1.0000001\x7d]" 6 ∧
    compareResultSets readSingle "[\x7b\"x\": 1\x7d]" "[\x7b\"x\": 1.0000001\x7d]" 6 ≠
      compareResultSets readSingle "[\x7b\"x\": 1.0000001\x7d]" "[\x7b\"x\": 1\x7d]" 6 := by
  constructor
  · apply (compareResultSets_symm_iff readSingle readSingle_inferred _ _ 6).1.mpr
    rintro f g hf hg _
    have hf' : single (10000001 / 10000000) true = f := by simpa [readSingle] using hf
    have hg' : single (3 / 2) true = g := by simpa [readSingle] using hg
    subst hf' hg'
    exact argumentsCommute_of_sameTypes rfl rfl
  · intro h
    have hiff := (compareResultSets_symm_iff readSingle readSingle_inferred
      "[\x7b\"x\": 1\x7d]" "[\x7b\"x\": 1.0000001\x7d]" 6).2 (single 1 false)
      (single (10000001 / 10000000) true) (by simp [readSingle]) (by simp [readSingle])
      (by decide) (by decide) (bothKept_single 1 _ false true 6)
    have hsame : SameResult (single 1 false) (single (10000001 / 10000000) true) 6 := by
      unfold SameResult
      decide +kernel
    exact absurd ((hiff.mp h hsame).mp (by decide)) (by decide)

/-- A whole number as the baseline is not rounded, and neither is what it is compared with. -/
theorem wholeColumn_not_symmetric :
    (∀ data f, readSingle data = some f → f.Inferred) ∧
    compareResultSets readSingle "[\x7b\"x\": 1\x7d]" "[\x7b\"x\": 1.0000001\x7d]" 6 = false ∧
    compareResultSets readSingle "[\x7b\"x\": 1.0000001\x7d]" "[\x7b\"x\": 1\x7d]" 6 = true := by
  refine ⟨readSingle_inferred, ?_, ?_⟩
  · decide +kernel
  · decide +kernel

end DbPlanBench.Compare
