import DbPlanBench.Lib.Search
import DbPlanBench.QueryGen.Step

/-!
# The metrics of an executed plan

The engine displays an executed plan with a line for each operator, which ends in the list of
the operator's metrics. Totals over the joins are read from that text: a line counts as a
join if it mentions one anywhere, and its metrics are those of the first list in it.

A line says more than its operator. A predicate, a column or a file whose name mentions a
join makes any operator count as one, and a name may also look like a list of metrics.
`Clear` says of a line that neither misleads, and the totals are those of the join operators
exactly if all lines are clear (`joinsOnly_iff_clear`).

Floating-point numbers and their sums are taken as given.
-/

namespace DbPlanBench.Optimize

open Search (search)

/-! ## The source -/

/-- What the source uses of floating-point numbers. -/
structure Floats (F : Type) where
  /-- `float(s)`. -/
  float : String → Except PyErr F
  /-- `x * 1e-n`. -/
  scaled : F → Nat → F
  /-- `sum(xs)`. -/
  sum : List F → F

/-- `val.endswith(suffix)`, with what is before it. -/
def beforeSuffix (suffix val : String) : Option String :=
  if suffix.toList <:+ val.toList then
    some (String.ofList (val.toList.take (val.toList.length - suffix.toList.length)))
  else none

/-- `_parse_duration_to_seconds`. -/
def parseDurationToSeconds {F : Type} (floats : Floats F) (val : String) : Except PyErr F :=
  let val := QueryGen.strip val
  match beforeSuffix "ns" val, beforeSuffix "µs" val, beforeSuffix "ms" val, beforeSuffix "s" val with
  | some v, _, _, _ => (floats.scaled · 9) <$> floats.float v
  | none, some v, _, _ => (floats.scaled · 6) <$> floats.float v
  | none, none, some v, _ => (floats.scaled · 3) <$> floats.float v
  | none, none, none, some v => floats.float v
  | none, none, none, none => floats.float val

/-- `_parse_int`. -/
def parseInt (val : String) : Except PyErr Int :=
  Py.int (QueryGen.strip (String.ofList (val.toList.filter (· ≠ ','))))

/-- A character at which `str.splitlines` ends a line. -/
def isLineBoundary (c : Char) : Bool :=
  (10 ≤ c.toNat && c.toNat ≤ 13) || (0x1C ≤ c.toNat && c.toNat ≤ 0x1E) || c.toNat == 0x85 ||
    c.toNat == 0x2028 || c.toNat == 0x2029

/-- `text.splitlines()`; a carriage return and a line feed end a line together. -/
def splitlines : List Char → List (List Char)
  | [] => []
  | '\r' :: '\n' :: cs => [] :: splitlines cs
  | c :: cs =>
    if isLineBoundary c then [] :: splitlines cs
    else
      match splitlines cs with
      | [] => [[c]]
      | l :: ls => (c :: l) :: ls

/-- The list that `metrics=\[([^\]]+)\]` matches at the start of a text. -/
def metricsListAt (text : List Char) : Option (List Char) :=
  let rest := text.drop "metrics=[".toList.length
  if "metrics=[".toList <+: text ∧ ']' ∈ rest ∧ rest.head? ≠ some ']' then
    some (rest.takeWhile (· ≠ ']'))
  else none

/-- `k, v = metric_str.split("=", 1)`, if there is an `=`. -/
def metricOf (metricStr : List Char) : Option (String × String) :=
  match metricStr.dropWhile (· ≠ '=') with
  | [] => none
  | _ :: v => some (String.ofList (metricStr.takeWhile (· ≠ '=')), String.ofList v)

/-- The metrics of a list. -/
def parseMetrics (metricsList : List Char) : List (String × String) :=
  ((Search.split ", ".toList metricsList).filterMap metricOf).foldl
    (fun d p => OrdDict.set d p.1 p.2) []

/-- A line with metrics. -/
structure ParsedLine where
  line : Nat
  text : List Char
  metrics : List (String × String)
deriving DecidableEq

/-- `parsed`, from the displayed text. -/
def parsedLines (displayText : String) : List ParsedLine :=
  (splitlines displayText.toList).zipIdx.filterMap fun p =>
    (search metricsListAt p.1).map fun l => ⟨p.2, p.1, parseMetrics l⟩

/-- The characters that a letter of `join` matches: the case is ignored, and Python takes a
dotted capital and a dotless small I for the same letter. -/
def joinLetters : List (List Char) :=
  [['j', 'J'], ['o', 'O'], ['i', 'I', 'İ', 'ı'], ['n', 'N']]

/-- The match of `join` at the start of a text. -/
def joinAt (text : List Char) : Option Unit :=
  if (text.take 4).length = 4 ∧ ∀ p ∈ (text.take 4).zip joinLetters, p.1 ∈ p.2 then some () else none

/-- `is_join`. -/
def isJoin (text : List Char) : Bool := (search joinAt text).isSome

/-- The values that a total is over, each with the number of its line. -/
def contributing (parsed : List ParsedLine) (key : String) (joinOnly : Bool) :
    List (Nat × String) :=
  parsed.filterMap fun p =>
    if joinOnly = false ∨ isJoin p.text then (OrdDict.get? p.metrics key).map fun v => (p.line, v)
    else none

/-- `sum` of integers; none if one of them cannot be read. -/
def sumInts (values : List (Nat × String)) : Option Int :=
  (values.mapM fun e => parseInt e.2).toOption.map List.sum

def sumDurations {F : Type} (floats : Floats F) (values : List (Nat × String)) : Option F :=
  (values.mapM fun e => parseDurationToSeconds floats e.2).toOption.map floats.sum

/-- `max(vals) if vals else 0`. -/
def maxInts (values : List (Nat × String)) : Option Int :=
  (values.mapM fun e => parseInt e.2).toOption.map fun vals => vals.max?.getD 0

/-- The metrics of a plan. -/
structure PlanMetrics (F : Type) where
  bytesScanned : Option Int
  outputRowsSum : Option Int
  inputRowsSum : Option Int
  joinTimeSSum : Option F
  buildTimeSSum : Option F
  buildMemUsedSum : Option Int
  buildMemUsedMax : Option Int
  peakMemUsedMax : Option Int
deriving DecidableEq

/-- `parse_plan_metrics`; none is the empty `dict` for a plan that cannot be displayed. -/
def parsePlanMetrics {F : Type} (floats : Floats F) (display : Except PyErr String) :
    Option (PlanMetrics F) :=
  match display with
  | .error _ => none
  | .ok displayText =>
    let parsed := parsedLines displayText
    some {
      bytesScanned := sumInts (contributing parsed "bytes_scanned" false)
      outputRowsSum := sumInts (contributing parsed "output_rows" true)
      inputRowsSum := sumInts (contributing parsed "input_rows" true)
      joinTimeSSum := sumDurations floats (contributing parsed "join_time" true)
      buildTimeSSum := sumDurations floats (contributing parsed "build_time" true)
      buildMemUsedSum := sumInts (contributing parsed "build_mem_used" true)
      buildMemUsedMax := maxInts (contributing parsed "build_mem_used" true)
      peakMemUsedMax := maxInts (contributing parsed "peak_mem_used" false) }

/-! ## The displayed lines -/

/-- A line of a displayed plan: the operator behind its indentation, what is said of it, and
its list of metrics. -/
structure DisplayLine where
  indent : Nat
  operator : List Char
  arguments : List Char
  metricsList : List Char
  operator_plain : ':' ∉ operator ∧ ',' ∉ operator
  arguments_start : arguments.head? = some ':' ∨ arguments.head? = some ','
  list_plain : ']' ∉ metricsList

namespace DisplayLine

/-- What is displayed before the list. -/
def lead (l : DisplayLine) : List Char := List.replicate l.indent ' ' ++ l.operator ++ l.arguments

def text (l : DisplayLine) : List Char :=
  l.lead ++ ("metrics=[".toList ++ (l.metricsList ++ [']']))

/-- The operators that join are those that the engine calls so. -/
def IsJoin (l : DisplayLine) : Prop := isJoin l.operator

instance (l : DisplayLine) : Decidable l.IsJoin := inferInstanceAs (Decidable (_ = true))

/-- The metrics of the operator. -/
def metrics (l : DisplayLine) : List (String × String) := parseMetrics l.metricsList

/-- The metrics of the first list in the text. -/
def shown (l : DisplayLine) : List (String × String) :=
  ((search metricsListAt l.text).map parseMetrics).getD []

end DisplayLine

/-- The metrics that are added up over the joins. -/
def joinKeys : List String :=
  ["output_rows", "input_rows", "join_time", "build_time", "build_mem_used"]

/-- The line does not mislead: for a join, what comes before its list does not look like a list
with other values; any other operator mentions no join, or shows no metric of a join. -/
structure Clear (l : DisplayLine) : Prop where
  ofJoin : l.IsJoin → ∀ key ∈ joinKeys, OrdDict.get? l.shown key = OrdDict.get? l.metrics key
  ofOther : ¬ l.IsJoin → isJoin l.text → ∀ key ∈ joinKeys, OrdDict.get? l.shown key = none

/-- A metric of the join operators, with the numbers of their lines. -/
def joinEntries (lines : List DisplayLine) (key : String) : List (Nat × String) :=
  lines.zipIdx.filterMap fun p =>
    if p.1.IsJoin then (OrdDict.get? p.1.metrics key).map fun v => (p.2, v) else none

/-- The totals of the joins are over the lines of the join operators, and over no other line. -/
structure JoinsOnly {F : Type} (floats : Floats F) (displayText : String)
    (lines : List DisplayLine) : Prop where
  contributing : ∀ key ∈ joinKeys,
    contributing (parsedLines displayText) key true = joinEntries lines key
  totals : ∃ m, parsePlanMetrics floats (.ok displayText) = some m ∧
    m.outputRowsSum = sumInts (joinEntries lines "output_rows") ∧
    m.inputRowsSum = sumInts (joinEntries lines "input_rows") ∧
    m.joinTimeSSum = sumDurations floats (joinEntries lines "join_time") ∧
    m.buildTimeSSum = sumDurations floats (joinEntries lines "build_time") ∧
    m.buildMemUsedSum = sumInts (joinEntries lines "build_mem_used") ∧
    m.buildMemUsedMax = maxInts (joinEntries lines "build_mem_used")

/-! ## Which list is read -/

theorem metricsListAt_own {l : List Char} (hl : ']' ∉ l) (rest : List Char) :
    metricsListAt ("metrics=[".toList ++ (l ++ ']' :: rest)) = if l = [] then none else some l := by
  have hlead : "metrics=[".toList <+: "metrics=[".toList ++ (l ++ ']' :: rest) :=
    List.prefix_append ..
  have htake : (l ++ ']' :: rest).takeWhile (· ≠ ']') = l := by
    rw [List.takeWhile_append_of_pos]
    · simp
    · intro c hc
      exact decide_eq_true fun he => hl (he ▸ hc)
  rw [metricsListAt, List.drop_left]
  cases l with
  | nil => exact if_neg fun h => h.2.2 rfl
  | cons c l =>
    have hhead : ((c :: l) ++ ']' :: rest).head? ≠ some ']' := by
      intro he
      obtain rfl : c = ']' := Option.some.inj he
      exact hl (List.mem_cons_self ..)
    rw [if_pos ⟨hlead, by simp, hhead⟩, if_neg (List.cons_ne_nil c l)]
    exact congrArg some htake

/-- Where the arguments hold no other list, the metrics shown are those of the operator. -/
theorem shown_of_plain {l : DisplayLine} (h : ¬ "metrics=[".toList <:+: l.lead) :
    l.shown = l.metrics := by
  have hpass : search metricsListAt l.text =
      search metricsListAt ("metrics=[".toList ++ (l.metricsList ++ [']'])) := by
    refine Search.search_append fun t hne ht => if_neg fun hm => ?_
    exact Search.not_prefix_append (by decide) hne (fun hi => h (hi.trans ht.isInfix)) hm.1
  rw [DisplayLine.shown, DisplayLine.metrics, hpass]
  by_cases hnil : l.metricsList = []
  · rw [hnil]
    decide +kernel
  · have hown := metricsListAt_own l.list_plain []
    rw [if_neg hnil] at hown
    rw [Search.search_of_match hown]
    rfl

theorem joinAt_append {t r : List Char} (h : (joinAt t).isSome) : (joinAt (t ++ r)).isSome := by
  rw [joinAt] at h ⊢
  split at h
  next hj =>
    have hlen : 4 ≤ t.length := by
      have := hj.1
      rw [List.length_take] at this
      omega
    rw [List.take_append_of_le_length hlen, if_pos hj]
    rfl
  next => exact absurd h (by simp)

/-- A join operator is always counted. -/
theorem isJoin_text {l : DisplayLine} (h : l.IsJoin) : isJoin l.text := by
  refine Search.search_isSome_of_infix (fun t r => joinAt_append) ?_ h
  exact ⟨List.replicate l.indent ' ', l.arguments ++ ("metrics=[".toList ++ (l.metricsList ++ [']'])),
    by simp [DisplayLine.text, DisplayLine.lead]⟩

/-! ## Which lines count -/

theorem mem_numbered {α β : Type} {f : α → Option β} {l : List α} {a : α} {i : Nat}
    (ha : l[i]? = some a) (b : β) :
    (i, b) ∈ (l.zipIdx.filterMap fun p => (f p.1).map fun b => (p.2, b)) ↔ f a = some b := by
  simp only [List.mem_filterMap, Option.map_eq_some_iff, Prod.mk.injEq]
  constructor
  · intro h
    obtain ⟨p, hp, b', hb, hi, rfl⟩ := h
    rw [List.mem_zipIdx_iff_getElem?, hi, ha] at hp
    rwa [← Option.some.inj hp] at hb
  · intro h
    exact ⟨(a, i), List.mem_zipIdx_iff_getElem?.mpr ha, b, h, rfl, rfl⟩

/-- Entries that carry the number of their line agree exactly if they agree line by line. -/
theorem numbered_inj {α β : Type} {f g : α → Option β} {l : List α} :
    (l.zipIdx.filterMap fun p => (f p.1).map fun b => (p.2, b)) =
      (l.zipIdx.filterMap fun p => (g p.1).map fun b => (p.2, b)) ↔ ∀ a ∈ l, f a = g a := by
  constructor
  · intro h a ha
    obtain ⟨i, hi⟩ := List.mem_iff_getElem?.mp ha
    exact Option.ext fun b => by rw [← mem_numbered hi b, h, mem_numbered hi b]
  · intro h
    refine List.filterMap_congr fun p hp => ?_
    rw [h p.1 (List.mem_of_getElem? (List.mem_zipIdx_iff_getElem?.mp hp))]

/-- What a line adds to a total over the joins. -/
def added (key : String) (l : DisplayLine) : Option String :=
  if isJoin l.text then OrdDict.get? l.shown key else none

/-- What it would add if operators were told by their names. -/
def due (key : String) (l : DisplayLine) : Option String :=
  if l.IsJoin then OrdDict.get? l.metrics key else none

theorem contributing_eq {displayText : String} {lines : List DisplayLine}
    (h : splitlines displayText.toList = lines.map DisplayLine.text) (key : String) :
    contributing (parsedLines displayText) key true =
      lines.zipIdx.filterMap fun p => (added key p.1).map fun v => (p.2, v) := by
  rw [contributing, parsedLines, h, List.zipIdx_map, List.filterMap_map, List.filterMap_filterMap]
  refine List.filterMap_congr fun p _ => ?_
  cases hm : search metricsListAt p.1.text with
  | none => simp [hm, added, DisplayLine.shown]
  | some l =>
    by_cases hj : isJoin p.1.text
    · simp [hm, added, DisplayLine.shown, hj]
    · simp [hm, added, hj]

theorem joinEntries_eq (lines : List DisplayLine) (key : String) : joinEntries lines key =
    lines.zipIdx.filterMap fun p => (due key p.1).map fun v => (p.2, v) := by
  refine List.filterMap_congr fun p _ => ?_
  by_cases hj : p.1.IsJoin
  · rw [due, if_pos hj, if_pos hj]
  · rw [due, if_neg hj, if_neg hj, Option.map_none]

theorem clear_iff {l : DisplayLine} : Clear l ↔ ∀ key ∈ joinKeys, added key l = due key l := by
  constructor
  · intro h key hkey
    by_cases hj : l.IsJoin
    · rw [added, due, if_pos hj, if_pos (isJoin_text hj), h.ofJoin hj key hkey]
    · rw [added, due, if_neg hj]
      split
      next ht => exact h.ofOther hj ht key hkey
      next => rfl
  · intro h
    refine ⟨fun hj key hkey => ?_, fun hj ht key hkey => ?_⟩
    · have := h key hkey
      rwa [added, due, if_pos hj, if_pos (isJoin_text hj)] at this
    · have := h key hkey
      rwa [added, due, if_neg hj, if_pos ht] at this

/-- **The totals are those of the join operators exactly if every line is clear.** -/
theorem joinsOnly_iff_clear {F : Type} (floats : Floats F) (displayText : String)
    (lines : List DisplayLine) (h : splitlines displayText.toList = lines.map DisplayLine.text) :
    JoinsOnly floats displayText lines ↔ ∀ l ∈ lines, Clear l := by
  have hline : (∀ key ∈ joinKeys,
      contributing (parsedLines displayText) key true = joinEntries lines key) ↔
        ∀ l ∈ lines, Clear l := by
    simp only [clear_iff, contributing_eq h, joinEntries_eq, numbered_inj]
    exact ⟨fun hk l hl key hkey => hk key hkey l hl, fun hl key hkey l hmem => hl l hmem key hkey⟩
  rw [← hline]
  constructor
  · intro hj
    exact hj.contributing
  · intro hk
    refine ⟨hk, _, rfl, ?_⟩
    have hrows := hk "output_rows" (by simp [joinKeys])
    have hinput := hk "input_rows" (by simp [joinKeys])
    have htime := hk "join_time" (by simp [joinKeys])
    have hbuild := hk "build_time" (by simp [joinKeys])
    have hmem := hk "build_mem_used" (by simp [joinKeys])
    exact ⟨congrArg sumInts hrows, congrArg sumInts hinput, congrArg (sumDurations floats) htime,
      congrArg (sumDurations floats) hbuild, congrArg sumInts hmem, congrArg maxInts hmem⟩

/-- Column names without joins in them, and without brackets, mislead nowhere. -/
theorem clear_of_plain {l : DisplayLine} (hlist : ¬ "metrics=[".toList <:+: l.lead)
    (hjoin : ¬ l.IsJoin → ¬ isJoin l.text) : Clear l :=
  ⟨fun _ _ _ => by rw [shown_of_plain hlist], fun hj ht => absurd ht (hjoin hj)⟩

/-- A scan under a join, and a filter on a column whose name mentions one. -/
def hashJoinLine : DisplayLine :=
  ⟨0, "HashJoinExec".toList, ": on=[(a@0, b@0)], ".toList, "output_rows=3, join_time=2ms".toList,
    by decide +kernel, by decide +kernel, by decide +kernel⟩

def scanLine : DisplayLine :=
  ⟨2, "DataSourceExec".toList, ": ".toList, "output_rows=7".toList,
    by decide +kernel, by decide +kernel, by decide +kernel⟩

def filterLine : DisplayLine :=
  ⟨0, "FilterExec".toList, ": join_date@2 > 5, ".toList, "output_rows=10".toList,
    by decide +kernel, by decide +kernel, by decide +kernel⟩

def joinDisplay : String :=
  "HashJoinExec: on=[(a@0, b@0)], metrics=[output_rows=3, join_time=2ms]\n" ++
    "  DataSourceExec: metrics=[output_rows=7]\n"

def filterDisplay : String := "FilterExec: join_date@2 > 5, metrics=[output_rows=10]"

/-- Exact numbers, and the integers among the numerals. -/
def wholeFloats : Floats ℚ where
  float s := (fun n : Int => (n : ℚ)) <$> Py.int s
  scaled x n := x / 10 ^ n
  sum := List.sum

theorem joinDisplay_joinsOnly : JoinsOnly wholeFloats joinDisplay [hashJoinLine, scanLine] :=
  (joinsOnly_iff_clear wholeFloats joinDisplay [hashJoinLine, scanLine] (by decide +kernel)).mpr
    (List.forall_mem_cons.mpr ⟨clear_of_plain (by decide +kernel) (by decide +kernel),
      List.forall_mem_singleton.mpr (clear_of_plain (by decide +kernel) (by decide +kernel))⟩)

/-- The filter counts as a join, with its ten rows. -/
theorem filterDisplay_counted :
    splitlines filterDisplay.toList = [filterLine].map DisplayLine.text ∧ ¬ filterLine.IsJoin ∧
      (parsePlanMetrics wholeFloats (.ok filterDisplay)).map PlanMetrics.outputRowsSum =
        some (some 10) ∧ ¬ JoinsOnly wholeFloats filterDisplay [filterLine] := by
  refine ⟨by decide +kernel, by decide +kernel, by decide +kernel, fun h => ?_⟩
  exact absurd (h.contributing "output_rows" (by decide +kernel)) (by decide +kernel)

end DbPlanBench.Optimize
