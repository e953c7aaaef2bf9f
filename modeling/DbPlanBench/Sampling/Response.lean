import DbPlanBench.Json.Text
import DbPlanBench.Lib.Search
import DbPlanBench.QueryGen.Step

/-!
# The patches of a response

A model answers in free text, with the patches as a JSON array between `<patch>` and
`</patch>`. The text is cut twice: at the first of these tags, and the first closing tag after
it; and from the first opening bracket between them to the last closing one. What is inside the
array may hold brackets, in strings and in nested values; it is the text around the array that
may not (`extractPatches_response`).
-/

namespace DbPlanBench.Sampling

open Search (search before? beforeLast?)

/-! ## The source -/

/-- `s.strip()`, and what `\s*` on both sides leaves. -/
def strip (s : List Char) : List Char :=
  ((s.dropWhile QueryGen.isSpace).reverse.dropWhile QueryGen.isSpace).reverse

/-- The group that `<patch>\s*(.*?)\s*</patch>` matches at the start of a text. -/
def patchAt (text : List Char) : Option (List Char) :=
  if "<patch>".toList <+: text then
    (before? "</patch>".toList (text.drop "<patch>".toList.length)).map strip
  else none

/-- The group that `\[(.*)\]` matches at the start of a text. -/
def arrayAt : List Char → Option (List Char)
  | '[' :: text => beforeLast? ']' text
  | _ => none

/-- `extract_patches_from_response`. -/
def extractPatchesFromResponse (float : List Char → PyFloat) (content : String) :
    Option (List Json) :=
  match search patchAt content.toList with
  | none => none
  | some group =>
    match search arrayAt (strip group) with
    | none => none
    | some inner =>
      match JsonText.loads float ('[' :: (inner ++ [']'])) with
      | some (.arr patches) => some patches
      | _ => none

/-! ## The cuts -/

/-- A letter that is kept ends the stripping before it. -/
theorem dropWhile_append_cons {p : Char → Bool} {c : Char} (hc : p c = false) (rest : List Char) :
    ∀ a : List Char, ∃ b, (a ++ c :: rest).dropWhile p = b ++ c :: rest ∧ b <:+ a
  | [] => ⟨[], List.dropWhile_cons_of_neg (by simp [hc]), List.suffix_refl _⟩
  | d :: a => by
    rw [List.cons_append]
    cases hd : p d with
    | true =>
      obtain ⟨b, hb, hsuf⟩ := dropWhile_append_cons hc rest a
      exact ⟨b, by rw [List.dropWhile_cons_of_pos hd, hb], hsuf.trans (List.suffix_cons d a)⟩
    | false => exact ⟨d :: a, List.dropWhile_cons_of_neg (by simp [hd]), List.suffix_refl _⟩

/-- Stripping takes nothing of what stands between two letters that are kept. -/
theorem strip_between {c d : Char} (hc : QueryGen.isSpace c = false)
    (hd : QueryGen.isSpace d = false) (a m b : List Char) :
    ∃ a' b', strip (a ++ c :: (m ++ d :: b)) = a' ++ c :: (m ++ d :: b') ∧ a' <:+ a ∧ b' <+: b := by
  obtain ⟨a', ha, hsuf⟩ := dropWhile_append_cons hc (m ++ d :: b) a
  have hrev : (a' ++ c :: (m ++ d :: b)).reverse =
      b.reverse ++ d :: (m.reverse ++ c :: a'.reverse) := by simp
  obtain ⟨b', hb, hpre⟩ := dropWhile_append_cons hd (m.reverse ++ c :: a'.reverse) b.reverse
  refine ⟨a', b'.reverse, ?_, hsuf, ?_⟩
  · rw [strip, ha, hrev, hb]
    simp
  · rw [← List.reverse_reverse b]
    exact List.reverse_prefix.mpr hpre

/-- The block is what stands before the first closing tag, without white space around it. -/
theorem search_patchAt {pre body : List Char} (hpre : ¬ "<patch>".toList <:+: pre)
    (hbody : ¬ "</patch>".toList <:+: body) (post : List Char) :
    search patchAt (pre ++ ("<patch>".toList ++ (body ++ ("</patch>".toList ++ post)))) =
      some (strip body) := by
  have hpass : ∀ t, t ≠ [] → t <:+ pre →
      patchAt (t ++ ("<patch>".toList ++ (body ++ ("</patch>".toList ++ post)))) = none := by
    intro t hne ht
    exact if_neg (Search.not_prefix_append (by decide +kernel) hne fun hi =>
      hpre (hi.trans ht.isInfix))
  rw [Search.search_append hpass]
  refine Search.search_of_match ?_
  rw [patchAt, if_pos (List.prefix_append ..), List.drop_left,
    Search.before?_append (by decide +kernel) hbody]
  rfl

/-- The array is what stands from the first opening bracket to the last closing one. -/
theorem search_arrayAt {a m b : List Char} (ha : '[' ∉ a) (hb : ']' ∉ b) :
    search arrayAt (a ++ '[' :: (m ++ ']' :: b)) = some m := by
  have hpass : ∀ t, t ≠ [] → t <:+ a → arrayAt (t ++ '[' :: (m ++ ']' :: b)) = none := by
    intro t hne ht
    cases t with
    | nil => exact absurd rfl hne
    | cons c t =>
      rw [List.cons_append, arrayAt]
      intro text he
      obtain rfl : c = '[' := (List.cons_eq_cons.mp he).1
      exact ha (ht.subset (List.mem_cons_self ..))
  rw [Search.search_append hpass]
  exact Search.search_of_match (Search.beforeLast?_append hb m)

/-- **The patches of a response are those that were written into it**, but for the limits that the
interpreter sets to nesting and to the digits of a numeral. -/
theorem extractPatches_response (float : List Char → PyFloat) (patches : List Json)
    (preamble before s after postscript : String)
    (hs : JsonText.Writes float (.value (.arr patches)) s.toList)
    (hclosing : ¬ "</patch>".toList <:+: s.toList)
    (hpreamble : ¬ "<patch>".toList <:+: preamble.toList)
    (hbefore : '[' ∉ before.toList ∧ ']' ∉ before.toList ∧ ¬ "</patch>".toList <:+: before.toList)
    (hafter : '[' ∉ after.toList ∧ ']' ∉ after.toList ∧ ¬ "</patch>".toList <:+: after.toList) :
    extractPatchesFromResponse float
      (preamble ++ "<patch>" ++ before ++ s ++ after ++ "</patch>" ++ postscript) = some patches := by
  obtain ⟨m, hm⟩ := hs.brackets
  have hcontent : (preamble ++ "<patch>" ++ before ++ s ++ after ++ "</patch>" ++ postscript).toList =
      preamble.toList ++ ("<patch>".toList ++ ((before.toList ++ (s.toList ++ after.toList)) ++
        ("</patch>".toList ++ postscript.toList))) := by
    simp only [String.toList_append, List.append_assoc]
  have hbody : ¬ "</patch>".toList <:+: before.toList ++ (s.toList ++ after.toList) := by
    have hopen : '[' ∉ "</patch>".toList := by decide +kernel
    have hclose : ']' ∉ "</patch>".toList := by decide +kernel
    rw [hm, List.cons_append, List.append_assoc, List.singleton_append,
      Search.infix_append_cons_iff hopen, Search.infix_append_cons_iff hclose]
    rintro (h | h | h)
    · exact hbefore.2.2 h
    · refine hclosing (h.trans ?_)
      rw [hm]
      exact ⟨['['], [']'], by simp⟩
    · exact hafter.2.2 h
  -- two strippings leave the array with some of the text around it
  obtain ⟨a, b, hfirst, ha, hb⟩ := strip_between (c := '[') (d := ']') (by decide) (by decide)
    before.toList m after.toList
  obtain ⟨a', b', hsecond, ha', hb'⟩ := strip_between (c := '[') (d := ']') (by decide) (by decide)
    a m b
  have hloads := JsonText.loads_of_writes hs
  rw [extractPatchesFromResponse, hcontent, search_patchAt hpreamble hbody, hm]
  have hbrackets : '[' :: (m ++ [']']) ++ after.toList = '[' :: (m ++ ']' :: after.toList) := by simp
  rw [hbrackets, hfirst]
  show (match search arrayAt (strip (a ++ '[' :: (m ++ ']' :: b))) with
    | none => none
    | some inner => _) = _
  rw [hsecond, search_arrayAt (fun h => hbefore.1 ((ha'.trans ha).subset h))
    fun h => hafter.2.1 ((hb'.trans hb).subset h)]
  show (match JsonText.loads float ('[' :: (m ++ [']'])) with
    | some (.arr patches) => _
    | _ => _) = _
  rw [← hm, hloads]

/-- A patch that removes an element, and the text of its list. -/
def removal : Json := .obj [("op", .str "remove"), ("path", .str "/b[0]")]

def removalText : String := "[\x7b\"op\": \"remove\", \"path\": \"/b[0]\"\x7d]"

theorem writes_removal (float : List Char → PyFloat) :
    JsonText.Writes float (.value (.arr [removal])) removalText.toList := by
  have hstr : ∀ {t : List Char}, (t.all fun c => 0x20 ≤ c.toNat && c != '"' && c != '\\') →
      JsonText.Writes float (.value (.str (String.ofList t))) ('"' :: (t ++ ['"'])) :=
    fun ht => .str (JsonText.spells_self ht)
  have hpath := @JsonText.Writes.lastMember float _ _ _ [] [' '] [] _
    (JsonText.spells_self (t := ['p', 'a', 't', 'h']) (by decide)) rfl rfl
    (hstr (t := ['/', 'b', '[', '0', ']']) (by decide)) rfl
  have hop := @JsonText.Writes.member float _ _ _ _ [] [' '] [] [' '] _ _
    (JsonText.spells_self (t := ['o', 'p']) (by decide)) rfl rfl
    (hstr (t := ['r', 'e', 'm', 'o', 'v', 'e']) (by decide)) rfl rfl hpath
  have hobj := @JsonText.Writes.obj float [] _ _ rfl hop
  exact @JsonText.Writes.arr float [] _ _ rfl (@JsonText.Writes.lastElement float _ _ [] hobj rfl)

theorem extractPatches_removal : extractPatchesFromResponse (fun _ => ⟨false, 0⟩)
    ("I remove it. " ++ "<patch>" ++ "\n```json\n" ++ removalText ++ "\n```\n" ++ "</patch>" ++ " Done.") =
      some [removal] :=
  extractPatches_response (fun _ => ⟨false, 0⟩) [removal] "I remove it. " "\n```json\n" removalText
    "\n```\n" " Done." (writes_removal _) (by decide +kernel) (by decide +kernel)
    (by decide +kernel) (by decide +kernel)

end DbPlanBench.Sampling
