import DbPlanBench.Lib.Search

/-!
# Templates

A text with quoted slots in it, each of which holds a token: a name with a fixed ending. Tokens
are filled by replacing copies of a key with that ending, wherever in the text they are. A key
reaches the tokens whose name ends in it, so it may fill less than a whole token, and what it
leaves may be a token again (`fate`). A key that holds the quote can reach out of a slot, into
the text around it.

Where no such key occurs at its turn, each slot is filled on its own (`fill_text`). Where one
does, it takes a quote away that never comes back (`count_fill_lt`).
-/

namespace Template

open Search (Unbordered replace)

variable {α : Type}

/-- The quote around a slot, and the ending of a token. -/
structure Marks (α : Type) where
  quote : α
  ending : List α
  unbordered : Unbordered ending
  quote_not_mem : quote ∉ ending

variable (M : Marks α)

namespace Marks

theorem ending_ne_nil : M.ending ≠ [] := fun h => by
  have := M.unbordered
  rw [h] at this
  exact this

/-- A key ends in the token, which it can then not overlap. -/
theorem suffix_of_infix {name key : List α} (hname : ¬ M.ending <:+: name)
    (h : key ++ M.ending <:+: name ++ M.ending) : key <:+ name := by
  obtain ⟨s, r, hs⟩ := h
  have hs' : (s ++ key) ++ (M.ending ++ r) = name ++ M.ending := by
    rw [← hs]
    simp only [List.append_assoc]
  rcases List.append_eq_append_iff.mp hs' with ⟨d, hd, he⟩ | ⟨d, hd, he⟩
  · by_cases hnil : d = []
    · rw [hnil, List.append_nil] at hd
      exact ⟨s, hd.symm⟩
    · -- the ending would start before the ending
      have hin : ¬ M.ending <:+: d := fun hi =>
        hname (hi.trans (hd ▸ List.suffix_append (s ++ key) d).isInfix)
      have hp : M.ending <+: d ++ (M.ending ++ []) :=
        ⟨r, by rw [List.append_nil, he]⟩
      exact absurd hp (Search.not_prefix_append M.unbordered hnil hin)
  · have hlen := congrArg List.length he
    simp only [List.length_append] at hlen
    have hnil : d = [] := List.length_eq_zero_iff.mp (by omega)
    rw [hnil, List.append_nil] at hd
    exact ⟨s, hd⟩

/-- A key in a name starts only where the name ends with it. -/
theorem not_prefix {t key : List α} (hne : t ≠ []) (h : ¬ M.ending <:+: t ++ key) :
    ¬ key ++ M.ending <+: t ++ (key ++ M.ending) := by
  intro hp
  have hkey : key <+: t ++ key := by
    have hleft : key <+: t ++ (key ++ M.ending) := (List.prefix_append ..).trans hp
    have hright : t ++ key <+: t ++ (key ++ M.ending) :=
      (List.prefix_append_right_inj t).mpr (List.prefix_append ..)
    exact List.prefix_of_prefix_length_le hleft hright (by simp)
  obtain ⟨d, hd⟩ := hkey
  have hdne : d ≠ [] := by
    intro hnil
    have := congrArg List.length hd
    rw [hnil, List.append_nil, List.length_append] at this
    exact hne (List.length_eq_zero_iff.mp (by omega))
  have hin : ¬ M.ending <:+: d := fun hi => h (hi.trans (hd ▸ List.suffix_append key d).isInfix)
  rw [← List.append_assoc, ← hd, List.append_assoc, List.prefix_append_right_inj] at hp
  exact Search.not_prefix_append M.unbordered hdne hin (by rwa [List.append_nil])

end Marks

/-- A text: each slot behind its code, and what comes after the last one. -/
def text : List (List α × List α) → List α → List α
  | [], tail => tail
  | (code, s) :: rest, tail => code ++ M.quote :: (s ++ M.quote :: text rest tail)

/-- A text whose code holds no ending, and whose slots hold no quote. -/
structure Sound (slots : List (List α × List α)) (tail : List α) : Prop where
  code : ∀ p ∈ slots, ¬ M.ending <:+: p.1
  slot : ∀ p ∈ slots, M.quote ∉ p.2
  tail : ¬ M.ending <:+: tail

theorem Sound.of_cons {M : Marks α} {p : List α × List α} {rest : List (List α × List α)}
    {tail : List α} (h : Sound M (p :: rest) tail) : Sound M rest tail :=
  ⟨fun q hq => h.code q (List.mem_cons_of_mem _ hq),
    fun q hq => h.slot q (List.mem_cons_of_mem _ hq), h.tail⟩

variable [DecidableEq α]

/-- A text after all entries: keys with the ending, and what is put for them. -/
def fill (entries : List (List α × List α)) (s : List α) : List α :=
  entries.foldl (fun s e => replace (e.1 ++ M.ending) e.2 s) s

/-- No key that holds the quote occurs at its turn, in the text whose slots the entries before
it have filled. -/
def Contained (tail : List α) :
    List (List α × List α) → List (List α × List α) → Prop
  | [], _ => True
  | e :: entries, slots =>
    (M.quote ∈ e.1 → ¬ e.1 ++ M.ending <:+: text M slots tail) ∧
      Contained tail entries (slots.map fun p => (p.1, replace (e.1 ++ M.ending) e.2 p.2))

instance decidableContained (tail : List α) :
    ∀ entries slots, Decidable (Contained M tail entries slots)
  | [], _ => isTrue trivial
  | _ :: entries, _ => @instDecidableAnd _ _ inferInstance (decidableContained tail entries _)

section

variable {M}

theorem replace_code {s : List α} (h : ¬ M.ending <:+: s) (key value : List α) :
    replace (key ++ M.ending) value s = s :=
  Search.replace_of_not_infix fun hi => h ((List.suffix_append key M.ending).isInfix.trans hi)

/-- A key without a quote fills each slot on its own. -/
theorem replace_text_of_quote_not_mem {key : List α} (hkey : M.quote ∉ key) (value : List α) :
    ∀ {slots : List (List α × List α)} {tail : List α}, Sound M slots tail →
      replace (key ++ M.ending) value (text M slots tail) =
        text M (slots.map fun p => (p.1, replace (key ++ M.ending) value p.2)) tail
  | [], tail, h => replace_code h.tail key value
  | (code, s) :: rest, tail, h => by
    have hne : key ++ M.ending ≠ [] := by simp [M.ending_ne_nil]
    have hq : M.quote ∉ key ++ M.ending := by simp [hkey, M.quote_not_mem]
    rw [text, Search.replace_append_cons hne hq, Search.replace_append_cons hne hq,
      replace_code (h.code _ (List.mem_cons_self ..)),
      replace_text_of_quote_not_mem hkey value h.of_cons]
    rfl

/-- **A key that holds a quote only if it does not occur fills each slot on its own.** -/
theorem replace_text {key : List α} (value : List α) {slots : List (List α × List α)}
    {tail : List α} (h : Sound M slots tail)
    (hkey : M.quote ∈ key → ¬ key ++ M.ending <:+: text M slots tail) :
    replace (key ++ M.ending) value (text M slots tail) =
      text M (slots.map fun p => (p.1, replace (key ++ M.ending) value p.2)) tail := by
  by_cases hmem : M.quote ∈ key
  · -- no slot holds the key either
    have hslot : ∀ p ∈ slots, (p.1, replace (key ++ M.ending) value p.2) = p := by
      intro p hp
      have hnot : ¬ key ++ M.ending <:+: p.2 := fun hi =>
        h.slot p hp (hi.subset (List.mem_append_left _ hmem))
      rw [Search.replace_of_not_infix hnot]
    rw [List.map_congr_left (g := id) hslot, List.map_id]
    exact Search.replace_of_not_infix (hkey hmem)
  · exact replace_text_of_quote_not_mem hmem value h

theorem Sound.replace {slots : List (List α × List α)} {tail : List α} (h : Sound M slots tail)
    (key : List α) {value : List α} (hvalue : M.quote ∉ value) :
    Sound M (slots.map fun p => (p.1, replace (key ++ M.ending) value p.2)) tail := by
  refine ⟨fun q hq => ?_, fun q hq => ?_, h.tail⟩
  · obtain ⟨p, hp, rfl⟩ := List.mem_map.mp hq
    exact h.code p hp
  · obtain ⟨p, hp, rfl⟩ := List.mem_map.mp hq
    exact Search.not_mem_replace hvalue (h.slot p hp)

/-- **The text after all entries is that of its slots after all entries.** -/
theorem fill_text {tail : List α} : ∀ {entries slots : List (List α × List α)},
    Sound M slots tail → (∀ e ∈ entries, M.quote ∉ e.2) → Contained M tail entries slots →
      fill M entries (text M slots tail) =
        text M (slots.map fun p => (p.1, fill M entries p.2)) tail
  | [], slots, _, _, _ => congrArg (text M · tail) (List.map_id slots).symm
  | e :: entries, slots, h, hvalue, hc => by
    have hsound := h.replace e.1 (hvalue e (List.mem_cons_self ..))
    have hrest := fill_text hsound (fun d hd => hvalue d (List.mem_cons_of_mem _ hd)) hc.2
    rw [fill, List.foldl_cons, replace_text e.2 h hc.1]
    rw [fill, List.map_map] at hrest
    exact hrest

/-! ## Quotes that are taken away -/

theorem count_fill_le {q : α} : ∀ {entries : List (List α × List α)},
    (∀ e ∈ entries, q ∉ e.2) → ∀ s : List α, (fill M entries s).count q ≤ s.count q
  | [], _, _ => Nat.le_refl _
  | e :: _, h, s =>
    (count_fill_le (fun d hd => h d (List.mem_cons_of_mem _ hd)) _).trans
      (Search.count_replace_le (h e (List.mem_cons_self ..)) s)

theorem not_mem_fill {q : α} {entries : List (List α × List α)} (h : ∀ e ∈ entries, q ∉ e.2)
    {s : List α} (hs : q ∉ s) : q ∉ fill M entries s := by
  have hle := count_fill_le (M := M) h s
  rw [List.count_eq_zero.mpr hs] at hle
  exact List.count_eq_zero.mp (Nat.le_zero.mp hle)

/-- What is in the slots does not matter to the quotes. -/
theorem count_text {tail : List α} : ∀ {slots : List (List α × List α)},
    (∀ p ∈ slots, M.quote ∉ p.2) →
      (text M slots tail).count M.quote =
        (text M (slots.map fun p => (p.1, [])) tail).count M.quote
  | [], _ => rfl
  | (code, s) :: rest, h => by
    have hrest : (text M rest tail).count M.quote =
        (text M (rest.map fun p => (p.1, [])) tail).count M.quote :=
      count_text fun p hp => h p (List.mem_cons_of_mem _ hp)
    have hs : s.count M.quote = 0 := List.count_eq_zero.mpr (h _ (List.mem_cons_self ..))
    rw [List.map_cons, text, text, List.count_append, List.count_append, List.count_cons,
      List.count_cons, List.count_append, List.count_append, List.count_cons, List.count_cons,
      hrest, hs, List.count_nil]

/-- **A key that takes a quote away leaves fewer of them than the text had.** -/
theorem count_fill_lt {tail : List α} : ∀ {entries slots : List (List α × List α)},
    Sound M slots tail → (∀ e ∈ entries, M.quote ∉ e.2) → ¬ Contained M tail entries slots →
      (fill M entries (text M slots tail)).count M.quote < (text M slots tail).count M.quote
  | [], _, _, _, hc => absurd trivial hc
  | e :: entries, slots, h, hvalue, hc => by
    have hfirst := hvalue e (List.mem_cons_self ..)
    have hlater : ∀ d ∈ entries, M.quote ∉ d.2 := fun d hd => hvalue d (List.mem_cons_of_mem _ hd)
    rw [fill, List.foldl_cons]
    by_cases hkey : M.quote ∈ e.1 → ¬ e.1 ++ M.ending <:+: text M slots tail
    · have hrest := count_fill_lt (h.replace e.1 hfirst) hlater fun hc' => hc ⟨hkey, hc'⟩
      rw [← replace_text e.2 h hkey] at hrest
      exact hrest.trans_le (Search.count_replace_le hfirst _)
    · rw [Classical.not_imp, not_not] at hkey
      have hlt := Search.count_replace_lt (List.mem_append_left M.ending hkey.1) hfirst hkey.2
      exact (count_fill_le hlater _).trans_lt hlt

end

/-! ## Tokens -/

/-- The first entry whose key the name ends in, and the entries behind it. -/
def touch (name : List α) :
    List (List α × List α) → Option ((List α × List α) × List (List α × List α))
  | [] => none
  | e :: entries => if e.1 <:+ name then some (e, entries) else touch name entries

/-- What an entry leaves of a token. -/
def fillWith (name : List α) (e : List α × List α) : List α :=
  name.take (name.length - e.1.length) ++ e.2

/-- What happens to a token: no key reaches it, one does, or one does and leaves a token, of
which the later entries make a text. -/
inductive Fate (α : Type) where
  | kept
  | given (key value : List α)
  | formed (text : List α)
deriving DecidableEq

def fate (entries : List (List α × List α)) (name : List α) : Fate α :=
  match touch name entries with
  | none => .kept
  | some (e, later) =>
    if M.ending <:+: fillWith name e then .formed (fill M later (fillWith name e))
    else .given e.1 e.2

namespace Fate

/-- What the token becomes. -/
def text (name : List α) : Fate α → List α
  | kept => name ++ M.ending
  | given key value => fillWith name (key, value)
  | formed s => s

/-- What is put into the text. -/
def put : Fate α → List α
  | kept => []
  | given _ value => value
  | formed s => s

/-- The text is put for the whole token. -/
def Puts (name x : List α) (f : Fate α) : Prop := f = given name x ∨ f = formed x

instance (name x : List α) (f : Fate α) : Decidable (f.Puts name x) :=
  inferInstanceAs (Decidable (_ ∨ _))

end Fate

variable {M}

/-- A key fills a token whose name ends in it, and leaves others as they are. -/
theorem replace_token {name : List α} (hname : ¬ M.ending <:+: name) (key value : List α) :
    replace (key ++ M.ending) value (name ++ M.ending) =
      if key <:+ name then fillWith name (key, value) else name ++ M.ending := by
  by_cases hkey : key <:+ name
  · obtain ⟨p, rfl⟩ := hkey
    have hne : key ++ M.ending ≠ [] := by simp [M.ending_ne_nil]
    have htake : (p ++ key).take ((p ++ key).length - key.length) = p := by
      rw [List.length_append, Nat.add_sub_cancel, List.take_left]
    rw [if_pos (List.suffix_append p key), fillWith, htake, List.append_assoc]
    refine Search.replace_append_self hne fun t ht hsuf h => ?_
    have hin : t ++ key <:+ p ++ key := by
      obtain ⟨r, rfl⟩ := hsuf
      exact ⟨r, by rw [List.append_assoc]⟩
    exact M.not_prefix ht (fun hi => hname (hi.trans hin.isInfix)) h
  · rw [if_neg hkey]
    exact Search.replace_of_not_infix fun h => hkey (M.suffix_of_infix hname h)

/-- A text without the ending is no token. -/
theorem fill_of_not_infix {s : List α} (h : ¬ M.ending <:+: s) :
    ∀ entries : List (List α × List α), fill M entries s = s
  | [] => rfl
  | e :: entries => by
    rw [fill, List.foldl_cons, replace_code h]
    exact fill_of_not_infix h entries

theorem fill_token_touch {name : List α} (hname : ¬ M.ending <:+: name) :
    ∀ entries : List (List α × List α), fill M entries (name ++ M.ending) =
      ((touch name entries).map fun t => fill M t.2 (fillWith name t.1)).getD (name ++ M.ending)
  | [] => rfl
  | e :: entries => by
    rw [fill, List.foldl_cons, replace_token hname, touch]
    split
    next => rfl
    next => exact fill_token_touch hname entries

/-- **What the entries make of a token is what its fate says.** -/
theorem fill_token {name : List α} (hname : ¬ M.ending <:+: name)
    (entries : List (List α × List α)) :
    fill M entries (name ++ M.ending) = (fate M entries name).text M name := by
  rw [fill_token_touch hname, fate]
  cases touch name entries with
  | none => rfl
  | some t =>
    obtain ⟨e, later⟩ := t
    show fill M later (fillWith name e) = Fate.text M name (if _ then _ else _)
    split
    next => rfl
    next h => exact fill_of_not_infix h later

theorem mem_of_touch {name : List α} {e : List α × List α} {later : List (List α × List α)} :
    ∀ {entries : List (List α × List α)}, touch name entries = some (e, later) →
      e ∈ entries ∧ e.1 <:+ name
  | [], h => by simp [touch] at h
  | d :: entries, h => by
    rw [touch] at h
    split at h
    next hd =>
      obtain ⟨rfl, rfl⟩ := Prod.mk.inj (Option.some.inj h)
      exact ⟨List.mem_cons_self .., hd⟩
    next =>
      obtain ⟨he, hsuf⟩ := mem_of_touch h
      exact ⟨List.mem_cons_of_mem _ he, hsuf⟩

theorem fate_given {entries : List (List α × List α)} {name key value : List α}
    (h : fate M entries name = .given key value) : key <:+ name := by
  rw [fate] at h
  split at h
  next => simp at h
  next e later ht =>
    split at h
    next => simp at h
    next =>
      obtain ⟨rfl, rfl⟩ := Fate.given.inj h
      exact (mem_of_touch ht).2

/-- A text that does not begin as the name does can only have been put for the whole token. -/
theorem fate_text_eq_iff {c : α} {name x : List α} {entries : List (List α × List α)}
    (hx : x.head? ≠ some c) :
    (fate M entries (c :: name)).text M (c :: name) = x ↔
      (fate M entries (c :: name)).Puts (c :: name) x := by
  cases hf : fate M entries (c :: name) with
  | kept => exact iff_of_false (fun he => hx (he ▸ rfl)) (by simp [Fate.Puts])
  | formed s => simp [Fate.text, Fate.Puts]
  | given key value =>
    obtain ⟨p, hp⟩ := fate_given hf
    have hfill : fillWith (c :: name) (key, value) = p ++ value := by
      rw [fillWith, ← hp, List.length_append, Nat.add_sub_cancel, List.take_left]
    have hputs : (Fate.given key value).Puts (c :: name) x ↔ key = c :: name ∧ value = x := by
      simp [Fate.Puts]
    rw [Fate.text, hfill, hputs]
    cases p with
    | nil => exact ⟨fun he => ⟨hp, he⟩, fun he => he.2⟩
    | cons d p =>
      have hd : d = c := (List.cons_eq_cons.mp hp).1
      refine iff_of_false (fun he => hx (by rw [← he, hd]; rfl)) fun he => ?_
      have hlen := congrArg List.length hp
      rw [he.1, List.length_append] at hlen
      simp only [List.length_cons] at hlen
      omega

end Template
