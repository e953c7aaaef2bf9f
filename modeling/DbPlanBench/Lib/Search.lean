import Mathlib.Data.List.Infix

/-!
# Searching a text

The first place where a text matches, and the parts that words cut it into. A search
passes over what comes before its match, as long as no match starts there
(`search_append`). Where the first letter of a word does not occur in it again, the word
cannot start before a copy of itself and end within it, so an inserted word is found where
it was put (`before?_append`). Replacing the copies of a word goes on its own on both sides of
a letter that the word does not hold (`replace_append_cons`), and takes away a letter that the
word holds and the new text does not (`count_replace_lt`).
-/

namespace Search

section

variable {α β : Type}

/-- What matches at the first place where something does. -/
def search (m : List α → Option β) : List α → Option β
  | [] => m []
  | c :: cs => (m (c :: cs)).or (search m cs)

/-- What is passed over does not matter. -/
theorem search_append {m : List α → Option β} : ∀ {a b : List α},
    (∀ t, t ≠ [] → t <:+ a → m (t ++ b) = none) → search m (a ++ b) = search m b
  | [], _, _ => rfl
  | c :: a, b, h => by
    have hc : m (c :: a ++ b) = none := h _ (List.cons_ne_nil c a) (List.suffix_refl _)
    have ht : ∀ t, t ≠ [] → t <:+ a → m (t ++ b) = none := fun t hne ht =>
      h t hne (ht.trans (List.suffix_cons c a))
    rw [List.cons_append] at hc ⊢
    rw [search, hc, Option.none_or, search_append ht]

theorem search_of_match {m : List α → Option β} {s : List α} {x : β} (h : m s = some x) :
    search m s = some x := by
  cases s with
  | nil => exact h
  | cons c s => rw [search, h, Option.some_or]

theorem search_isSome {m : List α → Option β} : ∀ {s : List α},
    (search m s).isSome ↔ ∃ t, t <:+ s ∧ (m t).isSome
  | [] => by simp [search]
  | c :: s => by
    rw [search, Option.isSome_or, Bool.or_eq_true, search_isSome]
    simp only [List.suffix_cons_iff]
    constructor
    · intro h
      rcases h with h | ⟨t, ht, h⟩
      · exact ⟨_, Or.inl rfl, h⟩
      · exact ⟨t, Or.inr ht, h⟩
    · intro h
      obtain ⟨t, rfl | ht, h⟩ := h
      · exact Or.inl h
      · exact Or.inr ⟨t, ht, h⟩

/-- A match that does not depend on what follows is found in every longer text. -/
theorem search_isSome_of_infix {m : List α → Option β} {s u : List α}
    (hm : ∀ t r, (m t).isSome → (m (t ++ r)).isSome) (hu : u <:+: s) (h : (search m u).isSome) :
    (search m s).isSome := by
  obtain ⟨t, ht, hmatch⟩ := search_isSome.mp h
  obtain ⟨q, rfl⟩ := ht
  obtain ⟨p, r, rfl⟩ := hu
  exact search_isSome.mpr ⟨t ++ r, ⟨p ++ q, by simp⟩, hm t r hmatch⟩

/-- No copy of the word starts within it: its first letter does not occur again. -/
def Unbordered : List α → Prop
  | [] => False
  | c :: w => c ∉ w

/-- A copy of the word that starts before another ends before it. -/
theorem not_prefix_append {w : List α} (hw : Unbordered w) {t b : List α} (hne : t ≠ [])
    (ht : ¬ w <:+: t) : ¬ w <+: t ++ (w ++ b) := by
  intro h
  obtain ⟨r, hr⟩ := h
  rcases List.append_eq_append_iff.mp hr with ⟨d, rfl, _⟩ | ⟨d, rfl, hd⟩
  · exact ht (List.prefix_append w d).isInfix
  · cases t with
    | nil => exact hne rfl
    | cons c t =>
      cases d with
      | nil =>
        rw [List.append_nil] at ht
        exact ht (List.infix_refl _)
      | cons e d =>
        -- the letter after the text begins the copy
        obtain rfl : c = e := (List.cons_eq_cons.mp hd).1
        exact hw (List.mem_append_right t (List.mem_cons_self ..))

/-- A word that does not hold a letter starts before it only if it ends before it. -/
theorem prefix_append_cons {w x y : List α} {q : α} (hq : q ∉ w) :
    w <+: x ++ q :: y ↔ w <+: x := by
  refine ⟨fun h => ?_, fun h => h.trans (List.prefix_append ..)⟩
  obtain ⟨r, hr⟩ := h
  rcases List.append_eq_append_iff.mp hr with ⟨d, rfl, _⟩ | ⟨d, rfl, hd⟩
  · exact List.prefix_append ..
  · cases d with
    | nil => rw [List.append_nil]
    | cons e d =>
      obtain rfl : q = e := (List.cons_eq_cons.mp hd).1
      exact absurd (List.mem_append_right x (List.mem_cons_self ..)) hq

/-- A word without `c` is on one side of it. -/
theorem infix_append_cons_iff {l xs ys : List α} {c : α} (hc : c ∉ l) :
    l <:+: xs ++ c :: ys ↔ l <:+: xs ∨ l <:+: ys := by
  constructor
  · intro h
    obtain ⟨s, t, h⟩ := h
    rcases List.append_eq_append_iff.mp h with ⟨a, hxs, _⟩ | ⟨a, hsl, hys⟩
    · exact Or.inl ⟨s, a, hxs.symm⟩
    · cases a with
      | nil => exact Or.inl ⟨s, [], by simpa using hsl⟩
      | cons b a =>
        obtain ⟨rfl, rfl⟩ := List.cons_eq_cons.mp hys
        -- the separator comes before the word or within it
        rcases List.append_eq_append_iff.mp hsl with ⟨d, _, hl⟩ | ⟨d, _, hd⟩
        · exact absurd (hl ▸ List.mem_append_right d (List.mem_cons_self ..)) hc
        · cases d with
          | nil =>
          have hl : c :: a = l := hd
          exact absurd (hl ▸ List.mem_cons_self ..) hc
          | cons e d =>
            obtain ⟨_, rfl⟩ := List.cons_eq_cons.mp hd
            exact Or.inr ⟨d, t, rfl⟩
  · intro h
    rcases h with ⟨s, t, rfl⟩ | ⟨s, t, rfl⟩
    · exact ⟨s, t ++ c :: ys, by simp⟩
    · exact ⟨xs ++ c :: s, t, by simp⟩

end

section

variable {α : Type} [DecidableEq α]

instance : DecidablePred (Unbordered (α := α))
  | [] => inferInstanceAs (Decidable False)
  | c :: w => inferInstanceAs (Decidable (c ∉ w))

/-- What comes before the first copy of a word. -/
def before? (w : List α) : List α → Option (List α)
  | [] => if w = [] then some [] else none
  | c :: cs => if w <+: c :: cs then some [] else (before? w cs).map (c :: ·)

theorem before?_append {w : List α} (hw : Unbordered w) : ∀ {a b : List α}, ¬ w <:+: a →
    before? w (a ++ (w ++ b)) = some a
  | [], b, _ => by
    cases w with
    | nil => exact absurd hw id
    | cons c w => exact if_pos (List.prefix_append (c :: w) b)
  | c :: a, b, h => by
    have ha : ¬ w <:+: a := fun hi => h (hi.trans (List.suffix_cons c a).isInfix)
    have hc : ¬ w <+: c :: (a ++ (w ++ b)) := not_prefix_append hw (List.cons_ne_nil c a) h
    rw [List.cons_append, before?, if_neg hc, before?_append hw ha]
    rfl

/-- What comes before the last copy of a letter. -/
def beforeLast? (x : α) : List α → Option (List α)
  | [] => none
  | c :: cs =>
    match beforeLast? x cs with
    | some t => some (c :: t)
    | none => if c = x then some [] else none

theorem beforeLast?_of_not_mem {x : α} : ∀ {s : List α}, x ∉ s → beforeLast? x s = none
  | [], _ => rfl
  | c :: s, h => by
    rw [List.mem_cons, not_or] at h
    rw [beforeLast?, beforeLast?_of_not_mem h.2]
    exact if_neg fun hc => h.1 hc.symm

theorem beforeLast?_append {x : α} {b : List α} (hb : x ∉ b) : ∀ a : List α,
    beforeLast? x (a ++ x :: b) = some a
  | [] => by
    rw [List.nil_append, beforeLast?, beforeLast?_of_not_mem hb]
    exact if_pos rfl
  | c :: a => by rw [List.cons_append, beforeLast?, beforeLast?_append hb a]

/-- The parts between copies of a word, left to right; the first argument is how many letters
of the last copy are still to be passed over. -/
def splitFrom (w : List α) : Nat → List α → List (List α)
  | _, [] => [[]]
  | k + 1, _ :: cs => splitFrom w k cs
  | 0, c :: cs =>
    if w <+: c :: cs then [] :: splitFrom w (w.length - 1) cs
    else (splitFrom w 0 cs).modifyHead (c :: ·)

/-- The parts between copies of a word, none of which overlaps the one before. -/
def split (w s : List α) : List (List α) := splitFrom w 0 s

/-! ## Replacing -/

/-- What comes of a text when copies of a word are replaced, left to right; the first argument
is how many letters of the last copy are still to be passed over. -/
def replaceFrom (w v : List α) : Nat → List α → List α
  | _, [] => []
  | k + 1, _ :: cs => replaceFrom w v k cs
  | 0, c :: cs =>
    if w <+: c :: cs then v ++ replaceFrom w v (w.length - 1) cs
    else c :: replaceFrom w v 0 cs

/-- A text with the copies of a word replaced, none of which overlaps the one before. -/
def replace (w v s : List α) : List α := replaceFrom w v 0 s

theorem replace_of_not_infix {w v : List α} : ∀ {s : List α}, ¬ w <:+: s → replace w v s = s
  | [], _ => rfl
  | c :: s, h => by
    have hs : ¬ w <:+: s := fun hi => h (hi.trans (List.suffix_cons c s).isInfix)
    have htail : replaceFrom w v 0 s = s := replace_of_not_infix hs
    rw [replace, replaceFrom, if_neg fun hp => h hp.isInfix, htail]

theorem replaceFrom_of_length_le {w v : List α} : ∀ {k : Nat} {s : List α}, s.length ≤ k →
    replaceFrom w v k s = []
  | _, [], _ => by simp [replaceFrom]
  | 0, _ :: _, h => absurd h (by simp)
  | k + 1, c :: s, h => by
    rw [replaceFrom, replaceFrom_of_length_le (Nat.le_of_succ_le_succ h)]

theorem replaceFrom_append_cons {w v y : List α} {q : α} (hne : w ≠ []) (hq : q ∉ w) :
    ∀ (k : Nat) (x : List α), k ≤ x.length →
      replaceFrom w v k (x ++ q :: y) = replaceFrom w v k x ++ q :: replaceFrom w v 0 y
  | 0, [], _ => by
    have hp : ¬ w <+: q :: y := by
      intro h
      cases w with
      | nil => exact hne rfl
      | cons c w => exact hq ((List.cons_prefix_cons.mp h).1 ▸ List.mem_cons_self ..)
    exact if_neg hp
  | k + 1, [], h => absurd h (by simp)
  | k + 1, c :: x, h => by
    rw [List.cons_append, replaceFrom, replaceFrom,
      replaceFrom_append_cons hne hq k x (Nat.le_of_succ_le_succ h)]
  | 0, c :: x, _ => by
    have hiff := prefix_append_cons (x := c :: x) (y := y) hq
    rw [List.cons_append] at hiff
    rw [List.cons_append, replaceFrom, replaceFrom]
    by_cases hp : w <+: c :: x
    · have hlen : w.length - 1 ≤ x.length := by
        have := hp.length_le
        rw [List.length_cons] at this
        omega
      rw [if_pos hp, if_pos (hiff.mpr hp), replaceFrom_append_cons hne hq _ x hlen,
        List.append_assoc]
    · rw [if_neg hp, if_neg fun h => hp (hiff.mp h),
        replaceFrom_append_cons hne hq 0 x (Nat.zero_le _), List.cons_append]

/-- What stands on both sides of a letter is replaced on its own. -/
theorem replace_append_cons {w v : List α} {q : α} (hne : w ≠ []) (hq : q ∉ w) (x y : List α) :
    replace w v (x ++ q :: y) = replace w v x ++ q :: replace w v y :=
  replaceFrom_append_cons hne hq 0 x (Nat.zero_le _)

/-- A copy that ends the text, and is the only one, is replaced where it stands. -/
theorem replace_append_self {w v : List α} (hne : w ≠ []) : ∀ {p : List α},
    (∀ t, t ≠ [] → t <:+ p → ¬ w <+: t ++ w) → replace w v (p ++ w) = p ++ v
  | [], _ => by
    cases w with
    | nil => exact absurd rfl hne
    | cons c w =>
      rw [List.nil_append, replace, replaceFrom, if_pos (List.prefix_refl _),
        replaceFrom_of_length_le (by simp), List.append_nil, List.nil_append]
  | c :: p, h => by
    have hc : ¬ w <+: c :: (p ++ w) := h _ (List.cons_ne_nil c p) (List.suffix_refl _)
    have hp : replaceFrom w v 0 (p ++ w) = p ++ v := replace_append_self hne fun t ht hs =>
      h t ht (hs.trans (List.suffix_cons c p))
    rw [List.cons_append, replace, replaceFrom, if_neg hc, hp, List.cons_append]

/-- A letter that is not put in occurs at most as often as in what is not passed over. -/
theorem count_replaceFrom_le {w v : List α} {q : α} (hv : q ∉ v) : ∀ (k : Nat) (s : List α),
    (replaceFrom w v k s).count q ≤ (s.drop k).count q
  | _, [] => by simp [replaceFrom]
  | k + 1, _ :: s => count_replaceFrom_le hv k s
  | 0, c :: s => by
    have hskip := count_replaceFrom_le (w := w) hv (w.length - 1) s
    have hdrop : (s.drop (w.length - 1)).count q ≤ s.count q := (List.drop_sublist _ s).count_le q
    have hnext := count_replaceFrom_le (w := w) hv 0 s
    have hcons : s.count q ≤ (c :: s).count q := (List.sublist_cons_self c s).count_le q
    rw [replaceFrom, List.drop_zero]
    split
    next =>
      rw [List.count_append, List.count_eq_zero.mpr hv]
      omega
    next =>
      rw [List.drop_zero] at hnext
      rw [List.count_cons, List.count_cons]
      omega

theorem count_replace_le {w v : List α} {q : α} (hv : q ∉ v) (s : List α) :
    (replace w v s).count q ≤ s.count q := count_replaceFrom_le hv 0 s

/-- A copy that is replaced takes its letters away. -/
theorem count_replace_lt {w v : List α} {q : α} (hw : q ∈ w) (hv : q ∉ v) : ∀ {s : List α},
    w <:+: s → (replace w v s).count q < s.count q
  | [], h => absurd (List.eq_nil_of_infix_nil h) (List.ne_nil_of_mem hw)
  | c :: s, h => by
    rw [replace, replaceFrom]
    split
    next hp =>
      -- what comes behind the copy is what is not passed over
      obtain ⟨r, hr⟩ := hp
      have hrest : s.drop (w.length - 1) = r := by
        cases w with
        | nil => exact absurd hw (List.not_mem_nil)
        | cons d w =>
          have hs : w ++ r = s := (List.cons_eq_cons.mp hr).2
          rw [← hs, List.length_cons, Nat.add_sub_cancel, List.drop_left]
      have hle := count_replaceFrom_le (w := w) hv (w.length - 1) s
      have hpos : 0 < w.count q := List.count_pos_iff.mpr hw
      rw [hrest] at hle
      rw [← hr, List.count_append, List.count_append, List.count_eq_zero.mpr hv]
      omega
    next hp =>
      have hs : w <:+: s := (List.infix_cons_iff.mp h).resolve_left hp
      have hlt : (replaceFrom w v 0 s).count q < s.count q := count_replace_lt hw hv hs
      rw [List.count_cons, List.count_cons]
      omega

theorem not_mem_replace {w v s : List α} {q : α} (hv : q ∉ v) (hs : q ∉ s) :
    q ∉ replace w v s := by
  have hle := count_replace_le (w := w) hv s
  rw [List.count_eq_zero.mpr hs] at hle
  exact List.count_eq_zero.mp (Nat.le_zero.mp hle)

end

end Search
