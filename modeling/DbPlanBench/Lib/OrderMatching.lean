import Mathlib.Data.List.Sort
import Mathlib.Order.WellFoundedSet

/-!
# Matching ids class by class, in order

Two lists give ids their classes. `OrderMatching` says of a partial function that it
matches the ids of the first list with ids of the second one: each with an id of its
class, no two with the same, in increasing order within a class, and without leaving
out an id of the second list for a greater one.

* `OrderMatching.unique` — there is at most one such function, so what it is does not
  depend on how the two lists are ordered.
* `OrderMatching.of_zip` — pairing the sorted ids of every class position by position is
  one, if no class is larger in the first list.
* `OrderMatching.keep` — keeping every id is one, if the two lists are the same.
* `OrderMatching.comp` — first one, then another is one; so two that lead back and forth are
  inverse to each other (`OrderMatching.inverse`).

The proof of uniqueness is by induction on the id: were the two functions to differ
first at `a`, the lesser of their two values would be left out by one of them.
-/

variable {ι κ : Type*} [LinearOrder ι]

structure OrderMatching (l l' : List (ι × κ)) (m : ι → Option ι) : Prop where
  defined : ∀ a, (m a).isSome ↔ a ∈ l.map Prod.fst
  injective : ∀ a b t, m a = some t → m b = some t → a = b
  sameClass : ∀ a t c, m a = some t → (a, c) ∈ l → (t, c) ∈ l'
  increasing : ∀ a b t u c, m a = some t → m b = some u → (a, c) ∈ l → (b, c) ∈ l → a < b → t < u
  smallest : ∀ a t u c, m a = some t → (a, c) ∈ l → (u, c) ∈ l' → u < t →
    ∃ b, (b, c) ∈ l ∧ m b = some u

namespace OrderMatching

variable {l l' k k' : List (ι × κ)} {m m' : ι → Option ι}

/-! ## Uniqueness -/

/-- Where the values differ, the first function does not have the lesser one. -/
theorem not_lt (h : OrderMatching l l' m) (h' : OrderMatching l l' m') {a t u : ι} {c : κ}
    (hc : (a, c) ∈ l) (ha : m a = some t) (ha' : m' a = some u)
    (ih : ∀ b ∈ l.map Prod.fst, b < a → m b = m' b) : ¬ t < u := by
  intro htu
  obtain ⟨b, hb, hb'⟩ := h'.smallest a u t c ha' hc (h.sameClass a t c ha hc) htu
  rcases lt_trichotomy b a with hba | hba | hba
  · -- below `a` the two functions agree, so the first one takes `t` twice
    have hbt : m b = some t := (ih b (List.mem_map_of_mem hb) hba).trans hb'
    exact absurd (h.injective b a t hbt ha) hba.ne
  · rw [hba, ha'] at hb'
    exact absurd (Option.some.inj hb') htu.ne'
  · exact absurd (h'.increasing a b u t c ha' hb' hc hb hba) htu.le.not_gt

/-- **There is at most one such matching.** -/
theorem unique (h : OrderMatching l l' m) (h' : OrderMatching l l' m') : m = m' := by
  funext a
  by_cases hdef : a ∈ l.map Prod.fst
  · have hwf : {a | a ∈ l.map Prod.fst}.WellFoundedOn (· < ·) :=
      (List.finite_toSet _).wellFoundedOn
    refine hwf.induction (P := fun a => m a = m' a) hdef fun a hmem ih => ?_
    obtain ⟨⟨a', c⟩, hc, hfst⟩ := List.mem_map.mp hmem
    have hfst : a' = a := hfst
    rw [hfst] at hc
    obtain ⟨t, ht⟩ := Option.isSome_iff_exists.mp ((h.defined a).mpr hmem)
    obtain ⟨u, hu⟩ := Option.isSome_iff_exists.mp ((h'.defined a).mpr hmem)
    have htu := h.not_lt h' hc ht hu ih
    have hut := h'.not_lt h hc hu ht fun b hb hlt => (ih b hb hlt).symm
    rw [ht, hu, le_antisymm (le_of_not_gt hut) (le_of_not_gt htu)]
  · have hnone : ∀ {m : ι → Option ι}, OrderMatching l l' m → m a = none := fun h => by
      rw [← Option.not_isSome_iff_eq_none, h.defined a]
      exact hdef
    rw [hnone h, hnone h']

/-- The order of the two lists does not matter. -/
theorem perm (h : OrderMatching l l' m) (hl : l.Perm k) (hl' : l'.Perm k') :
    OrderMatching k k' m where
  defined a := (h.defined a).trans (hl.map Prod.fst).mem_iff
  injective := h.injective
  sameClass a t c ha hc := hl'.mem_iff.mp (h.sameClass a t c ha (hl.mem_iff.mpr hc))
  increasing a b t u c ha hb hac hbc :=
    h.increasing a b t u c ha hb (hl.mem_iff.mpr hac) (hl.mem_iff.mpr hbc)
  smallest a t u c ha hc hu hlt := by
    obtain ⟨b, hb, hbu⟩ := h.smallest a t u c ha (hl.mem_iff.mpr hc) (hl'.mem_iff.mpr hu) hlt
    exact ⟨b, hl.mem_iff.mp hb, hbu⟩

/-- **A list is matched with itself by keeping every id.** -/
theorem keep (l : List (ι × κ)) :
    OrderMatching l l fun a => if a ∈ l.map Prod.fst then some a else none := by
  have hkept : ∀ {a t : ι}, (if a ∈ l.map Prod.fst then some a else none) = some t → a = t := by
    intro a t h
    split at h
    next => exact Option.some.inj h
    next => exact absurd h (by simp)
  refine ⟨fun a => ?_, fun a b t ha hb => ?_, fun a t c ha hc => ?_,
    fun a b t u c ha hb _ _ hlt => ?_, fun a t u c ha hc hu hlt => ?_⟩
  · by_cases h : a ∈ l.map Prod.fst
    · simp [h]
    · simp [h]
  · rw [hkept ha, hkept hb]
  · exact hkept ha ▸ hc
  · exact hkept ha ▸ hkept hb ▸ hlt
  · exact ⟨u, hu, if_pos (List.mem_map_of_mem hu)⟩

/-! ## Composition -/

variable {l'' : List (ι × κ)}

/-- An id of the first list goes to an id of the second one, of the same class. -/
theorem exists_value (h : OrderMatching l l' m) {a : ι} {c : κ} (hc : (a, c) ∈ l) :
    ∃ t, m a = some t ∧ (t, c) ∈ l' := by
  obtain ⟨t, ht⟩ := Option.isSome_iff_exists.mp ((h.defined a).mpr (List.mem_map_of_mem hc))
  exact ⟨t, ht, h.sameClass a t c ht hc⟩

/-- **First one matching, then another.** -/
theorem comp (h : OrderMatching l l' m) (h' : OrderMatching l' l'' m') :
    OrderMatching l l'' fun a => (m a).bind m' := by
  have hstep : ∀ {a v : ι}, (m a).bind m' = some v → ∃ t, m a = some t ∧ m' t = some v :=
    fun hv => Option.bind_eq_some_iff.mp hv
  refine ⟨fun a => ⟨fun ha => ?_, fun ha => ?_⟩, fun a b v ha hb => ?_, fun a v c ha hc => ?_,
    fun a b v w c ha hb hac hbc hlt => ?_, fun a v w c ha hc hw hlt => ?_⟩
  · obtain ⟨v, hv⟩ := Option.isSome_iff_exists.mp ha
    obtain ⟨t, ht, _⟩ := hstep hv
    exact (h.defined a).mp (ht ▸ rfl)
  · obtain ⟨⟨a', c⟩, hc, rfl⟩ := List.mem_map.mp ha
    obtain ⟨t, ht, htc⟩ := h.exists_value hc
    obtain ⟨v, hv, _⟩ := h'.exists_value htc
    exact Option.isSome_iff_exists.mpr ⟨v, Option.bind_eq_some_iff.mpr ⟨t, ht, hv⟩⟩
  · obtain ⟨t, ht, htv⟩ := hstep ha
    obtain ⟨u, hu, huv⟩ := hstep hb
    have htu : t = u := h'.injective t u v htv huv
    exact h.injective a b t ht (htu ▸ hu)
  · obtain ⟨t, ht, htv⟩ := hstep ha
    exact h'.sameClass t v c htv (h.sameClass a t c ht hc)
  · obtain ⟨t, ht, htv⟩ := hstep ha
    obtain ⟨u, hu, huw⟩ := hstep hb
    exact h'.increasing t u v w c htv huw (h.sameClass a t c ht hac) (h.sameClass b u c hu hbc)
      (h.increasing a b t u c ht hu hac hbc hlt)
  · -- the lesser id comes from an id of the middle list, which is lesser too
    obtain ⟨t, ht, htv⟩ := hstep ha
    have htc := h.sameClass a t c ht hc
    obtain ⟨u, huc, huw⟩ := h'.smallest t v w c htv htc hw hlt
    have hut : u < t := by
      refine lt_of_not_ge fun hle => ?_
      rcases eq_or_lt_of_le hle with he | htu
      · rw [he, huw] at htv
        exact absurd (Option.some.inj htv) hlt.ne
      · exact absurd hlt (h'.increasing t u v w c htv huw htc huc htu).not_gt
    obtain ⟨b, hbc, hbu⟩ := h.smallest a t u c ht hc huc hut
    exact ⟨b, hbc, Option.bind_eq_some_iff.mpr ⟨u, hbu, huw⟩⟩

/-- **Two matchings that lead back and forth are inverse to each other.** -/
theorem inverse (h : OrderMatching l l' m) (h' : OrderMatching l' l m') {a t : ι}
    (ha : m a = some t) : m' t = some a := by
  have hmem : a ∈ l.map Prod.fst := (h.defined a).mp (ha ▸ rfl)
  have he := congrFun ((h.comp h').unique (keep l)) a
  rw [if_pos hmem, ha] at he
  exact he

/-! ## Sorted lists, position by position -/

section

variable {xs ys : List ι}

omit [LinearOrder ι] in
theorem mem_zip_iff {a t : ι} :
    (a, t) ∈ xs.zip ys ↔ ∃ i : Nat, xs[i]? = some a ∧ ys[i]? = some t := by
  rw [List.mem_iff_getElem?]
  exact exists_congr fun i => List.getElem?_zip_eq_some

/-- In an increasing list, lesser elements stand earlier. -/
theorem index_lt_iff (hxs : xs.Pairwise (· < ·)) {i j : Nat} {a b : ι} (ha : xs[i]? = some a)
    (hb : xs[j]? = some b) : i < j ↔ a < b := by
  have hlt : ∀ {i j : Nat} {a b : ι}, xs[i]? = some a → xs[j]? = some b → i < j → a < b := by
    intro i j a b ha hb hij
    obtain ⟨hi, rfl⟩ := List.getElem?_eq_some_iff.mp ha
    obtain ⟨hj, rfl⟩ := List.getElem?_eq_some_iff.mp hb
    exact List.pairwise_iff_getElem.mp hxs i j hi hj hij
  constructor
  · exact hlt ha hb
  · intro hab
    rcases Nat.lt_trichotomy i j with hij | hij | hij
    · exact hij
    · rw [hij, hb] at ha
      exact absurd (Option.some.inj ha) hab.ne'
    · exact absurd (hlt hb ha hij) hab.not_gt

theorem zip_increasing (hxs : xs.Pairwise (· < ·)) (hys : ys.Pairwise (· < ·)) {a b t u : ι}
    (ha : (a, t) ∈ xs.zip ys) (hb : (b, u) ∈ xs.zip ys) : a < b ↔ t < u := by
  obtain ⟨i, hai, hti⟩ := mem_zip_iff.mp ha
  obtain ⟨j, hbj, huj⟩ := mem_zip_iff.mp hb
  rw [← index_lt_iff hxs hai hbj, index_lt_iff hys hti huj]

/-- What lies below a paired element is paired. -/
theorem zip_smallest (hys : ys.Pairwise (· < ·)) {a t u : ι} (ha : (a, t) ∈ xs.zip ys)
    (hu : u ∈ ys) (hlt : u < t) : ∃ b, (b, u) ∈ xs.zip ys := by
  obtain ⟨i, hai, hti⟩ := mem_zip_iff.mp ha
  obtain ⟨j, huj⟩ := List.mem_iff_getElem?.mp hu
  have hji := (index_lt_iff hys huj hti).mpr hlt
  have hi := (List.getElem?_eq_some_iff.mp hai).1
  exact ⟨xs[j], mem_zip_iff.mpr ⟨j, List.getElem?_eq_getElem (hji.trans hi), huj⟩⟩

omit [LinearOrder ι] in
/-- The shorter list is paired as a whole. -/
theorem exists_mem_zip (hlen : xs.length ≤ ys.length) {a : ι} (ha : a ∈ xs) :
    ∃ t, (a, t) ∈ xs.zip ys := by
  obtain ⟨i, hi, rfl⟩ := List.mem_iff_getElem.mp ha
  exact ⟨ys[i], mem_zip_iff.mpr ⟨i, List.getElem?_eq_getElem hi,
    List.getElem?_eq_getElem (hi.trans_le hlen)⟩⟩

end

/-! ## Existence -/

variable [DecidableEq κ]

/-- The ids of a class in increasing order. -/
def classIds (l : List (ι × κ)) (c : κ) : List ι :=
  ((l.filter (·.2 = c)).map Prod.fst).insertionSort (· ≤ ·)

theorem mem_classIds {a : ι} {c : κ} : a ∈ classIds l c ↔ (a, c) ∈ l := by
  rw [classIds, List.mem_insertionSort, List.mem_map]
  constructor
  · intro h
    obtain ⟨⟨a', c'⟩, hp, rfl⟩ := h
    obtain ⟨hl, hc⟩ := List.mem_filter.mp hp
    have hc : c' = c := by simpa using hc
    exact hc ▸ hl
  · exact fun h => ⟨(a, c), List.mem_filter.mpr ⟨h, by simp⟩, rfl⟩

theorem length_classIds (l : List (ι × κ)) (c : κ) :
    (classIds l c).length = l.countP (·.2 = c) := by
  rw [classIds, List.length_insertionSort, List.length_map, List.countP_eq_length_filter]

theorem classIds_increasing (hl : (l.map Prod.fst).Nodup) (c : κ) :
    (classIds l c).Pairwise (· < ·) := by
  have hnodup : (classIds l c).Nodup := by
    rw [classIds, (List.perm_insertionSort _ _).nodup_iff]
    exact hl.sublist (List.filter_sublist.map _)
  have hsorted : (classIds l c).Pairwise (· ≤ ·) := List.pairwise_insertionSort _ _
  exact hsorted.imp₂ (fun _ _ => lt_of_le_of_ne) hnodup

omit [LinearOrder ι] [DecidableEq κ] in
/-- An id has one class. -/
theorem class_unique (hl : (l.map Prod.fst).Nodup) {a : ι} {c d : κ} (hc : (a, c) ∈ l)
    (hd : (a, d) ∈ l) : c = d :=
  congrArg Prod.snd (List.inj_on_of_nodup_map hl hc hd rfl)

/-- **Pairing the sorted ids of every class position by position is a matching.** -/
theorem of_zip (hl : (l.map Prod.fst).Nodup) (hl' : (l'.map Prod.fst).Nodup)
    (hlen : ∀ c, (classIds l c).length ≤ (classIds l' c).length)
    (hm : ∀ a t, m a = some t ↔ ∃ c, (a, t) ∈ (classIds l c).zip (classIds l' c)) :
    OrderMatching l l' m := by
  -- a pair of ids stands in the class of its first one
  have hpair : ∀ a t c, m a = some t → (a, c) ∈ l →
      (a, t) ∈ (classIds l c).zip (classIds l' c) := by
    intro a t c ha hc
    obtain ⟨d, hd⟩ := (hm a t).mp ha
    exact class_unique hl (mem_classIds.mp (List.of_mem_zip hd).1) hc ▸ hd
  have hinc := classIds_increasing hl
  have hinc' := classIds_increasing hl'
  refine ⟨fun a => ?_, fun a b t ha hb => ?_, fun a t c ha hc => ?_,
    fun a b t u c ha hb hac hbc hlt => ?_, fun a t u c ha hc hu hlt => ?_⟩
  · rw [Option.isSome_iff_exists, List.mem_map]
    constructor
    · intro h
      obtain ⟨t, ht⟩ := h
      obtain ⟨c, hc⟩ := (hm a t).mp ht
      exact ⟨(a, c), mem_classIds.mp (List.of_mem_zip hc).1, rfl⟩
    · intro h
      obtain ⟨⟨a', c⟩, hc, hfst⟩ := h
      have hfst : a' = a := hfst
      obtain ⟨t, ht⟩ := exists_mem_zip (hlen c) (mem_classIds.mpr hc)
      exact ⟨t, (hm a t).mpr ⟨c, hfst ▸ ht⟩⟩
  · obtain ⟨c, hac⟩ := (hm a t).mp ha
    obtain ⟨d, hbd⟩ := (hm b t).mp hb
    have hcd : c = d := class_unique hl' (mem_classIds.mp (List.of_mem_zip hac).2)
      (mem_classIds.mp (List.of_mem_zip hbd).2)
    rw [← hcd] at hbd
    have hab := zip_increasing (hinc c) (hinc' c) hac hbd
    have hba := zip_increasing (hinc c) (hinc' c) hbd hac
    exact le_antisymm (le_of_not_gt fun h => lt_irrefl t (hba.mp h))
      (le_of_not_gt fun h => lt_irrefl t (hab.mp h))
  · exact mem_classIds.mp (List.of_mem_zip (hpair a t c ha hc)).2
  · exact (zip_increasing (hinc c) (hinc' c) (hpair a t c ha hac) (hpair b u c hb hbc)).mp hlt
  · obtain ⟨b, hb⟩ := zip_smallest (hinc' c) (hpair a t c ha hc) (mem_classIds.mpr hu) hlt
    exact ⟨b, mem_classIds.mp (List.of_mem_zip hb).1, (hm b u).mpr ⟨c, hb⟩⟩

end OrderMatching
