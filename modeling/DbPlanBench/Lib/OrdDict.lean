import Mathlib.Data.List.Nodup
import Mathlib.Data.List.Perm.Basic
import Mathlib.Data.List.Sort

/-!
# Insertion-ordered dictionaries

A dictionary that remembers the order in which its keys first arrived, as an
association list. `set` overwrites in place or appends, `erase` drops the key,
and iteration is the list itself. Nothing forces the keys of a list to be
distinct, so `(keys d).Nodup` is stated where it matters; the operations keep it.

The one fact the loops that build dictionaries lean on is `foldl_set_fresh`: a
loop that stores under keys that are new and pairwise distinct appends exactly
what it is given.
-/

namespace OrdDict

variable {κ β : Type*}

/-- The keys in iteration order. -/
def keys (d : List (κ × β)) : List κ := d.map Prod.fst

@[simp] theorem keys_nil : keys ([] : List (κ × β)) = [] := rfl

@[simp] theorem keys_cons (p : κ × β) (d : List (κ × β)) : keys (p :: d) = p.1 :: keys d := rfl

@[simp] theorem keys_append (d e : List (κ × β)) : keys (d ++ e) = keys d ++ keys e :=
  List.map_append

theorem mem_keys_of_mem {d : List (κ × β)} {k : κ} {v : β} (h : (k, v) ∈ d) : k ∈ keys d :=
  List.mem_map_of_mem (f := Prod.fst) h

variable [DecidableEq κ]

/-- `d.get(k)`. -/
def get? : List (κ × β) → κ → Option β
  | [], _ => none
  | (k', v) :: d, k => if k' = k then some v else get? d k

/-- `d[k] = v`: overwrite in place, or append a new key. -/
def set : List (κ × β) → κ → β → List (κ × β)
  | [], k, v => [(k, v)]
  | (k', w) :: d, k, v => if k' = k then (k', v) :: d else (k', w) :: set d k v

/-- `del d[k]`, doing nothing when the key is absent. -/
def erase : List (κ × β) → κ → List (κ × β)
  | [], _ => []
  | (k', w) :: d, k => if k' = k then d else (k', w) :: erase d k

/-- `d.setdefault(k, []).append(v)`. -/
def push (d : List (κ × List β)) (k : κ) (v : β) : List (κ × List β) :=
  set d k ((get? d k).getD [] ++ [v])

/-- The values grouped by key, groups in order of first arrival. -/
def group (l : List (β × κ)) : List (κ × List β) := l.foldl (fun d p => push d p.2 p.1) []

@[simp] theorem get?_nil (k : κ) : get? ([] : List (κ × β)) k = none := rfl

/-- A key is present exactly when the lookup answers. -/
theorem get?_eq_none {d : List (κ × β)} {k : κ} : get? d k = none ↔ k ∉ keys d := by
  induction d with
  | nil => simp
  | cons p d ih =>
    obtain ⟨k', w⟩ := p
    rw [get?, keys_cons, List.mem_cons, not_or]
    by_cases h : k' = k
    · rw [if_pos h]
      simp [h]
    · rw [if_neg h, ih]
      exact ⟨fun hd => ⟨fun e => h e.symm, hd⟩, fun hd => hd.2⟩

theorem get?_isSome {d : List (κ × β)} {k : κ} : (∃ v, get? d k = some v) ↔ k ∈ keys d := by
  rw [← Option.isSome_iff_exists, ← not_iff_not, ← get?_eq_none]
  simp

/-- What a lookup returns is stored. -/
theorem mem_of_get? {d : List (κ × β)} {k : κ} {v : β} (h : get? d k = some v) : (k, v) ∈ d := by
  induction d with
  | nil => simp at h
  | cons p d ih =>
    obtain ⟨k', w⟩ := p
    rw [get?] at h
    by_cases hk : k' = k
    · rw [if_pos hk] at h
      injection h with h
      rw [hk, h]
      exact List.mem_cons_self ..
    · rw [if_neg hk] at h
      exact List.mem_cons_of_mem _ (ih h)

/-- With distinct keys, what is stored is what a lookup returns. -/
theorem get?_of_mem {d : List (κ × β)} {k : κ} {v : β} (hd : (keys d).Nodup)
    (h : (k, v) ∈ d) : get? d k = some v := by
  induction d with
  | nil => simp at h
  | cons p d ih =>
    obtain ⟨k', w⟩ := p
    rw [keys_cons, List.nodup_cons] at hd
    rw [get?]
    rcases List.mem_cons.mp h with he | ht
    · injection he with hk hv
      rw [if_pos hk.symm, hv]
    · have hk : k' ≠ k := fun e => hd.1 (e ▸ mem_keys_of_mem ht)
      rw [if_neg hk]
      exact ih hd.2 ht

/-- With distinct keys, a lookup does not depend on the order. -/
theorem get?_perm {d e : List (κ × β)} (hd : (keys d).Nodup) (h : d.Perm e) (k : κ) :
    get? d k = get? e k := by
  have he : (keys e).Nodup := (h.map Prod.fst).nodup_iff.mp hd
  cases hk : get? d k with
  | none =>
    rw [get?_eq_none] at hk
    exact (get?_eq_none.mpr fun hmem => hk ((h.map Prod.fst).mem_iff.mpr hmem)).symm
  | some v => exact (get?_of_mem he (h.mem_iff.mp (mem_of_get? hk))).symm

/-- Dictionaries with the same lookups have the same entries. -/
theorem forall_get?_eq_iff {d e : List (κ × β)} (hd : (keys d).Nodup) (he : (keys e).Nodup) :
    (∀ k, get? d k = get? e k) ↔ ∀ p, p ∈ d ↔ p ∈ e := by
  constructor
  · intro h p
    constructor
    · exact fun hp => mem_of_get? ((h p.1).symm.trans (get?_of_mem hd hp))
    · exact fun hp => mem_of_get? ((h p.1).trans (get?_of_mem he hp))
  · intro h k
    exact get?_perm hd
      ((List.perm_ext_iff_of_nodup (List.Nodup.of_map _ hd) (List.Nodup.of_map _ he)).mpr h) k

theorem get?_set_self (d : List (κ × β)) (k : κ) (v : β) : get? (set d k v) k = some v := by
  induction d with
  | nil => simp [set, get?]
  | cons p d ih =>
    obtain ⟨k', w⟩ := p
    rw [set]
    by_cases h : k' = k
    · rw [if_pos h, get?, if_pos h]
    · rw [if_neg h, get?, if_neg h, ih]

theorem get?_set_ne (d : List (κ × β)) {k j : κ} (v : β) (hj : j ≠ k) :
    get? (set d k v) j = get? d j := by
  induction d with
  | nil =>
    show (if k = j then some v else none) = none
    rw [if_neg (fun e => hj e.symm)]
  | cons p d ih =>
    obtain ⟨k', w⟩ := p
    rw [set]
    by_cases h : k' = k
    · rw [if_pos h, get?, get?, if_neg (fun e => hj (e.symm.trans h)),
        if_neg (fun e => hj (e.symm.trans h))]
    · rw [if_neg h, get?, get?, ih]

theorem mem_keys_set {d : List (κ × β)} {k j : κ} {v : β} :
    j ∈ keys (set d k v) ↔ j = k ∨ j ∈ keys d := by
  rw [← get?_isSome, ← get?_isSome]
  by_cases h : j = k
  · subst h
    rw [get?_set_self]
    simp
  · rw [get?_set_ne d v h]
    simp [h]

/-- Storing under a new key appends. -/
theorem set_of_not_mem {d : List (κ × β)} {k : κ} (v : β) (h : k ∉ keys d) :
    set d k v = d ++ [(k, v)] := by
  induction d with
  | nil => rfl
  | cons p d ih =>
    obtain ⟨k', w⟩ := p
    rw [keys_cons, List.mem_cons, not_or] at h
    rw [set, if_neg (fun e => h.1 e.symm), ih h.2, List.cons_append]

/-- Storing under a present key leaves the keys alone. -/
theorem keys_set_of_mem {d : List (κ × β)} {k : κ} (v : β) (h : k ∈ keys d) :
    keys (set d k v) = keys d := by
  induction d with
  | nil => simp at h
  | cons p d ih =>
    obtain ⟨k', w⟩ := p
    rw [set]
    by_cases hk : k' = k
    · rw [if_pos hk]
      rfl
    · rw [keys_cons, List.mem_cons] at h
      rw [if_neg hk, keys_cons, keys_cons, ih (h.resolve_left (fun e => hk e.symm))]

theorem nodup_keys_set {d : List (κ × β)} (k : κ) (v : β) (hd : (keys d).Nodup) :
    (keys (set d k v)).Nodup := by
  by_cases h : k ∈ keys d
  · rw [keys_set_of_mem v h]
    exact hd
  · rw [set_of_not_mem v h, keys_append]
    exact List.nodup_append.mpr ⟨hd, List.nodup_singleton _, by
      intro a ha b hb e
      have hbk : b = k := by simpa using hb
      exact h (hbk ▸ e ▸ ha)⟩

theorem nodup_keys_foldl_set {γ : Type*} (key : γ → κ) (val : γ → β) :
    ∀ (l : List γ) (d : List (κ × β)), (keys d).Nodup →
      (keys (l.foldl (fun d x => set d (key x) (val x)) d)).Nodup
  | [], _, hd => hd
  | x :: l, _, hd => nodup_keys_foldl_set key val l _ (nodup_keys_set (key x) (val x) hd)

/-- A dictionary with a key removed is a sublist of it. -/
theorem erase_sublist (d : List (κ × β)) (k : κ) : (erase d k).Sublist d := by
  induction d with
  | nil => exact List.Sublist.refl _
  | cons p d ih =>
    obtain ⟨k', w⟩ := p
    rw [erase]
    by_cases h : k' = k
    · rw [if_pos h]
      exact List.sublist_cons_self _ _
    · rw [if_neg h]
      exact ih.cons_cons _

theorem nodup_keys_erase {d : List (κ × β)} (k : κ) (hd : (keys d).Nodup) :
    (keys (erase d k)).Nodup :=
  hd.sublist ((erase_sublist d k).map _)

theorem get?_erase_ne : ∀ (d : List (κ × β)) {k j : κ}, j ≠ k → get? (erase d k) j = get? d j
  | [], _, _, _ => rfl
  | (k', w) :: d, k, j, hj => by
    rw [erase]
    by_cases h : k' = k
    · rw [if_pos h, get?, if_neg (fun e => hj (e.symm.trans h))]
    · rw [if_neg h, get?, get?, get?_erase_ne d hj]

/-- What `set` stores is the new entry or was there before. -/
theorem mem_set {d : List (κ × β)} {k : κ} {v : β} {p : κ × β} (h : p ∈ set d k v) :
    p = (k, v) ∨ p ∈ d := by
  induction d with
  | nil => exact Or.inl (by simpa [set] using h)
  | cons q d ih =>
    obtain ⟨k', w⟩ := q
    rw [set] at h
    by_cases hk : k' = k
    · rw [if_pos hk] at h
      rcases List.mem_cons.mp h with he | ht
      · exact Or.inl (by rw [he, hk])
      · exact Or.inr (List.mem_cons_of_mem _ ht)
    · rw [if_neg hk] at h
      rcases List.mem_cons.mp h with he | ht
      · exact Or.inr (he ▸ List.mem_cons_self ..)
      · exact (ih ht).imp_right (List.mem_cons_of_mem _)

/-- Values stay distinct when a new one is stored. -/
theorem nodup_values_set {v : β} (k : κ) : ∀ {d : List (κ × β)}, (d.map Prod.snd).Nodup →
    v ∉ d.map Prod.snd → ((set d k v).map Prod.snd).Nodup
  | [], _, _ => List.nodup_singleton v
  | (k', w) :: d, hd, hv => by
    rw [List.map_cons, List.nodup_cons] at hd
    rw [List.map_cons, List.mem_cons, not_or] at hv
    rw [set]
    by_cases hk : k' = k
    · rw [if_pos hk]
      exact List.nodup_cons.mpr ⟨hv.2, hd.2⟩
    · rw [if_neg hk]
      refine List.nodup_cons.mpr ⟨fun hw => ?_, nodup_values_set k hd.2 hv.2⟩
      obtain ⟨p, hp, he⟩ := List.mem_map.mp hw
      rcases mem_set hp with rfl | hp
      · exact hv.1 he
      · exact hd.1 (List.mem_map.mpr ⟨p, hp, he⟩)

/-- A loop that stores under keys that are new and pairwise distinct appends what it stores. -/
theorem foldl_set_fresh {γ : Type*} (key : γ → κ) (val : γ → β) :
    ∀ (l : List γ) (d : List (κ × β)), (l.map key).Nodup → (∀ x ∈ l, key x ∉ keys d) →
      l.foldl (fun d x => set d (key x) (val x)) d = d ++ l.map fun x => (key x, val x)
  | [], d, _, _ => by simp
  | x :: l, d, hnd, hfresh => by
    rw [List.map_cons, List.nodup_cons] at hnd
    rw [List.foldl_cons, set_of_not_mem _ (hfresh x (List.mem_cons_self ..)),
      foldl_set_fresh key val l _ hnd.2, List.append_assoc]
    · rfl
    · intro y hy
      rw [keys_append, List.mem_append, not_or]
      refine ⟨hfresh y (List.mem_cons_of_mem _ hy), ?_⟩
      intro he
      have hxy : key y = key x := by simpa using he
      exact hnd.1 (hxy ▸ List.mem_map_of_mem hy)

/-- A lookup among transformed values. -/
theorem get?_map_snd {γ : Type*} (f : β → γ) : ∀ (d : List (κ × β)) (k : κ),
    get? (d.map fun p => (p.1, f p.2)) k = (get? d k).map f
  | [], _ => rfl
  | (k', v) :: d, k => by
    rw [List.map_cons, get?, get?, get?_map_snd f d k]
    by_cases h : k' = k
    · rw [if_pos h, if_pos h]
      rfl
    · rw [if_neg h, if_neg h]

theorem get?_set (d : List (κ × β)) (k j : κ) (v : β) :
    get? (set d k v) j = if k = j then some v else get? d j := by
  by_cases h : k = j
  · rw [if_pos h, h, get?_set_self]
  · rw [if_neg h, get?_set_ne d v (fun e => h e.symm)]

theorem get?_append : ∀ (d e : List (κ × β)) (k : κ), get? (d ++ e) k = (get? d k).or (get? e k)
  | [], _, _ => rfl
  | (k', v) :: d, e, k => by
    rw [List.cons_append, get?, get?, get?_append d e k]
    by_cases h : k' = k
    · rw [if_pos h, if_pos h]
      rfl
    · rw [if_neg h, if_neg h]

/-- A lookup after some keys are taken out. -/
theorem get?_filter_keys (q : κ → Bool) : ∀ (d : List (κ × β)) (k : κ),
    get? (d.filter fun p => q p.1) k = if q k then get? d k else none
  | [], k => by simp
  | (k', v) :: d, k => by
    rw [List.filter_cons, get?]
    by_cases h : k' = k
    · subst h
      cases hq : q k' with
      | true => rw [if_pos rfl, get?, if_pos rfl]; simp
      | false => simp [get?_filter_keys q d k', hq]
    · cases hq : q k' with
      | true => rw [if_pos rfl, get?, if_neg h, if_neg h, get?_filter_keys q d k]
      | false => rw [if_neg (by simp), if_neg h, get?_filter_keys q d k]

/-- Dictionaries with the same distinct keys in the same order and the same lookups are equal. -/
theorem ext_get? : ∀ {d e : List (κ × β)}, (keys d).Nodup → keys d = keys e →
    (∀ k, get? d k = get? e k) → d = e
  | [], [], _, _, _ => rfl
  | [], _ :: _, _, hk, _ => absurd hk (by simp)
  | _ :: _, [], _, hk, _ => absurd hk (by simp)
  | (k, v) :: d, (k', w) :: e, hnd, hk, hg => by
    rw [keys_cons, List.nodup_cons] at hnd
    rw [keys_cons, keys_cons, List.cons.injEq] at hk
    obtain ⟨hkk, hkeys⟩ := hk
    have hkk : k = k' := hkk
    subst hkk
    have hv : v = w := by
      have hgk := hg k
      rw [get?, get?, if_pos rfl, if_pos rfl] at hgk
      injection hgk
    refine congrArg₂ List.cons (Prod.ext rfl hv) (ext_get? hnd.2 hkeys fun j => ?_)
    by_cases hj : k = j
    · rw [get?_eq_none.mpr (hj ▸ hnd.1), get?_eq_none.mpr (hj ▸ hkeys ▸ hnd.1)]
    · have hgj := hg j
      rw [get?, get?, if_neg hj, if_neg hj] at hgj
      exact hgj

/-- The later of two values stored under one key stays. -/
theorem set_set (d : List (κ × β)) (k : κ) (v w : β) : set (set d k v) k w = set d k w := by
  induction d with
  | nil => simp [set]
  | cons p d ih =>
    obtain ⟨k', u⟩ := p
    by_cases h : k' = k
    · rw [set, if_pos h, set, if_pos h, set, if_pos h]
    · rw [set, if_neg h, set, if_neg h, set, if_neg h, ih]

/-- Stores under two present keys can be swapped. -/
theorem set_comm {d : List (κ × β)} {k j : κ} (hd : (keys d).Nodup) (hk : k ∈ keys d)
    (hj : j ∈ keys d) (hkj : k ≠ j) (v w : β) :
    set (set d k v) j w = set (set d j w) k v := by
  have hkeys : keys (set (set d k v) j w) = keys d := by
    rw [keys_set_of_mem _ (by rw [keys_set_of_mem _ hk]; exact hj), keys_set_of_mem _ hk]
  have hkeys' : keys (set (set d j w) k v) = keys d := by
    rw [keys_set_of_mem _ (by rw [keys_set_of_mem _ hj]; exact hk), keys_set_of_mem _ hj]
  refine ext_get? (hkeys ▸ hd) (hkeys.trans hkeys'.symm) fun i => ?_
  rw [get?_set, get?_set, get?_set, get?_set]
  by_cases h1 : j = i
  · rw [if_pos h1, if_neg (fun e => hkj (e.trans h1.symm)), if_pos h1]
  · rw [if_neg h1, if_neg h1]

/-- Of two rounds of stores under two present keys the later one stays. -/
theorem set_pair_set_pair {d : List (κ × β)} {k j : κ} (hd : (keys d).Nodup) (hk : k ∈ keys d)
    (hj : j ∈ keys d) (hkj : k ≠ j) (v w v' w' : β) :
    set (set (set (set d k v) j w) k v') j w' = set (set d k v') j w' := by
  have hkeys := keys_set_of_mem v hk
  rw [set_comm (hkeys ▸ hd) (hkeys ▸ hj) (hkeys ▸ hk) (Ne.symm hkj), set_set, set_set]

/-! ## Sorted dictionaries -/

section

variable [LE κ] [DecidableLE κ]

/-- Storing in a dictionary that is kept sorted by key. -/
def insertSorted (d : List (κ × β)) (k : κ) (v : β) : List (κ × β) :=
  if k ∈ keys d then set d k v else d.orderedInsert (·.1 ≤ ·.1) (k, v)

theorem insertSorted_of_mem {d : List (κ × β)} {k : κ} (v : β) (h : k ∈ keys d) :
    insertSorted d k v = set d k v := if_pos h

theorem insertSorted_of_not_mem {d : List (κ × β)} {k : κ} (v : β) (h : k ∉ keys d) :
    insertSorted d k v = d.orderedInsert (·.1 ≤ ·.1) (k, v) := if_neg h

/-- A loop that stores under keys that are new and pairwise distinct adds what it stores. -/
theorem foldl_insertSorted_perm {γ : Type*} (key : γ → κ) (val : γ → β) :
    ∀ (l : List γ) (d : List (κ × β)), (l.map key).Nodup → (∀ x ∈ l, key x ∉ keys d) →
      (l.foldl (fun d x => insertSorted d (key x) (val x)) d).Perm
        (d ++ l.map fun x => (key x, val x))
  | [], d, _, _ => by simp
  | x :: l, d, hnd, hfresh => by
    rw [List.map_cons, List.nodup_cons] at hnd
    have hx := hfresh x (List.mem_cons_self ..)
    have hins : (insertSorted d (key x) (val x)).Perm ((key x, val x) :: d) := by
      rw [insertSorted_of_not_mem _ hx]
      exact List.perm_orderedInsert ..
    rw [List.foldl_cons]
    refine (foldl_insertSorted_perm key val l _ hnd.2 ?_).trans ?_
    · intro y hy hmem
      rcases List.mem_cons.mp ((hins.map Prod.fst).mem_iff.mp hmem) with he | hd
      · exact hnd.1 ((show key y = key x from he) ▸ List.mem_map_of_mem hy)
      · exact hfresh y (List.mem_cons_of_mem _ hy) hd
    · exact (hins.append_right _).trans List.perm_middle.symm

end

/-- Such a loop keeps the dictionary sorted. -/
theorem foldl_insertSorted_sorted {κ : Type*} [LinearOrder κ] {γ : Type*} (key : γ → κ)
    (val : γ → β) : ∀ (l : List γ) (d : List (κ × β)), d.Pairwise (·.1 ≤ ·.1) →
      (l.map key).Nodup → (∀ x ∈ l, key x ∉ keys d) →
        (l.foldl (fun d x => insertSorted d (key x) (val x)) d).Pairwise (·.1 ≤ ·.1)
  | [], d, hd, _, _ => hd
  | x :: l, d, hd, hnd, hfresh => by
    rw [List.map_cons, List.nodup_cons] at hnd
    have hx := hfresh x (List.mem_cons_self ..)
    have : Std.Total fun p q : κ × β => p.1 ≤ q.1 := ⟨fun p q => le_total p.1 q.1⟩
    have : IsTrans (κ × β) fun p q => p.1 ≤ q.1 := ⟨fun _ _ _ => le_trans⟩
    rw [List.foldl_cons]
    refine foldl_insertSorted_sorted key val l _ ?_ hnd.2 ?_
    · rw [insertSorted_of_not_mem _ hx]
      exact hd.orderedInsert _ _
    · intro y hy hmem
      rw [insertSorted_of_not_mem _ hx] at hmem
      rcases List.mem_cons.mp (((List.perm_orderedInsert ..).map Prod.fst).mem_iff.mp hmem)
        with he | hd
      · exact hnd.1 ((show key y = key x from he) ▸ List.mem_map_of_mem hy)
      · exact hfresh y (List.mem_cons_of_mem _ hy) hd

/-- A sorted dictionary built by storing under distinct keys is what was stored, sorted by key. -/
theorem foldl_insertSorted_eq_map {κ : Type*} [LinearOrder κ] {γ : Type*} (key : γ → κ)
    (val : γ → β) {l : List γ} (hnd : (l.map key).Nodup) :
    ∃ l' : List γ, l'.Perm l ∧ (l'.map key).Pairwise (· ≤ ·) ∧
      l.foldl (fun d x => insertSorted d (key x) (val x)) [] = l'.map fun x => (key x, val x) := by
  have hfresh : ∀ x ∈ l, key x ∉ keys ([] : List (κ × β)) := fun _ _ => List.not_mem_nil
  have hperm := foldl_insertSorted_perm key val l [] hnd hfresh
  have hsorted := foldl_insertSorted_sorted key val l [] List.Pairwise.nil hnd hfresh
  have hgraph : List.Forall₂ (fun p x => p = (key x, val x))
      (l.map fun x => (key x, val x)) l := by
    rw [List.forall₂_map_left_iff, List.forall₂_same]
    exact fun _ _ => rfl
  obtain ⟨l', hl', hp⟩ := List.perm_comp_forall₂ hperm hgraph
  have he : l.foldl (fun d x => insertSorted d (key x) (val x)) [] =
      l'.map fun x => (key x, val x) := by
    rw [← List.forall₂_eq_eq_eq, List.forall₂_map_right_iff]
    exact hl'
  rw [he, List.pairwise_map] at hsorted
  exact ⟨l', hp, List.pairwise_map.mpr hsorted, he⟩

/-! ## Groups -/

theorem get?_push (d : List (κ × List β)) (k j : κ) (v : β) :
    (get? (push d k v) j).getD [] = (get? d j).getD [] ++ if k = j then [v] else [] := by
  rw [push]
  by_cases h : k = j
  · subst h
    rw [get?_set_self, if_pos rfl]
    rfl
  · rw [get?_set_ne d _ (fun e => h e.symm), if_neg h, List.append_nil]

theorem get?_foldl_push : ∀ (l : List (β × κ)) (d : List (κ × List β)) (k : κ),
    (get? (l.foldl (fun d p => push d p.2 p.1) d) k).getD [] =
      (get? d k).getD [] ++ (l.filter (·.2 = k)).map Prod.fst
  | [], d, k => by simp
  | p :: l, d, k => by
    rw [List.foldl_cons, get?_foldl_push l, get?_push, List.append_assoc]
    by_cases h : p.2 = k
    · rw [if_pos h, List.filter_cons_of_pos (by simpa using h)]
      rfl
    · rw [if_neg h, List.filter_cons_of_neg (by simpa using h)]
      rfl

/-- **A group holds the values that came with its key, in order.** -/
theorem get?_group (l : List (β × κ)) (k : κ) :
    (get? (group l) k).getD [] = (l.filter (·.2 = k)).map Prod.fst := by
  rw [group, get?_foldl_push]
  rfl

theorem nodup_keys_foldl_push : ∀ (l : List (β × κ)) (d : List (κ × List β)), (keys d).Nodup →
    (keys (l.foldl (fun d p => push d p.2 p.1) d)).Nodup
  | [], _, hd => hd
  | p :: l, _, hd => nodup_keys_foldl_push l _ (nodup_keys_set p.2 _ hd)

theorem nodup_keys_group (l : List (β × κ)) : (keys (group l)).Nodup :=
  nodup_keys_foldl_push l [] List.nodup_nil

/-- What a group lists came with its key. -/
theorem mem_of_mem_group {l : List (β × κ)} {k : κ} {vs : List β} (h : (k, vs) ∈ group l) {v : β} :
    v ∈ vs ↔ (v, k) ∈ l := by
  have hvs := get?_group l k
  rw [get?_of_mem (nodup_keys_group l) h] at hvs
  rw [show vs = (l.filter (·.2 = k)).map Prod.fst from hvs, List.mem_map]
  constructor
  · intro hp
    obtain ⟨p, hp, hv⟩ := hp
    rw [List.mem_filter, decide_eq_true_eq] at hp
    rw [← hv, ← hp.2]
    exact hp.1
  · intro hm
    exact ⟨(v, k), List.mem_filter.mpr ⟨hm, by simp⟩, rfl⟩

/-- What came with a key is in its group. -/
theorem exists_mem_group {l : List (β × κ)} {k : κ} {v : β} (h : (v, k) ∈ l) :
    ∃ vs, (k, vs) ∈ group l ∧ v ∈ vs := by
  have hvs := get?_group l k
  cases hg : get? (group l) k with
  | none =>
    have hmem : v ∈ (l.filter (·.2 = k)).map Prod.fst :=
      List.mem_map.mpr ⟨(v, k), List.mem_filter.mpr ⟨h, by simp⟩, rfl⟩
    rw [hg] at hvs
    rw [← hvs] at hmem
    exact absurd hmem List.not_mem_nil
  | some vs => exact ⟨vs, mem_of_get? hg, (mem_of_mem_group (mem_of_get? hg)).mpr h⟩

theorem forall_foldl_push_ne_nil : ∀ (l : List (β × κ)) (d : List (κ × List β)),
    (∀ q ∈ d, q.2 ≠ []) → ∀ q ∈ l.foldl (fun d p => push d p.2 p.1) d, q.2 ≠ []
  | [], _, hd => hd
  | p :: l, d, hd => by
    refine forall_foldl_push_ne_nil l _ fun q hq => ?_
    rcases mem_set hq with rfl | hq
    · exact List.append_ne_nil_of_right_ne_nil _ (List.cons_ne_nil _ _)
    · exact hd q hq

/-- **The groups are the keys with a value**, each with its values. -/
theorem get?_group_eq (l : List (β × κ)) (k : κ) : get? (group l) k =
    if (l.filter (·.2 = k)).map Prod.fst = [] then none
    else some ((l.filter (·.2 = k)).map Prod.fst) := by
  have hvs := get?_group l k
  cases hg : get? (group l) k with
  | none =>
    rw [hg, Option.getD_none] at hvs
    rw [if_pos hvs.symm]
  | some vs =>
    rw [hg] at hvs
    have hne := forall_foldl_push_ne_nil l [] (fun q hq => absurd hq List.not_mem_nil) _ (mem_of_get? hg)
    rw [← show vs = _ from hvs, if_neg hne]

/-- Values that are changed one by one. -/
theorem map_push {γ : Type*} (f : β → γ) (d : List (κ × List β)) (k : κ) (v : β) :
    (push d k v).map (fun p => (p.1, p.2.map f)) =
      push (d.map fun p => (p.1, p.2.map f)) k (f v) := by
  have hset : ∀ (d : List (κ × List β)) (vs : List β), (set d k vs).map (fun p => (p.1, p.2.map f)) =
      set (d.map fun p => (p.1, p.2.map f)) k (vs.map f) := by
    intro d vs
    induction d with
    | nil => rfl
    | cons p d ih =>
      rw [set, List.map_cons, set]
      by_cases h : p.1 = k
      · rw [if_pos h, if_pos h]
        rfl
      · rw [if_neg h, if_neg h, List.map_cons, ih]
  rw [push, push, hset, get?_map_snd (List.map f), List.map_append]
  cases get? d k <;> rfl

/-! ## Related dictionaries -/

section

variable {γ : Type*} {r : β → γ → Prop}

/-- The same keys in the same order, with related values. -/
def Related (r : β → γ → Prop) : List (κ × β) → List (κ × γ) → Prop :=
  List.Forall₂ fun p q => p.1 = q.1 ∧ r p.2 q.2

theorem Related.get? {d : List (κ × β)} {e : List (κ × γ)} (h : Related r d e) (k : κ) :
    Option.Rel r (get? d k) (get? e k) := by
  induction h with
  | nil => exact Option.Rel.none
  | @cons p q d e hpq _ ih =>
    obtain ⟨k', v⟩ := p
    obtain ⟨l, w⟩ := q
    obtain ⟨hk, hvw⟩ := hpq
    have hk : k' = l := hk
    subst hk
    rw [OrdDict.get?, OrdDict.get?]
    by_cases h : k' = k
    · rw [if_pos h, if_pos h]
      exact Option.Rel.some hvw
    · rw [if_neg h, if_neg h]
      exact ih

theorem Related.rel {d : List (κ × β)} {e : List (κ × γ)} (h : Related r d e) {k : κ} {v : β} {w : γ}
    (hv : OrdDict.get? d k = some v) (hw : OrdDict.get? e k = some w) : r v w := by
  have hrel := h.get? k
  rw [hv, hw] at hrel
  cases hrel with
  | some hvw => exact hvw

omit [DecidableEq κ] in
theorem Related.keys {d : List (κ × β)} {e : List (κ × γ)} (h : Related r d e) :
    OrdDict.keys d = OrdDict.keys e := by
  induction h with
  | nil => rfl
  | cons hpq _ ih => rw [keys_cons, keys_cons, hpq.1, ih]

theorem Related.set {d : List (κ × β)} {e : List (κ × γ)} (h : Related r d e) (k : κ) {v : β} {w : γ}
    (hvw : r v w) : Related r (set d k v) (set e k w) := by
  induction h with
  | nil => exact .cons ⟨rfl, hvw⟩ .nil
  | @cons p q d e hpq htail ih =>
    obtain ⟨k', v'⟩ := p
    obtain ⟨l, w'⟩ := q
    obtain ⟨hk, hvw'⟩ := hpq
    have hk : k' = l := hk
    subst hk
    rw [OrdDict.set, OrdDict.set]
    by_cases h : k' = k
    · rw [if_pos h, if_pos h]
      exact .cons ⟨rfl, hvw⟩ htail
    · rw [if_neg h, if_neg h]
      exact .cons ⟨rfl, hvw'⟩ ih

theorem Related.push {d : List (κ × List β)} {e : List (κ × List γ)}
    (h : Related (List.Forall₂ r) d e) (k : κ) {v : β} {w : γ} (hvw : r v w) :
    Related (List.Forall₂ r) (push d k v) (push e k w) := by
  refine h.set k (List.rel_append ?_ (.cons hvw .nil))
  have hrel := h.get? k
  generalize OrdDict.get? d k = vs, OrdDict.get? e k = ws at hrel
  cases hrel with
  | none => exact .nil
  | some hvs => exact hvs

/-- **Related values with the same keys are grouped alike.** -/
theorem related_group {l : List (β × κ)} {l' : List (γ × κ)}
    (h : List.Forall₂ (fun p q => r p.1 q.1 ∧ p.2 = q.2) l l') :
    Related (List.Forall₂ r) (group l) (group l') := by
  have hfold : ∀ {d : List (κ × List β)} {e : List (κ × List γ)},
      Related (List.Forall₂ r) d e → Related (List.Forall₂ r)
        (l.foldl (fun d p => push d p.2 p.1) d) (l'.foldl (fun d p => push d p.2 p.1) e) := by
    induction h with
    | nil => exact fun hd => hd
    | @cons p q l l' hpq _ ih =>
      intro d e hd
      rw [List.foldl_cons, List.foldl_cons, ← hpq.2]
      exact ih (hd.push p.2 hpq.1)
  exact hfold .nil

end

end OrdDict
