import Mathlib.Data.List.Nodup

/-!
# Trees stored as lists with parent pointers

A tree is a list of entries, each with a key and the key of its parent; the root
is the entry without a key. In a well-formed tree the root comes first, keys are
distinct and a parent is stored before its children. Such a tree only ever grows
at the end (`WellFormed.append`), and what passes from a parent to its children
holds of every entry (`WellFormed.induction`).
-/

namespace ParentTree

variable {α ι : Type}

/-- The root is first, keys are distinct, and parents come before their children. -/
structure WellFormed (key parent : α → Option ι) (l : List α) : Prop where
  root : ∃ r rest, l = r :: rest ∧ key r = none
  nodup : (l.map key).Nodup
  earlier : ∀ (i : Nat) (p : α), l[i]? = some p → key p ≠ none →
    ∃ (j : Nat) (q : α), j < i ∧ l[j]? = some q ∧ key q = parent p

variable {key parent : α → Option ι} {l : List α}

namespace WellFormed

/-- A single root. -/
theorem singleton {r : α} (h : key r = none) : WellFormed key parent [r] where
  root := ⟨r, [], rfl, h⟩
  nodup := List.nodup_singleton _
  earlier i p hp hk := by
    have hmem : p ∈ [r] := List.mem_of_getElem? hp
    rw [List.mem_singleton.mp hmem] at hk
    exact absurd h hk

/-- New entries with fresh distinct keys, below entries that are there. -/
theorem append (h : WellFormed key parent l) {new : List α} (hnd : (new.map key).Nodup)
    (hfresh : ∀ p ∈ new, key p ∉ l.map key) (hparent : ∀ p ∈ new, parent p ∈ l.map key) :
    WellFormed key parent (l ++ new) where
  root := by
    obtain ⟨r, rest, rfl, hr⟩ := h.root
    exact ⟨r, rest ++ new, rfl, hr⟩
  nodup := by
    rw [List.map_append]
    refine List.nodup_append.mpr ⟨h.nodup, hnd, fun a ha b hb he => ?_⟩
    obtain ⟨p, hp, rfl⟩ := List.mem_map.mp hb
    exact hfresh p hp (he ▸ ha)
  earlier i p hp hk := by
    rcases Nat.lt_or_ge i l.length with hi | hi
    · rw [List.getElem?_append_left hi] at hp
      obtain ⟨j, q, hj, hq, hpq⟩ := h.earlier i p hp hk
      exact ⟨j, q, hj, by rwa [List.getElem?_append_left (Nat.lt_trans hj hi)], hpq⟩
    · rw [List.getElem?_append_right hi] at hp
      obtain ⟨q, hq, hpq⟩ := List.mem_map.mp (hparent p (List.mem_of_getElem? hp))
      obtain ⟨j, hj⟩ := List.getElem?_of_mem hq
      have hlt : j < l.length := (List.getElem?_eq_some_iff.mp hj).1
      exact ⟨j, q, Nat.lt_of_lt_of_le hlt hi, by rwa [List.getElem?_append_left hlt], hpq⟩

/-- Changes that leave keys and parents alone. -/
theorem map (h : WellFormed key parent l) {f : α → α} (hkey : ∀ p, key (f p) = key p)
    (hparent : ∀ p, parent (f p) = parent p) : WellFormed key parent (l.map f) where
  root := by
    obtain ⟨r, rest, rfl, hr⟩ := h.root
    exact ⟨f r, rest.map f, rfl, (hkey r).trans hr⟩
  nodup := by
    have he : key ∘ f = key := funext hkey
    rw [List.map_map, he]
    exact h.nodup
  earlier i p hp hk := by
    rw [List.getElem?_map] at hp
    obtain ⟨p', hp', rfl⟩ := Option.map_eq_some_iff.mp hp
    obtain ⟨j, q, hj, hq, hpq⟩ := h.earlier i p' hp' (hkey p' ▸ hk)
    refine ⟨j, f q, hj, ?_, ?_⟩
    · rw [List.getElem?_map, hq]
      rfl
    · rw [hkey, hparent, hpq]

/-- What holds of the root and passes to children holds of every entry, with its position. -/
theorem index_induction (h : WellFormed key parent l) {P : Nat → α → Prop}
    (hroot : ∀ i p, key p = none → P i p)
    (hchild : ∀ i p j q, l[i]? = some p → key p ≠ none → j < i → l[j]? = some q →
      key q = parent p → P j q → P i p) (i : Nat) : ∀ p, l[i]? = some p → P i p := by
  induction i using Nat.strongRecOn with
  | ind i ih =>
    intro p hp
    by_cases hk : key p = none
    · exact hroot i p hk
    · obtain ⟨j, q, hj, hq, hpq⟩ := h.earlier i p hp hk
      exact hchild i p j q hp hk hj hq hpq (ih j hj q hq)

/-- **Induction along parents.** -/
theorem induction (h : WellFormed key parent l) {P : α → Prop}
    (hroot : ∀ p ∈ l, key p = none → P p)
    (hchild : ∀ p ∈ l, ∀ q ∈ l, key p ≠ none → key q = parent p → P q → P p) :
    ∀ p ∈ l, P p := by
  intro p hp
  obtain ⟨i, hi⟩ := List.getElem?_of_mem hp
  refine h.index_induction (P := fun _ p => p ∈ l → P p) (fun _ p hk hp => hroot p hp hk)
    (fun i p j q _ hk _ hq hpq ih hp => ?_) i p hi hp
  have hq := List.mem_of_getElem? hq
  exact hchild p hp q hq hk hpq (ih hq)

end WellFormed

end ParentTree
