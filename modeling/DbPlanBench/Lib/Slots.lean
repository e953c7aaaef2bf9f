import DbPlanBench.Lib.Except
import Mathlib.Data.Fintype.Perm

/-!
# Results stored in the order they arrive

A pool of calls whose results are stored under the numbers that the calls return
with them, into a list of empty slots. The calls complete in an arbitrary order;
the first one that fails ends the collecting.

* `fill_eq_ok` — when all calls return, every slot has the result of its own call,
  whatever the order; `fill_zipIdx_eq_ok` says it for calls that carry their numbers.
* `stored_foldl` — the same for rows that grow as far as they have to.
-/

namespace Slots

variable {α β γ ε : Type}

/-- An order for any number of calls. -/
abbrev Order := (n : Nat) → Equiv.Perm (Fin n)

/-- A list in another order. -/
def reorder (order : Order) (l : List α) : List α := List.ofFn fun i => l.get (order l.length i)

theorem reorder_perm (order : Order) (l : List α) : (reorder order l).Perm l := by
  have h := Equiv.Perm.ofFn_comp_perm (order l.length) l.get
  rw [List.ofFn_get] at h
  exact h

theorem reorder_map (order : Order) (f : α → β) (l : List α) :
    reorder order (l.map f) = (reorder order l).map f := by
  refine List.ext_getElem (by simp [reorder]) fun i h1 h2 => ?_
  have hlen : (l.map f).length = l.length := List.length_map f
  have hindex : ∀ (n m : Nat) (h : n = m) (i : Nat) (hn : i < n) (hm : i < m),
      (order n ⟨i, hn⟩ : Nat) = order m ⟨i, hm⟩ := by
    intro n m h i hn hm
    subst h
    rfl
  have hi : i < l.length := by simpa [reorder] using h2
  simp [reorder, hindex _ _ hlen i (hlen ▸ hi) hi]

/-- The results are stored under their numbers as the calls complete. -/
def fill (run : γ → Except ε (Nat × α)) (completed : List γ) (slots : List (Option α)) :
    Except ε (List (Option α)) :=
  completed.foldlM (fun slots call => do
    let r ← run call
    return slots.set r.1 (some r.2)) slots

/-- A slot has a result of one of the calls, or what it had if none is for it. -/
def FilledBy (run : γ → Except ε (Nat × α)) (completed : List γ) (slots filled : List (Option α))
    (k : Nat) : Prop :=
  (filled[k]? = slots[k]? ∧ ∀ call ∈ completed, ∀ a, run call ≠ .ok (k, a)) ∨
    ∃ call ∈ completed, ∃ a, run call = .ok (k, a) ∧ filled[k]? = some (some a)

variable {run : γ → Except ε (Nat × α)}

theorem fill_spec : ∀ {completed : List γ} {slots filled : List (Option α)},
    fill run completed slots = .ok filled → filled.length = slots.length ∧
      (∀ call ∈ completed, ∃ r, run call = .ok r) ∧
      ∀ k < slots.length, FilledBy run completed slots filled k
  | [], slots, filled, h => by
    injection h with h
    subst h
    exact ⟨rfl, fun _ hc => absurd hc List.not_mem_nil,
      fun k _ => Or.inl ⟨rfl, fun _ hc => absurd hc List.not_mem_nil⟩⟩
  | call :: completed, slots, filled, h => by
    obtain ⟨slots', hslots', h⟩ := Except.bind_eq_ok.mp h
    obtain ⟨r, hr, hslots'⟩ := Except.bind_eq_ok.mp hslots'
    injection hslots' with hslots'
    subst hslots'
    obtain ⟨hlen, hran, hfilled⟩ := fill_spec h
    rw [List.length_set] at hlen hfilled
    refine ⟨hlen, fun c hc => ?_, fun k hk => ?_⟩
    · rcases List.mem_cons.mp hc with rfl | hc
      · exact ⟨r, hr⟩
      · exact hran c hc
    · -- a later call for the slot wins, else this one if it is for the slot
      rcases hfilled k hk with ⟨hsame, hnone⟩ | ⟨c, hc, a, ha, hstored⟩
      · by_cases hrk : r.1 = k
        · refine Or.inr ⟨call, List.mem_cons_self .., r.2, by rw [hr, ← hrk], ?_⟩
          rw [hsame, ← hrk, List.getElem?_set_self (hrk ▸ hk)]
        · refine Or.inl ⟨by rw [hsame, List.getElem?_set_ne hrk], fun c hc a ha => ?_⟩
          rcases List.mem_cons.mp hc with rfl | hc
          · rw [hr] at ha
            exact hrk (congrArg Prod.fst (Except.ok.inj ha))
          · exact hnone c hc a ha
      · exact Or.inr ⟨c, List.mem_cons_of_mem _ hc, a, ha, hstored⟩

/-- When every call returns, all results are collected. -/
theorem exists_fill : ∀ {completed : List γ} (slots : List (Option α)),
    (∀ call ∈ completed, ∃ r, run call = .ok r) → ∃ filled, fill run completed slots = .ok filled
  | [], slots, _ => ⟨slots, rfl⟩
  | call :: completed, slots, h => by
    obtain ⟨r, hr⟩ := h call (List.mem_cons_self ..)
    obtain ⟨filled, hfilled⟩ := exists_fill (slots.set r.1 (some r.2))
      fun c hc => h c (List.mem_cons_of_mem _ hc)
    exact ⟨filled, by rw [fill, List.foldlM_cons, hr]; exact hfilled⟩

section

variable {calls completed : List γ} {filled : List (Option α)}

/-- What is collected from calls that all return. -/
theorem eq_of_fill (hown : ∀ i call r, calls[i]? = some call → run call = .ok r → r.1 = i)
    (hperm : completed.Perm calls)
    (hfill : fill run completed (List.replicate calls.length none) = .ok filled)
    {results : List (Nat × α)} (hresults : calls.mapM run = .ok results) :
    filled = results.map fun r => some r.2 := by
  obtain ⟨hlen, _, hfilled⟩ := fill_spec hfill
  rw [List.length_replicate] at hlen hfilled
  have hsize := (Except.mapM_eq_ok.mp hresults).length_eq
  refine List.ext_getElem? fun k => ?_
  rw [List.getElem?_map]
  rcases Nat.lt_or_ge k calls.length with hk | hk
  · obtain ⟨call, hcall⟩ : ∃ call, calls[k]? = some call := ⟨_, List.getElem?_eq_getElem hk⟩
    obtain ⟨r, hr, hrun⟩ := Except.getElem?_of_mapM hresults hcall
    have hrk := hown k _ r hcall hrun
    rw [hr]
    rcases hfilled k hk with ⟨_, hnone⟩ | ⟨c, hc, a, ha, hstored⟩
    · exact absurd (by rw [hrun, ← hrk]) (hnone _ (hperm.mem_iff.mpr (List.mem_of_getElem? hcall)) r.2)
    · -- the call that is stored here is the one at this position
      obtain ⟨j, hj⟩ := List.getElem?_of_mem (hperm.mem_iff.mp hc)
      have hjk : k = j := hown j c _ hj ha
      rw [hjk, hj] at hcall
      obtain rfl := Option.some.inj hcall
      rw [ha] at hrun
      obtain rfl := Except.ok.inj hrun
      exact hstored
  · rw [List.getElem?_eq_none (by omega), List.getElem?_eq_none (by omega)]
    rfl

/-- **Whatever the order, each slot has the result of its own call**, when calls return with their
positions. -/
theorem fill_eq_ok (hown : ∀ i call r, calls[i]? = some call → run call = .ok r → r.1 = i)
    (hperm : completed.Perm calls) :
    fill run completed (List.replicate calls.length none) = .ok filled ↔
      ∃ results, calls.mapM run = .ok results ∧ filled = results.map fun r => some r.2 := by
  constructor
  · intro hfill
    obtain ⟨_, hran, _⟩ := fill_spec hfill
    obtain ⟨results, hresults⟩ := Except.exists_mapM_ok fun c hc => hran c (hperm.mem_iff.mpr hc)
    exact ⟨results, hresults, eq_of_fill hown hperm hfill hresults⟩
  · intro h
    obtain ⟨results, hresults, rfl⟩ := h
    obtain ⟨filled, hfill⟩ := exists_fill (List.replicate calls.length none) fun c hc => by
      obtain ⟨r, _, hr⟩ := Except.ok_of_mapM hresults c (hperm.mem_iff.mp hc)
      exact ⟨r, hr⟩
    rw [hfill, eq_of_fill hown hperm hfill hresults]

end

/-- **The slots of numbered calls** hold what the calls return, in the order of their numbers. -/
theorem fill_zipIdx_eq_ok {run : β × Nat → Except ε (Nat × α)} {f : β × Nat → Except ε α}
    (hrun : ∀ call, run call = (f call).map fun a => (call.2, a)) {l : List β}
    {completed : List (β × Nat)} (hperm : completed.Perm l.zipIdx) {filled : List (Option α)} :
    fill run completed (List.replicate l.length none) = .ok filled ↔
      ∃ results, l.zipIdx.mapM f = .ok results ∧ filled = results.map some := by
  have hown : ∀ i call r, l.zipIdx[i]? = some call → run call = .ok r → r.1 = i := by
    intro i call r hcall hr
    rw [hrun] at hr
    obtain ⟨a, _, rfl⟩ := Except.map_eq_ok.mp hr
    rw [List.getElem?_zipIdx] at hcall
    obtain ⟨b, _, rfl⟩ := Option.map_eq_some_iff.mp hcall
    exact Nat.zero_add i
  have hresults : ∀ rs, l.zipIdx.mapM run = .ok rs → l.zipIdx.mapM f = .ok (rs.map (·.2)) := by
    intro rs hrs
    rw [Except.mapM_eq_ok, List.forall₂_map_right_iff]
    refine (Except.mapM_eq_ok.mp hrs).imp fun call r hr => ?_
    rw [hrun] at hr
    obtain ⟨a, ha, rfl⟩ := Except.map_eq_ok.mp hr
    exact ha
  have hfill : fill run completed _ = .ok filled ↔ _ := fill_eq_ok hown hperm
  rw [List.length_zipIdx] at hfill
  rw [hfill]
  constructor
  · intro h
    obtain ⟨rs, hrs, rfl⟩ := h
    exact ⟨_, hresults rs hrs, (List.map_map ..).symm⟩
  · intro h
    obtain ⟨results, hf, rfl⟩ := h
    -- the numbered calls return because the calls do, and what they return is determined
    have hreturn : ∀ call ∈ l.zipIdx, ∃ r, run call = .ok r := by
      intro call hcall
      obtain ⟨a, _, ha⟩ := Except.ok_of_mapM hf call hcall
      exact ⟨(call.2, a), by rw [hrun, ha]; rfl⟩
    obtain ⟨rs, hrs⟩ := Except.exists_mapM_ok hreturn
    have hsame : results = rs.map (·.2) := Except.ok.inj (hf.symm.trans (hresults rs hrs))
    exact ⟨rs, hrs, by rw [hsame, List.map_map]; rfl⟩

/-! ## Rows that grow -/

/-- A row, filled up as far as index `j` if it is shorter, with a result there. -/
def storeAt (default : α) (row : List α) (j : Nat) (a : α) : List α :=
  (row ++ List.replicate (j + 1 - row.length) default).set j a

/-- A result in the row and at the place it is for. -/
def store (default : α) (rows : List (List α)) (pos : Nat × Nat) (a : α) : List (List α) :=
  rows.modify pos.1 fun row => storeAt default row pos.2 a

theorem length_storeAt (default : α) (row : List α) (j : Nat) (a : α) :
    (storeAt default row j a).length = max row.length (j + 1) := by
  rw [storeAt, List.length_set, List.length_append, List.length_replicate]
  omega

theorem getElem?_storeAt_self (default : α) (row : List α) (j : Nat) (a : α) :
    (storeAt default row j a)[j]? = some a := by
  rw [storeAt, List.getElem?_set_self]
  rw [List.length_append, List.length_replicate]
  omega

theorem getElem?_storeAt_ne (default : α) (row : List α) {j k : Nat} (a : α) (hjk : j ≠ k)
    (hk : k < row.length) : (storeAt default row j a)[k]? = row[k]? := by
  rw [storeAt, List.getElem?_set_ne hjk, List.getElem?_append_left hk]

/-- Row `i` has the results that are for it, and is no longer than they need. -/
structure Stored (pos : γ → Nat × Nat) (value : γ → α) (completed : List γ) (i : Nat)
    (row : List α) : Prop where
  length : ∀ j, j < row.length ↔ ∃ c ∈ completed, (pos c).1 = i ∧ j ≤ (pos c).2
  entry : ∀ c ∈ completed, (pos c).1 = i → row[(pos c).2]? = some (value c)

section

variable {pos : γ → Nat × Nat} {value : γ → α}

/-- A result for another row. -/
theorem Stored.other {completed : List γ} {i : Nat} {row : List α}
    (h : Stored pos value completed i row) {c : γ} (hc : (pos c).1 ≠ i) :
    Stored pos value (completed ++ [c]) i row where
  length j := by
    rw [h.length j]
    constructor
    · intro h
      obtain ⟨c', hc', hrest⟩ := h
      exact ⟨c', List.mem_append_left _ hc', hrest⟩
    · intro h
      obtain ⟨c', hc', hi, hj⟩ := h
      rcases List.mem_append.mp hc' with hc' | hc'
      · exact ⟨c', hc', hi, hj⟩
      · exact absurd (List.mem_singleton.mp hc' ▸ hi) hc
  entry c' hc' hi := by
    rcases List.mem_append.mp hc' with hc' | hc'
    · exact h.entry c' hc' hi
    · exact absurd (List.mem_singleton.mp hc' ▸ hi) hc

/-- A result for this row. -/
theorem Stored.this {completed : List γ} {i : Nat} {row : List α} (default : α)
    (h : Stored pos value completed i row) {c : γ} (hc : (pos c).1 = i)
    (hsame : ∀ c' ∈ completed, pos c' = pos c → value c' = value c) :
    Stored pos value (completed ++ [c]) i (storeAt default row (pos c).2 (value c)) where
  length j := by
    rw [length_storeAt]
    constructor
    · intro hj
      by_cases hold : j < row.length
      · obtain ⟨c', hc', hrest⟩ := (h.length j).mp hold
        exact ⟨c', List.mem_append_left _ hc', hrest⟩
      · exact ⟨c, List.mem_append_right _ (List.mem_singleton_self c), hc, by omega⟩
    · intro h
      obtain ⟨c', hc', hi, hj⟩ := h
      rcases List.mem_append.mp hc' with hc' | hc'
      · have hold := (h.length j).mpr ⟨c', hc', hi, hj⟩
        omega
      · rw [List.mem_singleton.mp hc'] at hj
        omega
  entry c' hc' hi := by
    rcases List.mem_append.mp hc' with hc' | hc'
    · by_cases hj : (pos c).2 = (pos c').2
      · have hpos : pos c' = pos c := Prod.ext (hi.trans hc.symm) hj.symm
        rw [← hj, getElem?_storeAt_self, hsame c' hc' hpos]
      · have hold := (h.length (pos c').2).mpr ⟨c', hc', hi, Nat.le_refl _⟩
        rw [getElem?_storeAt_ne default row _ hj hold, h.entry c' hc' hi]
    · rw [List.mem_singleton.mp hc', getElem?_storeAt_self]

/-- **Rows get their own results whatever the order**, when calls for one place have one result. -/
theorem stored_foldl (pos : γ → Nat × Nat) (value : γ → α) (default : α) (n : Nat)
    (completed : List γ)
    (hsame : ∀ c ∈ completed, ∀ c' ∈ completed, pos c = pos c' → value c = value c') :
    (completed.foldl (fun rows c => store default rows (pos c) (value c))
        (List.replicate n [])).length = n ∧
      ∀ i row, (completed.foldl (fun rows c => store default rows (pos c) (value c))
        (List.replicate n []))[i]? = some row → Stored pos value completed i row := by
  induction completed using List.reverseRecOn with
  | nil =>
    refine ⟨List.length_replicate, fun i row hrow => ?_⟩
    obtain rfl := List.eq_of_mem_replicate (List.mem_of_getElem? hrow)
    exact ⟨fun j => by simp, fun c hc => absurd hc List.not_mem_nil⟩
  | append_singleton completed c ih =>
    obtain ⟨hlen, hrows⟩ := ih fun c hc c' hc' =>
      hsame c (List.mem_append_left _ hc) c' (List.mem_append_left _ hc')
    rw [List.foldl_append, List.foldl_cons, List.foldl_nil, store, List.length_modify]
    refine ⟨hlen, fun i row hrow => ?_⟩
    rw [List.getElem?_modify] at hrow
    obtain ⟨row', hrow', rfl⟩ := Option.map_eq_some_iff.mp hrow
    have hstored := hrows i row' hrow'
    by_cases hi : (pos c).1 = i
    · rw [if_pos hi]
      exact hstored.this default hi fun c' hc' => hsame c' (List.mem_append_left _ hc') c
        (List.mem_append_right _ (List.mem_singleton_self c))
    · rw [if_neg hi]
      exact hstored.other hi

end

end Slots
