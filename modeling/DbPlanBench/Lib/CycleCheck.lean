import DbPlanBench.Lib.Except
import DbPlanBench.Lib.Paths

/-!
# Looking for a cycle, depth first

The white-gray-black search: a node is gray while its successors are being
searched and black once they are done. Meeting a gray node means a cycle, a black
one is skipped. The recursion is bounded by fuel, and running out of it is told
apart from finding a cycle.

* `detect_visiting` — a search that returns leaves the gray nodes as they were.
* `detect_fuel` — fuel for every node that is not gray is enough; `check_fuel` for a whole check.
* `check_of_rank` — if every edge lowers a rank, no search finds a cycle.
* `check_ok_iff` — a check that has fuel returns exactly when no node it can reach lies on a cycle.
-/

namespace CycleCheck

open Paths

variable {α : Type} [DecidableEq α]

/-- Why a search fails. -/
inductive Fault (α : Type) where
  | cycle (a : α)
  | outOfFuel

/-- The gray and the black nodes. -/
abbrev State (α : Type) := List α × List α

/-- Search from one node. -/
def detect (next : α → List α) : Nat → State α → α → Except (Fault α) (State α)
  | 0, _, _ => .error .outOfFuel
  | fuel + 1, s, a =>
    if a ∈ s.1 then .error (.cycle a)
    else if a ∈ s.2 then .ok s
    else do
      let s' ← (next a).foldlM (detect next fuel) (a :: s.1, s.2)
      return (s'.1.erase a, a :: s'.2)

/-- Search from every node of a list that is not black yet. -/
def check (next : α → List α) (fuel : Nat) (starts : List α) : Except (Fault α) (State α) :=
  starts.foldlM (fun s a => if a ∈ s.2 then .ok s else detect next fuel s a) ([], [])

variable {next : α → List α}

/-! ## A search that returns -/

omit [DecidableEq α] in
/-- A fold keeps what each of its steps keeps. -/
theorem foldlM_visiting {f : State α → α → Except (Fault α) (State α)}
    (hf : ∀ s a s', f s a = .ok s' → s'.1 = s.1) :
    ∀ (as : List α) (s s' : State α), as.foldlM f s = .ok s' → s'.1 = s.1
  | [], s, s', h => by
    injection (show (Except.ok s : Except (Fault α) (State α)) = .ok s' from h) with h
    rw [h]
  | a :: as, s, s', h => by
    rw [List.foldlM_cons] at h
    obtain ⟨s1, h1, h⟩ := Except.bind_eq_ok.mp h
    exact (foldlM_visiting hf as s1 s' h).trans (hf s a s1 h1)

/-- **The gray nodes are restored.** -/
theorem detect_visiting : ∀ (fuel : Nat) (s : State α) (a : α) (s' : State α),
    detect next fuel s a = .ok s' → s'.1 = s.1
  | 0, _, _, _, h => absurd h (by simp [detect])
  | fuel + 1, s, a, s', h => by
    rw [detect] at h
    split at h
    next => exact absurd h (by simp)
    next hgray =>
      split at h
      next =>
        injection h with h
        rw [h]
      next =>
        obtain ⟨s1, h1, h⟩ := Except.bind_eq_ok.mp h
        injection (show (Except.ok (s1.1.erase a, a :: s1.2) : Except (Fault α) (State α)) =
          .ok s' from h) with h
        rw [← h, foldlM_visiting (detect_visiting fuel) _ _ _ h1]
        exact List.erase_cons_head ..

/-! ## Fuel -/

/-- The nodes of a closed set that are not gray. -/
def notVisiting (U : Finset α) (s : State α) : Finset α := U.filter (· ∉ s.1)

theorem notVisiting_lt {U : Finset α} {s : State α} {a : α} (ha : a ∈ U) (hs : a ∉ s.1) :
    (notVisiting U (a :: s.1, s.2)).card < (notVisiting U s).card := by
  have hmem : a ∈ notVisiting U s := by
    rw [notVisiting, Finset.mem_filter]
    exact ⟨ha, hs⟩
  refine Finset.card_lt_card (Finset.ssubset_iff_subset_ne.mpr ⟨?_, ?_⟩)
  · intro x hx
    rw [notVisiting, Finset.mem_filter] at hx ⊢
    exact ⟨hx.1, fun h => hx.2 (List.mem_cons_of_mem _ h)⟩
  · intro he
    rw [← he, notVisiting, Finset.mem_filter] at hmem
    exact hmem.2 (List.mem_cons_self ..)

omit [DecidableEq α] in
/-- A fold does not run out of fuel if no step does that starts with the same gray nodes. -/
theorem foldlM_fuel {f : State α → α → Except (Fault α) (State α)} {g : List α}
    (hf : ∀ s a s', f s a = .ok s' → s'.1 = s.1) :
    ∀ (as : List α) (s : State α), s.1 = g →
      (∀ a ∈ as, ∀ s : State α, s.1 = g → f s a ≠ .error .outOfFuel) →
        as.foldlM f s ≠ .error .outOfFuel
  | [], s, _, _ => by
    intro h
    exact absurd (show (Except.ok s : Except (Fault α) (State α)) = .error .outOfFuel from h) (by simp)
  | a :: as, s, hs, hstep => by
    rw [List.foldlM_cons]
    intro h
    cases h1 : f s a with
    | error e =>
      rw [h1] at h
      injection (show (Except.error e : Except (Fault α) (State α)) = .error .outOfFuel from h)
        with h
      exact hstep a (List.mem_cons_self ..) s hs (h1.trans (congrArg Except.error h))
    | ok s1 =>
      rw [h1] at h
      exact foldlM_fuel hf as s1 ((hf s a s1 h1).trans hs)
        (fun b hb => hstep b (List.mem_cons_of_mem _ hb)) h

/-- **Fuel for every node that is not gray is enough.** -/
theorem detect_fuel {U : Finset α} (hU : ∀ a ∈ U, ∀ b ∈ next a, b ∈ U) :
    ∀ (fuel : Nat) (s : State α) (a : α), a ∈ U → (notVisiting U s).card < fuel →
      detect next fuel s a ≠ .error .outOfFuel
  | 0, _, _, _, hc => absurd hc (Nat.not_lt_zero _)
  | fuel + 1, s, a, ha, hc => by
    rw [detect]
    split
    next => exact fun h => by injection h with h; cases h
    next hgray =>
      split
      next => exact fun h => absurd h (by simp)
      next =>
        -- meeting the start makes it gray, so there is one node less to go
        have hlt := notVisiting_lt ha hgray
        have hfold : (next a).foldlM (detect next fuel) (a :: s.1, s.2) ≠ .error .outOfFuel := by
          refine foldlM_fuel (detect_visiting fuel) (next a) (a :: s.1, s.2) rfl ?_
          intro b hb s1 hs1
          refine detect_fuel hU fuel s1 b (hU a ha b hb) ?_
          have hcard : notVisiting U s1 = notVisiting U (a :: s.1, s.2) := by
            rw [notVisiting, notVisiting, hs1]
          rw [hcard]
          omega
        intro h
        cases hr : (next a).foldlM (detect next fuel) (a :: s.1, s.2) with
        | error e =>
          rw [hr] at h
          injection (show (Except.error e : Except (Fault α) (State α)) = .error .outOfFuel from h)
            with h
          exact hfold (hr.trans (congrArg Except.error h))
        | ok s1 =>
          rw [hr] at h
          exact absurd (show (Except.ok _ : Except (Fault α) (State α)) = .error .outOfFuel from h)
            (by simp)

/-- Fuel for every node is enough for the whole check. -/
theorem check_fuel {U : Finset α} (hU : ∀ a ∈ U, ∀ b ∈ next a, b ∈ U) {starts : List α}
    (hs : ∀ a ∈ starts, a ∈ U) {fuel : Nat} (hf : U.card < fuel) :
    check next fuel starts ≠ .error .outOfFuel := by
  refine foldlM_fuel (g := []) ?_ starts ([], []) rfl ?_
  · intro s a s' h
    split at h
    next =>
      injection h with h
      rw [h]
    next => exact detect_visiting fuel s a s' h
  · intro a ha s hgray
    split
    next => exact fun h => absurd h (by simp)
    next =>
      refine detect_fuel hU fuel s a (hs a ha) (Nat.lt_of_le_of_lt ?_ hf)
      exact Finset.card_le_card (Finset.filter_subset ..)

/-! ## Acyclic graphs -/

/-- If every edge lowers a rank and the gray nodes are above the start, the search returns. -/
theorem detect_of_rank {rank : α → Nat} (hr : ∀ a, ∀ b ∈ next a, rank b < rank a) :
    ∀ (fuel : Nat) (s : State α) (a : α), rank a < fuel → (∀ x ∈ s.1, rank a < rank x) →
      ∃ s', detect next fuel s a = .ok s'
  | 0, _, _, hf, _ => absurd hf (Nat.not_lt_zero _)
  | fuel + 1, s, a, hf, hs => by
    rw [detect, if_neg (fun h => Nat.lt_irrefl _ (hs a h))]
    by_cases hb : a ∈ s.2
    · rw [if_pos hb]
      exact ⟨s, rfl⟩
    · rw [if_neg hb]
      -- each successor returns with the gray nodes it started with, so the next one can start
      have hfold : ∀ (bs : List α) (t : State α), t.1 = a :: s.1 → (∀ b ∈ bs, rank b < rank a) →
          ∃ t', bs.foldlM (detect next fuel) t = .ok t' := by
        intro bs
        induction bs with
        | nil => exact fun t _ _ => ⟨t, rfl⟩
        | cons b bs ih =>
          intro t ht hbs
          have hba := hbs b (List.mem_cons_self ..)
          have hgray : ∀ x ∈ t.1, rank b < rank x := by
            intro x hx
            rw [ht] at hx
            rcases List.mem_cons.mp hx with he | hx
            · exact he ▸ hba
            · exact Nat.lt_trans hba (hs x hx)
          obtain ⟨t1, ht1⟩ := detect_of_rank hr fuel t b (by omega) hgray
          obtain ⟨t', ht'⟩ := ih t1 ((detect_visiting fuel t b t1 ht1).trans ht)
            fun c hc => hbs c (List.mem_cons_of_mem _ hc)
          exact ⟨t', by rw [List.foldlM_cons, ht1]; exact ht'⟩
      obtain ⟨t', ht'⟩ := hfold (next a) (a :: s.1, s.2) rfl (hr a)
      rw [ht']
      exact ⟨_, rfl⟩

/-- **A graph whose edges lower a rank has no cycle to find.** -/
theorem check_of_rank (rank : α → Nat) (hr : ∀ a, ∀ b ∈ next a, rank b < rank a) {fuel : Nat}
    {starts : List α} (hf : ∀ a ∈ starts, rank a < fuel) : ∃ s, check next fuel starts = .ok s := by
  have hfold : ∀ (as : List α) (t : State α), t.1 = [] → (∀ a ∈ as, rank a < fuel) →
      ∃ t', as.foldlM (fun s a => if a ∈ s.2 then .ok s else detect next fuel s a) t = .ok t' := by
    intro as
    induction as with
    | nil => exact fun t _ _ => ⟨t, rfl⟩
    | cons a as ih =>
      intro t ht has
      have hrest := fun b hb => has b (List.mem_cons_of_mem _ hb)
      rw [List.foldlM_cons]
      by_cases ha : a ∈ t.2
      · rw [if_pos ha]
        exact ih t ht hrest
      · obtain ⟨t1, ht1⟩ := detect_of_rank hr fuel t a (has a (List.mem_cons_self ..)) fun x hx => by
          rw [ht] at hx
          exact absurd hx List.not_mem_nil
        rw [if_neg ha, ht1]
        exact ih t1 ((detect_visiting fuel t a t1 ht1).trans ht) hrest
  exact hfold starts ([], []) rfl hf

/-! ## Exactness -/

/-- What a search adds: black nodes, whose paths all end if those of the old ones do. -/
structure Blackens (next : α → List α) (s s' : State α) : Prop where
  subset : ∀ b ∈ s.2, b ∈ s'.2
  finite : (∀ b ∈ s.2, Ends next b) → ∀ b ∈ s'.2, Ends next b

omit [DecidableEq α] in
theorem Blackens.refl (s : State α) : Blackens next s s := ⟨fun _ h => h, fun h => h⟩

omit [DecidableEq α] in
theorem Blackens.trans {s t u : State α} (h : Blackens next s t) (h' : Blackens next t u) :
    Blackens next s u :=
  ⟨fun b hb => h'.subset b (h.subset b hb), fun hs => h'.finite (h.finite hs)⟩

omit [DecidableEq α] in
/-- A fold blackens every node of the list if each of its steps does. -/
theorem foldlM_blackens {f : State α → α → Except (Fault α) (State α)}
    (hf : ∀ s a s', f s a = .ok s' → a ∈ s'.2 ∧ Blackens next s s') (as : List α) :
    ∀ s s' : State α, as.foldlM f s = .ok s' → (∀ a ∈ as, a ∈ s'.2) ∧ Blackens next s s' := by
  induction as with
  | nil =>
    intro s s' h
    injection (show (Except.ok s : Except (Fault α) (State α)) = .ok s' from h) with h
    exact ⟨fun _ ha => absurd ha List.not_mem_nil, h ▸ Blackens.refl s⟩
  | cons a as ih =>
    intro s s' h
    rw [List.foldlM_cons] at h
    obtain ⟨s1, h1, h⟩ := Except.bind_eq_ok.mp h
    obtain ⟨ha, hs1⟩ := hf s a s1 h1
    obtain ⟨has, hs'⟩ := ih s1 s' h
    refine ⟨fun b hb => ?_, hs1.trans hs'⟩
    rcases List.mem_cons.mp hb with rfl | hb
    · exact hs'.subset b ha
    · exact has b hb

/-- **A search that returns has blackened its start.** -/
theorem detect_blackens (fuel : Nat) : ∀ (s : State α) (a : α) (s' : State α),
    detect next fuel s a = .ok s' → a ∈ s'.2 ∧ Blackens next s s' := by
  induction fuel with
  | zero => exact fun _ _ _ h => absurd h (by simp [detect])
  | succ fuel ih =>
    intro s a s' h
    rw [detect] at h
    split at h
    next => exact absurd h (by simp)
    next =>
      split at h
      next hblack =>
        injection h with h
        exact ⟨h ▸ hblack, h ▸ Blackens.refl s⟩
      next =>
        obtain ⟨s1, h1, h⟩ := Except.bind_eq_ok.mp h
        injection (show (Except.ok (s1.1.erase a, a :: s1.2) : Except (Fault α) (State α)) =
          .ok s' from h) with h
        obtain ⟨hkids, hs1⟩ := foldlM_blackens ih _ _ _ h1
        rw [← h]
        refine ⟨List.mem_cons_self .., fun b hb => List.mem_cons_of_mem _ (hs1.subset b hb),
          fun hs b hb => ?_⟩
        have hfinite := hs1.finite hs
        rcases List.mem_cons.mp hb with rfl | hb
        · -- the start: all its successors are black by now
          exact Acc.intro b fun c hc => hfinite c (hkids c hc)
        · exact hfinite b hb

/-- What the error of a search says: the node it met again lies on a cycle. -/
theorem detect_cycle (fuel : Nat) : ∀ (s : State α) (a c : α),
    (∀ x ∈ s.1, Relation.TransGen (Edge next) x a) → detect next fuel s a = .error (.cycle c) →
      OnCycle next c ∧ Reaches next a c := by
  induction fuel with
  | zero => exact fun _ _ _ _ h => absurd h (by simp [detect])
  | succ fuel ih =>
    intro s a c hgray h
    rw [detect] at h
    split at h
    -- a gray node: the path from it to here closes the cycle
    next hmem =>
      injection h with h
      injection h with h
      exact h ▸ ⟨hgray a hmem, Relation.ReflTransGen.refl⟩
    next =>
      split at h
      next => exact absurd h (by simp)
      next =>
        rcases Except.bind_eq_error.mp h with h | ⟨s1, _, h⟩
        · -- the error comes from the search at one of the successors
          have hfold : ∀ (bs : List α) (t : State α), t.1 = a :: s.1 → (∀ b ∈ bs, b ∈ next a) →
              bs.foldlM (detect next fuel) t = .error (.cycle c) →
                OnCycle next c ∧ Reaches next a c := by
            intro bs
            induction bs with
            | nil =>
              intro t _ _ h
              exact absurd (show (Except.ok t : Except (Fault α) (State α)) = .error _ from h)
                (by simp)
            | cons b bs ihbs =>
              intro t ht hbs h
              rw [List.foldlM_cons] at h
              have hab : Edge next a b := hbs b (List.mem_cons_self ..)
              rcases Except.bind_eq_error.mp h with h | ⟨t1, ht1, h⟩
              · have hpath : ∀ x ∈ t.1, Relation.TransGen (Edge next) x b := by
                  intro x hx
                  rw [ht] at hx
                  rcases List.mem_cons.mp hx with rfl | hx
                  · exact Relation.TransGen.single hab
                  · exact (hgray x hx).tail hab
                obtain ⟨hcycle, hreach⟩ := ih t b c hpath h
                exact ⟨hcycle, Relation.ReflTransGen.head hab hreach⟩
              · exact ihbs t1 ((detect_visiting fuel t b t1 ht1).trans ht)
                  (fun b' hb' => hbs b' (List.mem_cons_of_mem _ hb')) h
          exact hfold (next a) _ rfl (fun _ hb => hb) h
        · exact absurd (show (Except.ok _ : Except (Fault α) (State α)) = .error _ from h) (by simp)

/-- The error of a check names a node on a cycle that one of the starts reaches. -/
theorem check_cycle {fuel : Nat} {starts : List α} {c : α}
    (h : check next fuel starts = .error (.cycle c)) :
    OnCycle next c ∧ ∃ a ∈ starts, Reaches next a c := by
  have hfold : ∀ (as : List α) (t : State α), t.1 = [] →
      as.foldlM (fun s a => if a ∈ s.2 then .ok s else detect next fuel s a) t = .error (.cycle c) →
        OnCycle next c ∧ ∃ a ∈ as, Reaches next a c := by
    intro as
    induction as with
    | nil =>
      intro t _ h
      exact absurd (show (Except.ok t : Except (Fault α) (State α)) = .error _ from h) (by simp)
    | cons a as ih =>
      intro t ht h
      rw [List.foldlM_cons] at h
      -- an error later in the list is that of a check without this start
      have hrest : ∀ t1 : State α, t1.1 = [] →
          as.foldlM (fun s a => if a ∈ s.2 then .ok s else detect next fuel s a) t1 =
            .error (.cycle c) → OnCycle next c ∧ ∃ b ∈ a :: as, Reaches next b c := by
        intro t1 ht1 h
        obtain ⟨hcycle, b, hb, hreach⟩ := ih t1 ht1 h
        exact ⟨hcycle, b, List.mem_cons_of_mem _ hb, hreach⟩
      by_cases ha : a ∈ t.2
      · rw [if_pos ha] at h
        exact hrest t ht h
      · rw [if_neg ha] at h
        rcases Except.bind_eq_error.mp h with h | ⟨t1, ht1, h⟩
        · have hgray : ∀ x ∈ t.1, Relation.TransGen (Edge next) x a := by
            intro x hx
            rw [ht] at hx
            exact absurd hx List.not_mem_nil
          obtain ⟨hcycle, hreach⟩ := detect_cycle fuel t a c hgray h
          exact ⟨hcycle, a, List.mem_cons_self .., hreach⟩
        · exact hrest t1 ((detect_visiting fuel t a t1 ht1).trans ht) h
  exact hfold starts ([], []) rfl h

/-- After a check that returns, every path from a start ends. -/
theorem ends_of_check {fuel : Nat} {starts : List α} {s : State α}
    (h : check next fuel starts = .ok s) : ∀ a ∈ starts, Ends next a := by
  have hstep : ∀ t a t', (if a ∈ t.2 then .ok t else detect next fuel t a) =
      (.ok t' : Except (Fault α) (State α)) → a ∈ t'.2 ∧ Blackens next t t' := by
    intro t a t' h
    split at h
    next hblack =>
      injection h with h
      exact ⟨h ▸ hblack, h ▸ Blackens.refl t⟩
    next => exact detect_blackens fuel t a t' h
  obtain ⟨hstarts, hblack⟩ := foldlM_blackens hstep starts ([], []) s h
  intro a ha
  exact hblack.finite (fun _ hb => absurd hb List.not_mem_nil) a (hstarts a ha)

/-- **A check that has fuel is exact**: it returns when no node it can reach lies on a cycle, and
only then. -/
theorem check_ok_iff {fuel : Nat} {starts : List α} (hf : check next fuel starts ≠ .error .outOfFuel) :
    (∃ s, check next fuel starts = .ok s) ↔
      ∀ a ∈ starts, ∀ b, Reaches next a b → ¬ OnCycle next b := by
  constructor
  · intro h a ha b hab
    obtain ⟨s, hs⟩ := h
    exact ((ends_of_check hs a ha).reaches hab).not_onCycle
  · intro h
    cases hc : check next fuel starts with
    | ok s => exact ⟨s, rfl⟩
    | error fault =>
      cases fault with
      | outOfFuel => exact absurd hc hf
      | cycle c =>
        obtain ⟨hcycle, a, ha, hreach⟩ := check_cycle hc
        exact absurd hcycle (h a ha c hreach)

end CycleCheck
