import DbPlanBench.Lib.Except

/-!
# Programs that write, one write at a time

A run of a program that changes a state by labelled writes and may fail: the state
after each write, and the state it ends in. A program that is stopped leaves the
state after one of its writes.

* `result_andThen`, `mem_writes_andThen` — what a sequence of two programs does.
* `forEach_range'_result` — a loop over consecutive numbers keeps what each of its rounds
  keeps.
* `Ensures` — a property of every write and one of the last state, `All` — one property of
  every state that a run leaves.
-/

/-- The writes of a run and how it ends. -/
structure Traced (ε ω σ : Type) where
  writes : List (ω × σ)
  result : Except ε σ

namespace Traced

variable {α ε ω σ : Type}

/-- No write. -/
def done (s : σ) : Traced ε ω σ := ⟨[], .ok s⟩

def fail (e : ε) : Traced ε ω σ := ⟨[], .error e⟩

/-- One write. -/
def write (w : ω) (s : σ) : Traced ε ω σ := ⟨[(w, s)], .ok s⟩

/-- One program after the other. -/
def andThen (r : Traced ε ω σ) (f : σ → Traced ε ω σ) : Traced ε ω σ :=
  match r.result with
  | .ok s => ⟨r.writes ++ (f s).writes, (f s).result⟩
  | .error e => ⟨r.writes, .error e⟩

/-- A loop. -/
def forEach (f : α → σ → Traced ε ω σ) : List α → σ → Traced ε ω σ
  | [], s => done s
  | a :: as, s => (f a s).andThen (forEach f as)

@[simp] theorem done_andThen (s : σ) (f : σ → Traced ε ω σ) : (done s).andThen f = f s := rfl

@[simp] theorem result_write (w : ω) (s : σ) : (write w s : Traced ε ω σ).result = .ok s := rfl

@[simp] theorem result_done (s : σ) : (done s : Traced ε ω σ).result = .ok s := rfl

@[simp] theorem writes_done (s : σ) : (done s : Traced ε ω σ).writes = [] := rfl

@[simp] theorem writes_write (w : ω) (s : σ) : (write w s : Traced ε ω σ).writes = [(w, s)] := rfl

/-- A write, and what follows it. -/
theorem write_andThen (w : ω) (s : σ) (f : σ → Traced ε ω σ) :
    (write w s).andThen f = ⟨(w, s) :: (f s).writes, (f s).result⟩ := rfl

theorem andThen_done (r : Traced ε ω σ) : r.andThen done = r := by
  obtain ⟨writes, result⟩ := r
  cases result with
  | error e => rfl
  | ok s =>
    show Traced.mk (writes ++ []) _ = _
    rw [List.append_nil]
    rfl

theorem result_andThen {r : Traced ε ω σ} {f : σ → Traced ε ω σ} {t : σ} :
    (r.andThen f).result = .ok t ↔ ∃ s, r.result = .ok s ∧ (f s).result = .ok t := by
  rw [andThen]
  cases h : r.result with
  | error e => simp
  | ok s => simp

/-- When the first program returns, the result is that of the second. -/
theorem result_andThen_of_ok {r : Traced ε ω σ} {f : σ → Traced ε ω σ} {s : σ}
    (h : r.result = .ok s) : (r.andThen f).result = (f s).result := by
  rw [andThen, h]

theorem writes_andThen_of_ok {r : Traced ε ω σ} {f : σ → Traced ε ω σ} {s : σ}
    (h : r.result = .ok s) : (r.andThen f).writes = r.writes ++ (f s).writes := by
  rw [andThen, h]

theorem mem_writes_andThen {r : Traced ε ω σ} {f : σ → Traced ε ω σ} {x : ω × σ} :
    x ∈ (r.andThen f).writes ↔
      x ∈ r.writes ∨ ∃ s, r.result = .ok s ∧ x ∈ (f s).writes := by
  rw [andThen]
  cases h : r.result with
  | error e => simp
  | ok s => simp

/-- A write that another follows: in the first program, or in the second before its last. -/
theorem mem_dropLast_andThen {r : Traced ε ω σ} {f : σ → Traced ε ω σ} {x : ω × σ}
    (h : x ∈ (r.andThen f).writes.dropLast) :
    x ∈ r.writes ∨ ∃ s, r.result = .ok s ∧ x ∈ (f s).writes.dropLast := by
  rw [andThen] at h
  cases hr : r.result with
  | error e =>
    rw [hr] at h
    exact Or.inl (List.dropLast_subset _ h)
  | ok s =>
    rw [hr] at h
    by_cases hnil : (f s).writes = []
    · simp only [hnil, List.append_nil] at h
      exact Or.inl (List.dropLast_subset _ h)
    · rw [List.dropLast_append_of_ne_nil hnil] at h
      exact (List.mem_append.mp h).imp_right fun h => ⟨s, rfl, h⟩

theorem andThen_congr {r : Traced ε ω σ} {f g : σ → Traced ε ω σ}
    (h : ∀ s, r.result = .ok s → f s = g s) : r.andThen f = r.andThen g := by
  rw [andThen, andThen]
  cases hr : r.result with
  | error e => rfl
  | ok s => simp only [h s hr]

section

variable {f : Nat → σ → Traced ε ω σ} {P : Nat → σ → Prop}

/-- **A loop over consecutive numbers keeps what each round keeps.** -/
theorem forEach_range'_result (hstep : ∀ k s t, P k s → (f k s).result = .ok t → P (k + 1) t) :
    ∀ (n a : Nat) (s t : σ), P a s → (forEach f (List.range' a n) s).result = .ok t → P (a + n) t
  | 0, a, s, t, hs, h => by
    injection (show Except.ok s = Except.ok t from h) with h
    exact h ▸ hs
  | n + 1, a, s, t, hs, h => by
    rw [List.range'_succ] at h
    obtain ⟨s1, h1, h⟩ := result_andThen.mp h
    have hn := forEach_range'_result hstep n (a + 1) s1 t (hstep a s s1 hs h1) h
    rwa [Nat.add_right_comm] at hn

/-- A loop returns when its rounds do, in the states that are reached. -/
theorem forEach_range'_returns
    (hstep : ∀ k s, P k s → ∃ t, (f k s).result = .ok t ∧ P (k + 1) t) :
    ∀ (n a : Nat) (s : σ), P a s →
      ∃ t, (forEach f (List.range' a n) s).result = .ok t ∧ P (a + n) t
  | 0, _, s, hs => ⟨s, rfl, hs⟩
  | n + 1, a, s, hs => by
    obtain ⟨s1, h1, hs1⟩ := hstep a s hs
    obtain ⟨t, ht, hP⟩ := forEach_range'_returns hstep n (a + 1) s1 hs1
    rw [Nat.add_right_comm] at hP
    exact ⟨t, by rw [List.range'_succ]; exact result_andThen.mpr ⟨s1, h1, ht⟩, hP⟩

/-- Loops agree when their rounds do, in the states that are reached. -/
theorem forEach_range'_congr {g : Nat → σ → Traced ε ω σ}
    (hstep : ∀ k s t, P k s → (f k s).result = .ok t → P (k + 1) t)
    (hround : ∀ k s, P k s → f k s = g k s) : ∀ (n a : Nat) (s : σ), P a s →
      forEach f (List.range' a n) s = forEach g (List.range' a n) s
  | 0, _, _, _ => rfl
  | n + 1, a, s, hs => by
    rw [List.range'_succ, forEach, forEach, ← hround a s hs]
    exact andThen_congr fun t ht =>
      forEach_range'_congr hstep hround n (a + 1) t (hstep a s t hs ht)

end

/-- A loop does the same in states that `g` relates. -/
theorem forEach_result_map {f : α → σ → Traced ε ω σ} {g : σ → σ}
    (hstep : ∀ a s t, (f a s).result = .ok t → (f a (g s)).result = .ok (g t)) :
    ∀ (l : List α) (s t : σ), (forEach f l s).result = .ok t →
      (forEach f l (g s)).result = .ok (g t)
  | [], s, t, h => by
    injection (show Except.ok s = Except.ok t from h) with h
    exact h ▸ rfl
  | a :: l, s, t, h => by
    obtain ⟨s', hs', h⟩ := result_andThen.mp h
    exact result_andThen.mpr ⟨g s', hstep a s s' hs', forEach_result_map hstep l s' t h⟩

/-! ## Errors -/

theorem failsIn_andThen {E : ε → Prop} {r : Traced ε ω σ} {f : σ → Traced ε ω σ}
    (hr : r.result.FailsIn E) (hf : ∀ s, r.result = .ok s → (f s).result.FailsIn E) :
    (r.andThen f).result.FailsIn E := by
  rw [andThen]
  cases h : r.result with
  | error e => exact .error (hr e h)
  | ok s => exact hf s h

theorem failsIn_forEach {E : ε → Prop} {f : α → σ → Traced ε ω σ}
    (hf : ∀ a s, (f a s).result.FailsIn E) : ∀ (l : List α) (s : σ), (forEach f l s).result.FailsIn E
  | [], s => .ok s
  | a :: l, s => failsIn_andThen (hf a s) fun t _ => failsIn_forEach hf l t

/-! ## What a run ensures -/

/-- Every write satisfies `P`, and the state the run ends in satisfies `Q`. -/
structure Ensures (r : Traced ε ω σ) (P : ω → σ → Prop) (Q : σ → Prop) : Prop where
  writes : ∀ x ∈ r.writes, P x.1 x.2
  result : ∀ s, r.result = .ok s → Q s

section

variable {P : ω → σ → Prop} {Q R : σ → Prop}

theorem Ensures.done {s : σ} (h : Q s) : (done s : Traced ε ω σ).Ensures P Q :=
  ⟨fun _ hx => absurd hx List.not_mem_nil, fun t ht => by
    injection (show Except.ok s = Except.ok t from ht) with ht
    exact ht ▸ h⟩

theorem Ensures.fail (e : ε) : (fail e : Traced ε ω σ).Ensures P Q :=
  ⟨fun _ hx => absurd hx List.not_mem_nil, fun t ht =>
    absurd (show Except.error e = Except.ok t from ht) (by simp)⟩

theorem Ensures.write {w : ω} {s : σ} (hP : P w s) (hQ : Q s) :
    (write w s : Traced ε ω σ).Ensures P Q :=
  ⟨fun _ hx => List.mem_singleton.mp hx ▸ hP, fun t ht => by
    injection (show Except.ok s = Except.ok t from ht) with ht
    exact ht ▸ hQ⟩

theorem Ensures.andThen {r : Traced ε ω σ} {f : σ → Traced ε ω σ} (hr : r.Ensures P Q)
    (hf : ∀ s, Q s → (f s).Ensures P R) : (r.andThen f).Ensures P R where
  writes x hx := by
    rcases mem_writes_andThen.mp hx with hx | ⟨s, hs, hx⟩
    · exact hr.writes x hx
    · exact (hf s (hr.result s hs)).writes x hx
  result t ht := by
    obtain ⟨s, hs, ht⟩ := result_andThen.mp ht
    exact (hf s (hr.result s hs)).result t ht

theorem Ensures.forEach {f : α → σ → Traced ε ω σ} (hf : ∀ a s, Q s → (f a s).Ensures P Q) :
    ∀ (l : List α) (s : σ), Q s → (forEach f l s).Ensures P Q
  | [], _, hs => .done hs
  | a :: l, s, hs => (hf a s hs).andThen fun t ht => Ensures.forEach hf l t ht

end

/-! ## Every state that a run leaves -/

/-- A property of every state a run writes and of the one it ends in. -/
structure All (r : Traced ε ω σ) (P : σ → Prop) : Prop where
  writes : ∀ x ∈ r.writes, P x.2
  result : ∀ s, r.result = .ok s → P s

theorem all_iff_ensures {P : σ → Prop} {r : Traced ε ω σ} :
    r.All P ↔ r.Ensures (fun _ => P) P :=
  ⟨fun h => ⟨h.writes, h.result⟩, fun h => ⟨h.writes, h.result⟩⟩

theorem All.done {P : σ → Prop} {s : σ} (h : P s) : (done s : Traced ε ω σ).All P :=
  all_iff_ensures.mpr (.done h)

theorem All.fail {P : σ → Prop} (e : ε) : (fail e : Traced ε ω σ).All P :=
  all_iff_ensures.mpr (.fail e)

theorem All.write {P : σ → Prop} {w : ω} {s : σ} (h : P s) : (write w s : Traced ε ω σ).All P :=
  all_iff_ensures.mpr (.write h h)

theorem All.andThen {P : σ → Prop} {r : Traced ε ω σ} {f : σ → Traced ε ω σ} (hr : r.All P)
    (hf : ∀ s, r.result = .ok s → (f s).All P) : (r.andThen f).All P := by
  -- of the state between the two programs only that it is the result of the first is used
  have hwrites : r.Ensures (fun _ => P) (fun s => r.result = .ok s) := ⟨hr.writes, fun _ hs => hs⟩
  exact all_iff_ensures.mpr (hwrites.andThen fun s hs => all_iff_ensures.mp (hf s hs))

theorem All.forEach {P : σ → Prop} {f : α → σ → Traced ε ω σ} : ∀ {l : List α} {s : σ},
    (∀ a ∈ l, ∀ s, P s → (f a s).All P) → P s → (forEach f l s).All P
  | [], _, _, hs => .done hs
  | a :: l, s, hf, hs => by
    have ha := hf a (List.mem_cons_self ..) s hs
    exact ha.andThen fun t ht =>
      All.forEach (fun b hb => hf b (List.mem_cons_of_mem _ hb)) (ha.result t ht)

theorem All.mono {P Q : σ → Prop} {r : Traced ε ω σ} (h : r.All P) (hPQ : ∀ s, P s → Q s) :
    r.All Q :=
  ⟨fun x hx => hPQ _ (h.writes x hx), fun s hs => hPQ s (h.result s hs)⟩

end Traced
