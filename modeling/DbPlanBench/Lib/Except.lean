import Mathlib.Data.List.Forall2

/-!
# Computations that may fail, step by step

Inversion lemmas for the `Except` monad: what a bind, a `mapM` or an early-exit
loop returned says what each of its steps returned. They let a proof take a
monadic definition apart with `obtain` and never unfold the monad. `FailsIn E x` says
that `x` fails with errors in `E` only, and goes through the same ways to put
computations together.
-/

namespace Except

variable {ε α β : Type}

/-- A bind returns exactly when both halves do. -/
theorem bind_eq_ok {x : Except ε α} {f : α → Except ε β} {b : β} :
    (x >>= f) = .ok b ↔ ∃ a, x = .ok a ∧ f a = .ok b := by
  cases x with
  | error e =>
    constructor
    · intro h
      exact absurd (show (Except.error e : Except ε β) = .ok b from h) (by simp)
    · intro h
      obtain ⟨a, ha, _⟩ := h
      exact absurd ha (by simp)
  | ok a =>
    constructor
    · intro h
      exact ⟨a, rfl, h⟩
    · intro h
      obtain ⟨a', ha, hf⟩ := h
      injection ha with ha
      exact ha ▸ hf

/-- A bind fails exactly when its first half does, or its second half after the first. -/
theorem bind_eq_error {x : Except ε α} {f : α → Except ε β} {e : ε} :
    (x >>= f) = .error e ↔ x = .error e ∨ ∃ a, x = .ok a ∧ f a = .error e := by
  cases x with
  | error e' =>
    constructor
    · intro h
      injection (show (Except.error e' : Except ε β) = .error e from h) with h
      exact Or.inl (h ▸ rfl)
    · intro h
      rcases h with h | ⟨a, ha, _⟩
      · injection h with h
        exact h ▸ rfl
      · exact absurd ha (by simp)
  | ok a =>
    constructor
    · intro h
      exact Or.inr ⟨a, rfl, h⟩
    · intro h
      rcases h with h | ⟨a', ha, hf⟩
      · exact absurd h (by simp)
      · injection ha with ha
        exact ha ▸ hf

@[simp] theorem ok_bind (a : α) (f : α → Except ε β) : (Except.ok a >>= f) = f a := rfl

@[simp] theorem error_bind (e : ε) (f : α → Except ε β) :
    (Except.error e >>= f) = Except.error e := rfl

/-- `mapM` returns the element-wise results. -/
theorem mapM_eq_ok {f : α → Except ε β} : ∀ {l : List α} {l' : List β},
    l.mapM f = .ok l' ↔ List.Forall₂ (fun a b => f a = .ok b) l l'
  | [], l' => by
    rw [List.mapM_nil]
    constructor
    · intro h
      injection (show (Except.ok [] : Except ε (List β)) = .ok l' from h) with h
      exact h ▸ List.Forall₂.nil
    · intro h
      cases h
      rfl
  | a :: l, l' => by
    rw [List.mapM_cons, bind_eq_ok]
    constructor
    · intro h
      obtain ⟨b, hb, h⟩ := h
      obtain ⟨bs, hbs, h⟩ := bind_eq_ok.mp h
      injection (show (Except.ok (b :: bs) : Except ε (List β)) = .ok l' from h) with h
      exact h ▸ List.Forall₂.cons hb (mapM_eq_ok.mp hbs)
    · intro h
      cases h with
      | cons hb hbs => exact ⟨_, hb, bind_eq_ok.mpr ⟨_, mapM_eq_ok.mpr hbs, rfl⟩⟩

/-- Results stand where their elements do. -/
theorem getElem?_of_mapM {f : α → Except ε β} {l : List α} {l' : List β} (h : l.mapM f = .ok l') :
    ∀ {i : Nat} {a : α}, l[i]? = some a → ∃ b, l'[i]? = some b ∧ f a = .ok b := by
  have hforall := mapM_eq_ok.mp h
  clear h
  induction hforall with
  | nil => exact fun ha => absurd ha (by simp)
  | cons hb _ ih =>
    intro i a ha
    cases i with
    | zero => exact ⟨_, rfl, Option.some.inj ha ▸ hb⟩
    | succ i => exact ih ha

/-- When every element succeeds, `mapM` is `map`. -/
theorem mapM_ok {f : α → Except ε β} {g : α → β} {l : List α} (h : ∀ a ∈ l, f a = .ok (g a)) :
    l.mapM f = .ok (l.map g) := by
  rw [mapM_eq_ok, List.forall₂_map_right_iff, List.forall₂_same]
  exact h

/-- `mapM` depends on the function only at the elements. -/
theorem mapM_congr {f g : α → Except ε β} : ∀ {l : List α}, (∀ a ∈ l, f a = g a) →
    l.mapM f = l.mapM g
  | [], _ => rfl
  | a :: l, h => by
    rw [List.mapM_cons, List.mapM_cons, h a (List.mem_cons_self ..),
      mapM_congr fun b hb => h b (List.mem_cons_of_mem _ hb)]

/-- When every element succeeds, so does `mapM`. -/
theorem exists_mapM_ok {f : α → Except ε β} : ∀ {l : List α}, (∀ a ∈ l, ∃ b, f a = .ok b) →
    ∃ l', l.mapM f = .ok l'
  | [], _ => ⟨[], rfl⟩
  | a :: l, h => by
    obtain ⟨b, hb⟩ := h a (List.mem_cons_self ..)
    obtain ⟨l', hl'⟩ := exists_mapM_ok fun a' ha' => h a' (List.mem_cons_of_mem _ ha')
    exact ⟨b :: l', by rw [List.mapM_cons, hb, ok_bind, hl']; rfl⟩

/-- Where every call returns, the results are what the calls return. -/
theorem mapM_eq_filterMap {f : α → Except ε β} : ∀ {l : List α}, (∀ a ∈ l, ∃ b, f a = .ok b) →
    l.mapM f = .ok (l.filterMap fun a => (f a).toOption)
  | [], _ => rfl
  | a :: l, h => by
    obtain ⟨b, hb⟩ := h a (List.mem_cons_self ..)
    rw [List.mapM_cons, hb, ok_bind,
      mapM_eq_filterMap fun c hc => h c (List.mem_cons_of_mem _ hc), List.filterMap_cons, hb]
    rfl

/-- When `mapM` succeeds, so does every element, and its result is among the results. -/
theorem ok_of_mapM {f : α → Except ε β} : ∀ {l : List α} {l' : List β}, l.mapM f = .ok l' →
    ∀ a ∈ l, ∃ b ∈ l', f a = .ok b
  | [], _, _, _, h => absurd h List.not_mem_nil
  | a :: l, l', h, x, hx => by
    rw [List.mapM_cons] at h
    obtain ⟨b, hb, h⟩ := bind_eq_ok.mp h
    obtain ⟨bs, hbs, h⟩ := bind_eq_ok.mp h
    injection (show (Except.ok (b :: bs) : Except ε (List β)) = .ok l' from h) with h
    subst h
    rcases List.mem_cons.mp hx with rfl | hx
    · exact ⟨b, List.mem_cons_self .., hb⟩
    · obtain ⟨b', hb', hx'⟩ := ok_of_mapM hbs x hx
      exact ⟨b', List.mem_cons_of_mem _ hb', hx'⟩

/-- A failing `mapM` fails with the error of one of the elements. -/
theorem exists_of_mapM_eq_error {f : α → Except ε β} {e : ε} : ∀ {l : List α},
    l.mapM f = .error e → ∃ a ∈ l, f a = .error e
  | [], h => absurd (show (Except.ok [] : Except ε (List β)) = .error e from h) (by simp)
  | a :: l, h => by
    rw [List.mapM_cons] at h
    rcases bind_eq_error.mp h with ha | ⟨b, _, h⟩
    · exact ⟨a, List.mem_cons_self .., ha⟩
    · rcases bind_eq_error.mp h with hl | ⟨bs, _, h⟩
      · obtain ⟨a', ha', he⟩ := exists_of_mapM_eq_error hl
        exact ⟨a', List.mem_cons_of_mem _ ha', he⟩
      · exact absurd (show (Except.ok (b :: bs) : Except ε (List β)) = .error e from h) (by simp)

/-- A loop whose steps add their results to an accumulator is a `mapM`, and then a fold. -/
theorem foldlM_eq_mapM {γ : Type} {f : α → Except ε β} {g : γ → β → γ} :
    ∀ (l : List α) (c : γ),
      l.foldlM (fun c a => do let b ← f a; return g c b) c = (l.mapM f).map (·.foldl g c)
  | [], _ => rfl
  | a :: l, c => by
    rw [List.foldlM_cons, List.mapM_cons]
    cases hb : f a with
    | error e => rfl
    | ok b =>
      rw [ok_bind, ok_bind]
      refine Eq.trans (foldlM_eq_mapM l (g c b)) ?_
      cases l.mapM f <;> rfl

/-- A loop whose rounds all succeed is a fold. -/
theorem foldlM_ok {f : β → α → Except ε β} {g : β → α → β} (h : ∀ b a, f b a = .ok (g b a)) :
    ∀ (l : List α) (b : β), l.foldlM f b = .ok (l.foldl g b)
  | [], _ => rfl
  | a :: l, b => by
    rw [List.foldlM_cons, h b a, ok_bind, foldlM_ok h l, List.foldl_cons]

/-- What a `mapM` returns comes from its elements. -/
theorem mem_of_mapM {f : α → Except ε β} {l : List α} {l' : List β} (h : l.mapM f = .ok l')
    {b : β} (hb : b ∈ l') : ∃ a ∈ l, f a = .ok b := by
  rw [mapM_eq_ok] at h
  induction h with
  | nil => cases hb
  | cons hf _ ih =>
    rcases List.mem_cons.mp hb with rfl | hb
    · exact ⟨_, List.mem_cons_self .., hf⟩
    · obtain ⟨a, ha, hfa⟩ := ih hb
      exact ⟨a, List.mem_cons_of_mem _ ha, hfa⟩

/-- What a computation that does not fail returns. -/
theorem exists_of_isSome {x : Except ε α} (h : x.toOption.isSome = true) : ∃ a, x = .ok a := by
  cases x with
  | ok a => exact ⟨a, rfl⟩
  | error e => exact absurd h (by simp [Except.toOption])

theorem map_eq_ok {f : α → β} {x : Except ε α} {b : β} :
    x.map f = .ok b ↔ ∃ a, x = .ok a ∧ f a = b := by
  cases x with
  | ok a => simp [Except.map]
  | error e => simp [Except.map]

/-- What two steps return for each element, the second one returns for the results of the first. -/
theorem mapM_of_bind {γ : Type} {f : α → Except ε β} {g : β → Except ε γ} {l : List α}
    {bs : List β} {cs : List γ} (hf : l.mapM f = .ok bs)
    (hfg : l.mapM (fun a => f a >>= g) = .ok cs) : bs.mapM g = .ok cs := by
  rw [mapM_eq_ok] at hf hfg ⊢
  induction hf generalizing cs with
  | nil =>
    cases hfg
    exact .nil
  | cons hb _ ih =>
    cases hfg with
    | cons hc hcs =>
      rw [hb, ok_bind] at hc
      exact .cons hc (ih hcs)

/-- Elements that are processed together with their positions. -/
theorem mapM_zipIdx {γ : Type} {f : α → Except ε β} (g : β × Nat → γ) : ∀ (l : List α) (k : Nat),
    (l.zipIdx k).mapM (fun p => (f p.1).map fun b => g (b, p.2)) =
      (l.mapM f).map fun bs => (bs.zipIdx k).map g
  | [], _ => rfl
  | a :: l, k => by
    rw [List.zipIdx_cons, List.mapM_cons, List.mapM_cons, mapM_zipIdx g l (k + 1)]
    cases f a with
    | error e => rfl
    | ok b => cases l.mapM f <;> rfl

/-! ## Errors -/

/-- Every error satisfies `E`. -/
def FailsIn (E : ε → Prop) (x : Except ε α) : Prop := ∀ e, x = .error e → E e

variable {E : ε → Prop}

theorem FailsIn.ok (a : α) : FailsIn E (Except.ok a) := fun _ h => absurd h (by simp)

theorem FailsIn.error {e : ε} (h : E e) : FailsIn E (Except.error e : Except ε α) := by
  intro e' he
  injection he with he
  exact he ▸ h

theorem FailsIn.bind {x : Except ε α} {f : α → Except ε β} (hx : FailsIn E x)
    (hf : ∀ a, x = .ok a → FailsIn E (f a)) : FailsIn E (x >>= f) := by
  intro e he
  rcases bind_eq_error.mp he with he | ⟨a, ha, he⟩
  · exact hx e he
  · exact hf a ha e he

theorem FailsIn.mapM {f : α → Except ε β} {l : List α} (h : ∀ a ∈ l, FailsIn E (f a)) :
    FailsIn E (l.mapM f) := by
  intro e he
  obtain ⟨a, ha, he⟩ := exists_of_mapM_eq_error he
  exact h a ha e he

theorem FailsIn.foldlM {f : β → α → Except ε β} (h : ∀ b a, FailsIn E (f b a)) :
    ∀ (l : List α) (b : β), FailsIn E (l.foldlM f b)
  | [], b => .ok b
  | a :: l, b => by
    rw [List.foldlM_cons]
    exact (h b a).bind fun b' _ => FailsIn.foldlM h l b'

theorem mapError_eq_ok {ε' : Type} {f : ε → ε'} {x : Except ε α} {a : α} :
    x.mapError f = .ok a ↔ x = .ok a := by
  cases x with
  | ok b => simp [Except.mapError]
  | error e => simp [Except.mapError]

theorem FailsIn.mapError {ε' : Type} {E' : ε' → Prop} {f : ε → ε'} {x : Except ε α}
    (hx : FailsIn E x) (h : ∀ e, E e → E' (f e)) : FailsIn E' (x.mapError f) := by
  cases x with
  | ok a => exact .ok a
  | error e => exact .error (h e (hx e rfl))

end Except
