import DbPlanBench.Lib.Except

/-!
# Programs that keep a log

A program that may fail and that logs what it does on the way, also when it fails.
`Keeps P E x` says that everything `x` logs satisfies `P` and that it fails with
errors in `E` only; it goes through every way to put programs together.
-/

/-- The log of a program and how it ends. -/
structure Logged (ω ε α : Type) where
  log : List ω
  result : Except ε α

namespace Logged

variable {ω ε ε' α β : Type}

/-- One entry. -/
def tell (w : ω) : Logged ω ε Unit := ⟨[w], .ok ()⟩

/-- A computation that logs nothing. -/
def lift (x : Except ε α) : Logged ω ε α := ⟨[], x⟩

/-- One program after the other. -/
def bind (x : Logged ω ε α) (f : α → Logged ω ε β) : Logged ω ε β :=
  match x.result with
  | .ok a => ⟨x.log ++ (f a).log, (f a).result⟩
  | .error e => ⟨x.log, .error e⟩

instance : Monad (Logged ω ε) where
  pure a := ⟨[], .ok a⟩
  bind := bind

/-- The program with its outcome as its value; it does not fail. -/
def attempt (x : Logged ω ε α) : Logged ω ε' (Except ε α) := ⟨x.log, .ok x.result⟩

/-- The program with other errors. -/
def mapError (f : ε → ε') (x : Logged ω ε α) : Logged ω ε' α := ⟨x.log, x.result.mapError f⟩

/-- What `f` logs and returns for each element. -/
def forEach (f : α → Logged ω ε β) : List α → Logged ω ε (List β)
  | [] => pure []
  | a :: as => do
    let b ← f a
    let bs ← forEach f as
    return b :: bs

/-- A sequence returns when both of its programs do. -/
theorem result_bind {x : Logged ω ε α} {f : α → Logged ω ε β} {b : β} :
    (x >>= f).result = .ok b ↔ ∃ a, x.result = .ok a ∧ (f a).result = .ok b := by
  show (Logged.bind x f).result = .ok b ↔ _
  unfold Logged.bind
  cases hr : x.result with
  | ok a => simp
  | error e => simp

/-- What follows an attempt is given its outcome. -/
theorem result_attempt_bind (x : Logged ω ε α) (f : Except ε α → Logged ω ε' β) :
    (attempt x >>= f).result = (f x.result).result := rfl

/-- The result of a sequence is that of the two results. -/
theorem result_bind_eq (x : Logged ω ε α) (f : α → Logged ω ε β) :
    (x >>= f).result = x.result >>= fun a => (f a).result := by
  show (Logged.bind x f).result = _
  unfold Logged.bind
  cases x.result with
  | ok a => rfl
  | error e => rfl

theorem bind_of_ok {x : Logged ω ε α} {a : α} (h : x.result = .ok a) (f : α → Logged ω ε β) :
    x >>= f = ⟨x.log ++ (f a).log, (f a).result⟩ := by
  show Logged.bind x f = _
  rw [Logged.bind, h]

theorem bind_of_error {x : Logged ω ε α} {e : ε} (h : x.result = .error e)
    (f : α → Logged ω ε β) : x >>= f = ⟨x.log, .error e⟩ := by
  show Logged.bind x f = _
  rw [Logged.bind, h]

/-- What a sequence logs: what its first program does, and its second if the first returns. -/
theorem mem_log_bind_iff {x : Logged ω ε α} {f : α → Logged ω ε β} {w : ω} :
    w ∈ (x >>= f).log ↔ w ∈ x.log ∨ ∃ a, x.result = .ok a ∧ w ∈ (f a).log := by
  cases h : x.result with
  | ok a => simp [bind_of_ok h]
  | error e => simp [bind_of_error h]

/-- What the second program logs after the first has returned. -/
theorem mem_log_bind {x : Logged ω ε α} {f : α → Logged ω ε β} {a : α} {w : ω}
    (h : x.result = .ok a) (hw : w ∈ (f a).log) : w ∈ (x >>= f).log :=
  mem_log_bind_iff.mpr (Or.inr ⟨a, h, hw⟩)

/-- What the first program logs. -/
theorem mem_log_bind_left {x : Logged ω ε α} {f : α → Logged ω ε β} {w : ω} (hw : w ∈ x.log) :
    w ∈ (x >>= f).log := mem_log_bind_iff.mpr (Or.inl hw)

/-- What one round of a loop logs, if the rounds before it return. -/
theorem mem_log_forEach {f : α → Logged ω ε β} {w : ω} : ∀ {l : List α},
    (∀ a ∈ l, ∃ b, (f a).result = .ok b) → (∃ a ∈ l, w ∈ (f a).log) → w ∈ (forEach f l).log
  | [], _, h => by
    obtain ⟨a, ha, _⟩ := h
    exact absurd ha List.not_mem_nil
  | a :: l, hok, h => by
    obtain ⟨b, hb⟩ := hok a (List.mem_cons_self ..)
    obtain ⟨a', ha', hw⟩ := h
    rcases List.mem_cons.mp ha' with rfl | ha'
    · exact mem_log_bind_left hw
    · exact mem_log_bind hb (mem_log_bind_left (mem_log_forEach
        (fun c hc => hok c (List.mem_cons_of_mem _ hc)) ⟨a', ha', hw⟩))

/-- Everything that is logged satisfies `P`, and every error satisfies `E`. -/
structure Keeps (P : ω → Prop) (E : ε → Prop) (x : Logged ω ε α) : Prop where
  log : ∀ w ∈ x.log, P w
  error : x.result.FailsIn E

variable {P : ω → Prop} {E : ε → Prop}

theorem Keeps.pure (a : α) : Keeps P E (pure a : Logged ω ε α) :=
  ⟨fun _ h => absurd h List.not_mem_nil, .ok a⟩

theorem Keeps.tell {w : ω} (h : P w) : Keeps P E (tell w) :=
  ⟨fun _ hw => List.mem_singleton.mp hw ▸ h, .ok ()⟩

theorem Keeps.lift {x : Except ε α} (h : x.FailsIn E) :
    Keeps P E (Logged.lift x : Logged ω ε α) :=
  ⟨fun _ h => absurd h List.not_mem_nil, h⟩

/-- **A sequence keeps what both of its programs keep**, the second after what the first returns. -/
theorem Keeps.bind {x : Logged ω ε α} {f : α → Logged ω ε β} (hx : Keeps P E x)
    (hf : ∀ a, x.result = .ok a → Keeps P E (f a)) : Keeps P E (x >>= f) := by
  show Keeps P E (Logged.bind x f)
  unfold Logged.bind
  cases hr : x.result with
  | ok a =>
    refine ⟨fun w hw => ?_, (hf a hr).error⟩
    rcases List.mem_append.mp hw with hw | hw
    · exact hx.log w hw
    · exact (hf a hr).log w hw
  | error e =>
    exact ⟨hx.log, .error (hx.error e hr)⟩

theorem Keeps.attempt {E' : ε' → Prop} {x : Logged ω ε α} (h : Keeps P E x) :
    Keeps P E' (attempt x : Logged ω ε' (Except ε α)) :=
  ⟨h.log, .ok x.result⟩

theorem Keeps.mapError {E' : ε' → Prop} {f : ε → ε'} {x : Logged ω ε α} (hx : Keeps P E x)
    (hf : ∀ e, E e → E' (f e)) : Keeps P E' (mapError f x) := ⟨hx.log, hx.error.mapError hf⟩

theorem Keeps.forEach {f : α → Logged ω ε β} : ∀ {l : List α}, (∀ a ∈ l, Keeps P E (f a)) →
    Keeps P E (forEach f l)
  | [], _ => .pure []
  | a :: _, h =>
    (h a (List.mem_cons_self ..)).bind fun _ _ =>
      (Keeps.forEach fun b hb => h b (List.mem_cons_of_mem _ hb)).bind fun _ _ => .pure _

/-- What is returned for the elements. -/
theorem mem_of_forEach {f : α → Logged ω ε β} : ∀ {l : List α} {bs : List β},
    (forEach f l).result = .ok bs → ∀ b ∈ bs, ∃ a ∈ l, (f a).result = .ok b
  | [], bs, h, b, hb => by
    injection (show Except.ok [] = Except.ok bs from h) with h
    exact absurd (h ▸ hb) List.not_mem_nil
  | a :: l, bs, h, b, hb => by
    obtain ⟨c, hc, h⟩ := result_bind.mp h
    obtain ⟨cs, hcs, h⟩ := result_bind.mp h
    injection (show Except.ok (c :: cs) = Except.ok bs from h) with h
    subst h
    rcases List.mem_cons.mp hb with rfl | hb
    · exact ⟨a, List.mem_cons_self .., hc⟩
    · obtain ⟨a', ha', hb⟩ := mem_of_forEach hcs b hb
      exact ⟨a', List.mem_cons_of_mem _ ha', hb⟩

/-- A loop returns one value for every element. -/
theorem length_forEach {f : α → Logged ω ε β} : ∀ {l : List α} {bs : List β},
    (forEach f l).result = .ok bs → bs.length = l.length
  | [], bs, h => by
    injection (show Except.ok [] = Except.ok bs from h) with h
    rw [← h]
    rfl
  | a :: l, bs, h => by
    obtain ⟨c, _, h⟩ := result_bind.mp h
    obtain ⟨cs, hcs, h⟩ := result_bind.mp h
    injection (show Except.ok (c :: cs) = Except.ok bs from h) with h
    rw [← h, List.length_cons, length_forEach hcs, List.length_cons]

/-- A loop whose rounds all return returns what they return. -/
theorem result_forEach {f : α → Logged ω ε β} {g : α → β} : ∀ {l : List α},
    (∀ a ∈ l, (f a).result = .ok (g a)) → (forEach f l).result = .ok (l.map g)
  | [], _ => rfl
  | a :: _, h => result_bind.mpr ⟨g a, h a (List.mem_cons_self ..), result_bind.mpr
      ⟨_, result_forEach fun b hb => h b (List.mem_cons_of_mem _ hb), rfl⟩⟩

/-- A loop of attempts returns the outcomes. -/
theorem result_forEach_attempt (f : α → Logged ω ε β) (l : List α) :
    (forEach (fun a => attempt (f a)) l : Logged ω ε' (List (Except ε β))).result =
      .ok (l.map fun a => (f a).result) := result_forEach fun _ _ => rfl

/-- Errors may be given up for a property of the log only. -/
theorem Keeps.mono {P' : ω → Prop} {E' : ε → Prop} {x : Logged ω ε α} (h : Keeps P E x)
    (hP : ∀ w, P w → P' w) (hE : ∀ e, E e → E' e) : Keeps P' E' x :=
  ⟨fun w hw => hP w (h.log w hw), fun e he => hE e (h.error e he)⟩

end Logged
